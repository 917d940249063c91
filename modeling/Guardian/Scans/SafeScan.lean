import Guardian.Scans.Claim
import Mathlib.Data.List.Nodup

/-!
# The safe-scanning gate

Before an active engine runs, the gate asks whether somebody has hit the stop button, whether the
customer is inside a blackout window, and how many other scans of the asset are on.  It counts them
by the committed status: a scan that runs is still `queued` for the others, and so is one that waits
for its claim.  `kept_of_run` gives the runs in which the count is right.
-/

namespace Guardian.Scans

open Python Transition List

variable (R : Runtime)

/-! ### The policy -/

/-- A profile of `PROFILES`. -/
structure Limits where
  maxRequests : ℕ
  ratePerSecond : ℕ
  concurrency : ℕ
  deriving DecidableEq

/-- `PROFILES`. -/
def profiles : List (Str × Limits) :=
  [("safe", ⟨150, 2, 2⟩), ("standard", ⟨400, 8, 4⟩),
    ("thorough", ⟨1500, 15, 8⟩)]

/-- `Window`.  The offset is in microseconds, as instants are. -/
structure Window where
  days : List Str
  startHour : ℤ
  endHour : ℤ
  utcOffset : ℤ
  label : Str

/-- `_DAYS`. -/
def dayNames : List Str := ["mon", "tue", "wed", "thu", "fri", "sat", "sun"].map String.toList

def hour : ℤ := 3600 * 1000000

/-- `Window.contains`.  The day of the epoch is a Thursday.  The minutes do not matter, as a window
starts and ends on the hour. -/
def Window.contains (window : Window) (moment : ℤ) : Bool :=
  let shifted := moment + window.utcOffset
  let weekday := (shifted / (24 * hour) + 3) % 7
  let localHour := shifted % (24 * hour) / hour
  if window.days ≠ [] ∧
      dayNames.getD weekday.toNat [] ∉ window.days.map fun d => (lower R d).take 3 then false
  else if window.startHour ≤ window.endHour then
    window.startHour ≤ localHour ∧ localHour < window.endHour
  else window.startHour ≤ localHour ∨ localHour < window.endHour

/-- `Policy`. -/
structure Policy where
  profile : Str
  windows : List Window
  paused : Bool
  pauseReason : Str
  maxConcurrentScansPerAsset : ℕ

/-- `Policy.limits`. -/
def Policy.limits (policy : Policy) : Limits := (profiles.lookup policy.profile).getD ⟨150, 2, 2⟩

/-- `Verdict`, with the time to try again and the limits of the profile. -/
structure SafeVerdict extends Verdict where
  retryAfter : Option ℤ
  limits : Option Limits

/-- The loop of `next_open`, with the rounds that are left. -/
def nextOpenFrom (windows : List Window) (moment : ℤ) : ℕ → ℤ → ℤ
  | 0, _ => moment + 24 * hour
  | n + 1, probe =>
    let probe := probe + hour / 2
    if windows.any (·.contains R probe) then nextOpenFrom windows moment n probe else probe

/-- `next_open`. -/
def nextOpen (windows : List Window) (moment : ℤ) : ℤ :=
  nextOpenFrom R windows moment (24 * 8) moment

/-- A refusal, which nobody retries without a human. -/
def refusal (reason : Str) : SafeVerdict := ⟨⟨false, "refuse", reason⟩, none, none⟩

def deferral (reason : Str) (retryAfter : ℤ) : SafeVerdict :=
  ⟨⟨false, "defer", reason⟩, some retryAfter, none⟩

def unreadableText : Str :=
  "the emergency stop could not be read, so active scanning is refused until it can be"

/-- What a deferral for a blackout window ends with. -/
def blackoutText : Str :=
  ("; the scan is deferred rather than skipped, because a skipped scan reads as a clean " ++
    "one").toList

/-- What a deferral for concurrency ends with. -/
def concurrencyText : Str :=
  (" scan(s) are already running against this asset; a second one doubles the traffic the " ++
    "customer agreed to").toList

/-- **`check`.** -/
def check (policy : Policy) (now : ℤ) (activeScansOnAsset : ℕ)
    (platformPaused switchReadable : Bool) : SafeVerdict :=
  if switchReadable = false then refusal unreadableText
  else if platformPaused then refusal "active scanning is paused platform-wide"
  else if policy.paused then
    refusal ("active scanning is paused for this customer" ++
      if policy.pauseReason = [] then [] else ": ".toList ++ policy.pauseReason)
  else
    match policy.windows.filter (·.contains R now) with
    | window :: _ =>
      let label := if window.label = [] then "a blackout window".toList else window.label
      deferral ("the customer is inside " ++ label ++ blackoutText)
        (nextOpen R policy.windows now)
    | [] =>
      if policy.maxConcurrentScansPerAsset ≤ activeScansOnAsset then
        deferral ((toString activeScansOnAsset).toList ++ concurrencyText) (now + hour / 6)
      else
        ⟨⟨true, "run", "within the " ++ policy.profile ++ " profile"⟩, none,
          some policy.limits⟩

/-- **`_safe_scan_verdict`**, with the policy as it is parsed from the settings of the customer. -/
def safeScanVerdict (policy : Except Str Policy) (now : ℤ) (concurrent : ℕ)
    (platformPaused : Bool) : SafeVerdict :=
  match policy with
  | .error refused => refusal refused
  | .ok policy => check R policy now concurrent platformPaused true

/-- The engine is deferred for concurrency. -/
def SafeVerdict.Concurrency (v : SafeVerdict) : Prop :=
  v.action = "defer" ∧ concurrencyText <:+ v.reason

/-- Nothing but concurrency is in the way of an engine. -/
def Policy.Clear (policy : Policy) (now : ℤ) (platformPaused : Bool) : Prop :=
  platformPaused = false ∧ policy.paused = false ∧
    ∀ window ∈ policy.windows, window.contains R now = false

variable {R}

theorem not_concurrency_refusal (reason : Str) : ¬ (refusal reason).Concurrency := by
  rintro ⟨haction, -⟩
  have hne : "refuse".toList ≠ "defer".toList := by decide
  exact hne haction

theorem not_concurrency_blackout (inside : Str) (retry : ℤ) :
    ¬ (deferral (inside ++ blackoutText) retry).Concurrency := by
  rintro ⟨-, before, hreason⟩
  have hconcurrency : concurrencyText = _ ++ "customer agreed to" := String.toList_append
  have hblackout : blackoutText = _ ++ "one" := String.toList_append
  have ho : 'o' ∈ (before ++ concurrencyText).getLast? := by
    rw [hconcurrency, ← append_assoc]
    exact mem_getLast?_append_of_mem_getLast? (by decide)
  have he : 'e' ∈ (inside ++ blackoutText).getLast? := by
    rw [hblackout, ← append_assoc]
    exact mem_getLast?_append_of_mem_getLast? (by decide)
  rw [hreason] at ho
  exact absurd (Option.mem_unique ho he) (by decide)

theorem concurrency_deferral (n : ℕ) (retry : ℤ) :
    (deferral ((toString n).toList ++ concurrencyText) retry).Concurrency :=
  ⟨rfl, suffix_append _ _⟩

/-- **When an engine is deferred for concurrency.** -/
theorem check_concurrency_iff {policy : Policy} {now : ℤ} {n : ℕ} {paused : Bool} :
    (check R policy now n paused true).Concurrency ↔
      policy.Clear R now paused ∧ policy.maxConcurrentScansPerAsset ≤ n := by
  unfold check Policy.Clear
  rw [if_neg (by decide)]
  cases paused
  swap
  · simp [not_concurrency_refusal]
  cases hpolicy : policy.paused
  swap
  · simp [not_concurrency_refusal]
  rw [if_neg Bool.false_ne_true, if_neg Bool.false_ne_true]
  rcases hinside : policy.windows.filter (·.contains R now) with _ | ⟨window, rest⟩
  · have hopen : ∀ window ∈ policy.windows, window.contains R now = false := by
      simpa using hinside
    rw [hinside]
    dsimp only
    by_cases hn : policy.maxConcurrentScansPerAsset ≤ n
    · rw [if_pos hn]
      exact iff_of_true (concurrency_deferral n _) ⟨⟨rfl, rfl, hopen⟩, hn⟩
    · rw [if_neg hn]
      have hne : "run".toList ≠ "defer".toList := by decide
      exact iff_of_false (fun h => hne h.1) fun h => hn h.2
  · have hmem : window ∈ policy.windows.filter (·.contains R now) := by
      rw [hinside]
      exact mem_cons_self
    obtain ⟨hwindow, hclosed⟩ := mem_filter.mp hmem
    rw [hinside]
    refine iff_of_false (not_concurrency_blackout _ _) fun h => ?_
    rw [h.1.2.2 window hwindow] at hclosed
    cases hclosed

/-- **An engine that may run** meets fewer scans than the limit. -/
theorem lt_of_check_allowed {policy : Policy} {now : ℤ} {n : ℕ} {paused switch : Bool}
    (h : (check R policy now n paused switch).allowed = true) :
    n < policy.maxConcurrentScansPerAsset := by
  unfold check at h
  cases switch
  · cases h
  cases paused
  swap
  · cases h
  cases hpolicy : policy.paused
  swap
  · rw [hpolicy] at h
    cases h
  rw [hpolicy, if_neg (by decide), if_neg Bool.false_ne_true, if_neg Bool.false_ne_true] at h
  rcases hinside : policy.windows.filter (·.contains R now) with _ | ⟨window, rest⟩
  · rw [hinside] at h
    dsimp only at h
    split_ifs at h with hn
    · cases h
    · omega
  · rw [hinside] at h
    cases h

/-! ### The scans of an asset -/

/-- A gate that an engine of a scan came to, and how many other scans had started then. -/
structure GateRecord where
  scan : ℕ
  verdict : SafeVerdict
  started : ℕ

/-- **The scans of an asset**: the workers on them, the rows of the table, the scans whose active
engine runs, and the gates so far, the last one first. -/
structure AssetScans where
  workers : Workers
  rows : List ℕ
  engines : List ℕ
  gates : List GateRecord

/-- What happens: something to the workers, an execution comes to a gate, or its active engine
ends. -/
inductive ScanEvent
  | work (event : Event)
  | gate (execution : ℕ) (policy : Except Str Policy) (now : ℤ) (platformPaused : Bool)
  | endEngine (execution : ℕ)

namespace AssetScans

variable (s : AssetScans)

/-- The count of `_safe_scan_verdict`, by the committed status. -/
def concurrent (scan : ℕ) : ℕ :=
  (s.rows.filter fun k =>
    k ≠ scan ∧ (s.workers.status k = some .running ∨ s.workers.status k = some .queued)).length

/-- The other scans that have started and not finished: an execution holds their row. -/
def started (scan : ℕ) : ℕ :=
  (s.rows.filter fun k => k ≠ scan ∧ s.workers.holder k ≠ none).length

/-- The other scans that wait for their claim. -/
def waiting (scan : ℕ) : ℕ :=
  (s.rows.filter fun k =>
    k ≠ scan ∧ s.workers.status k = some .queued ∧ s.workers.holder k = none).length

/-- What the scans are after something has happened to the workers: a scan that is created has a
row, and the engine of an execution that dies is gone. -/
def worked (event : Event) (workers : Workers) : AssetScans :=
  { s with
    workers
    rows := match event with
      | .create k => s.rows ++ [k]
      | _ => s.rows
    engines := s.engines.filter fun k => workers.holder k ≠ none }

variable (R) in
/-- **One step.**  The engine of an execution runs between two of its statements: the execution
comes to no gate and does not end meanwhile. -/
def step : ScanEvent → Option AssetScans
  | .work event =>
    match event, s.workers.step event with
    | _, none => none
    | .finish e status, some workers =>
      match s.workers.given e with
      | none => none
      | some k => if k ∈ s.engines then none else some (s.worked (.finish e status) workers)
    | event, some workers => some (s.worked event workers)
  | .gate e policy now platformPaused =>
    match s.workers.given e with
    | none => none
    | some k =>
      if s.workers.holder k = some e ∧ k ∉ s.engines then
        let verdict := safeScanVerdict R policy now (s.concurrent k) platformPaused
        some { s with
          engines := if verdict.allowed then s.engines ++ [k] else s.engines
          gates := ⟨k, verdict, s.started k⟩ :: s.gates }
      else none
  | .endEngine e =>
    match s.workers.given e with
    | none => none
    | some k => if s.workers.holder k = some e then some { s with engines := s.engines.erase k }
      else none

end AssetScans

def AssetScans.initial : AssetScans := ⟨Workers.initial, [], [], []⟩

/-- **The limit is kept**: no more scans than it have an active engine running, and an engine is
deferred for concurrency only if so many other scans had started. -/
structure Kept (limit : ℕ) (s : AssetScans) : Prop where
  engines : s.engines.length ≤ limit
  deferred : ∀ g ∈ s.gates, g.verdict.Concurrency → limit ≤ g.started

/-- The limit is that of the policy. -/
def AtLimit (limit : ℕ) (_ : AssetScans) : ScanEvent → Prop
  | .gate _ policy _ _ => ∀ p, policy = .ok p → p.maxConcurrentScansPerAsset = limit
  | _ => True

variable (R) in
/-- **No scan that waits tips the count**: at a gate where nothing but concurrency is in the way,
no other scan waits for its claim, or so many have started anyway, or there are too few with those
that wait. -/
def NoneTips (limit : ℕ) (s : AssetScans) : ScanEvent → Prop
  | .gate e policy now platformPaused =>
    AtLimit limit s (.gate e policy now platformPaused) ∧
      ∀ p k, policy = .ok p → p.Clear R now platformPaused → s.workers.given e = some k →
        s.waiting k = 0 ∨ limit ≤ s.started k ∨ s.started k + s.waiting k < limit
  | _ => True

/-! ### The invariant -/

/-- **The invariant**: a scan whose engine runs is held by its execution. -/
structure GateInv (limit : ℕ) (s : AssetScans) : Prop where
  workers : Inv s.workers
  rows : ∀ k, k ∈ s.rows ↔ s.workers.status k ≠ none
  nodup : s.engines.Nodup
  held : ∀ k ∈ s.engines, s.workers.holder k ≠ none
  engines : s.engines.length ≤ limit

section Steps

variable {s t : AssetScans} {limit k : ℕ}

theorem queued_of_held {s : Workers} (h : Inv s) (hk : s.holder k ≠ none) :
    s.status k = some .queued := by
  have hstands := (h k).1
  generalize s.marks k = marks at hstands
  generalize s.holder k = holder at hstands hk
  generalize s.status k = status at hstands ⊢
  cases hstands with
  | claimed => rfl
  | absent => exact absurd rfl hk
  | queued => exact absurd rfl hk
  | ended => exact absurd rfl hk

theorem not_running {s : Workers} (h : Inv s) : s.status k ≠ some .running := by
  have hstands := (h k).1
  generalize s.marks k = marks at hstands
  generalize s.holder k = holder at hstands
  generalize s.status k = status at hstands ⊢
  cases hstands with
  | ended status _ hterminal => exact fun hrun => hterminal.2 (Option.some.inj hrun)
  | _ => decide

/-- **The scans that are counted** are those that have started and those that wait. -/
theorem concurrent_eq (h : Inv s.workers) (scan : ℕ) :
    s.concurrent scan = s.started scan + s.waiting scan := by
  unfold AssetScans.concurrent AssetScans.started AssetScans.waiting
  induction s.rows with
  | nil => rfl
  | cons k rows ih =>
    have hrun := not_running (k := k) h
    have hheld := queued_of_held (k := k) h
    simp only [filter_cons, decide_eq_true_eq]
    by_cases hscan : k = scan
    · rw [if_neg fun hk => hk.1 hscan, if_neg fun hk => hk.1 hscan, if_neg fun hk => hk.1 hscan]
      exact ih
    rcases hholder : s.workers.holder k with _ | e
    · rw [if_neg fun hk : k ≠ scan ∧ none ≠ none => hk.2 rfl]
      by_cases hqueued : s.workers.status k = some .queued
      · rw [if_pos ⟨hscan, Or.inr hqueued⟩, if_pos ⟨hscan, hqueued, rfl⟩]
        simp only [length_cons]
        omega
      · rw [if_neg fun hk => hk.2.elim hrun hqueued, if_neg fun hk => hqueued hk.2.1]
        exact ih
    · have hqueued := hheld (by rw [hholder]; exact Option.some_ne_none e)
      rw [if_pos ⟨hscan, Or.inr hqueued⟩, if_pos ⟨hscan, Option.some_ne_none e⟩,
        if_neg fun hk => by cases hk.2.2]
      simp only [length_cons]
      omega

theorem length_engines_le (h : GateInv limit s) {scan : ℕ} (hscan : scan ∉ s.engines) :
    s.engines.length ≤ s.concurrent scan := by
  refine h.nodup.length_le_of_subset fun k hk => ?_
  have hqueued := queued_of_held h.workers (h.held k hk)
  rw [mem_filter, h.rows, decide_eq_true_eq]
  refine ⟨?_, fun heq => hscan (heq ▸ hk), Or.inr hqueued⟩
  rw [hqueued]
  exact Option.some_ne_none _

theorem status_commit {s : Workers} {k : ℕ} {status : ScanStatus} {mark : Mark} (j : ℕ) :
    (s.commit k status mark).status j ≠ none ↔ s.status j ≠ none ∨ j = k := by
  by_cases hj : j = k
  · subst hj
    simp [Workers.commit]
  · simp [Workers.commit, hj]

theorem status_step {s t : Workers} {event : Event} (h : Inv s) (hstep : s.step event = some t)
    (j : ℕ) : t.status j ≠ none ↔ s.status j ≠ none ∨ event = .create j := by
  obtain ⟨t', hwrites, hstatus, -, -⟩ := step_cases hstep
  rw [hstatus]
  cases hwrites with
  | created => rw [status_commit, Event.create.injEq, eq_comm (a := j)]
  | @ended _ k _ hevent hrow =>
    rw [status_commit, or_iff_left (hevent j), or_iff_left_of_imp]
    rintro rfl
    rcases hrow with hrow | hheld
    · exact hrow
    · rw [queued_of_held h hheld]
      exact Option.some_ne_none _
  | held | released => simp [Workers.hold, Workers.release]
  | kept hevent => rw [or_iff_left (hevent j)]

theorem gateInv_worked (h : GateInv limit s) {event : Event} {workers : Workers}
    (hstep : s.workers.step event = some workers) : GateInv limit (s.worked event workers) := by
  refine ⟨inv_step h.workers hstep, fun k => ?_, h.nodup.filter _, fun k hk => ?_,
    (length_filter_le _ _).trans h.engines⟩
  · have hrows : k ∈ (s.worked event workers).rows ↔ k ∈ s.rows ∨ event = .create k := by
      unfold AssetScans.worked
      cases event with
      | create j =>
        dsimp only
        rw [mem_append, mem_singleton, Event.create.injEq, eq_comm]
      | _ => simp
    rw [hrows, h.rows]
    exact (status_step h.workers hstep k).symm
  · exact of_decide_eq_true (mem_filter.mp hk).2

theorem of_work {event : Event} (hstep : s.step R (.work event) = some t) :
    ∃ workers, s.workers.step event = some workers ∧ t = s.worked event workers := by
  rcases hwork : s.workers.step event with _ | workers
  · cases event <;> simp [AssetScans.step, hwork] at hstep
  · refine ⟨workers, rfl, ?_⟩
    cases event with
    | finish e status =>
      simp only [AssetScans.step, hwork] at hstep
      split at hstep
      · cases hstep
      · split_ifs at hstep
        exact (Option.some.inj hstep).symm
    | _ =>
      simp only [AssetScans.step, hwork] at hstep
      exact (Option.some.inj hstep).symm

theorem of_gate {e : ℕ} {policy : Except Str Policy} {now : ℤ} {paused : Bool}
    (hstep : s.step R (.gate e policy now paused) = some t) :
    ∃ k verdict, s.workers.given e = some k ∧ s.workers.holder k = some e ∧ k ∉ s.engines ∧
      verdict = safeScanVerdict R policy now (s.concurrent k) paused ∧
      t = { s with
        engines := if verdict.allowed then s.engines ++ [k] else s.engines
        gates := ⟨k, verdict, s.started k⟩ :: s.gates } := by
  simp only [AssetScans.step] at hstep
  split at hstep
  · cases hstep
  · rename_i k hgiven
    by_cases hheld : s.workers.holder k = some e ∧ k ∉ s.engines
    · rw [if_pos hheld] at hstep
      exact ⟨k, _, hgiven, hheld.1, hheld.2, rfl, (Option.some.inj hstep).symm⟩
    · rw [if_neg hheld] at hstep
      cases hstep

theorem of_endEngine {e : ℕ} (hstep : s.step R (.endEngine e) = some t) :
    ∃ k, t = { s with engines := s.engines.erase k } := by
  simp only [AssetScans.step] at hstep
  split at hstep
  · cases hstep
  · split_ifs at hstep
    exact ⟨_, (Option.some.inj hstep).symm⟩

/-- **Every step keeps the invariant**: a scan whose engine may run met fewer than the limit. -/
theorem gateInv_step {e : ScanEvent} (h : GateInv limit s) (hlimit : AtLimit limit s e)
    (hstep : s.step R e = some t) : GateInv limit t := by
  rcases e with event | ⟨e, policy, now, paused⟩ | e
  · obtain ⟨workers, hwork, rfl⟩ := of_work hstep
    exact gateInv_worked h hwork
  · obtain ⟨k, verdict, -, hheld, hfree, hverdict, rfl⟩ := of_gate hstep
    cases hallowed : verdict.allowed
    · exact ⟨h.workers, h.rows, h.nodup, h.held, h.engines⟩
    rcases policy with refused | policy
    · rw [hverdict] at hallowed
      cases hallowed
    rw [hverdict] at hallowed
    have hlt : s.concurrent k < limit := hlimit policy rfl ▸ lt_of_check_allowed hallowed
    have hle := length_engines_le h hfree
    refine ⟨h.workers, h.rows, ?_, fun j hj => ?_, ?_⟩
    · rw [if_pos rfl]
      exact Nodup.append h.nodup (nodup_singleton k) (by simpa using hfree)
    · rw [if_pos rfl, mem_append, mem_singleton] at hj
      rcases hj with hj | rfl
      · exact h.held j hj
      · dsimp only
        rw [hheld]
        exact Option.some_ne_none e
    · rw [if_pos rfl, length_append]
      dsimp only [length_singleton]
      omega
  · obtain ⟨k, rfl⟩ := of_endEngine hstep
    exact ⟨h.workers, h.rows, h.nodup.erase k, fun j hj => h.held j (mem_of_mem_erase hj),
      (length_erase_le ..).trans h.engines⟩

end Steps

theorem gateInv_initial (limit : ℕ) : GateInv limit AssetScans.initial :=
  ⟨inv_initial, fun _ => iff_of_false not_mem_nil fun h => h rfl, nodup_nil,
    fun _ h => (by cases h), Nat.zero_le _⟩

/-- **In every run** no more scans than the limit have an active engine running. -/
theorem engines_le {limit : ℕ} {s : AssetScans}
    (h : Run (AssetScans.step R) (AtLimit limit) AssetScans.initial s) :
    s.engines.length ≤ limit :=
  (h.invariant (fun hinv hlimit hstep => gateInv_step hinv hlimit hstep)
    (gateInv_initial limit)).engines

theorem deferred_step {limit : ℕ} {s t : AssetScans} {e : ScanEvent} (hinv : GateInv limit s)
    (h : ∀ g ∈ s.gates, g.verdict.Concurrency → limit ≤ g.started) (hok : NoneTips R limit s e)
    (hstep : s.step R e = some t) : ∀ g ∈ t.gates, g.verdict.Concurrency → limit ≤ g.started := by
  rcases e with event | ⟨e, policy, now, paused⟩ | e
  · obtain ⟨workers, -, rfl⟩ := of_work hstep
    exact h
  · obtain ⟨k, verdict, hgiven, -, -, hverdict, rfl⟩ := of_gate hstep
    intro g hg hconcurrency
    rcases mem_cons.mp hg with rfl | hg
    swap
    · exact h g hg hconcurrency
    dsimp only at hconcurrency ⊢
    subst hverdict
    rcases policy with refused | policy
    · exact absurd hconcurrency (not_concurrency_refusal refused)
    obtain ⟨hclear, hle⟩ := check_concurrency_iff.mp hconcurrency
    rw [hok.1 policy rfl, concurrent_eq hinv.workers] at hle
    have hcases := hok.2 policy k rfl hclear hgiven
    omega
  · obtain ⟨k, rfl⟩ := of_endEngine hstep
    exact h

theorem atLimit_of_noneTips {limit : ℕ} {s : AssetScans} {e : ScanEvent}
    (h : NoneTips R limit s e) : AtLimit limit s e := by
  rcases e with event | ⟨e, policy, now, paused⟩ | e
  · trivial
  · exact h.1
  · trivial

/-- **In every run in which no scan that waits tips the count** the limit is kept. -/
theorem kept_of_run {limit : ℕ} {s : AssetScans}
    (h : Run (AssetScans.step R) (NoneTips R limit) AssetScans.initial s) : Kept limit s := by
  have hboth := h.invariant
    (P := fun s => GateInv limit s ∧ ∀ g ∈ s.gates, g.verdict.Concurrency → limit ≤ g.started)
    (fun hs hok hstep => ⟨gateInv_step hs.1 (atLimit_of_noneTips hok) hstep,
      deferred_step hs.1 hs.2 hok hstep⟩)
    ⟨gateInv_initial limit, fun _ hg => (by cases hg)⟩
  exact ⟨hboth.1.engines, hboth.2⟩

/-- The policy of a customer who has set nothing, with a limit of one scan. -/
def defaultPolicy : Policy := ⟨"safe", [], false, [], 1⟩

/-- A scan runs when another one is created, claimed, and deferred. -/
theorem run_one_after_the_other :
    ∃ s, Run (AssetScans.step .ascii) (NoneTips .ascii 1) AssetScans.initial s ∧
      s.engines = [1] ∧ s.gates.length = 2 := by
  refine ⟨_, .tail (e := .gate 2 (.ok defaultPolicy) 0 false)
    (.tail (e := .work (.claim 2)) (.tail (e := .work (.deliver 2 2))
      (.tail (e := .work (.create 2)) (.tail (e := .gate 1 (.ok defaultPolicy) 0 false)
        (.tail (e := .work (.claim 1)) (.tail (e := .work (.deliver 1 1))
          (.tail (e := .work (.create 1)) (.refl _) trivial rfl) trivial rfl) trivial rfl)
        ?_ rfl) trivial rfl) trivial rfl) trivial rfl) ?_ rfl, rfl, rfl⟩
  all_goals
    refine ⟨fun p hp => ?_, fun p k _ _ hk => Or.inl ?_⟩
    · cases hp
      rfl
    · cases hk
      rfl

theorem engines_le_one :
    ∃ s : AssetScans, s.engines = [1] ∧ s.gates.length = 2 ∧ s.engines.length ≤ 1 := by
  obtain ⟨s, hrun, hengines, hgates⟩ := run_one_after_the_other
  exact ⟨s, hengines, hgates, engines_le (hrun.mono fun _ _ => atLimit_of_noneTips)⟩

theorem kept_one_after_the_other :
    ∃ s, s.engines = [1] ∧ s.gates.length = 2 ∧ Kept 1 s := by
  obtain ⟨s, hrun, hengines, hgates⟩ := run_one_after_the_other
  exact ⟨s, hengines, hgates, kept_of_run hrun⟩

/-- Two scans are queued together, and one is claimed. -/
def together : List ScanEvent :=
  [.work (.create 1), .work (.create 2), .work (.deliver 1 1), .work (.claim 1),
    .gate 1 (.ok defaultPolicy) 0 false]

/-- **Of two scans that are queued together** the first one is deferred for the other, which has not
started. -/
theorem two_queued : ¬ ∀ s,
    Run (AssetScans.step .ascii) (AtLimit 1) AssetScans.initial s → Kept 1 s := by
  intro h
  obtain ⟨s, hs, g, hg, hconcurrency, hnone⟩ : ∃ s,
      together.foldlM (AssetScans.step .ascii) AssetScans.initial = some s ∧
        ∃ g ∈ s.gates, g.verdict.Concurrency ∧ g.started = 0 :=
    ⟨_, rfl, _, mem_cons_self, concurrency_deferral 1 _, rfl⟩
  have hlimit : ∀ e ∈ together, ∀ s, AtLimit 1 s e := by
    intro e he s
    simp only [together, mem_cons, not_mem_nil, or_false] at he
    rcases he with rfl | rfl | rfl | rfl | rfl
    · trivial
    · trivial
    · trivial
    · trivial
    · intro p hp
      cases hp
      rfl
  have hle := (h s (run_of_forall_mem hlimit hs)).deferred g hg hconcurrency
  omega

end Guardian.Scans

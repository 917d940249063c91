import Guardian.RateLimit.Limiter
import Guardian.Transition.Run

/-!
# Failed logins of one client

A login reads the bucket of its client, takes a hit on its account, verifies the password, and
records a failure in the bucket of the client.  Any number of attempts run at once, each operation
of the limiter works with an instant that its thread read before it got the lock, and the requests
of other clients work on the same table.  `failures_spread` gives the runs that keep to the ceiling.
-/

namespace Guardian.RateLimit

open Python Guardian.Order Transition
open List hiding after

/-! ### The system -/

/-- The settings that `login` reads. -/
structure Settings where
  authRateLimitPerMinute : ℤ
  loginFailedPerClientPerMinute : ℤ

/-- `login_limiter()`. -/
def Settings.limiter (settings : Settings) : Limiter := ⟨settings.authRateLimitPerMinute, 60⟩

/-- How far an attempt has come: past the check of its client, past the hit on its account, or past
a verification that failed, and when. -/
inductive Stage
  | checked
  | admitted
  | failed (time : ℚ)
  deriving DecidableEq

/-- A login under way, of the account that it names. -/
structure Attempt where
  email : Str
  stage : Stage
  deriving DecidableEq

/-- How the verification of a password ends: without a slot, or with an answer. -/
inductive Verdict
  | shed
  | right
  | wrong
  deriving DecidableEq

/-- An operation of the limiter. -/
inductive Operation
  | hit
  | check
  deriving DecidableEq

/-- **The system**: the table of the limiter, the attempts of the client under way, the clock, and
when its verifications failed. -/
structure System where
  hits : Hits
  attempts : List Attempt
  now : ℚ
  failures : List ℚ

/-- What may happen.  `read` is what the clock showed to the thread of the operation. -/
inductive Event
  | tick (seconds : ℚ)
  | check (email : Str) (read : ℚ)
  | hitAccount (a : Attempt) (read : ℚ)
  | verify (a : Attempt) (verdict : Verdict)
  | record (a : Attempt) (read : ℚ)
  | other (op : Operation) (key : Str) (maxHits : Option ℤ) (failClosed : Bool) (read : ℚ)

/-- `f"acct:{email}"`. -/
def accountKey (email : Str) : Str := "acct:" ++ email

/-- `f"client:{bucket}"`. -/
def clientKey (bucket : Str) : Str := "client:" ++ bucket

section Step

variable (settings : Settings) (client : Str)

/-- The check of the client, with which an attempt starts. -/
def startAttempt (s : System) (email : Str) (read : ℚ) : System :=
  let r := check settings.limiter s.hits (clientKey client)
    (some settings.loginFailedPerClientPerMinute) true read
  { s with
    hits := r.2
    attempts := if r.1.1 then ⟨email, .checked⟩ :: s.attempts else s.attempts }

/-- The hit on the account. -/
def hitAccount (s : System) (a : Attempt) (read : ℚ) : System :=
  let r := hit settings.limiter s.hits (accountKey a.email) none true read
  { s with
    hits := r.2
    attempts :=
      if r.1.1 then { a with stage := .admitted } :: s.attempts.erase a else s.attempts.erase a }

/-- The end of the verification. -/
def verifyPassword (s : System) (a : Attempt) : Verdict → System
  | .shed => { s with attempts := s.attempts.erase a }
  | .right => { s with attempts := s.attempts.erase a }
  | .wrong =>
    { s with
      attempts := { a with stage := .failed s.now } :: s.attempts.erase a
      failures := s.now :: s.failures }

/-- The record of the failure, with which the attempt ends. -/
def recordFailure (s : System) (a : Attempt) (read : ℚ) : System :=
  { s with
    hits := (hit settings.limiter s.hits (clientKey client)
      (some settings.loginFailedPerClientPerMinute) true read).2
    attempts := s.attempts.erase a }

/-- An operation of another request on another key. -/
def operate (s : System) (op : Operation) (key : Str) (maxHits : Option ℤ) (failClosed : Bool)
    (read : ℚ) : System :=
  match op with
  | .hit => { s with hits := (hit settings.limiter s.hits key maxHits failClosed read).2 }
  | .check => { s with hits := (check settings.limiter s.hits key maxHits failClosed read).2 }

/-- **The step function.**  A thread reads the clock before it gets the lock, and a failure is
recorded with an instant that is read after the verification. -/
def step (s : System) : Event → Option System
  | .tick seconds => if 0 ≤ seconds then some { s with now := s.now + seconds } else none
  | .check email read =>
    if read ≤ s.now then some (startAttempt settings client s email read) else none
  | .hitAccount a read =>
    if a ∈ s.attempts ∧ a.stage = .checked ∧ read ≤ s.now then some (hitAccount settings s a read)
    else none
  | .verify a verdict =>
    if a ∈ s.attempts ∧ a.stage = .admitted then some (verifyPassword s a verdict) else none
  | .record a read =>
    match a.stage with
    | .failed time =>
      if a ∈ s.attempts ∧ time ≤ read ∧ read ≤ s.now then
        some (recordFailure settings client s a read)
      else none
    | _ => none
  | .other op key maxHits failClosed read =>
    if key ≠ clientKey client ∧ read ≤ s.now then
      some (operate settings s op key maxHits failClosed read)
    else none

/-! ### The condition -/

def System.clientHits (s : System) : List ℚ := bucket s.hits (clientKey client)

/-- An eviction that an operation on another key makes drops no hit of the client that is still
within the window. -/
def EvictsNoLive (s : System) (key : Str) (read : ℚ) : Prop :=
  full s.hits key = true → stale 60 read (s.clientHits client) = true →
    ∀ t ∈ s.clientHits client, t ≤ s.now - 60

/-- **The condition**: a check that passes leaves room for the attempts under way, a failure finds
room in the table and in its window, and no eviction drops a live hit of the client. -/
def Guarded (s : System) : Event → Prop
  | .check _ read =>
    (check settings.limiter s.hits (clientKey client)
      (some settings.loginFailedPerClientPerMinute) true read).1.1 = true →
    (after (read - 60) (s.clientHits client) : ℤ) + s.attempts.length <
      settings.loginFailedPerClientPerMinute
  | .hitAccount a read => EvictsNoLive client s (accountKey a.email) read
  | .record _ read =>
    full (makeRoom 60 read s.hits (clientKey client)) (clientKey client) = false ∧
      (after (read - 60) (s.clientHits client) : ℤ) < settings.loginFailedPerClientPerMinute
  | .other _ key _ _ read => EvictsNoLive client s key read
  | _ => True

/-- When the verification of an attempt failed. -/
def Attempt.failedAt (a : Attempt) : Option ℚ :=
  match a.stage with
  | .failed time => some time
  | _ => none

/-- The failures that are not recorded yet. -/
def System.pending (s : System) : List ℚ := s.attempts.filterMap Attempt.failedAt

/-- **The invariant**: within the window, the hits and the attempts under way are at most the
ceiling, and every failure is among the hits or not recorded yet. -/
structure Bounded (s : System) : Prop where
  room : ∀ y, s.now - 60 ≤ y → (after y (s.clientHits client) : ℤ) + s.attempts.length ≤
    Max.max 0 settings.loginFailedPerClientPerMinute
  cover : ∀ y, s.now - 60 ≤ y →
    after y s.failures ≤ after y (s.clientHits client) + after y s.pending
  spread : Spread 60 (Max.max 0 settings.loginFailedPerClientPerMinute) s.failures

end Step

/-! ### Attempts under way -/

theorem accountKey_ne (email client : Str) : clientKey client ≠ accountKey email := by
  unfold clientKey accountKey
  intro h
  have := congrArg head? h
  simp at this

theorem after_filterMap_erase {attempts : List Attempt} {a : Attempt} (ha : a ∈ attempts) (y : ℚ) :
    after y (attempts.filterMap Attempt.failedAt) =
      after y ((a :: attempts.erase a).filterMap Attempt.failedAt) :=
  ((perm_cons_erase ha).filterMap _).countP_eq _

theorem after_pending_of_none {attempts : List Attempt} {a : Attempt} (ha : a ∈ attempts)
    (hnone : a.failedAt = none) (y : ℚ) :
    after y ((attempts.erase a).filterMap Attempt.failedAt) =
      after y (attempts.filterMap Attempt.failedAt) := by
  rw [after_filterMap_erase ha, filterMap_cons_none hnone]

theorem after_pending_of_some {attempts : List Attempt} {a : Attempt} {time : ℚ}
    (ha : a ∈ attempts) (hsome : a.failedAt = some time) (y : ℚ) :
    after y (attempts.filterMap Attempt.failedAt) =
      after y ((attempts.erase a).filterMap Attempt.failedAt) + if y < time then 1 else 0 := by
  rw [after_filterMap_erase ha, filterMap_cons_some hsome, after_cons]

theorem after_pending_lt {attempts : List Attempt} {a : Attempt} (ha : a ∈ attempts)
    (hnone : a.failedAt = none) (y : ℚ) :
    after y (attempts.filterMap Attempt.failedAt) < attempts.length := by
  rw [← after_pending_of_none ha hnone]
  have hle : after y ((attempts.erase a).filterMap Attempt.failedAt) ≤ (attempts.erase a).length :=
    le_trans countP_le_length (length_filterMap_le ..)
  have hlen := length_erase_of_mem ha
  have hpos := length_pos_of_mem ha
  omega

/-! ### One lemma for each kind of step -/

section Preservation

variable {settings : Settings} {client : Str} {s t : System}

theorem Bounded.congr (hs : Bounded settings client s) (hnow : t.now = s.now)
    (hfailures : t.failures = s.failures)
    (hhits : ∀ y, s.now - 60 ≤ y → after y (t.clientHits client) = after y (s.clientHits client))
    (hlen : t.attempts.length ≤ s.attempts.length)
    (hpending : ∀ y, after y t.pending = after y s.pending) : Bounded settings client t := by
  refine ⟨fun y hy => ?_, fun y hy => ?_, ?_⟩
  · rw [hnow] at hy
    have := hs.room y hy
    rw [hhits y hy]
    omega
  · rw [hnow] at hy
    rw [hfailures, hhits y hy, hpending]
    exact hs.cover y hy
  · rw [hfailures]
    exact hs.spread

theorem after_of_evictsNoLive {key : Str} {read : ℚ} {ts : List ℚ}
    (hok : EvictsNoLive client s key read)
    (h : ts = s.clientHits client ∨
      ts = [] ∧ full s.hits key = true ∧ stale 60 read (s.clientHits client) = true) :
    ∀ y, s.now - 60 ≤ y → after y ts = after y (s.clientHits client) := by
  intro y hy
  rcases h with rfl | ⟨rfl, hfull, hstale⟩
  · rfl
  · rw [after_eq_zero fun t ht => le_trans (hok hfull hstale t ht) hy, after_nil]

theorem Bounded.tick (hs : Bounded settings client s) {seconds : ℚ} (h : 0 ≤ seconds) :
    Bounded settings client { s with now := s.now + seconds } := by
  refine ⟨fun y hy => hs.room y ?_, fun y hy => hs.cover y ?_, hs.spread⟩
  all_goals
    have : s.now + seconds - 60 ≤ y := hy
    linarith

theorem Bounded.startAttempt (hs : Bounded settings client s) {email : Str} {read : ℚ}
    (hread : read ≤ s.now) (hok : Guarded settings client s (.check email read)) :
    Bounded settings client (startAttempt settings client s email read) := by
  have hhits : (RateLimit.startAttempt settings client s email read).clientHits client =
      s.clientHits client := bucket_check_self ..
  by_cases hpass : (check settings.limiter s.hits (clientKey client)
      (some settings.loginFailedPerClientPerMinute) true read).1.1 = true
  · have hattempts : (RateLimit.startAttempt settings client s email read).attempts =
        ⟨email, .checked⟩ :: s.attempts := by
      show (if _ then _ else _) = _
      rw [if_pos hpass]
    have hroom := hok hpass
    refine ⟨fun y hy => ?_, fun y hy => ?_, hs.spread⟩
    · have hy' : s.now - 60 ≤ y := hy
      have hle := after_mono (show read - 60 ≤ y by linarith) (s.clientHits client)
      rw [hhits, hattempts, length_cons]
      push_cast
      omega
    · rw [hhits, System.pending, hattempts]
      exact hs.cover y hy
  · have hattempts :
        (RateLimit.startAttempt settings client s email read).attempts = s.attempts := by
      show (if _ then _ else _) = _
      rw [if_neg hpass]
    refine hs.congr rfl rfl (fun y _ => by rw [hhits]) (by rw [hattempts]) fun y => ?_
    rw [System.pending, System.pending, hattempts]

theorem Bounded.hitAccount (hs : Bounded settings client s) {a : Attempt} {read : ℚ}
    (ha : a ∈ s.attempts) (hstage : a.stage = .checked)
    (hok : EvictsNoLive client s (accountKey a.email) read) :
    Bounded settings client (hitAccount settings s a read) := by
  have hnone : a.failedAt = none := by simp [Attempt.failedAt, hstage]
  have hlen := length_erase_of_mem ha
  have hpos := length_pos_of_mem ha
  refine hs.congr rfl rfl (after_of_evictsNoLive hok ?_) ?_ fun y => ?_
  · exact bucket_hit_of_ne (accountKey_ne a.email client) ..
  · show (if _ then _ else _ : List Attempt).length ≤ _
    split_ifs
    · rw [length_cons]
      omega
    · omega
  · show after y ((if _ then _ else _ : List Attempt).filterMap _) = _
    split_ifs
    · rw [filterMap_cons_none rfl]
      exact after_pending_of_none ha hnone y
    · exact after_pending_of_none ha hnone y

theorem Bounded.leave (hs : Bounded settings client s) {a : Attempt} (ha : a ∈ s.attempts)
    (hnone : a.failedAt = none) :
    Bounded settings client { s with attempts := s.attempts.erase a } := by
  have hlen := length_erase_of_mem ha
  refine hs.congr rfl rfl (fun _ _ => rfl) ?_ fun y => after_pending_of_none ha hnone y
  show (s.attempts.erase a).length ≤ _
  omega

theorem Bounded.fail (hs : Bounded settings client s) {a : Attempt} (ha : a ∈ s.attempts)
    (hstage : a.stage = .admitted) : Bounded settings client (verifyPassword s a .wrong) := by
  have hnone : a.failedAt = none := by simp [Attempt.failedAt, hstage]
  have hlen := length_erase_of_mem ha
  have hpos := length_pos_of_mem ha
  refine ⟨fun y hy => ?_, fun y hy => ?_, ?_⟩
  · have := hs.room y hy
    show (after y (s.clientHits client) : ℤ) + (_ :: s.attempts.erase a).length ≤ _
    rw [length_cons]
    omega
  · have := hs.cover y hy
    have hpending := after_pending_of_none ha hnone y
    show after y (s.now :: s.failures) ≤ after y (s.clientHits client) +
      after y ((_ :: s.attempts.erase a).filterMap Attempt.failedAt)
    have hfailed : Attempt.failedAt ⟨a.email, .failed s.now⟩ = some s.now := rfl
    rw [filterMap_cons_some hfailed,
      after_cons, after_cons, hpending]
    simp only [System.pending] at this
    omega
  · refine hs.spread.cons ?_
    have hroom := hs.room (s.now - 60) le_rfl
    have hcover := hs.cover (s.now - 60) le_rfl
    have hlt := after_pending_lt ha hnone (s.now - 60)
    simp only [System.pending] at hcover
    omega

theorem Bounded.record (hs : Bounded settings client s) {a : Attempt} {time read : ℚ}
    (ha : a ∈ s.attempts) (hstage : a.stage = .failed time) (htime : time ≤ read)
    (hread : read ≤ s.now) (hok : Guarded settings client s (.record a read)) :
    Bounded settings client (recordFailure settings client s a read) := by
  have hsome : a.failedAt = some time := by simp [Attempt.failedAt, hstage]
  have hlen := length_erase_of_mem ha
  have hpos := length_pos_of_mem ha
  have hhits : ∀ y, s.now - 60 ≤ y →
      after y ((recordFailure settings client s a read).clientHits client) =
        after y (s.clientHits client) + if y < read then 1 else 0 := by
    intro y hy
    have hbucket := bucket_hit_self (L := settings.limiter)
      (some settings.loginFailedPerClientPerMinute) true hok.1 hok.2
    rw [System.clientHits, recordFailure, hbucket, after_append, after_cons, after_nil,
      after_recent (show read - settings.limiter.window ≤ y by
        show read - 60 ≤ y
        linarith)]
    simp [System.clientHits]
  refine ⟨fun y hy => ?_, fun y hy => ?_, hs.spread⟩
  · have := hs.room y hy
    rw [hhits y hy]
    show ((after y (s.clientHits client) + _ : ℕ) : ℤ) + (s.attempts.erase a).length ≤ _
    split_ifs
    · omega
    · omega
  · have := hs.cover y hy
    have hpending := after_pending_of_some ha hsome y
    rw [hhits y hy]
    show after y s.failures ≤ _ + after y ((s.attempts.erase a).filterMap Attempt.failedAt)
    simp only [System.pending] at this
    by_cases hy' : y < time
    · rw [if_pos (lt_of_lt_of_le hy' htime)]
      rw [if_pos hy'] at hpending
      omega
    · rw [if_neg hy'] at hpending
      omega

theorem Bounded.operate (hs : Bounded settings client s) {op : Operation} {key : Str}
    {maxHits : Option ℤ} {failClosed : Bool} {read : ℚ} (hne : key ≠ clientKey client)
    (hok : EvictsNoLive client s key read) :
    Bounded settings client (operate settings s op key maxHits failClosed read) := by
  rcases op with _ | _
  · exact hs.congr rfl rfl (after_of_evictsNoLive hok (bucket_hit_of_ne hne.symm ..)) le_rfl
      fun _ => rfl
  · exact hs.congr rfl rfl (after_of_evictsNoLive hok (bucket_check_of_ne ..)) le_rfl fun _ => rfl

/-- **Every step keeps the invariant.** -/
theorem Bounded.step {e : Event} (hs : Bounded settings client s)
    (hok : Guarded settings client s e)
    (h : step settings client s e = some t) : Bounded settings client t := by
  rcases e with seconds | ⟨email, read⟩ | ⟨a, read⟩ | ⟨a, verdict⟩ | ⟨a, read⟩ |
    ⟨op, key, maxHits, failClosed, read⟩
  · simp only [RateLimit.step] at h
    split_ifs at h with hpos
    cases h
    exact hs.tick hpos
  · simp only [RateLimit.step] at h
    split_ifs at h with hread
    cases h
    exact hs.startAttempt hread hok
  · simp only [RateLimit.step] at h
    split_ifs at h with hguard
    cases h
    exact hs.hitAccount hguard.1 hguard.2.1 hok
  · simp only [RateLimit.step] at h
    split_ifs at h with hguard
    cases h
    have hnone : a.failedAt = none := by simp [Attempt.failedAt, hguard.2]
    rcases verdict with _ | _ | _
    · exact hs.leave hguard.1 hnone
    · exact hs.leave hguard.1 hnone
    · exact hs.fail hguard.1 hguard.2
  · simp only [RateLimit.step] at h
    rcases hstage : a.stage with _ | _ | time
    · rw [hstage] at h
      cases h
    · rw [hstage] at h
      cases h
    · rw [hstage] at h
      dsimp only at h
      split_ifs at h with hguard
      cases h
      exact hs.record hguard.1 hstage hguard.2.1 hguard.2.2 hok
  · simp only [RateLimit.step] at h
    split_ifs at h with hguard
    cases h
    exact hs.operate hguard.1 hok

end Preservation

/-! ### Runs -/

/-- The limiter of a new process: an empty table, and no attempt yet. -/
structure System.Initial (s : System) : Prop where
  hits : s.hits = ∅
  attempts : s.attempts = []
  failures : s.failures = []

theorem System.Initial.bounded {settings : Settings} {client : Str} {s : System} (h : s.Initial) :
    Bounded settings client s := by
  have hbucket : s.clientHits client = [] := by
    rw [System.clientHits, h.hits]
    rfl
  refine ⟨fun y _ => ?_, fun y _ => ?_, fun x => ?_⟩
  · rw [hbucket, h.attempts]
    simp
  · rw [h.failures]
    simp
  · rw [h.failures]
    simp

/-- **Password spraying is bounded**: in every run that meets the condition, the failed
verifications of the client within any window are at most its ceiling. -/
theorem failures_spread {settings : Settings} {client : Str} {s₀ s : System} (h₀ : s₀.Initial)
    (hrun : Run (step settings client) (Guarded settings client) s₀ s) :
    Spread 60 (Max.max 0 settings.loginFailedPerClientPerMinute) s.failures :=
  (hrun.invariant (P := Bounded settings client) (fun hs hok he => hs.step hok he)
    h₀.bounded).spread

/-- Ten attempts a minute for an account, one failure a minute for a client. -/
def strictSettings : Settings := ⟨10, 1⟩

/-- A process that has seen no attempt. -/
def newProcess : System := ⟨∅, [], 0, []⟩

/-- An attempt fails and is recorded, one on another account is refused half a minute later, and a
third one fails when the minute is over. -/
theorem failures_spread_one :
    ∃ s, Run (step strictSettings "10.0.0.1") (Guarded strictSettings "10.0.0.1")
        newProcess s ∧ s.failures = [60, 0] ∧
      Spread 60 (Max.max 0 strictSettings.loginFailedPerClientPerMinute) s.failures := by
  have hnew : Run (step strictSettings "10.0.0.1")
      (Guarded strictSettings "10.0.0.1") newProcess newProcess := .refl _
  have hadmitted := ((hnew.tail (e := Event.check "a@b" 0) (fun _ => by decide) rfl).tail
    (e := Event.hitAccount ⟨"a@b", .checked⟩ 0) (fun h => absurd h (by decide)) rfl).tail
    (e := Event.verify ⟨"a@b", .admitted⟩ .wrong) trivial rfl
  have hfailed := hadmitted.tail (e := Event.record ⟨"a@b", .failed 0⟩ 0)
    ⟨by decide, by decide⟩ rfl
  have hrefused := (hfailed.tail (e := Event.tick 30) trivial rfl).tail
    (e := Event.check "c@d" 30) (fun h => absurd h (by decide +kernel))
    (if_pos (by decide +kernel))
  have hchecked := (hrefused.tail (e := Event.tick 30) trivial rfl).tail
    (e := Event.check "c@d" 60) (fun _ => by decide +kernel) (if_pos (by decide +kernel))
  have hagain := (hchecked.tail (e := Event.hitAccount ⟨"c@d", .checked⟩ 60)
    (fun h => absurd h (by decide +kernel)) (if_pos (by decide +kernel))).tail
    (e := Event.verify ⟨"c@d", .admitted⟩ .wrong) trivial (if_pos (by decide +kernel))
  have hrun := hagain.tail (e := Event.record ⟨"c@d", .failed 60⟩ 60)
    ⟨by decide +kernel, by decide +kernel⟩ (if_pos (by decide +kernel))
  exact ⟨_, hrun, by decide +kernel, failures_spread ⟨rfl, rfl, rfl⟩ hrun⟩

/-- **Attempts that overlap**: both read the empty bucket before either records its failure. -/
theorem failures_overlap :
    ¬ ∀ (settings : Settings) (client : Str) (s₀ s : System), s₀.Initial →
      Run (step settings client) (fun _ _ => True) s₀ s →
      Spread 60 (Max.max 0 settings.loginFailedPerClientPerMinute) s.failures := by
  intro h
  have hevents : [Event.check "a@b" 0, .check "c@d" 0,
      .hitAccount ⟨"a@b", .checked⟩ 0, .hitAccount ⟨"c@d", .checked⟩ 0,
      .verify ⟨"a@b", .admitted⟩ .wrong,
      .verify ⟨"c@d", .admitted⟩ .wrong].foldlM
        (step strictSettings "10.0.0.1") newProcess = some _ := rfl
  have hrun := run_of_foldlM (fun _ _ => trivial) hevents
  have hle := h _ _ _ _ ⟨rfl, rfl, rfl⟩ hrun 0
  have hcount : (countP (fun t : ℚ => decide (0 ≤ t ∧ t < 0 + 60)) [0, 0]) = 2 := by
    norm_num [countP_cons]
  change ((countP (fun t : ℚ => decide (0 ≤ t ∧ t < 0 + 60)) [0, 0] : ℕ) : ℤ) ≤ 1 at hle
  omega

end Guardian.RateLimit

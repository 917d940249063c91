import Guardian.Scheduling.Sweep
import Guardian.Transition.Run

/-!
# The cadence of the schedules

A run of the scheduler is made of sweeps, edits of schedules, outcomes of the runs that were
enqueued and changes to the tables that schedules refer to, at times that do not decrease.
`paced_of_unbroken` gives the runs that keep the cadence.
-/

namespace Guardian.Scheduling

open Python Transition Guardian.Order List
open Transition.UnitOfWork
open Scheduling.Sample (world)

/-! ### Edits -/

/-- What `upsert_schedule` is given, and the id that is drawn for a new row. -/
structure Request where
  newId : ℕ
  tenantId : ℕ
  kind : Str
  intervalSeconds : ℤ
  targetId : Option ℕ
  customerId : Option ℕ
  settings : Option Json.Dict
  enabled : Bool

def Request.Finds (q : Request) (r : Schedule) : Prop :=
  r.tenantId = q.tenantId ∧ r.kind = q.kind ∧ r.targetId = q.targetId

instance (q : Request) (r : Schedule) : Decidable (q.Finds r) := by
  unfold Request.Finds
  infer_instance

/-- What a request makes of the row that it finds. -/
def Request.edit (q : Request) (r : Schedule) : Schedule :=
  { r with
    intervalSeconds := q.intervalSeconds
    enabled := q.enabled
    consecutiveFailures := 0
    settings := q.settings.getD r.settings }

/-- The row of a request that finds none. -/
def Request.create (q : Request) (now : ℤ) : Schedule where
  id := q.newId
  tenantId := q.tenantId
  customerId := q.customerId
  kind := q.kind
  targetId := q.targetId
  intervalSeconds := q.intervalSeconds
  enabled := q.enabled
  nextRunAt := now
  lastRunAt := none
  lastStatus := none
  consecutiveFailures := 0
  settings := q.settings.getD []

/-- The constraints of the columns: `ck_schedule_kind`, `ck_schedule_interval_floor`, and the
foreign keys. -/
def Schedule.Allowed (db : Database) (r : Schedule) : Prop :=
  (r.kind = "scan" ∨ r.kind = "discovery") ∧ 300 ≤ r.intervalSeconds ∧
    r.tenantId ∈ db.tenants ∧ ∀ c ∈ r.customerId, c ∈ db.customers

instance (db : Database) (r : Schedule) : Decidable (r.Allowed db) := by
  unfold Schedule.Allowed
  infer_instance

/-- **`upsert_schedule`**, and the id of the row that it has written; the database may refuse it. -/
def upsertSchedule (now : ℤ) (q : Request) (db : Database) : Option (Database × ℕ) :=
  match db.schedules.find? fun r => q.Finds r with
  | some r => if (q.edit r).Allowed db then some (db.putSchedule (q.edit r), r.id) else none
  | none =>
    if (q.create now).Allowed db ∧ q.newId ∉ db.schedules.map (·.id) then
      some ({ db with schedules := db.schedules ++ [q.create now] }, q.newId)
    else none

/-! ### Runs -/

/-- The tables, the record of what happened to the schedules, and the time of the last event. -/
structure State where
  db : Database
  log : List Entry
  clock : ℤ

def Row.withStatus (status : Str) : Row → Row
  | .scan row => .scan { row with status }
  | .discovery row => .discovery { row with status }

/-- What happens: a sweep, an edit, the outcome of a run, a change to the other tables. -/
inductive Event
  | sweep (w : World) (locked : ℕ → Bool) (limit : ℕ) (now : ℤ)
  | upsert (now : ℤ) (q : Request)
  | outcome (rowId : ℕ) (status : Str)
  | tables (tenants customers scopes : List ℕ) (assets : List Asset)

/-- **One event.**  The clock does not go back. -/
def step (s : State) : Event → Option State
  | .sweep w locked limit now =>
    if now < s.clock then none
    else
      let ended := (sweepSchedules w locked limit now (opened s.db s.log)).2
      some { db := ended.stored, log := ended.outside, clock := now }
  | .upsert now q =>
    if now < s.clock then none
    else
      match upsertSchedule now q s.db with
      | none => some { s with clock := now }
      | some (db, k) => some { db, log := s.log ++ [⟨k, now, .updated⟩], clock := now }
  | .outcome rowId status =>
    let runs := s.db.runs.map fun row => if row.id = rowId then row.withStatus status else row
    some { s with db := { s.db with runs } }
  | .tables tenants customers scopes assets =>
    some { s with db := { s.db with tenants, customers, scopes, assets } }

def State.Initial (s : State) : Prop := s.db.schedules = [] ∧ s.log = []

/-- **The sweep breaks in no round**: the database refuses neither the lookup nor the row of a
schedule that is due. -/
def Unbroken (s : State) : Event → Prop
  | .sweep w locked limit now =>
    ∀ r ∈ dueSchedules locked limit now s.db.schedules, ¬ Breaks w s.db r
  | _ => True

/-- How often in a row a schedule has failed, up to now. -/
def streak (k : ℕ) (log : List Entry) : ℕ :=
  ((log.filter fun e => e.schedule = k).reverse.takeWhile fun e => e.what = .failed).length

/-- **The cadence of the schedules.** -/
structure Paced (s : State) : Prop where
  spaced : s.log.Pairwise fun e e' => e.schedule = e'.schedule →
    ∀ m i, e.what = .enqueued m i → ∀ m' i', e'.what = .enqueued m' i' →
      e.time + period i ≤ e'.time
  ahead : ∀ e ∈ s.log, ∀ m i, e.what = .enqueued m i →
    ∃ r, rowOf Schedule.id e.schedule s.db.schedules = some r ∧ e.time + period i ≤ r.nextRunAt
  disabled : ∀ k r, rowOf Schedule.id k s.db.schedules = some r →
    maxConsecutiveFailures ≤ streak k s.log → r.enabled = false
  halted : ∀ past e later, s.log = past ++ e :: later → e.what ≠ .updated →
    streak e.schedule past < maxConsecutiveFailures

/-! ### The invariant -/

theorem streak_append (k : ℕ) (log : List Entry) (e : Entry) :
    streak k (log ++ [e]) =
      if e.schedule = k then if e.what = .failed then streak k log + 1 else 0
      else streak k log := by
  unfold streak
  rw [filter_append, filter_singleton]
  by_cases hk : e.schedule = k
  · rw [if_pos hk, decide_eq_true hk, cond_true, reverse_append, reverse_singleton,
      singleton_append, takeWhile_cons]
    by_cases hf : e.what = .failed
    · rw [if_pos hf, decide_eq_true hf, if_pos rfl, length_cons]
    · rw [if_neg hf, decide_eq_false hf, if_neg (by simp)]
      rfl
  · rw [if_neg hk, decide_eq_false hk, cond_false, append_nil]

theorem period_pos (interval : ℤ) : 0 < period interval := by
  unfold period
  omega

/-- **What every round and every edit keeps**: the record is that of the rows, and the counter of a
row is the streak of its schedule. -/
structure Inv (s : State) : Prop where
  keys : (s.db.schedules.map (·.id)).Nodup
  known : ∀ e ∈ s.log, ∃ r, rowOf Schedule.id e.schedule s.db.schedules = some r
  counted : ∀ k r, rowOf Schedule.id k s.db.schedules = some r →
    r.consecutiveFailures = streak k s.log
  off : ∀ r ∈ s.db.schedules, maxConsecutiveFailures ≤ r.consecutiveFailures → r.enabled = false
  paced : Paced s

theorem inv_initial {s : State} (h : s.Initial) : Inv s := by
  obtain ⟨hrows, hlog⟩ := h
  have hnone : ∀ k r, rowOf Schedule.id k s.db.schedules ≠ some r := by
    intro k r
    rw [hrows]
    exact fun h => by cases h
  refine ⟨by rw [hrows]; exact nodup_nil, by simp [hlog], fun k r h => absurd h (hnone k r),
    by simp [hrows], ⟨by rw [hlog]; exact List.Pairwise.nil, by simp [hlog],
      fun k r h => absurd h (hnone k r), fun past e later h => ?_⟩⟩
  rw [hlog] at h
  simp at h

section Write
variable {s : State} {old new : Schedule} {what : Happening} {now : ℤ} {db : Database}
  (hinv : Inv s) (hold : rowOf Schedule.id new.id s.db.schedules = some old)
  (hdb : db.schedules = (s.db.putSchedule new).schedules)
include hdb

theorem rowOf_write (k : ℕ) : rowOf Schedule.id k db.schedules =
    (rowOf Schedule.id k s.db.schedules).map fun r => if k = new.id then new else r := by
  rw [hdb, rowOf_putSchedule]

include hinv

theorem keys_write : (db.schedules.map (·.id)).Nodup := by
  rw [hdb]
  change ((s.db.schedules.map fun r => if r.id = new.id then new else r).map (·.id)).Nodup
  rw [map_map]
  have hids : ((fun r : Schedule => r.id) ∘ fun r => if r.id = new.id then new else r) =
      fun r => r.id := by
    funext r
    by_cases hr : r.id = new.id
    · simp [hr]
    · simp [hr]
  rw [hids]
  exact hinv.keys

include hold

variable (now) in
theorem counted_write
    (hcount : new.consecutiveFailures = if what = .failed then old.consecutiveFailures + 1 else 0) :
    ∀ k r, rowOf Schedule.id k db.schedules = some r →
      r.consecutiveFailures = streak k (s.log ++ [⟨new.id, now, what⟩]) := by
  intro k r hr
  rw [rowOf_write hdb, Option.map_eq_some_iff] at hr
  obtain ⟨r₀, hr₀, rfl⟩ := hr
  rw [streak_append]
  by_cases hk : k = new.id
  · subst hk
    rw [if_pos rfl, if_pos rfl, hcount, hinv.counted _ _ hold]
  · rw [if_neg hk, if_neg (Ne.symm hk)]
    exact hinv.counted k r₀ hr₀

/-- What the entries promise is kept by a row that is not due before. -/
theorem ahead_write (hnext : old.nextRunAt ≤ new.nextRunAt)
    (hahead : ∀ m i, what = .enqueued m i → now + period i ≤ new.nextRunAt) :
    ∀ e ∈ s.log ++ [⟨new.id, now, what⟩], ∀ m i, e.what = .enqueued m i →
      ∃ r, rowOf Schedule.id e.schedule db.schedules = some r ∧ e.time + period i ≤ r.nextRunAt := by
  intro e he m i hm
  rcases mem_append.mp he with he | he
  · obtain ⟨r, hr, hle⟩ := hinv.paced.ahead e he m i hm
    refine ⟨_, by rw [rowOf_write hdb, hr]; rfl, ?_⟩
    split_ifs with hk
    · rw [hk, hold] at hr
      cases hr
      exact hle.trans hnext
    · exact hle
  · rw [mem_singleton.mp he] at hm ⊢
    refine ⟨new, ?_, hahead m i hm⟩
    rw [rowOf_write hdb, hold, Option.map_some, if_pos rfl]

variable (old new what) in
/-- **A write over the row of a schedule, with the entry that tells of it**, keeps the invariant: if
the new row counts its streak and is disabled when it has to be, and is not due before what the
entry promises; a dispatch is one of an enabled schedule that is due. -/
theorem inv_write
    (hcount : new.consecutiveFailures = if what = .failed then old.consecutiveFailures + 1 else 0)
    (hoff : maxConsecutiveFailures ≤ new.consecutiveFailures → new.enabled = false)
    (hdue : what ≠ .updated → old.Due now) (hnext : old.nextRunAt ≤ new.nextRunAt)
    (hahead : ∀ m i, what = .enqueued m i → now + period i ≤ new.nextRunAt) :
    Inv { db, log := s.log ++ [⟨new.id, now, what⟩], clock := now } := by
  have hcounted := counted_write now hinv hold hdb hcount
  have hdisabled : ∀ r ∈ db.schedules, maxConsecutiveFailures ≤ r.consecutiveFailures →
      r.enabled = false := by
    intro r hr
    rw [hdb] at hr
    obtain ⟨r₀, hr₀, rfl⟩ := mem_map.mp hr
    split_ifs
    · exact hoff
    · exact hinv.off r₀ hr₀
  refine ⟨keys_write hinv hdb, ?_, hcounted, hdisabled, ?_, ahead_write hinv hold hdb hnext hahead,
    fun k r hr hfive => hdisabled r (of_rowOf hr).1 ((hcounted k r hr).symm ▸ hfive), ?_⟩
  · intro e he
    rcases mem_append.mp he with he | he
    · obtain ⟨r, hr⟩ := hinv.known e he
      exact ⟨_, by rw [rowOf_write hdb, hr]; rfl⟩
    · rw [mem_singleton.mp he]
      exact ⟨_, by rw [rowOf_write hdb, hold]; rfl⟩
  · refine pairwise_append.mpr ⟨hinv.paced.spaced, pairwise_singleton _ _, ?_⟩
    intro e he e' he' hsame m i hm m' i' hm'
    rw [mem_singleton.mp he'] at hsame hm' ⊢
    obtain ⟨r, hr, hle⟩ := hinv.paced.ahead e he m i hm
    rw [hsame, hold] at hr
    cases hr
    have hwhat : what ≠ .updated := by
      rw [show what = .enqueued m' i' from hm']
      exact fun h => by cases h
    exact hle.trans (hdue hwhat).2
  · intro past e later hsplit hwhat
    rcases split_concat hsplit with ⟨rfl, rfl⟩ | ⟨later', hlog⟩
    · -- a schedule that has failed often enough is not enabled
      rw [← hinv.counted _ _ hold]
      by_contra hge
      have hfalse := hinv.off old (of_rowOf hold).1 (not_lt.mp hge)
      rw [(hdue hwhat).1] at hfalse
      cases hfalse
    · exact hinv.paced.halted past e later' hlog hwhat

end Write

/-! ### Each event keeps it -/

variable {w : World} {now : ℤ}

theorem entry_eq (outcome : Verdict) (r : Schedule) :
    outcome.entry r now = ⟨r.id, now, (outcome.entry r now).what⟩ := by
  cases outcome <;> rfl

/-- **A round keeps the invariant.** -/
theorem inv_settle {s : State} (hinv : Inv s) {r : Schedule}
    (hr : rowOf Schedule.id r.id s.db.schedules = some r) (hdue : r.Due now) :
    Inv
      { db := settle w now s.db r
        log := s.log ++ [(verdict w s.db r).entry r now]
        clock := now } := by
  have hnext : r.nextRunAt ≤ now + period r.intervalSeconds := by
    have := period_pos r.intervalSeconds
    have := hdue.2
    omega
  rw [entry_eq]
  generalize houtcome : verdict w s.db r = outcome
  have hrows : (settle w now s.db r).schedules =
      (s.db.putSchedule (outcome.mark (r.claimed now))).schedules := by
    rw [← houtcome]
    rfl
  have hfive : maxConsecutiveFailures ≤ (r.claimed now).failed.consecutiveFailures →
      (r.claimed now).failed.enabled = false := fun h => if_pos h
  rcases outcome with ⟨task, row⟩ | row | _
  · exact inv_write r (r.claimed now).succeeded
      (.enqueued ⟨task, row.id⟩ r.intervalSeconds) hinv hr hrows rfl
      (fun h => absurd h (Nat.not_succ_le_zero 4)) (fun _ => hdue) hnext
      fun m i hm => by cases hm; exact le_rfl
  all_goals
    exact inv_write r (r.claimed now).failed .failed hinv hr hrows rfl
      hfive (fun _ => hdue) hnext fun m i hm => by cases hm

/-- **The rounds of a sweep keep the invariant.** -/
theorem inv_settleAll {due : List Schedule} {s : State} (hinv : Inv s)
    (hnodup : (due.map (·.id)).Nodup)
    (hrows : ∀ r ∈ due, rowOf Schedule.id r.id s.db.schedules = some r)
    (hdue : ∀ r ∈ due, r.Due now) (hclock : s.clock = now) :
    Inv
      { db := settleAll w now due s.db
        log := s.log ++ due.map fun r => (verdict w s.db r).entry r now
        clock := now } := by
  induction due generalizing s with
  | nil =>
    obtain ⟨db, log, clock⟩ := s
    subst hclock
    rw [map_nil, append_nil]
    exact hinv
  | cons r due ih =>
    rw [map_cons, nodup_cons] at hnodup
    have hfirst := inv_settle (w := w) hinv (hrows r mem_cons_self)
      (hdue r mem_cons_self)
    have hrest := ih hfirst hnodup.2 (fun r' hr' => ?_)
      (fun r' hr' => hdue r' (mem_cons_of_mem _ hr')) rfl
    · dsimp only at hrest
      rw [append_assoc, singleton_append] at hrest
      simp only [verdict_settle] at hrest
      exact hrest
    · have hne : r'.id ≠ r.id := fun h => hnodup.1 (h ▸ mem_map_of_mem hr')
      dsimp only
      rw [rowOf_settle, hrows r' (mem_cons_of_mem _ hr')]
      simp [hne]

theorem inv_congr {s s' : State} (hrows : s'.db.schedules = s.db.schedules)
    (hlog : s'.log = s.log) (h : Inv s) : Inv s' := by
  obtain ⟨hkeys, hknown, hcounted, hoff, hspaced, hahead, hdisabled, hhalted⟩ := h
  rw [← hrows] at hkeys hknown hcounted hoff hahead hdisabled
  rw [← hlog] at hknown hcounted hspaced hahead hdisabled hhalted
  exact ⟨hkeys, hknown, hcounted, hoff, hspaced, hahead, hdisabled, hhalted⟩

theorem rowOf_concat {rows : List Schedule} {new : Schedule} (hnew : new.id ∉ rows.map (·.id))
    (k : ℕ) :
    rowOf Schedule.id k (rows ++ [new]) =
      if k = new.id then some new else rowOf Schedule.id k rows := by
  unfold rowOf
  rw [find?_append]
  by_cases hk : k = new.id
  · subst hk
    have hnone : rows.find? (fun r => r.id = new.id) = none := by
      rw [find?_eq_none]
      intro r hr hid
      exact hnew (mem_map.mpr ⟨r, hr, by simpa using hid⟩)
    rw [hnone, if_pos rfl]
    simp
  · rw [if_neg hk, find?_cons_of_neg (by simpa using Ne.symm hk), find?_nil,
      Option.or_none]

/-- **A new schedule keeps the invariant.** -/
theorem inv_create {s : State} (hinv : Inv s) (new : Schedule) {db : Database}
    (hdb : db.schedules = s.db.schedules ++ [new])
    (hnew : new.id ∉ s.db.schedules.map (·.id)) (hzero : new.consecutiveFailures = 0) :
    Inv { db, log := s.log ++ [⟨new.id, now, .updated⟩], clock := now } := by
  have hrow : ∀ k, rowOf Schedule.id k db.schedules =
      if k = new.id then some new else rowOf Schedule.id k s.db.schedules := by
    intro k
    rw [hdb, rowOf_concat hnew]
  have hlog : ∀ e ∈ s.log, e.schedule ≠ new.id := by
    intro e he hk
    obtain ⟨r, hr⟩ := hinv.known e he
    exact hnew (mem_map.mpr ⟨r, (of_rowOf hr).1, (of_rowOf hr).2.trans hk⟩)
  have hcounted : ∀ k r, rowOf Schedule.id k db.schedules = some r →
      r.consecutiveFailures = streak k (s.log ++ [⟨new.id, now, .updated⟩]) := by
    intro k r hr
    rw [hrow] at hr
    rw [streak_append]
    by_cases hk : k = new.id
    · rw [if_pos hk] at hr
      cases hr
      rw [if_pos hk.symm, hzero]
      rfl
    · rw [if_neg hk] at hr
      rw [if_neg (Ne.symm hk)]
      exact hinv.counted k r hr
  have hoff : ∀ r ∈ db.schedules, maxConsecutiveFailures ≤ r.consecutiveFailures →
      r.enabled = false := by
    intro r hr
    rw [hdb] at hr
    rcases mem_append.mp hr with hr | hr
    · exact hinv.off r hr
    · rw [mem_singleton.mp hr, hzero]
      exact fun h => absurd h (Nat.not_succ_le_zero 4)
  refine ⟨?_, ?_, hcounted, hoff, ?_, ?_, ?_, ?_⟩
  · rw [hdb, map_append, nodup_append]
    refine ⟨hinv.keys, nodup_singleton _, ?_⟩
    intro k hk k' hk' heq
    rw [heq, mem_singleton.mp hk'] at hk
    exact hnew hk
  · intro e he
    dsimp only at he ⊢
    rw [hrow]
    rcases mem_append.mp he with he | he
    · rw [if_neg (hlog e he)]
      exact hinv.known e he
    · rw [mem_singleton.mp he, if_pos rfl]
      exact ⟨new, rfl⟩
  · refine pairwise_append.mpr ⟨hinv.paced.spaced, pairwise_singleton _ _, ?_⟩
    intro e _ e' he' _ m i _ m' i' hm'
    rw [mem_singleton.mp he'] at hm'
    cases hm'
  · intro e he m i hm
    rcases mem_append.mp he with he | he
    · dsimp only
      rw [hrow, if_neg (hlog e he)]
      exact hinv.paced.ahead e he m i hm
    · rw [mem_singleton.mp he] at hm
      cases hm
  · intro k r hr hfive
    exact hoff r (of_rowOf hr).1 ((hcounted k r hr).symm ▸ hfive)
  · intro past e later hsplit hwhat
    rcases split_concat hsplit with ⟨rfl, rfl⟩ | ⟨later', hlog'⟩
    · exact absurd rfl hwhat
    · exact hinv.paced.halted past e later' hlog' hwhat

/-- **An edit keeps the invariant.** -/
theorem inv_upsert {s : State} {q : Request} {db : Database} {k : ℕ} (hinv : Inv s)
    (h : upsertSchedule now q s.db = some (db, k)) :
    Inv { db, log := s.log ++ [⟨k, now, .updated⟩], clock := now } := by
  unfold upsertSchedule at h
  rcases hfind : s.db.schedules.find? (fun r => q.Finds r) with _ | r
  · rw [hfind] at h
    dsimp only at h
    split_ifs at h with hok
    cases h
    exact inv_create hinv (q.create now) rfl hok.2 rfl
  · rw [hfind] at h
    dsimp only at h
    split_ifs at h
    cases h
    have hr : r ∈ s.db.schedules := mem_of_find?_eq_some hfind
    exact inv_write r (q.edit r) .updated hinv
      (rowOf_of_mem hinv.keys hr) rfl rfl (fun h => absurd h (Nat.not_succ_le_zero 4))
      (fun h => absurd rfl h) le_rfl fun m i hm => by cases hm

/-- **What one event keeps.** -/
theorem inv_step {s s' : State} {e : Event} (hinv : Inv s) (hok : Unbroken s e)
    (hstep : step s e = some s') : Inv s' := by
  rcases e with ⟨w, locked, limit, now⟩ | ⟨now, q⟩ | ⟨rowId, status⟩ | ⟨tenants, customers, scopes,
    assets⟩
  · unfold step at hstep
    dsimp only at hstep
    split_ifs at hstep
    have hsel : Selected now s.db (dueSchedules locked limit now s.db.schedules) :=
      selected_dueSchedules hinv.keys
    rw [sweepSchedules_eq, (sweep_stored now s.db _ s.log).1 hok] at hstep
    cases hstep
    exact inv_settleAll (s := { s with clock := now }) (inv_congr (s := s) rfl rfl hinv) hsel.nodup
      (fun r hr => rowOf_of_mem hsel.keys (hsel.rows r hr)) hsel.due rfl
  · unfold step at hstep
    dsimp only at hstep
    split_ifs at hstep
    rcases hq : upsertSchedule now q s.db with _ | ⟨db, k⟩
    · rw [hq] at hstep
      cases hstep
      exact inv_congr (s := s) rfl rfl hinv
    · rw [hq] at hstep
      cases hstep
      exact inv_upsert hinv hq
  all_goals
    cases hstep
    exact inv_congr (s := s) rfl rfl hinv

/-- **The cadence of a scheduler whose sweeps break in no round**, in every state that it reaches.
-/
theorem paced_of_unbroken {s s' : State} (hinit : s.Initial) (hrun : Run step Unbroken s s') :
    Paced s' :=
  (hrun.invariant inv_step (inv_initial hinit)).paced

/-! ### A schedule that does not stop -/

namespace Sample

def empty : State where
  db := { tenants := [], customers := [], scopes := [], assets := [], schedules := [], runs := [] }
  log := []
  clock := 0

/-- A request for the discovery of a scope. -/
def scopeDaily : Request where
  newId := 1
  tenantId := 1
  kind := "discovery"
  intervalSeconds := 86400
  targetId := some 9
  customerId := none
  settings := none
  enabled := true

/-- One sweep a minute, over all schedules. -/
def sweepAt (minute : ℤ) : Event := .sweep world (fun _ => false) 200 (minute * 60000000)

/-- A scope is registered for a daily discovery, and deleted. -/
def registered : List Event :=
  [.tables [1] [] [9] [], .upsert 0 scopeDaily, .tables [1] [] [] []]

/-- What the registration leaves. -/
def ready : State where
  db :=
    { tenants := [1], customers := [], scopes := [9], assets := []
      schedules := [scopeDaily.create 0], runs := [] }
  log := [⟨1, 0, .updated⟩]
  clock := 0

def fiveSweeps : List Event := [1, 2, 3, 4, 5].map sweepAt

/-- What the five sweeps leave: the schedule as it was before. -/
def unstopped : State where
  db :=
    { tenants := [1], customers := [], scopes := [], assets := []
      schedules := [scopeDaily.create 0], runs := [] }
  log := ⟨1, 0, .updated⟩ :: [1, 2, 3, 4, 5].map fun minute => ⟨1, minute * 60000000, .failed⟩
  clock := 300000000

end Sample

/-- **A schedule whose row the database refuses does not stop**: after five failures in a row, one a
minute, it is still enabled. -/
theorem failed_and_enabled :
    Sample.empty.Initial ∧ Run step (fun _ _ => True) Sample.empty Sample.unstopped ∧
      ¬ Paced Sample.unstopped := by
  have hrun : (Sample.registered ++ Sample.fiveSweeps).foldlM step Sample.empty =
      some Sample.unstopped := rfl
  refine ⟨⟨rfl, rfl⟩, run_of_foldlM (fun _ _ => trivial) hrun, fun h => ?_⟩
  have hoff := h.disabled 1 _ rfl (by decide)
  cases hoff

/-- A sweep over a scope that is there keeps the cadence. -/
theorem paced_of_unbroken_sample :
    ∃ s, step Sample.ready (Sample.sweepAt 1) = some s ∧ s.log.length = 2 ∧ Paced s := by
  have hready : Run step Unbroken Sample.empty Sample.ready :=
    .tail (.tail (.refl _) trivial (e := .tables [1] [] [9] []) rfl) trivial
      (e := .upsert 0 Sample.scopeDaily) rfl
  have hverdict : verdict world Sample.ready.db (Sample.scopeDaily.create 0) =
      .queued "guardian.run_discovery"
        (discoveryRow world (Sample.scopeDaily.create 0) []) := rfl
  have hok : Unbroken Sample.ready (Sample.sweepAt 1) := by
    intro r hr hbreak
    rw [mem_singleton.mp (show r ∈ [Sample.scopeDaily.create 0] from hr), Breaks,
      hverdict] at hbreak
    cases hbreak
  refine ⟨_, rfl, rfl, ?_⟩
  exact paced_of_unbroken ⟨rfl, rfl⟩ (hready.tail hok rfl)

end Guardian.Scheduling

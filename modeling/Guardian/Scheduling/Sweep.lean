import Guardian.Order.Table
import Guardian.Transition.UnitOfWork
import Guardian.Triage.Record
import Mathlib.Data.List.Sort

/-!
# The sweep over the schedules

A sweep claims every schedule that is due, inserts a run for it and publishes the run, all in one
session and one transaction.  What one dispatch raises is caught, and counted against its schedule.
`sweepOver_undisturbed_iff` says when the others are left alone.
-/

namespace Guardian.Scheduling

open Python Transition Guardian.Order List
open Transition.UnitOfWork

/-! ### The tables -/

/-- After this many consecutive failures a schedule is disabled. -/
def maxConsecutiveFailures : ℕ := 5

/-- A row of `schedules`.  Instants are in microseconds. -/
structure Schedule where
  id : ℕ
  tenantId : ℕ
  customerId : Option ℕ
  kind : Str
  targetId : Option ℕ
  intervalSeconds : ℤ
  enabled : Bool
  nextRunAt : ℤ
  lastRunAt : Option ℤ
  lastStatus : Option Str
  consecutiveFailures : ℕ
  settings : Json.Dict

/-- A row of `assets`. -/
structure Asset where
  id : ℕ
  tenantId : ℕ
  customerId : ℕ
  deriving DecidableEq

/-- A row of `scans`, as a dispatch fills it. -/
structure Scan where
  id : ℕ
  tenantId : ℕ
  customerId : ℕ
  assetId : ℕ
  trigger : Str
  status : Str
  requestedEngines : List Json

/-- A row of `discovery_runs`, as a dispatch fills it. -/
structure DiscoveryRun where
  id : ℕ
  tenantId : ℕ
  customerId : Option ℕ
  scopeId : Option ℕ
  status : Str
  trigger : Str
  seeds : Json.Dict

/-- A run that a dispatch inserts. -/
inductive Row
  | scan (row : Scan)
  | discovery (row : DiscoveryRun)

def Row.id : Row → ℕ
  | .scan row => row.id
  | .discovery row => row.id

def Row.status : Row → Str
  | .scan row => row.status
  | .discovery row => row.status

/-- **The tables** that a sweep reads and writes; of those it only refers to, the keys. -/
structure Database where
  tenants : List ℕ
  customers : List ℕ
  scopes : List ℕ
  assets : List Asset
  schedules : List Schedule
  runs : List Row

/-- The foreign keys of the row point to rows. -/
def Row.Refers (db : Database) : Row → Prop
  | .scan row => row.tenantId ∈ db.tenants ∧ row.customerId ∈ db.customers ∧
      row.assetId ∈ db.assets.map (·.id)
  | .discovery row => row.tenantId ∈ db.tenants ∧ (∀ c ∈ row.customerId, c ∈ db.customers) ∧
      ∀ k ∈ row.scopeId, k ∈ db.scopes

instance (db : Database) (row : Row) : Decidable (row.Refers db) := by
  unfold Row.Refers
  split <;> infer_instance

/-- A write of the session: a new run, or the columns of a schedule as they stand. -/
inductive Write
  | insert (row : Row)
  | update (schedule : Schedule)

/-! ### What a sweep meets -/

/-- A message of the broker: the task, and the id of its row. -/
structure Message where
  task : Str
  rowId : ℕ
  deriving DecidableEq

/-- What happens to a schedule: its run is published, under the interval in force, its dispatch
fails, or it is edited. -/
inductive Happening
  | enqueued (message : Message) (interval : ℤ)
  | failed
  | updated
  deriving DecidableEq

/-- What happened to a schedule, and when. -/
structure Entry where
  schedule : ℕ
  time : ℤ
  what : Happening
  deriving DecidableEq

/-- **What a sweep meets outside of its tables**, for each schedule by its id: the id that is drawn
for its run, whether the server answers the lookup of its asset and whether the broker takes its
message; and which rows pass the constraints that are not foreign keys. -/
structure World where
  newId : ℕ → ℕ
  answers : ℕ → Bool
  sends : ℕ → Bool
  storable : Row → Bool

/-- What a dispatch raises. -/
inductive DispatchError
  | valueError (detail : Str)
  | typeError
  | publish

section Sweep

variable (w : World)

/-- What the database makes of a write, if it does not refuse it. -/
def apply : Write → Database → Option Database
  | .insert row, db =>
    if row.Refers db ∧ w.storable row then some { db with runs := db.runs ++ [row] } else none
  | .update schedule, db =>
    some { db with
      schedules := db.schedules.map fun r => if r.id = schedule.id then schedule else r }

/-- A sweep's session; what is outside of it is the record of what happened. -/
abbrev Sweeping := Effect (Raise DispatchError) (UnitOfWork Database Write (List Entry))

/-! ### Dispatches -/

/-- The period of a schedule, in microseconds. -/
def period (interval : ℤ) : ℤ := max 300 interval * 1000000

/-- `_advance`: the next due time, from now. -/
def advance (schedule : Schedule) (now : ℤ) : ℤ := now + period schedule.intervalSeconds

/-- `list(value)`. -/
def listOf : Json → Except DispatchError (List Json)
  | .list items => .ok items
  | .str s => .ok (s.map fun c => .str [c])
  | .dict entries => .ok (entries.map fun e => .str e.1)
  | _ => .error .typeError

/-- A key of a dictionary, as JSON writes it; a list or a dictionary cannot be one. -/
def keyOf : Json → Except DispatchError Str
  | .str s => .ok s
  | .number text => .ok text
  | .bool b => .ok (if b then "true" else "false")
  | .null => .ok "null"
  | _ => .error .typeError

/-- What `dict` takes for a key and its value: a sequence of length two. -/
def pairOf (item : Json) : Except DispatchError (Str × Json) := do
  match ← listOf item with
  | [k, v] => return (← keyOf k, v)
  | _ => .error (.valueError "dictionary update sequence element has the wrong length")

/-- `dict(value)`. -/
def dictOf : Json → Except DispatchError Json.Dict
  | .dict entries => .ok entries
  | value => do
    let pairs ← (← listOf value).mapM pairOf
    return pairs.foldl (fun d pair => Json.put pair.1 pair.2 d) []

/-- `settings.get(key) or value`. -/
def setting (schedule : Schedule) (key : Str) (value : Json) : Json :=
  Triage.orElse ((Json.get schedule.settings key).getD .null) value

/-- What a scan schedule without engines runs. -/
def defaultEngines : Json :=
  .list [.str "secrets", .str "sast", .str "sca"]

/-- The scan of a schedule. -/
def scanRow (schedule : Schedule) (asset : Asset) (engines : List Json) : Row :=
  .scan
    { id := w.newId schedule.id, tenantId := schedule.tenantId, customerId := asset.customerId
      assetId := asset.id, trigger := "schedule", status := "queued"
      requestedEngines := engines }

/-- The discovery run of a schedule. -/
def discoveryRow (schedule : Schedule) (seeds : Json.Dict) : Row :=
  .discovery
    { id := w.newId schedule.id, tenantId := schedule.tenantId, customerId := schedule.customerId
      scopeId := schedule.targetId, status := "queued", trigger := "schedule", seeds }

/-- `_publish`. -/
def publish (schedule : Schedule) (now : ℤ) (task : Str) (rowId : ℕ) : Sweeping Unit :=
  if w.sends schedule.id then
    act (· ++ [⟨schedule.id, now, .enqueued ⟨task, rowId⟩ schedule.intervalSeconds⟩])
  else raise .publish

/-- The row goes to the database, and its message to the broker. -/
def launch (schedule : Schedule) (now : ℤ) (task : Str) (row : Row) : Sweeping Unit := do
  add (.insert row)
  flush (apply w)
  publish w schedule now task row.id

/-- `session.get(Asset, target_id)`. -/
def getAsset (schedule : Schedule) (target : ℕ) : Sweeping (Option Asset) :=
  query fun db => if w.answers schedule.id then some (rowOf Asset.id target db.assets) else none

/-- **`_dispatch`**: the row of a run, and its message. -/
def dispatch (schedule : Schedule) (now : ℤ) : Sweeping Unit := do
  if schedule.kind = "scan" then
    match schedule.targetId with
    | none => raise (.valueError "scan schedule has no asset")
    | some target =>
      match ← getAsset w schedule target with
      | none => raise (.valueError "scan schedule target is missing or not in this tenant")
      | some asset =>
        if asset.tenantId ≠ schedule.tenantId then
          raise (.valueError "scan schedule target is missing or not in this tenant")
        else
          let engines ← Effect.ofExcept
            ((listOf (setting schedule "engines" defaultEngines)).mapError .raised)
          launch w schedule now "guardian.run_scan" (scanRow w schedule asset engines)
  else if schedule.kind = "discovery" then
    let seeds ← Effect.ofExcept
      ((dictOf (setting schedule "seeds" (.dict []))).mapError .raised)
    launch w schedule now "guardian.run_discovery" (discoveryRow w schedule seeds)
  else raise (.valueError ("unknown schedule kind: " ++ schedule.kind))

/-! ### The sweep -/

/-- What a sweep counts. -/
structure Counts where
  enqueued : ℕ
  failed : ℕ
  disabled : ℕ
  deriving DecidableEq

/-- The slot is claimed before anything is enqueued. -/
def Schedule.claimed (schedule : Schedule) (now : ℤ) : Schedule :=
  { schedule with nextRunAt := advance schedule now, lastRunAt := some now }

/-- What a dispatch that succeeds makes of its schedule. -/
def Schedule.succeeded (schedule : Schedule) : Schedule :=
  { schedule with lastStatus := some "queued", consecutiveFailures := 0 }

/-- What a dispatch that fails makes of its schedule. -/
def Schedule.failed (schedule : Schedule) : Schedule :=
  let failures := schedule.consecutiveFailures + 1
  { schedule with
    lastStatus := some "failed"
    consecutiveFailures := failures
    enabled := if maxConsecutiveFailures ≤ failures then false else schedule.enabled }

/-- **A round of the sweep.**  What the dispatch raises is caught; what the handler raises is not,
and it reads the counter of its schedule from the session. -/
def sweepOne (now : ℤ) (schedule : Schedule) (counts : Counts) : Sweeping Counts := do
  let schedule := schedule.claimed now
  add (.update schedule)
  match ← Effect.attempt (dispatch w schedule now) with
  | .ok _ =>
    add (.update schedule.succeeded)
    return { counts with enqueued := counts.enqueued + 1 }
  | .error _ =>
    act (· ++ [⟨schedule.id, now, .failed⟩])
    touch
    add (.update schedule.failed)
    let disabled := if maxConsecutiveFailures ≤ schedule.failed.consecutiveFailures then 1 else 0
    return { counts with failed := counts.failed + 1, disabled := counts.disabled + disabled }

/-- The rounds, one after the other. -/
def sweepEach (now : ℤ) : List Schedule → Counts → Sweeping Counts
  | [], counts => pure counts
  | schedule :: due, counts => do
    let counts ← sweepOne w now schedule counts
    sweepEach now due counts

/-- The schedule can be claimed by a sweep. -/
def Schedule.Due (schedule : Schedule) (now : ℤ) : Prop :=
  schedule.enabled = true ∧ schedule.nextRunAt ≤ now

instance (schedule : Schedule) (now : ℤ) : Decidable (schedule.Due now) := by
  unfold Schedule.Due
  infer_instance

/-- The schedules of a sweep: the ones that are due and that no other sweep has locked, the longest
due first, `limit` of them at most. -/
def dueSchedules (locked : ℕ → Bool) (limit : ℕ) (now : ℤ) (rows : List Schedule) :
    List Schedule :=
  ((rows.filter fun r => decide (r.Due now) && !locked r.id).insertionSort
    fun a b => a.nextRunAt ≤ b.nextRunAt).take limit

/-- `sweep_schedules`, over the schedules that it has selected. -/
def sweepOver (now : ℤ) (due : List Schedule) : Sweeping Counts :=
  scope (apply w) (sweepEach w now due ⟨0, 0, 0⟩)

/-- **`sweep_schedules`**. -/
def sweepSchedules (locked : ℕ → Bool) (limit : ℕ) (now : ℤ) : Sweeping Counts :=
  scope (apply w) do
    let due ← query fun db => some (dueSchedules locked limit now db.schedules)
    sweepEach w now due ⟨0, 0, 0⟩

/-! ### What becomes of a dispatch -/

/-- What becomes of a dispatch: its run is published, the program raises (before or after its row is
inserted), or the database refuses a statement of the session. -/
inductive Verdict
  | queued (task : Str) (row : Row)
  | failed (row : Option Row)
  | broken

/-- What becomes of a row that goes to the database, and of its message. -/
def launched (db : Database) (schedule : Schedule) (task : Str) (row : Row) : Verdict :=
  if row.Refers db ∧ w.storable row then
    if w.sends schedule.id then .queued task row else .failed (some row)
  else .broken

/-- **What becomes of the dispatch of a schedule**, over the tables. -/
def verdict (db : Database) (schedule : Schedule) : Verdict :=
  if schedule.kind = "scan" then
    match schedule.targetId with
    | none => .failed none
    | some target =>
      if w.answers schedule.id then
        match rowOf Asset.id target db.assets with
        | none => .failed none
        | some asset =>
          if asset.tenantId ≠ schedule.tenantId then .failed none
          else
            match listOf (setting schedule "engines" defaultEngines) with
            | .error _ => .failed none
            | .ok engines =>
              launched w db schedule "guardian.run_scan" (scanRow w schedule asset engines)
      else .broken
  else if schedule.kind = "discovery" then
    match dictOf (setting schedule "seeds" (.dict [])) with
    | .error _ => .failed none
    | .ok seeds =>
      launched w db schedule "guardian.run_discovery" (discoveryRow w schedule seeds)
  else .failed none

/-- The rows that a dispatch leaves in the session. -/
def Verdict.rows : Verdict → List Row
  | .queued _ row => [row]
  | .failed row => row.toList
  | .broken => []

/-- What a dispatch makes of its schedule. -/
def Verdict.mark (schedule : Schedule) : Verdict → Schedule
  | .queued _ _ => schedule.succeeded
  | _ => schedule.failed

/-- What happens to a schedule in its dispatch. -/
def Verdict.entry (schedule : Schedule) (now : ℤ) : Verdict → Entry
  | .queued task row =>
    ⟨schedule.id, now, .enqueued ⟨task, row.id⟩ schedule.intervalSeconds⟩
  | _ => ⟨schedule.id, now, .failed⟩

/-- Writes over the row of a schedule. -/
def Database.putSchedule (db : Database) (schedule : Schedule) : Database :=
  { db with schedules := db.schedules.map fun r => if r.id = schedule.id then schedule else r }

/-- **What a round settles**, over the tables. -/
def settle (now : ℤ) (db : Database) (schedule : Schedule) : Database :=
  let outcome := verdict w db schedule
  { db with runs := db.runs ++ outcome.rows }.putSchedule (outcome.mark (schedule.claimed now))

/-- The database refuses the lookup or the row of the schedule's dispatch. -/
def Breaks (db : Database) (schedule : Schedule) : Prop := verdict w db schedule = .broken

/-! ### One dispatch -/

/-- The tables that a sweep only refers to are the same. -/
structure Database.Alike (db db' : Database) : Prop where
  tenants : db.tenants = db'.tenants
  customers : db.customers = db'.customers
  scopes : db.scopes = db'.scopes
  assets : db.assets = db'.assets

theorem Database.Alike.trans {a b c : Database} (hab : a.Alike b) (hbc : b.Alike c) : a.Alike c :=
  ⟨hab.tenants.trans hbc.tenants, hab.customers.trans hbc.customers, hab.scopes.trans hbc.scopes,
    hab.assets.trans hbc.assets⟩

theorem Database.Alike.symm {a b : Database} (h : a.Alike b) : b.Alike a :=
  ⟨h.tenants.symm, h.customers.symm, h.scopes.symm, h.assets.symm⟩

variable {w} {db db' : Database} {schedule : Schedule} {now : ℤ}

theorem refers_congr (h : db.Alike db') (row : Row) : row.Refers db ↔ row.Refers db' := by
  unfold Row.Refers
  rw [h.tenants, h.customers, h.scopes, h.assets]

theorem verdict_congr (h : db.Alike db') : verdict w db schedule = verdict w db' schedule := by
  have hlaunched : ∀ task row, launched w db schedule task row =
      launched w db' schedule task row := by
    intro task row
    unfold launched
    simp only [refers_congr h]
  unfold verdict
  simp only [hlaunched, h.assets]

theorem alike_apply {write : Write} (h : apply w write db = some db') : db.Alike db' := by
  cases write with
  | insert row =>
    simp only [apply] at h
    split_ifs at h
    cases h
    exact ⟨rfl, rfl, rfl, rfl⟩
  | update schedule =>
    cases h
    exact ⟨rfl, rfl, rfl, rfl⟩

theorem alike_foldlM {writes : List Write}
    (h : writes.foldlM (fun db write => apply w write db) db = some db') : db.Alike db' := by
  induction writes generalizing db with
  | nil =>
    cases h
    exact ⟨rfl, rfl, rfl, rfl⟩
  | cons write writes ih =>
    rw [foldlM_cons] at h
    rcases hw : apply w write db with _ | mid
    · rw [hw] at h
      cases h
    · rw [hw] at h
      exact (alike_apply hw).trans (ih h)

/-- **How a dispatch ends**, in a session that stands for the tables. -/
def Fate (now : ℤ) (schedule : Schedule) (db : Database)
    (s : UnitOfWork Database Write (List Entry)) :
    Verdict → Except (Raise DispatchError) Unit × UnitOfWork Database Write (List Entry) → Prop
  | .queued task row, (r, t) => r = .ok () ∧
      Holds (apply w) { db with runs := db.runs ++ [row] } t ∧
      t.outside = s.outside ++ [Verdict.entry schedule now (.queued task row)]
  | .failed row, (r, t) => (∃ e, r = .error e) ∧
      Holds (apply w) { db with runs := db.runs ++ row.toList } t ∧ t.outside = s.outside
  | .broken, (r, t) => (∃ e, r = .error e) ∧ t.phase ≠ .active

variable {s : UnitOfWork Database Write (List Entry)}

theorem fate_launch (h : Holds (apply w) db s) (task : Str) (row : Row) :
    Fate (w := w) now schedule db s (launched w db schedule task row)
      (launch w schedule now task row s) := by
  have hadd : (add (.insert row) s : Except (Raise DispatchError) Unit × _) =
      (.ok (), { s with pending := s.pending ++ [.insert row] }) := rfl
  unfold launch launched
  rw [Effect.bind_ok hadd]
  by_cases hrow : row.Refers db ∧ w.storable row
  · rw [if_pos hrow]
    have happly : apply w (.insert row) db = some { db with runs := db.runs ++ [row] } := by
      simp only [apply]
      rw [if_pos hrow]
    have hinserted := h.add happly
    rw [Effect.bind_ok hinserted.flush]
    have hflushed := holds_flushed hinserted
    unfold publish
    by_cases hsend : w.sends schedule.id
    · rw [if_pos hsend, if_pos hsend]
      exact ⟨rfl, hflushed.act _, rfl⟩
    · rw [if_neg hsend, if_neg hsend]
      exact ⟨⟨_, rfl⟩, hflushed, rfl⟩
  · rw [if_neg hrow]
    have happly : apply w (.insert row) db = none := by
      simp only [apply]
      rw [if_neg hrow]
    rw [Effect.bind_apply, h.flush_refused happly]
    exact ⟨⟨_, rfl⟩, fun hphase => by cases hphase⟩

theorem fate_raise (h : Holds (apply w) db s) (e : DispatchError) :
    Fate (w := w) now schedule db s (.failed none) (raise e s) := by
  refine ⟨⟨_, rfl⟩, ?_, rfl⟩
  rw [Option.toList_none, append_nil]
  exact h

/-- **What a dispatch does** is what its verdict says. -/
theorem fate_dispatch (schedule : Schedule) (now : ℤ) (h : Holds (apply w) db s) :
    Fate (w := w) now schedule db s (verdict w db schedule) (dispatch w schedule now s) := by
  have hassets : s.written.assets = db.assets := (alike_foldlM h.writes).assets
  unfold dispatch verdict
  by_cases hscan : schedule.kind = "scan"
  · rw [if_pos hscan, if_pos hscan]
    rcases htarget : schedule.targetId with _ | target
    · exact fate_raise h _
    dsimp only
    by_cases hanswer : w.answers schedule.id
    · rw [if_pos hanswer]
      have hget : getAsset w schedule target s =
          (.ok (rowOf Asset.id target db.assets), s) := by
        refine h.query ?_
        rw [if_pos hanswer, hassets]
      rw [Effect.bind_ok hget]
      rcases hasset : rowOf Asset.id target db.assets with _ | asset
      · exact fate_raise h _
      dsimp only
      by_cases htenant : asset.tenantId ≠ schedule.tenantId
      · rw [if_pos htenant, if_pos htenant]
        exact fate_raise h _
      rw [if_neg htenant, if_neg htenant]
      rcases hlist : listOf (setting schedule "engines" defaultEngines) with e | engines
      · exact fate_raise h e
      · exact fate_launch h _ _
    · rw [if_neg hanswer]
      have hget : getAsset w schedule target s =
          (.error .refused, { s with phase := .aborted }) := by
        refine h.query_refused ?_
        rw [if_neg hanswer]
      rw [Effect.bind_apply, hget]
      exact ⟨⟨_, rfl⟩, fun hphase => by cases hphase⟩
  · rw [if_neg hscan, if_neg hscan]
    by_cases hdiscovery : schedule.kind = "discovery"
    · rw [if_pos hdiscovery, if_pos hdiscovery]
      rcases hdict : dictOf (setting schedule "seeds" (.dict [])) with e | seeds
      · exact fate_raise h e
      · exact fate_launch h _ _
    · rw [if_neg hdiscovery, if_neg hdiscovery]
      exact fate_raise h _

theorem keeps_launch (task : Str) (row : Row) :
    Keeps (apply w) (launch w schedule now task row) := by
  refine (keeps_add _ _).bind fun _ => (keeps_flush _).bind fun _ => ?_
  exact keeps_ite _ (keeps_act _ _) (keeps_raise _ _)

theorem keeps_dispatch : Keeps (apply w) (dispatch w schedule now) := by
  unfold dispatch
  refine keeps_ite _ ?_ (keeps_ite _ ?_ (keeps_raise _ _))
  · split
    · exact keeps_raise _ _
    · refine (keeps_query _ _).bind fun asset => ?_
      split
      · exact keeps_raise _ _
      · exact keeps_ite _ (keeps_raise _ _) ((keeps_ofExcept _ _).bind fun _ => keeps_launch _ _)
  · exact (keeps_ofExcept _ _).bind fun _ => keeps_launch _ _

/-! ### One round -/

variable {counts : Counts}

theorem keeps_sweepOne : Keeps (apply w) (sweepOne w now schedule counts) := by
  refine (keeps_add _ _).bind fun _ => keeps_dispatch.attempt.bind fun x => ?_
  rcases x with e | u
  · exact (keeps_act _ _).bind fun _ => (keeps_touch _).bind fun _ => (keeps_add _ _).bind fun _ =>
      keeps_pure _ _
  · exact (keeps_add _ _).bind fun _ => keeps_pure _ _

theorem keeps_sweepEach (due : List Schedule) (counts : Counts) :
    Keeps (apply w) (sweepEach w now due counts) := by
  induction due generalizing counts with
  | nil => exact keeps_pure _ _
  | cons schedule due ih => exact keeps_sweepOne.bind fun counts => ih counts

theorem alike_putSchedule {a : Schedule} : db.Alike (db.putSchedule a) := ⟨rfl, rfl, rfl, rfl⟩

theorem alike_settle : db.Alike (settle w now db schedule) := ⟨rfl, rfl, rfl, rfl⟩

theorem verdict_settle (r : Schedule) : verdict w (settle w now db schedule) r = verdict w db r :=
  verdict_congr alike_settle.symm

theorem putSchedule_putSchedule (db : Database) {a b : Schedule} (h : a.id = b.id) :
    (db.putSchedule a).putSchedule b = db.putSchedule b := by
  unfold Database.putSchedule
  simp only [map_map]
  congr 1
  refine map_congr_left fun r _ => ?_
  by_cases hr : r.id = b.id
  · simp [hr, h]
  · simp [hr, h]

theorem mark_id (outcome : Verdict) : (outcome.mark schedule).id = schedule.id := by
  cases outcome <;> rfl

/-- **How the dispatch of a claimed schedule ends**: the claim does not change its fate. -/
theorem fate_claimed (schedule : Schedule) (now : ℤ) (h : Holds (apply w) db s) :
    Fate (w := w) now (schedule.claimed now) (db.putSchedule (schedule.claimed now))
      { s with pending := s.pending ++ [.update (schedule.claimed now)] } (verdict w db schedule)
      (dispatch w (schedule.claimed now) now
        { s with pending := s.pending ++ [.update (schedule.claimed now)] }) := by
  have hclaimed : Holds (apply w) (db.putSchedule (schedule.claimed now))
      { s with pending := s.pending ++ [.update (schedule.claimed now)] } := h.add rfl
  have hfate := fate_dispatch (schedule.claimed now) now hclaimed
  have hverdict : verdict w (db.putSchedule (schedule.claimed now)) (schedule.claimed now) =
      verdict w db schedule := verdict_congr alike_putSchedule.symm
  rwa [hverdict] at hfate

/-- **A round whose dispatch does not break the session** settles its schedule. -/
theorem sweepOne_ok (now : ℤ) (counts : Counts) (h : Holds (apply w) db s)
    (hbreak : ¬ Breaks w db schedule) :
    ∃ counts' t, sweepOne w now schedule counts s = (.ok counts', t) ∧
      Holds (apply w) (settle w now db schedule) t ∧
      t.outside = s.outside ++ [(verdict w db schedule).entry schedule now] := by
  have hadd : (add (.update (schedule.claimed now)) s : Except (Raise DispatchError) Unit × _) =
      (.ok (), { s with pending := s.pending ++ [.update (schedule.claimed now)] }) := rfl
  have hfate := fate_claimed schedule now h
  unfold sweepOne settle
  dsimp only
  rw [Effect.bind_ok hadd]
  unfold Breaks at hbreak
  rcases hrun : dispatch w (schedule.claimed now) now
      { s with pending := s.pending ++ [.update (schedule.claimed now)] } with ⟨r, t⟩
  rw [hrun] at hfate
  have hattempt : Effect.attempt (dispatch w (schedule.claimed now) now)
      { s with pending := s.pending ++ [.update (schedule.claimed now)] } = (.ok r, t) := by
    unfold Effect.attempt
    rw [hrun]
  rw [Effect.bind_ok hattempt]
  rcases hv : verdict w db schedule with ⟨task, row⟩ | row | _
  · rw [hv] at hfate
    obtain ⟨rfl, hholds, hout⟩ := hfate
    refine ⟨_, _, rfl, ?_, hout⟩
    have hmark := hholds.add (w := .update (schedule.claimed now).succeeded) rfl
    refine Eq.subst (motive := fun d => Holds (apply w) d _) ?_ hmark
    exact putSchedule_putSchedule { db with runs := db.runs ++ [row] } rfl
  · rw [hv] at hfate
    obtain ⟨⟨e, rfl⟩, hholds, hout⟩ := hfate
    have hact : (act (· ++ [⟨(schedule.claimed now).id, now, .failed⟩]) t :
        Except (Raise DispatchError) Unit × _) = (.ok (), { t with outside :=
          t.outside ++ [⟨(schedule.claimed now).id, now, .failed⟩] }) := rfl
    have hnoted := hholds.act (t.outside ++ [⟨(schedule.claimed now).id, now, .failed⟩])
    dsimp only
    rw [Effect.bind_ok hact, Effect.bind_ok hnoted.touch]
    refine ⟨_, _, rfl, ?_, ?_⟩
    · have hmark := hnoted.add (w := .update (schedule.claimed now).failed) rfl
      refine Eq.subst (motive := fun d => Holds (apply w) d _) ?_ hmark
      exact putSchedule_putSchedule { db with runs := db.runs ++ row.toList } rfl
    · change t.outside ++ [_] = _
      rw [hout]
      rfl
  · exact absurd hv hbreak

/-- **A round whose dispatch breaks the session** is lost, and the sweep with it. -/
theorem sweepOne_lost (h : Holds (apply w) db s) (hbreak : Breaks w db schedule) :
    Lost (apply w) (sweepOne w now schedule counts) s := by
  have hadd : (add (.update (schedule.claimed now)) s : Except (Raise DispatchError) Unit × _) =
      (.ok (), { s with pending := s.pending ++ [.update (schedule.claimed now)] }) := rfl
  have hfate := fate_claimed schedule now h
  rw [show verdict w db schedule = .broken from hbreak] at hfate
  refine lost_bind_right hadd (Lost.bind (Or.inr (hopeless_of_phase _ hfate.2)) fun x => ?_)
  rcases x with e | u
  · exact (keeps_act _ _).bind fun _ => (keeps_touch _).bind fun _ => (keeps_add _ _).bind fun _ =>
      keeps_pure _ _
  · exact (keeps_add _ _).bind fun _ => keeps_pure _ _

/-! ### All rounds -/

/-- What the rounds settle, one after the other. -/
def settleAll (w : World) (now : ℤ) (due : List Schedule) (db : Database) : Database :=
  due.foldl (settle w now) db

theorem breaks_congr (h : db.Alike db') : Breaks w db schedule ↔ Breaks w db' schedule := by
  unfold Breaks
  rw [verdict_congr h]

/-- **Rounds none of which breaks the session** settle their schedules. -/
theorem sweepEach_ok {due : List Schedule} (now : ℤ) (counts : Counts) (h : Holds (apply w) db s)
    (hbreak : ∀ r ∈ due, ¬ Breaks w db r) :
    ∃ counts' t, sweepEach w now due counts s = (.ok counts', t) ∧
      Holds (apply w) (settleAll w now due db) t ∧
      t.outside = s.outside ++ due.map fun r => (verdict w db r).entry r now := by
  induction due generalizing db s counts with
  | nil => exact ⟨counts, s, rfl, h, (append_nil _).symm⟩
  | cons schedule due ih =>
    obtain ⟨counts', t, hrun, hholds, hout⟩ :=
      sweepOne_ok now counts h (hbreak schedule mem_cons_self)
    have halike : db.Alike (settle w now db schedule) := alike_settle
    obtain ⟨counts'', u, hrest, hholds', hout'⟩ := ih counts' hholds fun r hr =>
      (breaks_congr halike).not.mp (hbreak r (mem_cons_of_mem _ hr))
    refine ⟨counts'', u, ?_, hholds', ?_⟩
    · rw [sweepEach, Effect.bind_ok hrun, hrest]
    · rw [hout', hout, append_assoc, map_cons]
      simp only [verdict_settle, singleton_append]

theorem sweepEach_lost {due : List Schedule} (h : Holds (apply w) db s)
    (hbreak : ∃ r ∈ due, Breaks w db r) : Lost (apply w) (sweepEach w now due counts) s := by
  induction due generalizing db s counts with
  | nil => simp at hbreak
  | cons schedule due ih =>
    by_cases hfirst : Breaks w db schedule
    · exact (sweepOne_lost h hfirst).bind fun counts => keeps_sweepEach due counts
    · obtain ⟨counts', t, hrun, hholds, -⟩ :=
        sweepOne_ok now counts h hfirst
      refine lost_bind_right hrun (ih hholds ?_)
      obtain ⟨r, hr, hbr⟩ := hbreak
      rcases mem_cons.mp hr with rfl | hr
      · exact absurd hbr hfirst
      · exact ⟨r, hr, (breaks_congr alike_settle).mp hbr⟩

/-- **What a sweep stores**: what its rounds settle, or nothing if one of them breaks the session.
-/
theorem sweep_stored (now : ℤ) (db : Database) (due : List Schedule) (log : List Entry) :
    ((∀ r ∈ due, ¬ Breaks w db r) →
      (sweepOver w now due (opened db log)).2 =
        opened (settleAll w now due db)
          (log ++ due.map fun r => (verdict w db r).entry r now)) ∧
    ((∃ r ∈ due, Breaks w db r) →
      (sweepOver w now due (opened db log)).2.stored = db) := by
  have hopened : Holds (apply w) db (opened db log) := holds_opened _ _ _
  constructor
  · intro hbreak
    obtain ⟨counts', t, hrun, hholds, hout⟩ :=
      sweepEach_ok now ⟨0, 0, 0⟩ hopened hbreak
    unfold sweepOver
    rw [scope_ok hrun hholds, hout]
    rfl
  · intro hbreak
    exact scope_stored_of_lost (keeps_sweepEach _ _) (sweepEach_lost hopened hbreak)

/-! ### One schedule among the others -/

/-- The schedules of a sweep: rows of the table that are due, each of them once. -/
structure Selected (now : ℤ) (db : Database) (due : List Schedule) : Prop where
  keys : (db.schedules.map (·.id)).Nodup
  nodup : (due.map (·.id)).Nodup
  rows : ∀ r ∈ due, r ∈ db.schedules
  due : ∀ r ∈ due, r.Due now

theorem selected_dueSchedules {locked : ℕ → Bool} {limit : ℕ}
    (hkeys : (db.schedules.map (·.id)).Nodup) :
    Selected now db (dueSchedules locked limit now db.schedules) := by
  have hsub : ∀ r ∈ dueSchedules locked limit now db.schedules,
      r ∈ db.schedules ∧ r.Due now := by
    intro r hr
    have hsorted := mem_of_mem_take hr
    rw [mem_insertionSort, mem_filter, Bool.and_eq_true, decide_eq_true_eq] at hsorted
    exact ⟨hsorted.1, hsorted.2.1⟩
  refine ⟨hkeys, ?_, fun r hr => (hsub r hr).1, fun r hr => (hsub r hr).2⟩
  have hfilter : ((db.schedules.filter fun r => decide (r.Due now) && !locked r.id).map
      (·.id)).Nodup := hkeys.sublist (filter_sublist.map _)
  have hperm := (perm_insertionSort (fun a b : Schedule => a.nextRunAt ≤ b.nextRunAt)
    (db.schedules.filter fun r => decide (r.Due now) && !locked r.id)).map (·.id)
  exact (hperm.nodup_iff.mpr hfilter).sublist ((take_sublist _ _).map _)

theorem sweepSchedules_eq (locked : ℕ → Bool) (limit : ℕ) (log : List Entry) :
    sweepSchedules w locked limit now (opened db log) =
      sweepOver w now (dueSchedules locked limit now db.schedules) (opened db log) := rfl

/-- The schedules of a sweep that nothing but their own dispatch could stop: their runs are to be
inserted and published. -/
def Enqueues (w : World) (db : Database) (schedule : Schedule) (task : Str) (row : Row) : Prop :=
  verdict w db schedule = .queued task row

/-- **A sweep whose dispatches leave each other alone.**  What could be enqueued is: its run is
stored, its message published, and its counter is that of a schedule that has not failed. -/
structure Undisturbed (w : World) (now : ℤ) (db : Database) (due : List Schedule)
    (s : UnitOfWork Database Write (List Entry)) : Prop where
  persisted : ∀ r ∈ due, ∀ task row, Enqueues w db r task row → row ∈ s.stored.runs
  published : ∀ r ∈ due, ∀ task row, Enqueues w db r task row →
    ⟨r.id, now, .enqueued ⟨task, row.id⟩ r.intervalSeconds⟩ ∈ s.outside
  uncounted : ∀ r ∈ due, ∀ task row, Enqueues w db r task row →
    ∀ r' ∈ rowOf Schedule.id r.id s.stored.schedules,
      r'.consecutiveFailures ≤ r.consecutiveFailures
  counted : ∀ r ∈ due, ∀ r' ∈ rowOf Schedule.id r.id s.stored.schedules,
    r'.consecutiveFailures ≤ r.consecutiveFailures + 1
  others : ∀ k, k ∉ due.map (·.id) →
    rowOf Schedule.id k s.stored.schedules = rowOf Schedule.id k db.schedules

theorem rowOf_putSchedule (a : Schedule) (k : ℕ) :
    rowOf Schedule.id k (db.putSchedule a).schedules =
      (rowOf Schedule.id k db.schedules).map fun r => if k = a.id then a else r := by
  unfold Database.putSchedule rowOf
  dsimp only
  induction db.schedules with
  | nil => rfl
  | cons r rows ih =>
    rw [map_cons]
    by_cases hr : r.id = a.id
    · rw [if_pos hr]
      by_cases hk : a.id = k
      · simp [hk, hr]
      · rw [find?_cons_of_neg (by simpa using hk),
          find?_cons_of_neg (by simpa [hr] using hk), ih]
    · rw [if_neg hr]
      by_cases hk : r.id = k
      · have hak : k ≠ a.id := fun h => hr (hk.trans h)
        simp [hk, hak]
      · rw [find?_cons_of_neg (by simpa using hk),
          find?_cons_of_neg (by simpa using hk), ih]

theorem rowOf_settle (k : ℕ) :
    rowOf Schedule.id k (settle w now db schedule).schedules =
      (rowOf Schedule.id k db.schedules).map fun r =>
        if k = schedule.id then (verdict w db schedule).mark (schedule.claimed now) else r := by
  unfold settle
  rw [rowOf_putSchedule, mark_id]
  rfl

theorem rowOf_settleAll_of_notMem {due : List Schedule} {k : ℕ} (hk : k ∉ due.map (·.id)) :
    rowOf Schedule.id k (settleAll w now due db).schedules = rowOf Schedule.id k db.schedules := by
  induction due generalizing db with
  | nil => rfl
  | cons schedule due ih =>
    rw [map_cons, mem_cons, not_or] at hk
    unfold settleAll at ih ⊢
    rw [foldl_cons, ih hk.2, rowOf_settle]
    simp [hk.1]

/-- **What the rounds make of a schedule** is what its own round makes of it. -/
theorem rowOf_settleAll {due : List Schedule} (hnodup : (due.map (·.id)).Nodup) {r : Schedule}
    (hr : r ∈ due) :
    rowOf Schedule.id r.id (settleAll w now due db).schedules =
      (rowOf Schedule.id r.id db.schedules).map fun _ =>
        (verdict w db r).mark (r.claimed now) := by
  induction due generalizing db with
  | nil => simp at hr
  | cons schedule due ih =>
    rw [map_cons, nodup_cons] at hnodup
    rcases mem_cons.mp hr with rfl | hr
    · change rowOf Schedule.id r.id (settleAll w now due (settle w now db r)).schedules = _
      rw [rowOf_settleAll_of_notMem hnodup.1, rowOf_settle]
      simp
    · have hne : r.id ≠ schedule.id := fun h => hnodup.1 (h ▸ mem_map_of_mem hr)
      change rowOf Schedule.id r.id (settleAll w now due (settle w now db schedule)).schedules = _
      rw [ih hnodup.2 hr, rowOf_settle, Option.map_map, verdict_settle]
      rfl

theorem runs_settleAll (due : List Schedule) :
    (settleAll w now due db).runs = db.runs ++ due.flatMap fun r => (verdict w db r).rows := by
  induction due generalizing db with
  | nil => exact (append_nil _).symm
  | cons schedule due ih =>
    change (settleAll w now due (settle w now db schedule)).runs = _
    rw [ih, flatMap_cons, ← append_assoc]
    simp only [verdict_settle]
    rfl

theorem rowOf_of_mem {rows : List Schedule} (hkeys : (rows.map (·.id)).Nodup) {r : Schedule}
    (hr : r ∈ rows) : rowOf Schedule.id r.id rows = some r :=
  (mem_iff_rowOf hkeys).mp hr

/-- The runs of a sweep get ids that no run has. -/
def Fresh (w : World) (db : Database) (due : List Schedule) : Prop :=
  ∀ r ∈ due, ∀ row ∈ db.runs, row.id ≠ w.newId r.id

theorem id_of_enqueues {task : Str} {row : Row} (h : Enqueues w db schedule task row) :
    row.id = w.newId schedule.id := by
  have hlaunched : ∀ task' row', launched w db schedule task' row' = .queued task row →
      row' = row := by
    intro task' row' hv
    unfold launched at hv
    split_ifs at hv
    cases hv
    rfl
  unfold Enqueues verdict at h
  repeat' split at h
  all_goals first
    | cases h
    | rw [← hlaunched _ _ h]; rfl

theorem failures_mark_le (outcome : Verdict) :
    (outcome.mark (schedule.claimed now)).consecutiveFailures ≤
      schedule.consecutiveFailures + 1 := by
  rcases outcome with _ | _ | _
  · exact Nat.zero_le _
  · exact le_rfl
  · exact le_rfl

/-- **A sweep that breaks in no round** leaves its schedules alone. -/
theorem undisturbed_of_unbroken {due : List Schedule} {log : List Entry}
    (hsel : Selected now db due) (hbreak : ∀ r ∈ due, ¬ Breaks w db r) :
    Undisturbed w now db due (sweepOver w now due (opened db log)).2 := by
  rw [(sweep_stored now db due log).1 hbreak]
  have hrow : ∀ r ∈ due, rowOf Schedule.id r.id (settleAll w now due db).schedules =
      some ((verdict w db r).mark (r.claimed now)) := by
    intro r hr
    rw [rowOf_settleAll hsel.nodup hr, rowOf_of_mem hsel.keys (hsel.rows r hr)]
    rfl
  refine ⟨fun r hr task row h => ?_, fun r hr task row h => ?_, fun r hr task row h r' hr' => ?_,
    fun r hr r' hr' => ?_, fun k hk => rowOf_settleAll_of_notMem hk⟩
  · change row ∈ (settleAll w now due db).runs
    rw [runs_settleAll, mem_append, mem_flatMap]
    refine Or.inr ⟨r, hr, ?_⟩
    rw [show verdict w db r = .queued task row from h]
    exact mem_singleton_self row
  · refine mem_append_right _ (mem_map.mpr ⟨r, hr, ?_⟩)
    rw [show verdict w db r = .queued task row from h]
    rfl
  · rw [show (opened (settleAll w now due db) _ : UnitOfWork Database Write _).stored =
      settleAll w now due db from rfl, hrow r hr,
      show verdict w db r = .queued task row from h] at hr'
    cases hr'
    exact Nat.zero_le _
  · rw [show (opened (settleAll w now due db) _ : UnitOfWork Database Write _).stored =
      settleAll w now due db from rfl, hrow r hr] at hr'
    cases hr'
    exact failures_mark_le _

/-- **When the dispatches of a sweep leave each other alone**: exactly if the database refuses none
of their lookups and rows, or none of them could have been enqueued. -/
theorem sweepOver_undisturbed_iff {due : List Schedule} {log : List Entry}
    (hsel : Selected now db due)
    (hfresh : Fresh w db due) :
    Undisturbed w now db due (sweepOver w now due (opened db log)).2 ↔
      (∀ r ∈ due, ¬ Breaks w db r) ∨ ∀ r ∈ due, ∀ task row, ¬ Enqueues w db r task row := by
  constructor
  · intro h
    by_contra hne
    rw [not_or] at hne
    obtain ⟨hbreak, henq⟩ := hne
    push Not at hbreak henq
    obtain ⟨r, hr, task, row, hq⟩ := henq
    have hmem := h.persisted r hr task row hq
    rw [(sweep_stored now db due log).2 hbreak] at hmem
    exact hfresh r hr row hmem (id_of_enqueues hq)
  · rintro (hbreak | henq)
    · exact undisturbed_of_unbroken hsel hbreak
    · by_cases hbreak : ∃ r ∈ due, Breaks w db r
      · have hstored := (sweep_stored now db due log).2 hbreak
        refine ⟨fun r hr task row hq => absurd hq (henq r hr task row),
          fun r hr task row hq => absurd hq (henq r hr task row),
          fun r hr task row hq => absurd hq (henq r hr task row), fun r hr r' hr' => ?_,
          fun k _ => by rw [hstored]⟩
        rw [hstored, rowOf_of_mem hsel.keys (hsel.rows r hr)] at hr'
        cases hr'
        exact Nat.le_succ _
      · push Not at hbreak
        exact undisturbed_of_unbroken hsel hbreak

end Sweep

/-! ### A run of a scope that is gone -/

namespace Sample

/-- The server answers, the broker takes every message, and the rows fit their columns. -/
def world : World where
  newId := id
  answers := fun _ => true
  sends := fun _ => true
  storable := fun _ => true

/-- A discovery schedule whose scope has been deleted. -/
def orphan : Schedule where
  id := 1
  tenantId := 1
  customerId := none
  kind := "discovery"
  targetId := some 9
  intervalSeconds := 86400
  enabled := true
  nextRunAt := 0
  lastRunAt := none
  lastStatus := none
  consecutiveFailures := 0
  settings := []

/-- A scan schedule whose asset is there. -/
def sound : Schedule where
  id := 2
  tenantId := 1
  customerId := some 1
  kind := "scan"
  targetId := some 5
  intervalSeconds := 3600
  enabled := true
  nextRunAt := 1
  lastRunAt := none
  lastStatus := none
  consecutiveFailures := 0
  settings := []

def tables : Database where
  tenants := [1]
  customers := [1]
  scopes := []
  assets := [⟨5, 1, 1⟩]
  schedules := [orphan, sound]
  runs := []

theorem selected_tables : Selected 10 tables [orphan, sound] := by
  refine ⟨by decide, by decide, fun r hr => hr, fun r hr => ?_⟩
  simp only [mem_cons, not_mem_nil, or_false] at hr
  rcases hr with rfl | rfl <;> decide

end Sample

open Sample

/-- **The run of a scope that is gone takes the scan after it down**: the scan could be enqueued,
but the sweep stores nothing. -/
theorem refused_then_dispatched :
    ¬ Undisturbed world 10 tables [orphan, sound]
      (sweepOver world 10 [orphan, sound] (opened tables [])).2 := by
  intro h
  have hbreak : ∃ r ∈ [orphan, sound], Breaks world tables r := ⟨orphan, by simp, rfl⟩
  obtain ⟨task, row, hq⟩ : ∃ task row, Enqueues world tables sound task row := ⟨_, _, rfl⟩
  have hmem := h.persisted sound (by simp) task row hq
  rw [(sweep_stored 10 tables [orphan, sound] []).2 hbreak] at hmem
  exact absurd hmem not_mem_nil

/-- The equivalence at that sweep. -/
theorem sweepOver_undisturbed_iff_sample :
    Undisturbed world 10 tables [orphan, sound]
        (sweepOver world 10 [orphan, sound] (opened tables [])).2 ↔
      (∀ r ∈ [orphan, sound], ¬ Breaks world tables r) ∨
        ∀ r ∈ [orphan, sound], ∀ task row, ¬ Enqueues world tables r task row :=
  sweepOver_undisturbed_iff selected_tables fun _ _ _ hrow => absurd hrow not_mem_nil

end Guardian.Scheduling

import Guardian.Intel.Advisories
import Guardian.Order.Table
import Guardian.Transition.Plan

/-!
# Runs of a feed

`runSource` fetches what a feed has changed since its watermark and stores it, in one session and
one transaction with the record of the run and the state of the feed.  What the fetch or the
ingestion raises is caught and recorded; what the database refuses takes the record down with it.
-/

namespace Guardian.Intel

open Python Guardian.Order Transition List
open Transition.UnitOfWork

variable (R : Runtime)

/-! ### The tables -/

/-- How far back the first run reaches: 730 days, in microseconds. -/
def firstSyncLookback : ℤ := 730 * 86400 * 1000000

/-- How far before the watermark a run starts: 30 minutes. -/
def overlap : ℤ := 30 * 60 * 1000000

/-- `FeedState`.  Instants are in microseconds. -/
structure FeedState where
  source : Str
  watermark : Option ℤ
  lastSuccessAt : Option ℤ
  lastAttemptAt : Option ℤ
  lastError : Option Str
  consecutiveFailures : ℕ
  recordsIngested : ℕ
  deriving DecidableEq

/-- The statuses of a `FeedSync`. -/
inductive SyncStatus
  | running | completed | failed
  deriving DecidableEq

/-- `FeedSync`.  The cursor is the start of the window. -/
structure FeedSync where
  source : Str
  cursor : ℤ
  status : SyncStatus
  startedAt : ℤ
  finishedAt : Option ℤ
  itemsIngested : ℕ
  itemsCreated : ℕ
  error : Option Str
  deriving DecidableEq

/-- **The tables** that a run reads and writes. -/
structure Database where
  states : List FeedState
  syncs : List FeedSync
  advisories : List Vulnerability

/-- A write of the session: a new row, or the columns of a row as they stand. -/
inductive Write
  | insertState (state : FeedState)
  | updateState (state : FeedState)
  | insertSync (sync : FeedSync)
  | updateSync (sync : FeedSync)
  | insertAdvisory (row : Vulnerability)
  | updateAdvisory (row : Vulnerability)

def Database.stateOf (db : Database) (source : Str) : Option FeedState :=
  rowOf FeedState.source source db.states

/-- The sync of a source and a cursor is there. -/
def Database.HasSync (db : Database) (source : Str) (cursor : ℤ) : Prop :=
  ∃ s ∈ db.syncs, s.source = source ∧ s.cursor = cursor

instance (db : Database) (source : Str) (cursor : ℤ) : Decidable (db.HasSync source cursor) := by
  unfold Database.HasSync
  infer_instance

/-- **A call of `run_source`**: the time, what the feed sends for a window, the time at its end; how
the database answers the lookup of the state and those of the records, and what is raised on them;
and which writes pass the constraints that are not keys. -/
structure Call where
  now : ℤ
  fetch : ℤ → ℤ → Except Str (List NormalizedVuln)
  finished : ℤ
  getState : Answer Str Unit
  ingest : ℕ → Answer Str Unit
  databaseError : Str
  storable : Write → Bool

/-! ### The run -/

section Execution

variable (w : Call)

/-- What the database makes of a write, if it does not refuse it: states have one row for a source,
syncs one for a source and a cursor, advisories one for an external id. -/
def apply (write : Write) (db : Database) : Option Database :=
  if w.storable write then
    match write with
    | .insertState state =>
      if state.source ∈ db.states.map (·.source) then none
      else some { db with states := db.states ++ [state] }
    | .updateState state =>
      some { db with
        states := db.states.map fun s => if s.source = state.source then state else s }
    | .insertSync sync =>
      if db.HasSync sync.source sync.cursor then none
      else some { db with syncs := db.syncs ++ [sync] }
    | .updateSync sync =>
      some { db with
        syncs := db.syncs.map fun s =>
          if s.source = sync.source ∧ s.cursor = sync.cursor then sync else s }
    | .insertAdvisory row =>
      if row.externalId ∈ db.advisories.map (·.externalId) then none
      else some { db with advisories := db.advisories ++ [row] }
    | .updateAdvisory row =>
      some { db with
        advisories := db.advisories.map fun v => if v.externalId = row.externalId then row else v }
  else none

/-- The columns of a new `FeedState`. -/
def freshState (source : Str) : FeedState := ⟨source, none, none, none, none, 0, 0⟩

/-- `window_for`. -/
def windowFor (state : FeedState) (now : ℤ) : ℤ × ℤ :=
  match state.watermark with
  | none => (now - firstSyncLookback, now)
  | some watermark => (watermark - overlap, now)

/-- What a run returns. -/
inductive Result
  | completed (seen created updated : ℕ)
  | failed (error : Str) (consecutiveFailures : ℕ)

/-- `str(exc)`. -/
def text : Raise Str → Str
  | .raised e => e
  | _ => w.databaseError

section Program

variable {M : Type → Type} [Monad M] (o : Operations Write Unit Str M)

/-- `get_state`. -/
def getState (source : Str) (db : Database) : M FeedState := do
  o.call w.getState
  match db.stateOf source with
  | some state => return state
  | none =>
    o.add (.insertState (freshState source))
    o.flush
    return freshState source

/-- The write of a record: a row for a new advisory, or the row that it changes. -/
def recordWrite (s : Session) (record : NormalizedVuln) : Option Write :=
  match s.rows.find? fun v => v.externalId == record.externalId with
  | none => some (.insertAdvisory (newVulnerability R record))
  | some existing =>
    if mergeChanged R existing record then some (.updateAdvisory (merge R existing record))
    else none

/-- `upsert_vulnerabilities`, from the record number `i` on. -/
def upsertFrom : ℕ → Session × Counts → List NormalizedVuln → M Counts
  | _, s, [] => pure s.2
  | i, s, record :: records =>
    if record.externalId = [] then upsertFrom (i + 1) s records
    else do
      o.call (w.ingest i)
      (recordWrite R s.1 record).toList.forM fun write => o.add write
      upsertFrom (i + 1) (upsertOne R s record) records

/-- `record_failure`. -/
def recordFailure (state : FeedState) (sync : FeedSync) (error : Str) : M Result := do
  o.add (.updateSync
    { sync with status := .failed, error := some (error.take 2000), finishedAt := some w.finished })
  o.add (.updateState
    { state with
      lastError := some (error.take 2000), consecutiveFailures := state.consecutiveFailures + 1 })
  return .failed (error.take 300) (state.consecutiveFailures + 1)

/-- What follows when nothing was raised. -/
def recordSuccess (state : FeedState) (sync : FeedSync) (untilTime : ℤ) (seen : ℕ)
    (counts : Counts) : M Result := do
  o.add (.updateSync
    { sync with
      status := .completed, itemsIngested := counts.created + counts.updated
      itemsCreated := counts.created, finishedAt := some w.finished })
  o.add (.updateState
    { state with
      watermark := some untilTime, lastSuccessAt := some w.now, lastError := none
      consecutiveFailures := 0
      recordsIngested := state.recordsIngested + counts.created + counts.updated })
  return .completed seen counts.created counts.updated

/-- The two `try` blocks of `run_source` and what follows them. -/
def syncWindow (state : FeedState) (sync : FeedSync) (window : ℤ × ℤ) (rows : List Vulnerability) :
    M Result :=
  match w.fetch window.1 window.2 with
  | .error e => recordFailure w o state sync e
  | .ok records => do
    match ← o.attempt (upsertFrom R w o 0 (⟨rows, []⟩, ⟨0, 0⟩) records) with
    | .error e => recordFailure w o state sync ("ingest failed: " ++ text w e)
    | .ok counts => recordSuccess w o state sync window.2 records.length counts

/-- **The body of `run_source`.** -/
def program (source : Str) (db : Database) : M Result := do
  let loaded ← getState w o source db
  let window := windowFor loaded w.now
  let sync : FeedSync := ⟨source, window.1, .running, w.now, none, 0, 0, none⟩
  o.add (.insertSync sync)
  o.flush
  let state := { loaded with lastAttemptAt := some w.now }
  o.add (.updateState state)
  syncWindow R w o state sync window db.advisories

end Program

/-- **`run_source`**: what it returns, and the session that it leaves. -/
def runSource (source : Str) (db : Database) :
    Except (Raise Str) Result × UnitOfWork Database Write (List Unit) :=
  scope (apply w) (program R w (inSession (apply w)) source db) (opened db [])

/-- **What a run is to write**, and how it ends if the database takes it all. -/
def planSource (source : Str) (db : Database) : Plan Write Unit Str Result :=
  program R w inPlan source db

variable {R w}

/-! ### A run follows its plan -/

theorem follows_getState (source : Str) (db : Database) :
    Follows (apply w) (getState w (inSession (apply w)) source db)
      (getState w inPlan source db) := by
  refine (follows_call _).bind fun _ => ?_
  cases db.stateOf source with
  | some state => exact follows_pure _
  | none => exact (follows_add _).bind fun _ => follows_flush.bind fun _ => follows_pure _

theorem follows_upsertFrom (i : ℕ) (s : Session × Counts) (records : List NormalizedVuln) :
    Follows (apply w) (upsertFrom R w (inSession (apply w)) i s records)
      (upsertFrom R w inPlan i s records) := by
  induction records generalizing i s with
  | nil => exact follows_pure _
  | cons record records ih =>
    refine follows_ite (ih _ _) ((follows_call _).bind fun _ => ?_)
    exact (follows_forM _ fun _ => follows_add _).bind fun _ => ih _ _

theorem follows_recordFailure (state : FeedState) (sync : FeedSync) (error : Str) :
    Follows (apply w) (recordFailure w (inSession (apply w)) state sync error)
      (recordFailure w inPlan state sync error) :=
  (follows_add _).bind fun _ => (follows_add _).bind fun _ => follows_pure _

theorem follows_recordSuccess (state : FeedState) (sync : FeedSync) (untilTime : ℤ) (seen : ℕ)
    (counts : Counts) :
    Follows (apply w) (recordSuccess w (inSession (apply w)) state sync untilTime seen counts)
      (recordSuccess w inPlan state sync untilTime seen counts) :=
  (follows_add _).bind fun _ => (follows_add _).bind fun _ => follows_pure _

theorem follows_syncWindow (state : FeedState) (sync : FeedSync) (window : ℤ × ℤ)
    (rows : List Vulnerability) :
    Follows (apply w) (syncWindow R w (inSession (apply w)) state sync window rows)
      (syncWindow R w inPlan state sync window rows) := by
  unfold syncWindow
  cases w.fetch window.1 window.2 with
  | error e => exact follows_recordFailure _ _ _
  | ok records =>
    refine (follows_upsertFrom _ _ _).attempt.bind fun x => ?_
    cases x with
    | error e => exact follows_recordFailure _ _ _
    | ok counts => exact follows_recordSuccess _ _ _ _ _

theorem follows_program (source : Str) (db : Database) :
    Follows (apply w) (program R w (inSession (apply w)) source db) (planSource R w source db) :=
  (follows_getState source db).bind fun _ => (follows_add _).bind fun _ =>
    follows_flush.bind fun _ => (follows_add _).bind fun _ => follows_syncWindow _ _ _ _

/-- **What a run stores** is what it is to write, or nothing. -/
theorem runSource_stored (source : Str) (db : Database) :
    (∀ d, (planSource R w source db).stores (apply w) db = some d →
      (runSource R w source db).2.stored = d) ∧
    ((planSource R w source db).stores (apply w) db = none →
      (runSource R w source db).2.stored = db) := by
  obtain ⟨hsome, hnone⟩ := scope_follows (follows_program (R := R) (w := w) source db)
    (holds_opened (apply w) db [])
  exact ⟨fun d hd => by rw [runSource, hsome d hd]; rfl, hnone⟩

/-! ### What a run writes -/

/-- The state that a run starts from. -/
def Database.loaded (db : Database) (source : Str) : FeedState :=
  (db.stateOf source).getD (freshState source)

def Database.window (db : Database) (source : Str) (now : ℤ) : ℤ × ℤ :=
  windowFor (db.loaded source) now

/-- The external id that a write inserts. -/
def insertedId : Write → Option Str
  | .insertAdvisory row => some row.externalId
  | _ => none

/-- A write to the advisories. -/
def OfAdvisories : Write → Prop
  | .insertAdvisory _ | .updateAdvisory _ => True
  | _ => False

variable (w) in
/-- The records that are ingested, from the number `i` on: those with an id, up to the first one on
which something is raised. -/
def ingested : ℕ → List NormalizedVuln → List NormalizedVuln
  | _, [] => []
  | i, record :: records =>
    if record.externalId = [] then ingested (i + 1) records
    else
      match w.ingest i with
      | .value _ => record :: ingested (i + 1) records
      | _ => []

def idsOf (rows : List Vulnerability) : List Str := rows.map (·.externalId)

theorem idsOf_upsertOne (s : Session × Counts) (record : NormalizedVuln) :
    idsOf (upsertOne R s record).1.rows = idsOf s.1.rows := by
  unfold upsertOne idsOf
  split_ifs
  · rfl
  · split
    · rfl
    · dsimp only
      rw [map_map]
      refine map_congr_left fun v _ => ?_
      rw [Function.comp_apply]
      split_ifs <;> rfl

theorem insertedId_recordWrite (s : Session) (record : NormalizedVuln) :
    (recordWrite R s record).toList.filterMap insertedId =
      if record.externalId ∈ idsOf s.rows then [] else [record.externalId] := by
  unfold recordWrite
  rcases hfind : s.rows.find? fun v => v.externalId == record.externalId with _ | existing
  · have hnone : record.externalId ∉ idsOf s.rows := by
      rw [find?_eq_none] at hfind
      intro hmem
      obtain ⟨v, hv, hid⟩ := mem_map.mp hmem
      exact hfind v hv (by simp [hid])
    rw [hfind, if_neg hnone]
    rfl
  · have hsome : record.externalId ∈ idsOf s.rows :=
      mem_map.mpr ⟨existing, mem_of_find?_eq_some hfind, by
        simpa using find?_some hfind⟩
    rw [hfind, if_pos hsome]
    dsimp only
    split_ifs <;> rfl

theorem ofAdvisories_recordWrite {s : Session} {record : NormalizedVuln} {write : Write}
    (h : write ∈ (recordWrite R s record).toList) : OfAdvisories write := by
  unfold recordWrite at h
  split at h
  · rw [mem_singleton.mp h]
    trivial
  · split_ifs at h
    · rw [mem_singleton.mp h]
      trivial
    · cases h

theorem forM_write (ws : List Write) :
    (ws.forM fun write => (inPlan : Operations Write Unit Str (Plan Write Unit Str)).add write) =
      ⟨ws, [], .value ⟨⟩⟩ := by
  induction ws with
  | nil => rfl
  | cons v ws ih =>
    change (Plan.write v >>= fun _ => ws.forM fun write => Plan.write write) = _
    change (ws.forM fun write => Plan.write write) = _ at ih
    rw [ih]
    rfl

/-- **What the ingestion writes**: rows of advisories, with the ids of the records that are not in
the table. -/
theorem writes_upsertFrom (i : ℕ) (s : Session × Counts) (records : List NormalizedVuln) :
    (∀ write ∈ (upsertFrom R w inPlan i s records).writes, OfAdvisories write) ∧
      (upsertFrom R w inPlan i s records).writes.filterMap insertedId =
        ((ingested w i records).map (·.externalId)).filter (· ∉ idsOf s.1.rows) ∧
      ((∀ i, w.ingest i ≠ .refused) → (upsertFrom R w inPlan i s records).answer ≠ .refused) := by
  induction records generalizing i s with
  | nil => exact ⟨fun _ h => (by cases h), rfl, fun _ h => (by cases h)⟩
  | cons record records ih =>
    rw [upsertFrom, ingested]
    by_cases hid : record.externalId = []
    · rw [if_pos hid, if_pos hid]
      exact ih _ _
    rw [if_neg hid, if_neg hid, forM_write]
    obtain ⟨hadv, hids, hanswer⟩ := ih (i + 1) (upsertOne R s record)
    rw [idsOf_upsertOne] at hids
    rcases hi : w.ingest i with u | e | _
    · have hplan : ((inPlan : Operations Write Unit Str (Plan Write Unit Str)).call (w.ingest i) >>=
          fun _ => (⟨(recordWrite R s.1 record).toList, [], .value ⟨⟩⟩ :
            Plan Write Unit Str PUnit) >>=
              fun _ => upsertFrom R w inPlan (i + 1) (upsertOne R s record) records) =
          ⟨(recordWrite R s.1 record).toList ++
            (upsertFrom R w inPlan (i + 1) (upsertOne R s record) records).writes,
            (upsertFrom R w inPlan (i + 1) (upsertOne R s record) records).notes,
            (upsertFrom R w inPlan (i + 1) (upsertOne R s record) records).answer⟩ := by
        rw [hi]
        rfl
      rw [hi] at hplan
      rw [hplan]
      refine ⟨fun write hw => ?_, ?_, hanswer⟩
      · rcases mem_append.mp hw with hw | hw
        · exact ofAdvisories_recordWrite hw
        · exact hadv write hw
      · dsimp only
        rw [filterMap_append, insertedId_recordWrite, hids, map_cons]
        by_cases hmem : record.externalId ∈ idsOf s.1.rows
        · rw [if_pos hmem, filter_cons_of_neg (by simpa using hmem)]
          rfl
        · rw [if_neg hmem, filter_cons_of_pos (by simpa using hmem)]
          rfl
    · exact ⟨fun _ h => (by cases h), rfl, fun _ h => (by cases h)⟩
    · exact ⟨fun _ h => (by cases h), rfl, fun h => absurd hi (h i)⟩

end Execution

end Guardian.Intel

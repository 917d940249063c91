import Guardian.Python.Text
import Guardian.Transition.Plan

/-!
# The execution of a scan

A worker that has claimed a scan runs its engines one after the other, in one session and one
transaction.  What an engine raises is caught and recorded on its run; what is raised outside of
that guard is caught as well, and recorded on the scan.  `ended_iff` says when a scan ends with
every error recorded.
-/

namespace Guardian.Scans

open Python Transition List
open Transition.UnitOfWork

/-! ### The tables -/

/-- `ScanStatus`. -/
inductive ScanStatus
  | queued | running | completed | partialScan | failed | canceled
  deriving DecidableEq

def ScanStatus.Terminal (s : ScanStatus) : Prop := s ≠ .queued ∧ s ≠ .running

instance (s : ScanStatus) : Decidable s.Terminal := by
  unfold ScanStatus.Terminal
  infer_instance

/-- The statuses of a `ScanEngineRun`. -/
inductive RunStatus
  | running | skipped | deferred | blocked | completed | failed
  deriving DecidableEq

/-- The columns of `scans` that an execution writes, without its times and counts. -/
structure Scan where
  status : ScanStatus
  error : Option Str
  deriving DecidableEq

/-- A row of `scan_engine_runs`. -/
structure ScanEngineRun where
  engine : Str
  status : RunStatus
  error : Option Str
  deriving DecidableEq

/-- The rows that an execution adds besides: findings with their proofs, an SBOM, audit entries,
usage. -/
inductive Row (F : Type)
  | finding (row : F)
  | sbom (row : F)
  | audit (action : Str) (engine : Option Str)
  | usage

/-- **What an execution sees of the database**: its scan, the runs of its scan, and what it adds. -/
structure Database (F : Type) where
  scan : Scan
  runs : List ScanEngineRun
  rows : List (Row F)

/-- A write of the session. -/
inductive Write (F : Type)
  | startRun (engine : Str)
  | endRun (engine : Str) (status : RunStatus) (error : Option Str)
  | endScan (status : ScanStatus) (error : Option Str)
  | row (row : Row F)

/-! ### What an execution meets -/

/-- What an execution reads of an engine. -/
structure Engine where
  needsAuthorization : Bool
  supports : Bool

/-- `safescan.Verdict`. -/
structure Verdict where
  allowed : Bool
  action : Str
  reason : Str

/-- `authz.Decision`. -/
structure Decision where
  allowed : Bool
  reason : Str

/-- **What the calls of an execution answer**, engine by engine, and which writes pass the
constraints other than `uq_engine_run_scan_engine`. -/
structure World (F : Type) where
  known : Answer Str Unit
  materialize : Answer Str Unit
  getEngine : Str → Answer Str (Option Engine)
  safeScan : Str → Answer Str Verdict
  ownerDirect : Bool
  authorized : Str → Answer Str Decision
  workspace : Answer Str Bool
  context : Str → Answer Str Unit
  run : Str → Answer Str Unit
  findings : Str → List F
  converted : Str → Answer Str Unit
  sbom : Answer Str (List F)
  databaseError : Str
  storable : Write F → Bool

/-- What the handlers catch: what an engine raises, and what is raised outside of its guard. -/
inductive Failure
  | caught (engine text : Str)
  | outside (text : Str)
  deriving DecidableEq

section Execution

variable {F : Type} (w : World F)

/-- What the database makes of a write, if it does not refuse it. -/
def apply (write : Write F) (db : Database F) : Option (Database F) :=
  if w.storable write then
    match write with
    | .startRun engine =>
      if engine ∈ db.runs.map (·.engine) then none
      else some { db with runs := db.runs ++ [⟨engine, .running, none⟩] }
    | .endRun engine status error =>
      some { db with
        runs := db.runs.map fun r => if r.engine = engine then ⟨engine, status, error⟩ else r }
    | .endScan status error => some { db with scan := ⟨status, error.or db.scan.error⟩ }
    | .row row => some { db with rows := db.rows ++ [row] }
  else none

/-- `str(exc)`. -/
def text : Raise Str → Str
  | .raised e => e
  | _ => w.databaseError

/-- What is kept of the text of an exception. -/
def recorded (e : Raise Str) : Option Str := some ((text w e).take 2000)

/-! ### An engine -/

/-- An audit entry about an engine. -/
def auditEngine (action : String) (engine : Str) : Write F :=
  .row (.audit action.toList (some engine))

section Program

variable {M : Type → Type} [Monad M] (o : Operations (Write F) Failure Str M)

/-- The safe-scanning gate: the status that ends the turn of an engine which it does not let pass.
-/
def safeScanGate (engine : Str) (e : Engine) : M (Option RunStatus) := do
  if e.needsAuthorization then
    let safe ← o.call (w.safeScan engine)
    if safe.allowed then return none
    else
      let status := if safe.action = "defer" then .deferred else .skipped
      o.add (.endRun engine status (some safe.reason))
      o.add (auditEngine "scan.engine.deferred_safe_scanning" engine)
      return some .skipped
  else return none

/-- The ownership gate, which a scan of the tenant's owner passes. -/
def ownershipGate (engine : Str) (e : Engine) : M (Option RunStatus) := do
  if e.needsAuthorization then
    if w.ownerDirect then
      o.add (auditEngine "scan.engine.owner_direct_authorized" engine)
      return none
    else
      let decision ← o.call (w.authorized engine)
      if decision.allowed then return none
      else
        o.add (.endRun engine .blocked (some decision.reason))
        o.add (auditEngine "scan.engine.blocked_unauthorized" engine)
        return some .blocked
  else return none

def unsupported : Str := "engine does not support asset kind"

/-- The guarded part: the engine runs, and what it finds is added row by row. -/
def observe (engine : Str) : M Unit := do
  o.call (w.run engine)
  (w.findings engine).forM fun row => o.add (.row (.finding row))
  o.call (w.converted engine)

/-- The guard. -/
def guarded (engine : Str) : M RunStatus := do
  match ← o.attempt (observe w o engine) with
  | .ok _ =>
    o.add (.endRun engine .completed none)
    return .completed
  | .error e =>
    o.note (.caught engine (text w e))
    o.add (.endRun engine .failed (recorded w e))
    return .failed

/-- The workspace is prepared by the first engine that needs it. -/
def prepare (prepared : Bool) : M Bool :=
  if prepared then pure true else o.call w.workspace

/-- What an engine does once both gates let it pass. -/
def runEngine (prepared : Bool) (engine : Str) (e : Engine) : M (Bool × RunStatus) := do
  if e.supports then
    let prepared ← prepare w o prepared
    o.call (w.context engine)
    let status ← guarded w o engine
    return (prepared, status)
  else
    o.add (.endRun engine .skipped (some unsupported))
    return (prepared, .skipped)

/-- What a registered engine does in its turn. -/
def admitEngine (prepared : Bool) (engine : Str) (e : Engine) : M (Bool × RunStatus) := do
  match ← safeScanGate w o engine e with
  | some status => return (prepared, status)
  | none =>
    match ← ownershipGate w o engine e with
    | some status => return (prepared, status)
    | none => runEngine w o prepared engine e

/-- **The turn of an engine**, and its entry in `engine_statuses`. -/
def turn (prepared : Bool) (engine : Str) : M (Bool × RunStatus) := do
  o.add (.startRun engine)
  o.flush
  match ← o.call (w.getEngine engine) with
  | none =>
    o.add (.endRun engine .skipped (some "engine not registered"))
    return (prepared, .skipped)
  | some e => admitEngine w o prepared engine e

/-- The turns of the engines. -/
def turns : Bool → List Str → M (List RunStatus)
  | _, [] => pure []
  | prepared, engine :: engines => do
    let ended ← turn w o prepared engine
    let statuses ← turns ended.1 engines
    return ended.2 :: statuses

/-! ### The scan -/

/-- `_finalize_sbom`, which is never fatal. -/
def finalizeSbom : M Unit := do
  let _ ← o.attempt do
    let rows ← o.call w.sbom
    rows.forM fun row => o.add (.row (.sbom row))

/-- The engines of a scan, which has a default. -/
def requested (requestedEngines : List Str) : List Str :=
  if requestedEngines = [] then ["secrets"] else requestedEngines

/-- What is guarded as a whole. -/
def engines (requestedEngines : List Str) : M (List RunStatus) := do
  o.call w.materialize
  let statuses ← turns w o false (requested requestedEngines)
  finalizeSbom w o
  return statuses

/-- The status of a scan whose engines have had their turns. -/
def finalStatus (statuses : List RunStatus) : ScanStatus :=
  if statuses ≠ [] ∧ statuses.all (· = .failed) then .failed
  else if statuses.any (· ∈ [.failed, .skipped, .blocked]) then .partialScan
  else .completed

def auditScan (action : String) : Write F := .row (.audit action.toList none)

/-- The handler of what is raised outside of the guard of an engine.  The audit entry reads the
scan's columns from the session. -/
def failScan (e : Raise Str) : M ScanStatus := do
  o.note (.outside (text w e))
  o.add (.endScan .failed (recorded w e))
  o.touch
  o.add (auditScan "scan.failed")
  return .failed

/-- What follows when nothing was raised. -/
def completeScan (statuses : List RunStatus) : M ScanStatus := do
  o.flush
  o.add (.endScan (finalStatus statuses) none)
  o.add (.row .usage)
  o.add (auditScan "scan.completed")
  return finalStatus statuses

/-- What a claimed scan goes through. -/
def execute (requestedEngines : List Str) : M ScanStatus := do
  o.call w.known
  match ← o.attempt (engines w o requestedEngines) with
  | .ok statuses => completeScan o statuses
  | .error e => failScan w o e

end Program

/-- The database as an execution sees it that has claimed its scan: `queued → running` is written,
and not yet committed. -/
def Database.claimed (db : Database F) : Database F :=
  { db with scan := { db.scan with status := .running } }

/-- The session of such an execution. -/
def claimed (db : Database F) : UnitOfWork (Database F) (Write F) (List Failure) :=
  { opened db [] with written := db.claimed }

/-- **`run_scan`**, from the claim on: what it returns, and the session that it leaves. -/
def runScan (requestedEngines : List Str) (db : Database F) :
    Except (Raise Str) ScanStatus × UnitOfWork (Database F) (Write F) (List Failure) :=
  scope (apply w) (execute w (inSession (apply w)) requestedEngines) (claimed db)

/-- **What an execution is to write**, and how it ends if the database takes it all. -/
def planScan (requestedEngines : List Str) : Plan (Write F) Failure Str ScanStatus :=
  execute w inPlan requestedEngines

/-! ### An execution follows its plan -/

variable {w}

theorem follows_safeScanGate (engine : Str) (e : Engine) :
    Follows (apply w) (safeScanGate w (inSession (apply w)) engine e)
      (safeScanGate w inPlan engine e) := by
  refine follows_ite ((follows_call _).bind fun safe => follows_ite (follows_pure _) ?_)
    (follows_pure _)
  exact (follows_add _).bind fun _ => (follows_add _).bind fun _ => follows_pure _

theorem follows_ownershipGate (engine : Str) (e : Engine) :
    Follows (apply w) (ownershipGate w (inSession (apply w)) engine e)
      (ownershipGate w inPlan engine e) := by
  refine follows_ite (follows_ite ((follows_add _).bind fun _ => follows_pure _) ?_)
    (follows_pure _)
  refine (follows_call _).bind fun decision => follows_ite (follows_pure _) ?_
  exact (follows_add _).bind fun _ => (follows_add _).bind fun _ => follows_pure _

theorem follows_observe (engine : Str) :
    Follows (apply w) (observe w (inSession (apply w)) engine) (observe w inPlan engine) :=
  (follows_call _).bind fun _ => (follows_forM _ fun _ => follows_add _).bind fun _ =>
    follows_call _

theorem follows_guarded (engine : Str) :
    Follows (apply w) (guarded w (inSession (apply w)) engine) (guarded w inPlan engine) := by
  refine (follows_observe engine).attempt.bind fun x => ?_
  rcases x with e | _
  · exact (follows_note _).bind fun _ => (follows_add _).bind fun _ => follows_pure _
  · exact (follows_add _).bind fun _ => follows_pure _

theorem follows_runEngine (prepared : Bool) (engine : Str) (e : Engine) :
    Follows (apply w) (runEngine w (inSession (apply w)) prepared engine e)
      (runEngine w inPlan prepared engine e) := by
  refine follows_ite ?_ ((follows_add _).bind fun _ => follows_pure _)
  refine (follows_ite (follows_pure _) (follows_call _)).bind fun prepared => ?_
  exact (follows_call _).bind fun _ => (follows_guarded engine).bind fun _ => follows_pure _

theorem follows_admitEngine (prepared : Bool) (engine : Str) (e : Engine) :
    Follows (apply w) (admitEngine w (inSession (apply w)) prepared engine e)
      (admitEngine w inPlan prepared engine e) := by
  refine (follows_safeScanGate engine e).bind fun x => ?_
  rcases x with _ | status
  · refine (follows_ownershipGate engine e).bind fun x => ?_
    rcases x with _ | status
    · exact follows_runEngine prepared engine e
    · exact follows_pure _
  · exact follows_pure _

theorem follows_turn (prepared : Bool) (engine : Str) :
    Follows (apply w) (turn w (inSession (apply w)) prepared engine)
      (turn w inPlan prepared engine) := by
  refine (follows_add _).bind fun _ => follows_flush.bind fun _ => (follows_call _).bind fun x => ?_
  rcases x with _ | e
  · exact (follows_add _).bind fun _ => follows_pure _
  · exact follows_admitEngine prepared engine e

theorem follows_turns (prepared : Bool) (engines : List Str) :
    Follows (apply w) (turns w (inSession (apply w)) prepared engines)
      (turns w inPlan prepared engines) := by
  induction engines generalizing prepared with
  | nil => exact follows_pure _
  | cons engine engines ih =>
    exact (follows_turn prepared engine).bind fun ended => (ih ended.1).bind fun _ =>
      follows_pure _

theorem follows_finalizeSbom :
    Follows (apply w) (finalizeSbom w (inSession (apply w))) (finalizeSbom w inPlan) := by
  refine Follows.bind (Follows.attempt ?_) fun _ => follows_pure _
  exact (follows_call _).bind fun rows => follows_forM rows fun _ => follows_add _

theorem follows_engines (requestedEngines : List Str) :
    Follows (apply w) (engines w (inSession (apply w)) requestedEngines)
      (engines w inPlan requestedEngines) :=
  (follows_call _).bind fun _ => (follows_turns _ _).bind fun _ =>
    follows_finalizeSbom.bind fun _ => follows_pure _

/-- **An execution does what its plan says.** -/
theorem follows_execute (requestedEngines : List Str) :
    Follows (apply w) (execute w (inSession (apply w)) requestedEngines)
      (planScan w requestedEngines) := by
  refine (follows_call _).bind fun _ => (follows_engines _).attempt.bind fun x => ?_
  rcases x with e | statuses
  · exact (follows_note _).bind fun _ => (follows_add _).bind fun _ => follows_touch.bind fun _ =>
      (follows_add _).bind fun _ => follows_pure _
  · exact follows_flush.bind fun _ => (follows_add _).bind fun _ => (follows_add _).bind fun _ =>
      (follows_add _).bind fun _ => follows_pure _

theorem runScan_stored (requestedEngines : List Str) (db : Database F) :
    (∀ d, (planScan w requestedEngines).stores (apply w) db.claimed = some d →
      (runScan w requestedEngines db).2 = opened d (planScan w requestedEngines).notes) ∧
    ((planScan w requestedEngines).stores (apply w) db.claimed = none →
      (runScan w requestedEngines db).2.stored = db) := by
  have hclaimed : Holds (apply w) db.claimed (claimed db) := ⟨rfl, rfl⟩
  exact scope_follows (follows_execute requestedEngines) hclaimed

/-! ### What a plan leaves on the runs -/

open Plan (writeAll)

/-- The run of an engine whose guard has caught a text. -/
def failedRun (engine text : Str) : ScanEngineRun := ⟨engine, .failed, some (text.take 2000)⟩

/-- A write that concerns the run of one engine. -/
def Local (engine : Str) : Write F → Prop
  | .endRun e _ _ => e = engine
  | .row _ => True
  | _ => False

/-- A plan in the turn of an engine: what it catches is the last thing that it writes. -/
structure Turned {A : Type} (engine : Str) (p : Plan (Write F) Failure Str A) : Prop where
  writes : ∀ write ∈ p.writes, Local engine write
  notes : ∀ n ∈ p.notes, ∃ text, n = .caught engine text ∧
    ∃ before, p.writes = before ++ [.endRun engine .failed (some (text.take 2000))]

/-- A plan in the turn of an engine that catches nothing. -/
structure Quiet {A : Type} (engine : Str) (p : Plan (Write F) Failure Str A) : Prop where
  writes : ∀ write ∈ p.writes, Local engine write
  notes : p.notes = []

section Turns

variable {A B : Type} {engine : Str} {p : Plan (Write F) Failure Str A}
  {f : A → Plan (Write F) Failure Str B}

theorem Quiet.turned (h : Quiet engine p) : Turned engine p :=
  ⟨h.writes, fun n hn => by rw [h.notes] at hn; cases hn⟩

theorem quiet_pure (a : A) : Quiet engine (pure a : Plan (Write F) Failure Str A) :=
  ⟨fun _ h => (by cases h), rfl⟩

theorem quiet_ofAnswer (x : Answer Str A) :
    Quiet engine (Plan.ofAnswer x : Plan (Write F) Failure Str A) :=
  ⟨fun _ h => (by cases h), rfl⟩

theorem quiet_endRun (status : RunStatus) (error : Option Str) :
    Quiet engine (Plan.write (.endRun engine status error) : Plan (Write F) Failure Str Unit) :=
  ⟨fun v hv => by rw [mem_singleton.mp hv]; rfl, rfl⟩

theorem quiet_row (row : Row F) :
    Quiet engine (Plan.write (.row row) : Plan (Write F) Failure Str Unit) :=
  ⟨fun v hv => by rw [mem_singleton.mp hv]; trivial, rfl⟩

theorem Quiet.bind (hp : Quiet engine p) (hf : ∀ a, Quiet engine (f a)) :
    Quiet engine (p >>= f) := by
  rw [Plan.bind_def, Plan.andThen]
  split
  · rename_i a _
    refine ⟨fun write hw => ?_, by rw [hp.notes, (hf a).notes]; rfl⟩
    rcases mem_append.mp hw with hw | hw
    · exact hp.writes write hw
    · exact (hf a).writes write hw
  · exact ⟨hp.writes, hp.notes⟩
  · exact ⟨hp.writes, hp.notes⟩

theorem Quiet.attempt (hp : Quiet engine p) : Quiet engine p.attempt := ⟨hp.writes, hp.notes⟩

theorem quiet_forM {C : Type} (l : List C) {g : C → Plan (Write F) Failure Str PUnit}
    (h : ∀ c, Quiet engine (g c)) : Quiet engine (l.forM g) := by
  induction l with
  | nil => exact quiet_pure _
  | cons c l ih => exact (h c).bind fun _ => ih

theorem quiet_ite {c : Prop} [Decidable c] {p' : Plan (Write F) Failure Str A}
    (h : Quiet engine p) (h' : Quiet engine p') : Quiet engine (if c then p else p') := by
  split_ifs
  · exact h
  · exact h'

theorem turned_ite {c : Prop} [Decidable c] {p' : Plan (Write F) Failure Str A}
    (h : Turned engine p) (h' : Turned engine p') : Turned engine (if c then p else p') := by
  split_ifs
  · exact h
  · exact h'

theorem Quiet.bind_turned (hp : Quiet engine p) (hf : ∀ a, Turned engine (f a)) :
    Turned engine (p >>= f) := by
  rw [Plan.bind_def, Plan.andThen]
  split
  · rename_i a _
    refine ⟨fun write hw => ?_, fun n hn => ?_⟩
    · rcases mem_append.mp hw with hw | hw
      · exact hp.writes write hw
      · exact (hf a).writes write hw
    · rw [hp.notes, nil_append] at hn
      obtain ⟨text, rfl, before, hbefore⟩ := (hf a).notes n hn
      refine ⟨text, rfl, p.writes ++ before, ?_⟩
      rw [hbefore, append_assoc]
  · exact Quiet.turned ⟨hp.writes, hp.notes⟩
  · exact Quiet.turned ⟨hp.writes, hp.notes⟩

theorem Turned.bind_pure (hp : Turned engine p) (g : A → B) :
    Turned engine (p >>= fun a => pure (g a)) := by
  rw [Plan.bind_def, Plan.andThen]
  split
  · refine ⟨fun write hw => ?_, fun n hn => ?_⟩
    · rcases mem_append.mp hw with hw | hw
      · exact hp.writes write hw
      · cases hw
    · rcases mem_append.mp hn with hn | hn
      · obtain ⟨text, hn, before, hbefore⟩ := hp.notes n hn
        exact ⟨text, hn, before, (append_nil _).trans hbefore⟩
      · cases hn
  · exact ⟨hp.writes, hp.notes⟩
  · exact ⟨hp.writes, hp.notes⟩

end Turns

theorem turned_guarded (engine : Str) : Turned engine (guarded w inPlan engine) := by
  have hobserve : Quiet engine (observe w inPlan engine) :=
    (quiet_ofAnswer _).bind fun _ => (quiet_forM _ fun _ => quiet_row _).bind fun _ =>
      quiet_ofAnswer _
  refine hobserve.attempt.bind_turned fun x => ?_
  rcases x with e | _
  · refine ⟨fun write hw => ?_, fun n hn => ?_⟩
    · rw [mem_singleton.mp (show write ∈ [_] from hw)]
      rfl
    · exact ⟨text w e, mem_singleton.mp (show n ∈ [_] from hn), [], rfl⟩
  · exact ((quiet_endRun _ _).bind fun _ => quiet_pure _).turned

theorem quiet_safeScanGate (engine : Str) (e : Engine) :
    Quiet engine (safeScanGate w inPlan engine e) := by
  refine quiet_ite ((quiet_ofAnswer _).bind fun safe => quiet_ite (quiet_pure _) ?_) (quiet_pure _)
  exact (quiet_endRun _ _).bind fun _ => (quiet_row _).bind fun _ => quiet_pure _

theorem quiet_ownershipGate (engine : Str) (e : Engine) :
    Quiet engine (ownershipGate w inPlan engine e) := by
  refine quiet_ite (quiet_ite ((quiet_row _).bind fun _ => quiet_pure _) ?_) (quiet_pure _)
  refine (quiet_ofAnswer _).bind fun decision => quiet_ite (quiet_pure _) ?_
  exact (quiet_endRun _ _).bind fun _ => (quiet_row _).bind fun _ => quiet_pure _

theorem turned_admitEngine (prepared : Bool) (engine : Str) (e : Engine) :
    Turned engine (admitEngine w inPlan prepared engine e) := by
  refine (quiet_safeScanGate engine e).bind_turned fun x => ?_
  rcases x with _ | status
  · refine (quiet_ownershipGate engine e).bind_turned fun x => ?_
    rcases x with _ | status
    · refine turned_ite ?_ ((quiet_endRun _ _).bind fun _ => quiet_pure _).turned
      refine Quiet.bind_turned (quiet_ite (quiet_pure _) (quiet_ofAnswer _)) fun prepared => ?_
      exact (quiet_ofAnswer _).bind_turned fun _ => (turned_guarded engine).bind_pure _
    · exact (quiet_pure _).turned
  · exact (quiet_pure _).turned

theorem turn_eq (prepared : Bool) (engine : Str) :
    ∃ p, Turned engine p ∧
      turn w inPlan prepared engine = Plan.write (.startRun engine) >>= fun _ => p := by
  refine ⟨_, ?_, rfl⟩
  refine (quiet_pure ()).bind_turned fun _ => (quiet_ofAnswer _).bind_turned fun x => ?_
  rcases x with _ | e
  · exact ((quiet_endRun _ _).bind fun _ => quiet_pure _).turned
  · exact turned_admitEngine prepared engine e

section Runs

variable {d d' : Database F} {engine : Str}

theorem keeps_local {ws : List (Write F)} (hlocal : ∀ write ∈ ws, Local engine write)
    (h : writeAll (apply w) ws d = some d') :
    d'.runs.map (·.engine) = d.runs.map (·.engine) ∧
      ∀ r ∈ d.runs, r.engine ≠ engine → r ∈ d'.runs := by
  refine Plan.writeAll_invariant (P := fun e => e.runs.map (·.engine) = d.runs.map (·.engine) ∧
    ∀ r ∈ d.runs, r.engine ≠ engine → r ∈ e.runs) ?_ h ⟨rfl, fun _ hr _ => hr⟩
  rintro write hwrite a b hab ⟨hengines, hruns⟩
  have hl := hlocal write hwrite
  unfold apply at hab
  split_ifs at hab
  rcases write with _ | ⟨e, status, error⟩ | _ | row
  · cases hl
  · change e = engine at hl
    subst hl
    cases hab
    refine ⟨?_, fun r hr hne => mem_map.mpr ⟨r, hruns r hr hne, if_neg hne⟩⟩
    rw [← hengines, map_map]
    refine map_congr_left fun r _ => ?_
    by_cases hr : r.engine = e
    · simp [hr]
    · simp [hr]
  · cases hl
  · cases hab
    exact ⟨hengines, hruns⟩

theorem mem_of_endRun {status : RunStatus} {error : Option Str}
    (h : apply w (.endRun engine status error) d = some d')
    (hengine : engine ∈ d.runs.map (·.engine)) : ⟨engine, status, error⟩ ∈ d'.runs := by
  unfold apply at h
  split_ifs at h
  cases h
  obtain ⟨r, hr, hid⟩ := mem_map.mp hengine
  exact mem_map.mpr ⟨r, hr, if_pos hid⟩

/-- **A plan whose failures are on the runs** once the database has taken its writes, and which
keeps the runs that are there. -/
def Safe {A : Type} (w : World F) (p : Plan (Write F) Failure Str A) : Prop :=
  ∀ d d', writeAll (apply w) p.writes d = some d' → (∀ r ∈ d.runs, r ∈ d'.runs) ∧
    ∀ n ∈ p.notes, ∃ engine text, n = .caught engine text ∧ failedRun engine text ∈ d'.runs

/-- **The turn of an engine is safe**: its run is new, and what it catches is the last thing that it
writes. -/
theorem safe_turn (prepared : Bool) (engine : Str) : Safe w (turn w inPlan prepared engine) := by
  obtain ⟨p, hp, hturn⟩ := turn_eq (w := w) prepared engine
  rw [hturn]
  intro d d' h
  change writeAll (apply w) (.startRun engine :: p.writes) d = some d' at h
  rw [Plan.writeAll_cons, Option.bind_eq_some_iff] at h
  obtain ⟨d₁, hstart, h⟩ := h
  have hnew : engine ∉ d.runs.map (·.engine) ∧ d₁.runs = d.runs ++ [⟨engine, .running, none⟩] := by
    simp only [apply] at hstart
    split_ifs at hstart with _ hmem
    cases hstart
    exact ⟨hmem, rfl⟩
  obtain ⟨hengine, hruns⟩ := hnew
  have hmem₁ : engine ∈ d₁.runs.map (·.engine) := by
    rw [hruns, map_append]
    exact mem_append_right _ (mem_singleton_self _)
  constructor
  · intro r hr
    have hne : r.engine ≠ engine := fun he => hengine (mem_map.mpr ⟨r, hr, he⟩)
    refine (keeps_local hp.writes h).2 r ?_ hne
    rw [hruns]
    exact mem_append_left _ hr
  · intro n hn
    obtain ⟨text, rfl, before, hbefore⟩ := hp.notes n hn
    refine ⟨engine, text, rfl, ?_⟩
    rw [hbefore, Plan.writeAll_append, Option.bind_eq_some_iff] at h
    obtain ⟨d₂, hbeforeRun, hlast⟩ := h
    have hlocal : ∀ write ∈ before, Local engine write := fun write hw =>
      hp.writes write (hbefore ▸ mem_append_left _ hw)
    rw [Plan.writeAll_cons, Option.bind_eq_some_iff] at hlast
    obtain ⟨d₃, hlast, hend⟩ := hlast
    cases hend
    refine mem_of_endRun hlast ?_
    rw [(keeps_local hlocal hbeforeRun).1]
    exact hmem₁

variable {A B : Type} {p : Plan (Write F) Failure Str A} {f : A → Plan (Write F) Failure Str B}

theorem safe_pure (a : A) : Safe w (pure a : Plan (Write F) Failure Str A) := by
  intro d d' h
  cases h
  exact ⟨fun _ hr => hr, fun _ hn => by cases hn⟩

theorem safe_ofAnswer (x : Answer Str A) :
    Safe w (Plan.ofAnswer x : Plan (Write F) Failure Str A) := by
  intro d d' h
  cases h
  exact ⟨fun _ hr => hr, fun _ hn => by cases hn⟩

theorem safe_row (row : Row F) :
    Safe w (Plan.write (.row row) : Plan (Write F) Failure Str Unit) := by
  intro d d' h
  change writeAll (apply w) [.row row] d = some d' at h
  rw [Plan.writeAll_cons, Option.bind_eq_some_iff] at h
  obtain ⟨d₁, hrow, h⟩ := h
  cases h
  unfold apply at hrow
  split_ifs at hrow
  cases hrow
  exact ⟨fun _ hr => hr, fun _ hn => by cases hn⟩

theorem Safe.attempt (hp : Safe w p) : Safe w p.attempt := hp

theorem Safe.bind (hp : Safe w p) (hf : ∀ a, Safe w (f a)) : Safe w (p >>= f) := by
  rw [Plan.bind_def, Plan.andThen]
  split
  · rename_i a _
    intro d d' h
    dsimp only at h
    rw [Plan.writeAll_append, Option.bind_eq_some_iff] at h
    obtain ⟨d₁, h₁, h₂⟩ := h
    obtain ⟨hkept, hnotes⟩ := hp d d₁ h₁
    obtain ⟨hkept', hnotes'⟩ := hf a d₁ d' h₂
    refine ⟨fun r hr => hkept' r (hkept r hr), fun n hn => ?_⟩
    rcases mem_append.mp hn with hn | hn
    · obtain ⟨engine, text, hn, hrun⟩ := hnotes n hn
      exact ⟨engine, text, hn, hkept' _ hrun⟩
    · exact hnotes' n hn
  · exact hp
  · exact hp

theorem safe_forM {C : Type} (l : List C) {g : C → Plan (Write F) Failure Str PUnit}
    (h : ∀ c, Safe w (g c)) : Safe w (l.forM g) := by
  induction l with
  | nil => exact safe_pure _
  | cons c l ih => exact (h c).bind fun _ => ih

theorem safe_turns (prepared : Bool) (engines : List Str) :
    Safe w (turns w inPlan prepared engines) := by
  induction engines generalizing prepared with
  | nil => exact safe_pure _
  | cons engine engines ih =>
    exact (safe_turn prepared engine).bind fun ended => (ih ended.1).bind fun _ => safe_pure _

theorem safe_engines (requestedEngines : List Str) :
    Safe w (engines w inPlan requestedEngines) := by
  refine (safe_ofAnswer _).bind fun _ => (safe_turns _ _).bind fun _ => Safe.bind ?_ fun _ =>
    safe_pure _
  refine Safe.bind (Safe.attempt ?_) fun _ => safe_pure _
  exact (safe_ofAnswer _).bind fun rows => safe_forM rows fun _ => safe_row _

end Runs

/-! ### How an execution ends -/

/-- **The scan ends in a terminal status, and every error is recorded**: that of an engine on its
run, any other one on the scan. -/
structure Ended (s : UnitOfWork (Database F) (Write F) (List Failure)) : Prop where
  terminal : s.stored.scan.status.Terminal
  recorded : ∀ text, .outside text ∈ s.outside → s.stored.scan.error = some (text.take 2000)
  caught : ∀ engine text, .caught engine text ∈ s.outside → failedRun engine text ∈ s.stored.runs

theorem terminal_finalStatus (statuses : List RunStatus) : (finalStatus statuses).Terminal := by
  unfold finalStatus
  split_ifs <;> decide

theorem ended_of_endScan {d d' : Database F} {status : ScanStatus} {error : Option Str}
    (rows : List (Row F))
    (h : writeAll (apply w) (.endScan status error :: rows.map .row) d = some d') :
    d'.scan = ⟨status, error.or d.scan.error⟩ ∧ d'.runs = d.runs := by
  rw [Plan.writeAll_cons, Option.bind_eq_some_iff] at h
  obtain ⟨d₁, hend, h⟩ := h
  have hfirst : d₁.scan = ⟨status, error.or d.scan.error⟩ ∧ d₁.runs = d.runs := by
    unfold apply at hend
    split_ifs at hend
    cases hend
    exact ⟨rfl, rfl⟩
  refine Plan.writeAll_invariant (P := fun e => e.scan = ⟨status, error.or d.scan.error⟩ ∧
    e.runs = d.runs) ?_ h hfirst
  intro write hwrite a b hab hP
  obtain ⟨row, -, rfl⟩ := mem_map.mp hwrite
  unfold apply at hab
  split_ifs at hab
  cases hab
  exact hP

/-- **An execution whose plan the database takes** ends as it should. -/
theorem ended_of_stores {requestedEngines : List Str} {db d : Database F}
    (h : (planScan w requestedEngines).stores (apply w) db = some d) :
    Ended (opened d (planScan w requestedEngines).notes :
      UnitOfWork (Database F) (Write F) (List Failure)) := by
  obtain ⟨_, d₀, hknown, -, h⟩ := Plan.stores_bind.mp h
  obtain ⟨x, d₁, hx, hengines, hend⟩ := Plan.stores_bind.mp h
  have hnotes : (planScan w requestedEngines).notes = _ :=
    (Plan.notes_bind hknown).trans (Plan.notes_bind hx)
  obtain ⟨-, hcaught⟩ := safe_engines requestedEngines d₀ d₁ hengines
  rcases x with e | statuses
  · obtain ⟨hscan, hruns⟩ := ended_of_endScan [.audit "scan.failed" none]
      (show writeAll (apply w) (.endScan .failed (recorded w e) :: _) d₁ = some d from hend)
    have hall : ∀ n ∈ (planScan w requestedEngines).notes,
        n ∈ (engines w inPlan requestedEngines).notes ∨ n = .outside (text w e) := by
      rw [hnotes]
      intro n hn
      exact (mem_append.mp hn).imp_right mem_singleton.mp
    refine ⟨?_, fun t ht => ?_, fun engine t ht => ?_⟩
    · change d.scan.status.Terminal
      rw [hscan]
      exact (by decide : ScanStatus.failed.Terminal)
    · change d.scan.error = _
      rw [hscan]
      rcases hall _ ht with ht | ht
      · obtain ⟨engine, t', he, -⟩ := hcaught _ ht
        cases he
      · cases ht
        rfl
    · change _ ∈ d.runs
      rw [hruns]
      rcases hall _ ht with ht | ht
      · obtain ⟨engine', t', he, hrun⟩ := hcaught _ ht
        cases he
        exact hrun
      · cases ht
  · obtain ⟨hscan, hruns⟩ := ended_of_endScan
      [.usage, .audit "scan.completed" none]
      (show writeAll (apply w) (.endScan (finalStatus statuses) none :: _) d₁ = some d from hend)
    have hall : ∀ n ∈ (planScan w requestedEngines).notes,
        n ∈ (engines w inPlan requestedEngines).notes := by
      rw [hnotes]
      intro n hn
      exact (mem_append.mp hn).elim id fun h => by cases h
    refine ⟨?_, fun t ht => ?_, fun engine t ht => ?_⟩
    · change d.scan.status.Terminal
      rw [hscan]
      exact terminal_finalStatus statuses
    · obtain ⟨engine, t', he, -⟩ := hcaught _ (hall _ ht)
      cases he
    · change _ ∈ d.runs
      rw [hruns]
      obtain ⟨engine', t', he, hrun⟩ := hcaught _ (hall _ ht)
      cases he
      exact hrun

/-- **The database takes an execution**: nothing is raised before the guard, the server refuses no
statement, and no write is refused, those of the handlers included. -/
structure Taken (w : World F) (requestedEngines : List Str) (db : Database F) : Prop where
  known : w.known = .value ()
  answered : (engines w inPlan requestedEngines).answer ≠ .refused
  written : ∃ d, writeAll (apply w) (planScan w requestedEngines).writes db.claimed = some d

theorem answer_planScan {requestedEngines : List Str} (hknown : w.known = .value ())
    (hanswered : (engines w inPlan requestedEngines).answer ≠ .refused) :
    ∃ status, (planScan w requestedEngines).answer = .value status := by
  obtain ⟨x, hx⟩ := Plan.exists_answer_attempt.mpr hanswered
  have hplan : (planScan w requestedEngines).answer = _ :=
    (Plan.answer_bind hknown).trans (Plan.answer_bind hx)
  rw [hplan]
  rcases x with e | statuses
  · exact ⟨.failed, rfl⟩
  · exact ⟨finalStatus statuses, rfl⟩

theorem taken_iff {requestedEngines : List Str} {db : Database F} :
    Taken w requestedEngines db ↔
      ∃ d, (planScan w requestedEngines).stores (apply w) db.claimed = some d := by
  constructor
  · rintro ⟨hknown, hanswered, d, hd⟩
    obtain ⟨status, hvalue⟩ := answer_planScan hknown hanswered
    exact ⟨d, (Plan.stores_of_value hvalue _).trans hd⟩
  · rintro ⟨d, hd⟩
    obtain ⟨u, d₀, hknown, -, hrest⟩ := Plan.stores_bind.mp hd
    obtain ⟨x, d₁, hx, -, -⟩ := Plan.stores_bind.mp hrest
    refine ⟨hknown, Plan.exists_answer_attempt.mp ⟨x, hx⟩, d, ?_⟩
    unfold Plan.stores at hd
    split at hd
    · exact hd
    · cases hd

/-- **When an execution ends as it should**: exactly if the database takes it. -/
theorem ended_iff (requestedEngines : List Str) {db : Database F}
    (hqueued : db.scan.status = .queued) :
    Ended (runScan w requestedEngines db).2 ↔ Taken w requestedEngines db := by
  obtain ⟨htaken, hlost⟩ := runScan_stored (w := w) requestedEngines db
  rw [taken_iff]
  rcases hstores : (planScan w requestedEngines).stores (apply w) db.claimed with _ | d
  · refine ⟨fun h => ?_, fun ⟨d, hd⟩ => by cases hd⟩
    have hterminal := h.terminal
    rw [hlost hstores, hqueued] at hterminal
    exact absurd rfl hterminal.1
  · refine ⟨fun _ => ⟨d, rfl⟩, fun _ => ?_⟩
    rw [htaken d hstores]
    exact ended_of_stores hstores

end Execution

/-! ### An engine that is requested twice -/

namespace Sample

/-- Every call succeeds, every engine runs, and every row fits its columns. -/
def world : World Str where
  known := .value ()
  materialize := .value ()
  getEngine := fun _ => .value (some ⟨false, true⟩)
  safeScan := fun _ => .value ⟨true, [], []⟩
  ownerDirect := false
  authorized := fun _ => .value ⟨true, []⟩
  workspace := .value true
  context := fun _ => .value ()
  run := fun _ => .value ()
  findings := fun engine => [engine]
  converted := fun _ => .value ()
  sbom := .value []
  databaseError := "duplicate key value violates unique constraint"
  storable := fun _ => true

/-- A scan that waits. -/
def waiting : Database Str where
  scan := ⟨.queued, none⟩
  runs := []
  rows := []

end Sample

open Sample

/-- **An engine that is requested twice** leaves its scan queued, without an error: its second run
is refused, and the handler cannot use the session. -/
theorem twice_requested :
    (runScan world ["sast", "sast"] waiting).2.stored.scan = ⟨.queued, none⟩ ∧
      ¬ Ended (runScan world ["sast", "sast"] waiting).2 := by
  have hscan : (runScan world ["sast", "sast"] waiting).2.stored.scan =
      ⟨.queued, none⟩ := by decide
  refine ⟨hscan, fun h => ?_⟩
  have hterminal := h.terminal
  rw [hscan] at hterminal
  exact absurd rfl hterminal.1

/-- The equivalence at that request. -/
theorem ended_iff_sample :
    Ended (runScan world ["sast", "sast"] waiting).2 ↔
      Taken world ["sast", "sast"] waiting :=
  ended_iff ["sast", "sast"] rfl

end Guardian.Scans

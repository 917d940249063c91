import Guardian.Governance.Resolver
import Guardian.Transition.Run

/-!
# Dispatched jobs

A dispatch asks the governance and the gate of the scope, consumes the approval that the governance
names by an update under the condition that it is not consumed yet, and sends the job when this is
committed.  Dispatches and other transactions run at the same time; each statement finds what was
committed before it.  `governed_dispatch` says what every job of a run has consumed.
-/

namespace Guardian.Governance

open Python Transition List
open Authorization (ToolPolicy EffectiveScope Outcome dispatchToolJob deriveEffectiveScope
  evaluateToolPolicy)

/-! ### Requests -/

/-- The arguments of `dispatch_tool_job`. -/
structure ToolRequest where
  tenantId : UUID
  toolKey : Str
  requestedTargets : List Str
  actorId : Option Str
  humanApproved : Bool
  policy : ToolPolicy
  campaignId : Option Str
  approvalId : Option Str
  ownerDirect : Bool

/-- The arguments of `dispatch_artifact_job`; the artifact by the length of its bytes, if it is
base64. -/
structure ArtifactRequest where
  tenantId : UUID
  toolKey : Str
  assetId : UUID
  artifact : Option ℕ
  actorId : Option Str
  policy : ToolPolicy

/-- A dispatch of one kind or the other. -/
inductive Request
  | tool (r : ToolRequest)
  | artifact (r : ArtifactRequest)

/-- The tool that is asked for. -/
def Request.toolKey : Request → Str
  | .tool r => r.toolKey
  | .artifact r => r.toolKey

/-- What the governance is asked.  For an artifact neither a campaign nor an approval is named. -/
def Request.governance (caps : ProviderCapabilities) : Request → GovernanceRequest
  | .tool r => ⟨r.tenantId, r.actorId, caps, some r.toolKey, r.campaignId, r.approvalId⟩
  | .artifact r => ⟨r.tenantId, r.actorId, caps, some r.toolKey, none, none⟩

/-! ### The gates -/

/-- The settings of the deployment. -/
structure Settings where
  platformOwnerIds : Str
  ownerDirectRecon : Bool

variable (R : Runtime) (settings : Settings) (registry : Str → Option ProviderCapabilities)

/-- `_is_tenant_owner` -/
def isTenantOwner (db : Statement → Database) (tenantId : UUID) (actorUuid : Option UUID) : Bool :=
  actorUuid.any fun actor =>
    ((db .owner).memberships.find? fun row =>
      row.userId = actor && row.tenantId = tenantId).any (·.role = "owner".toList)

/-- The gate of `dispatch_tool_job`, before the approval is consumed. -/
def toolGate (db : Statement → Database) (now : ℤ) (caps : ProviderCapabilities)
    (gov : GovernanceResult) (r : ToolRequest) : Except Fault Outcome :=
  dispatchToolJob (db .authorizations).authorizations now
    { tenantId := r.tenantId.val
      requestedTargets := r.requestedTargets
      humanApproved := r.humanApproved
      policy := r.policy
      ownerDirect := r.ownerDirect
      capabilities := some caps.toToolCapabilities
      governance := ⟨gov.allowed, gov.reasons, none⟩
      ownerDirectRecon := settings.ownerDirectRecon
      isTenantOwner := isTenantOwner db r.tenantId gov.actorUuid }

/-- `_authorized_asset` -/
def authorizedAsset (db : Statement → Database) (now : ℤ) (r : ArtifactRequest) : Bool :=
  ((db .asset).assets.find? (·.id = r.assetId)).any (·.tenantId = r.tenantId) &&
    (db .authorizations).authorizations.any fun row =>
      row.tenantId = r.tenantId.val && row.assetId = some r.assetId.val && row.revokedAt.isNone &&
        decide (row.validFrom ≤ now ∧ now ≤ row.validUntil)

/-- `_ARTIFACT_MAX_BYTES` -/
def artifactMaxBytes : ℕ := 2 * 1024 * 1024

/-- What becomes of the dispatch of an artifact. -/
inductive ArtifactOutcome
  | forbidden (reasons : List Str)
  | rejected (reason : Str)
  | denied (reasons : List Str)
  | dispatched (scope : EffectiveScope)

/-- The gate of `dispatch_artifact_job`. -/
def artifactGate (db : Statement → Database) (now : ℤ) (caps : ProviderCapabilities)
    (gov : GovernanceResult) (r : ArtifactRequest) : ArtifactOutcome :=
  if !gov.allowed then .forbidden gov.reasons
  else
    match r.artifact with
    | none => .rejected "invalid_encoding"
    | some length =>
      if length = 0 then .rejected "empty_artifact"
      else if artifactMaxBytes < length then .rejected "artifact_exceeds_2mb"
      else
        let authorized := authorizedAsset db now r
        let anchored := if authorized then [uuidText r.assetId] else []
        let scope := deriveEffectiveScope anchored anchored caps.toToolCapabilities r.policy
        let decision := evaluateToolPolicy caps.toToolCapabilities scope false
        if !authorized || !decision.allowed then
          .denied (if decision.reasons = [] then
            ["asset not found, not owned, or not authorized"] else decision.reasons)
        else .dispatched scope

/-- The scope of the job, if the gate lets it through. -/
def gateScope (db : Statement → Database) (now : ℤ) (caps : ProviderCapabilities)
    (gov : GovernanceResult) : Request → Option EffectiveScope
  | .tool r =>
    match toolGate settings db now caps gov r with
    | .ok (.dispatched scope) => some scope
    | _ => none
  | .artifact r =>
    match artifactGate db now caps gov r with
    | .dispatched scope => some scope
    | _ => none

/-- **Nothing passes the gate that the governance does not allow.** -/
theorem allowed_of_gateScope {db : Statement → Database} {now : ℤ} {caps : ProviderCapabilities}
    {gov : GovernanceResult} {request : Request} {scope : EffectiveScope}
    (h : gateScope settings db now caps gov request = some scope) : gov.allowed = true := by
  by_contra hdenied
  rw [Bool.not_eq_true] at hdenied
  cases request with
  | tool r =>
    have hgate : toolGate settings db now caps gov r = .ok (.forbidden gov.reasons) := by
      unfold toolGate dispatchToolJob
      dsimp only
      rw [hdenied]
      rfl
    unfold gateScope at h
    dsimp only at h
    rw [hgate] at h
    cases h
  | artifact r =>
    have hgate : artifactGate db now caps gov r = .forbidden gov.reasons := by
      unfold artifactGate
      rw [hdenied]
      rfl
    unfold gateScope at h
    dsimp only at h
    rw [hgate] at h
    cases h

/-! ### Approvals -/

/-- The approval is there, and consumed. -/
def Database.Consumed (db : Database) (approval : UUID) : Prop :=
  ∃ row ∈ db.approvals, row.id = approval ∧ row.consumedAt.isSome = true

/-- `Approval.id == approval, Approval.consumed_at.is_(None)` finds a row. -/
def Database.unconsumed (db : Database) (approval : UUID) : Bool :=
  db.approvals.any fun row => row.id = approval && row.consumedAt.isNone

def Approval.consume (now : DateTime) (approval : UUID) (row : Approval) : Approval :=
  if row.id = approval ∧ row.consumedAt.isNone then { row with consumedAt := some now } else row

theorem Approval.id_consume (now : DateTime) (approval : UUID) (row : Approval) :
    (row.consume now approval).id = row.id := by
  unfold Approval.consume
  split_ifs <;> rfl

/-- `update(Approval).where(..).values(consumed_at=now)` -/
def Database.consume (now : DateTime) (approval : UUID) (db : Database) : Database :=
  { db with
    approvals := db.approvals.map (Approval.consume now approval)
    approvals_unique := by
      rw [map_map]
      have hid : Approval.id ∘ Approval.consume now approval = Approval.id :=
        funext fun row => row.id_consume now approval
      rw [hid]
      exact db.approvals_unique }

/-- Other transactions keep the approvals that there are, and consume none. -/
def Database.keeps (old new : Database) : Bool :=
  old.approvals.all fun row => new.approvals.any fun row' =>
    row'.id = row.id && row'.consumedAt.isSome == row.consumedAt.isSome

/-! ### Runs -/

/-- **A dispatch**: what it is asked for, and what it was answered.  `since` counts the states of
the database before it. -/
inductive Task
  | started (request : Request) (now : DateTime) (since : ℕ)
  | passed (request : Request) (now : DateTime) (gov : GovernanceResult)
  | consuming (request : Request) (now : DateTime) (gov : GovernanceResult) (approval : UUID)
  | committed (request : Request) (gov : GovernanceResult)
  | ended

/-- A job that was sent, with the number of its dispatch. -/
structure Job where
  task : ℕ
  request : Request
  gov : GovernanceResult

/-- **The control plane**: the states that the database has had, the present one, the dispatches,
which of them consumed which approval, and the jobs. -/
structure Plane where
  past : List Database
  db : Database
  tasks : List Task
  consumptions : List (UUID × ℕ)
  jobs : List Job

/-- The plane before the first dispatch. -/
def Plane.start (db : Database) : Plane := ⟨[], db, [], [], []⟩

/-- The states of the database, the present one last. -/
def Plane.history (s : Plane) : List Database := s.past ++ [s.db]

/-- What happens: another transaction commits, or a dispatch starts, passes or fails the gate,
consumes the approval that the governance has named, commits, sends its job, or fails. -/
inductive Event
  | write (db : Database)
  | request (r : Request) (now : DateTime)
  | gate (task : ℕ) (decidedAt : DateTime) (moment : Statement → ℕ)
  | consume (task : ℕ)
  | commit (task : ℕ)
  | send (task : ℕ)
  | fail (task : ℕ)

/-- The statements, one after the other. -/
def Statement.all : List Statement :=
  [.platformGrant, .membership, .apiKey, .catalog, .grants, .campaign, .member, .approval, .owner,
    .authorizations, .asset]

/-- A statement has found the database as it was at its moment. -/
def Plane.reads (s : Plane) (moment : Statement → ℕ) (statement : Statement) : Database :=
  s.history.getD (moment statement) s.db

/-- What the gate leaves of a dispatch. -/
def Plane.gated (s : Plane) (request : Request) (now decidedAt : DateTime)
    (moment : Statement → ℕ) : Task :=
  match registry request.toolKey with
  | none => .ended
  | some caps =>
    let gov := evaluateGovernance R settings.platformOwnerIds (s.reads moment) decidedAt.instant
      (request.governance caps)
    match gateScope settings (s.reads moment) now.instant caps gov request with
    | none => .ended
    | some _ => .passed request now gov

/-- The dispatch holds the row of the approval. -/
def Task.holds (approval : UUID) : Task → Bool
  | .consuming _ _ _ held => held = approval
  | _ => false

/-- **One step.**  An update waits while another dispatch holds the row. -/
def Plane.step (s : Plane) : Event → Option Plane
  | .write db => if s.db.keeps db then some { s with past := s.history, db := db } else none
  | .request r now => some { s with tasks := s.tasks ++ [.started r now s.past.length] }
  | .gate i decidedAt moment =>
    match s.tasks[i]? with
    | some (.started request now since) =>
      if Statement.all.all fun statement => since ≤ moment statement then
        some { s with tasks := s.tasks.set i (s.gated R settings registry request now decidedAt
          moment) }
      else none
    | _ => none
  | .consume i =>
    match s.tasks[i]? with
    | some (.passed request now gov) =>
      match gov.approvalId with
      | none => none
      | some approval =>
        if s.tasks.any (Task.holds approval) then none
        else some { s with
          tasks := s.tasks.set i
            (if s.db.unconsumed approval then .consuming request now gov approval else .ended) }
    | _ => none
  | .commit i =>
    match s.tasks[i]? with
    | some (.passed request _ gov) =>
      if gov.approvalId = none then some { s with tasks := s.tasks.set i (.committed request gov) }
      else none
    | some (.consuming request now gov approval) =>
      some { s with
        past := s.history
        db := s.db.consume now approval
        tasks := s.tasks.set i (.committed request gov)
        consumptions := s.consumptions ++ [(approval, i)] }
    | _ => none
  | .send i =>
    match s.tasks[i]? with
    | some (.committed request gov) =>
      some { s with tasks := s.tasks.set i .ended, jobs := s.jobs ++ [⟨i, request, gov⟩] }
    | _ => none
  | .fail i =>
    if i < s.tasks.length then some { s with tasks := s.tasks.set i .ended } else none

/-! ### The update of an approval -/

section Updates

variable {db new : Database} {now : DateTime} {approval other : UUID}

theorem unconsumed_iff : db.unconsumed approval = true ↔
    ∃ row ∈ db.approvals, row.id = approval ∧ row.consumedAt = none := by
  unfold Database.unconsumed
  simp only [any_eq_true, Bool.and_eq_true, decide_eq_true_eq, Option.isNone_iff_eq_none]

theorem not_consumed_of_unconsumed (h : db.unconsumed approval = true) :
    ¬ db.Consumed approval := by
  rintro ⟨row, hrow, hid, hconsumed⟩
  obtain ⟨row', hrow', hid', hnone⟩ := unconsumed_iff.mp h
  rw [inj_on_of_nodup_map db.approvals_unique hrow hrow' (hid.trans hid'.symm), hnone]
    at hconsumed
  cases hconsumed

theorem consumed_consume (h : db.unconsumed approval = true) :
    (db.consume now approval).Consumed approval := by
  obtain ⟨row, hrow, hid, hnone⟩ := unconsumed_iff.mp h
  refine ⟨row.consume now approval, mem_map_of_mem hrow, (row.id_consume ..).trans hid, ?_⟩
  unfold Approval.consume
  rw [if_pos ⟨hid, by rw [hnone]; rfl⟩]
  rfl

theorem consumed_of_consume (h : db.Consumed other) : (db.consume now approval).Consumed other := by
  obtain ⟨row, hrow, hid, hconsumed⟩ := h
  refine ⟨row.consume now approval, mem_map_of_mem hrow, (row.id_consume ..).trans hid, ?_⟩
  unfold Approval.consume
  split_ifs
  · rfl
  · exact hconsumed

theorem unconsumed_consume (hne : other ≠ approval) (h : db.unconsumed other = true) :
    (db.consume now approval).unconsumed other = true := by
  obtain ⟨row, hrow, hid, hnone⟩ := unconsumed_iff.mp h
  refine unconsumed_iff.mpr ⟨row.consume now approval, mem_map_of_mem hrow,
    (row.id_consume ..).trans hid, ?_⟩
  unfold Approval.consume
  rw [if_neg fun heq => hne (hid.symm.trans heq.1)]
  exact hnone

theorem exists_of_keeps (h : db.keeps new = true) {row : Approval} (hrow : row ∈ db.approvals) :
    ∃ row' ∈ new.approvals, row'.id = row.id ∧
      row'.consumedAt.isSome = row.consumedAt.isSome := by
  unfold Database.keeps at h
  rw [all_eq_true] at h
  obtain ⟨row', hrow', hsame⟩ := any_eq_true.mp (h row hrow)
  rw [Bool.and_eq_true, decide_eq_true_eq, beq_iff_eq] at hsame
  exact ⟨row', hrow', hsame.1, hsame.2⟩

theorem consumed_of_keeps (h : db.keeps new = true) (hconsumed : db.Consumed approval) :
    new.Consumed approval := by
  obtain ⟨row, hrow, hid, hsome⟩ := hconsumed
  obtain ⟨row', hrow', hid', hsame⟩ := exists_of_keeps h hrow
  exact ⟨row', hrow', hid'.trans hid, hsame.trans hsome⟩

theorem unconsumed_of_keeps (h : db.keeps new = true) (hun : db.unconsumed approval = true) :
    new.unconsumed approval = true := by
  obtain ⟨row, hrow, hid, hnone⟩ := unconsumed_iff.mp hun
  obtain ⟨row', hrow', hid', hsame⟩ := exists_of_keeps h hrow
  rw [hnone] at hsame
  exact unconsumed_iff.mpr ⟨row', hrow', hid'.trans hid, by simpa using hsame⟩

end Updates

/-! ### What a run keeps -/

/-- **The governance has let the request through**, by what its statements have found. -/
def Plane.Decided (s : Plane) (request : Request) (gov : GovernanceResult) : Prop :=
  ∃ (caps : ProviderCapabilities) (db : Statement → Database) (now : DateTime),
    registry request.toolKey = some caps ∧ (∀ statement, db statement ∈ s.history) ∧
      gov = evaluateGovernance R settings.platformOwnerIds db now.instant
        (request.governance caps) ∧ gov.allowed = true

/-- What holds of a dispatch by its number. -/
def Plane.TaskOk (s : Plane) (i : ℕ) : Task → Prop
  | .started .. | .ended => True
  | .passed request _ gov => s.Decided R settings registry request gov
  | .consuming request _ gov approval =>
    s.Decided R settings registry request gov ∧ gov.approvalId = some approval ∧
      s.db.unconsumed approval = true
  | .committed request gov =>
    s.Decided R settings registry request gov ∧
      ∀ approval ∈ gov.approvalId, (approval, i) ∈ s.consumptions

/-- **The invariant of the control plane.** -/
structure Plane.Inv (s : Plane) : Prop where
  consumed : ∀ c ∈ s.consumptions, s.db.Consumed c.1
  once : (s.consumptions.map Prod.fst).Nodup
  tasks : ∀ i task, s.tasks[i]? = some task → s.TaskOk R settings registry i task
  apart : ∀ (approval : UUID) (i j : ℕ) (task task' : Task), s.tasks[i]? = some task →
    s.tasks[j]? = some task' → task.holds approval = true → task'.holds approval = true → i = j
  sent : ∀ job ∈ s.jobs, s.tasks[job.task]? = some .ended ∧
    s.Decided R settings registry job.request job.gov ∧
    ∀ approval ∈ job.gov.approvalId, (approval, job.task) ∈ s.consumptions
  jobs_once : (s.jobs.map Job.task).Nodup

variable {R settings registry} {s t : Plane} {i : ℕ}

theorem Plane.Decided.mono {request : Request} {gov : GovernanceResult}
    (h : s.Decided R settings registry request gov) (hhistory : s.history ⊆ t.history) :
    t.Decided R settings registry request gov := by
  obtain ⟨caps, db, now, hcaps, hdb, hgov, hallowed⟩ := h
  exact ⟨caps, db, now, hcaps, fun statement => hhistory (hdb statement), hgov, hallowed⟩

theorem Plane.TaskOk.mono {task : Task} (h : s.TaskOk R settings registry i task)
    (hhistory : s.history ⊆ t.history) (hconsumptions : s.consumptions ⊆ t.consumptions)
    (hheld : ∀ approval, task.holds approval = true → s.db.unconsumed approval = true →
      t.db.unconsumed approval = true) : t.TaskOk R settings registry i task := by
  cases task with
  | started request now since => trivial
  | passed request now gov => exact Plane.Decided.mono h hhistory
  | consuming request now gov approval =>
    exact ⟨h.1.mono hhistory, h.2.1, hheld approval (decide_eq_true rfl) h.2.2⟩
  | committed request gov =>
    exact ⟨h.1.mono hhistory, fun approval happroval => hconsumptions (h.2 approval happroval)⟩
  | ended => trivial

theorem forall_set {tasks : List Task} {task : Task} {P : ℕ → Task → Prop}
    (h : ∀ j task, tasks[j]? = some task → j ≠ i → P j task) (hi : P i task) :
    ∀ j task', (tasks.set i task)[j]? = some task' → P j task' := by
  intro j task' hj
  rw [getElem?_set] at hj
  split_ifs at hj with hij hlt
  · subst hij
    cases hj
    exact hi
  · exact h j task' hj (Ne.symm hij)

/-- No two dispatches hold one row, when one of them gets a new state. -/
theorem Plane.Inv.apart_set (h : s.Inv R settings registry) {task : Task}
    (hheld : ∀ approval, task.holds approval = true →
      s.tasks.any (Task.holds approval) = false) :
    ∀ (approval : UUID) (j k : ℕ) (task' task'' : Task), (s.tasks.set i task)[j]? = some task' →
      (s.tasks.set i task)[k]? = some task'' → task'.holds approval = true →
      task''.holds approval = true → j = k := by
  have hother : ∀ (approval : UUID) (j : ℕ) (task' : Task), task.holds approval = true →
      s.tasks[j]? = some task' → task'.holds approval = false := by
    intro approval j task' htask hj
    have hany := any_eq_false.mp (hheld approval htask) task' (mem_of_getElem? hj)
    exact Bool.eq_false_iff.mpr hany
  intro approval j k task' task'' hj hk htask' htask''
  by_cases hji : j = i
  · by_cases hki : k = i
    · exact hji.trans hki.symm
    · rw [getElem?_set_ne (Ne.symm hki)] at hk
      rw [hji, getElem?_set, if_pos rfl] at hj
      split_ifs at hj
      cases hj
      rw [hother approval k task'' htask' hk] at htask''
      cases htask''
  · rw [getElem?_set_ne (Ne.symm hji)] at hj
    by_cases hki : k = i
    · rw [hki, getElem?_set, if_pos rfl] at hk
      split_ifs at hk
      cases hk
      rw [hother approval j task' htask'' hj] at htask'
      cases htask'
    · rw [getElem?_set_ne (Ne.symm hki)] at hk
      exact h.apart approval j k task' task'' hj hk htask' htask''

theorem Plane.live {task : Task} (htask : s.tasks[i]? = some task) (hne : task ≠ .ended) :
    s.tasks[i]? ≠ some .ended := by
  rw [htask]
  exact fun heq => hne (Option.some.inj heq)

theorem Plane.Inv.ended_set (h : s.Inv R settings registry) {task : Task}
    (hended : task = .ended ∨ s.tasks[i]? ≠ some .ended) {job : Job} (hjob : job ∈ s.jobs) :
    (s.tasks.set i task)[job.task]? = some .ended := by
  have hsent := (h.sent job hjob).1
  rw [getElem?_set]
  split_ifs with hij hlt
  · rw [hended.resolve_right fun hne => hne (hij ▸ hsent)]
  · rw [getElem?_eq_none (not_lt.mp (hij ▸ hlt))] at hsent
    cases hsent
  · exact hsent

theorem Plane.Inv.set (h : s.Inv R settings registry) {task : Task}
    (hok : s.TaskOk R settings registry i task)
    (hheld : ∀ approval, task.holds approval = true → s.tasks.any (Task.holds approval) = false)
    (hended : task = .ended ∨ s.tasks[i]? ≠ some .ended) :
    ({ s with tasks := s.tasks.set i task } : Plane).Inv R settings registry :=
  ⟨h.consumed, h.once, forall_set (fun j task' hj _ => h.tasks j task' hj) hok,
    h.apart_set hheld, fun job hjob => ⟨h.ended_set hended hjob, (h.sent job hjob).2⟩, h.jobs_once⟩

/-- **A dispatch commits the update of its approval.** -/
theorem Plane.Inv.commit (h : s.Inv R settings registry) {request : Request} {now : DateTime}
    {gov : GovernanceResult} {approval : UUID}
    (htask : s.tasks[i]? = some (.consuming request now gov approval)) :
    ({ s with
        past := s.history
        db := s.db.consume now approval
        tasks := s.tasks.set i (.committed request gov)
        consumptions := s.consumptions ++ [(approval, i)] } : Plane).Inv R settings registry := by
  obtain ⟨hdecided, hnamed, hun⟩ := h.tasks i _ htask
  have hhistory : s.history ⊆ s.history ++ [s.db.consume now approval] :=
    subset_append_left ..
  have hconsumptions : s.consumptions ⊆ s.consumptions ++ [(approval, i)] :=
    subset_append_left ..
  refine ⟨?_, ?_, forall_set (fun j task hj hne => ?_) ⟨hdecided.mono hhistory, ?_⟩,
    h.apart_set (fun _ hholds => by cases hholds), fun job hjob => ⟨?_, ?_, ?_⟩, h.jobs_once⟩
  · intro c hc
    rcases mem_append.mp hc with hc | hc
    · exact consumed_of_consume (h.consumed c hc)
    · rw [mem_singleton.mp hc]
      exact consumed_consume hun
  · rw [map_append, nodup_append]
    refine ⟨h.once, nodup_singleton _, fun a ha b hb hab => ?_⟩
    obtain ⟨c, hc, rfl⟩ := mem_map.mp ha
    have hsame : c.1 = approval := hab.trans (mem_singleton.mp hb)
    exact not_consumed_of_unconsumed hun (hsame ▸ h.consumed c hc)
  · refine (h.tasks j task hj).mono hhistory hconsumptions fun other hholds hother => ?_
    refine unconsumed_consume (fun heq => hne ?_) hother
    exact h.apart approval j i task _ hj htask (heq ▸ hholds) (decide_eq_true rfl)
  · intro a ha
    rw [hnamed] at ha
    cases ha
    exact mem_append_right _ (mem_singleton_self _)
  · exact h.ended_set (Or.inr (Plane.live htask nofun)) hjob
  · exact (h.sent job hjob).2.1.mono hhistory
  · exact fun a ha => hconsumptions ((h.sent job hjob).2.2 a ha)

/-- **Another transaction commits.** -/
theorem Plane.Inv.write (h : s.Inv R settings registry) {db : Database}
    (hkeeps : s.db.keeps db = true) :
    ({ s with past := s.history, db := db } : Plane).Inv R settings registry := by
  have hhistory : s.history ⊆ s.history ++ [db] := subset_append_left ..
  refine ⟨fun c hc => consumed_of_keeps hkeeps (h.consumed c hc), h.once, fun j task hj => ?_,
    h.apart, fun job hjob => ?_, h.jobs_once⟩
  · exact (h.tasks j task hj).mono hhistory (List.Subset.refl _) fun _ _ hun =>
      unconsumed_of_keeps hkeeps hun
  · obtain ⟨hended, hdecided, hconsumed⟩ := h.sent job hjob
    exact ⟨hended, hdecided.mono hhistory, hconsumed⟩

theorem Plane.taskOk_gated (request : Request) (now decidedAt : DateTime)
    (moment : Statement → ℕ) :
    s.TaskOk R settings registry i (s.gated R settings registry request now decidedAt moment) := by
  unfold Plane.gated
  split
  · trivial
  · next caps hcaps =>
    dsimp only
    split
    · trivial
    · next scope hscope =>
      refine ⟨caps, s.reads moment, decidedAt, hcaps, fun statement => ?_, rfl,
        allowed_of_gateScope settings hscope⟩
      unfold Plane.reads
      rw [getD_eq_getElem?_getD]
      rcases hget : s.history[moment statement]? with _ | db
      · exact mem_append_right _ (mem_singleton_self _)
      · exact mem_of_getElem? hget

theorem Plane.holds_gated (approval : UUID) (request : Request) (now decidedAt : DateTime)
    (moment : Statement → ℕ) :
    (s.gated R settings registry request now decidedAt moment).holds approval = false := by
  unfold Plane.gated
  split
  · rfl
  · dsimp only
    split <;> rfl

/-- **A dispatch starts.** -/
theorem Plane.Inv.request (h : s.Inv R settings registry) (r : Request) (now : DateTime) :
    ({ s with tasks := s.tasks ++ [.started r now s.past.length] } : Plane).Inv R settings
      registry := by
  have hnew : ∀ (j : ℕ) (task : Task),
      (s.tasks ++ [.started r now s.past.length])[j]? = some task →
      s.tasks[j]? = some task ∨ task = .started r now s.past.length := by
    intro j task hj
    rw [getElem?_append] at hj
    split_ifs at hj with hlt
    · exact Or.inl hj
    · exact Or.inr (mem_singleton.mp (mem_of_getElem? hj))
  refine ⟨h.consumed, h.once, fun j task hj => ?_, fun approval j k task task' hj hk htask htask' =>
    ?_, fun job hjob => ⟨?_, (h.sent job hjob).2⟩, h.jobs_once⟩
  · rcases hnew j task hj with hj | rfl
    · exact h.tasks j task hj
    · trivial
  · rcases hnew j task hj with hj | rfl
    · rcases hnew k task' hk with hk | rfl
      · exact h.apart approval j k task task' hj hk htask htask'
      · cases htask'
    · cases htask
  · have hsent := (h.sent job hjob).1
    rw [getElem?_append_left (List.getElem?_eq_some_iff.mp hsent).1]
    exact hsent

/-- **A dispatch sends its job.** -/
theorem Plane.Inv.send (h : s.Inv R settings registry) {request : Request}
    {gov : GovernanceResult} (htask : s.tasks[i]? = some (.committed request gov)) :
    ({ s with tasks := s.tasks.set i .ended, jobs := s.jobs ++ [⟨i, request, gov⟩] } :
      Plane).Inv R settings registry := by
  have hset : ({ s with tasks := s.tasks.set i .ended } : Plane).Inv R settings registry :=
    h.set trivial (fun _ hholds => by cases hholds) (Or.inl rfl)
  obtain ⟨hdecided, hconsumed⟩ := h.tasks i _ htask
  refine ⟨hset.consumed, hset.once, hset.tasks, hset.apart, fun job hjob => ?_, ?_⟩
  · rcases mem_append.mp hjob with hjob | hjob
    · exact hset.sent job hjob
    · rw [mem_singleton.mp hjob]
      refine ⟨?_, hdecided, hconsumed⟩
      exact getElem?_set_self (List.getElem?_eq_some_iff.mp htask).1
  · rw [map_append, nodup_append]
    refine ⟨h.jobs_once, nodup_singleton _, fun a ha b hb hab => ?_⟩
    obtain ⟨job, hjob, rfl⟩ := mem_map.mp ha
    have hsame : job.task = i := hab.trans (mem_singleton.mp hb)
    have hended := (h.sent job hjob).1
    rw [hsame, htask] at hended
    cases hended

/-- **A dispatch consumes its approval, or finds it consumed.** -/
theorem Plane.Inv.consume (h : s.Inv R settings registry) {request : Request} {now : DateTime}
    {gov : GovernanceResult} {approval : UUID}
    (htask : s.tasks[i]? = some (.passed request now gov))
    (hnamed : gov.approvalId = some approval)
    (hfree : s.tasks.any (Task.holds approval) = false) :
    ({ s with
        tasks := s.tasks.set i
          (if s.db.unconsumed approval then .consuming request now gov approval else .ended) } :
      Plane).Inv R settings registry := by
  have hdecided : s.Decided R settings registry request gov := h.tasks i _ htask
  have hlive : s.tasks[i]? ≠ some .ended := Plane.live htask nofun
  split_ifs with hun
  · refine h.set ⟨hdecided, hnamed, hun⟩ (fun other hholds => ?_) (Or.inr hlive)
    have hsame : approval = other := of_decide_eq_true hholds
    exact hsame ▸ hfree
  · exact h.set trivial (fun _ hholds => by cases hholds) (Or.inl rfl)

/-- **Each step keeps the invariant.** -/
theorem Plane.inv_step {e : Event} (h : s.Inv R settings registry)
    (hstep : s.step R settings registry e = some t) : t.Inv R settings registry := by
  cases e with
  | write db =>
    simp only [Plane.step] at hstep
    split_ifs at hstep with hkeeps
    cases hstep
    exact h.write hkeeps
  | request r now =>
    cases hstep
    exact h.request r now
  | gate i decidedAt moment =>
    simp only [Plane.step] at hstep
    split at hstep
    · next request now since htask =>
      split_ifs at hstep
      cases hstep
      refine h.set (Plane.taskOk_gated ..) (fun approval hholds => ?_)
        (Or.inr (Plane.live htask nofun))
      rw [Plane.holds_gated] at hholds
      cases hholds
    · cases hstep
  | consume i =>
    simp only [Plane.step] at hstep
    split at hstep
    · next request now gov htask =>
      split at hstep
      · cases hstep
      · next approval hnamed =>
        by_cases hheld : s.tasks.any (Task.holds approval) = true
        · rw [if_pos hheld] at hstep
          cases hstep
        · rw [if_neg hheld] at hstep
          cases hstep
          exact h.consume htask hnamed (Bool.eq_false_iff.mpr hheld)
    · cases hstep
  | commit i =>
    simp only [Plane.step] at hstep
    split at hstep
    · next request now gov htask =>
      split_ifs at hstep with hnone
      cases hstep
      refine h.set ⟨h.tasks i _ htask, fun approval happroval => ?_⟩
        (fun _ hholds => by cases hholds) (Or.inr (Plane.live htask nofun))
      rw [hnone] at happroval
      cases happroval
    · next request now gov approval htask =>
      cases hstep
      exact h.commit htask
    · cases hstep
  | send i =>
    simp only [Plane.step] at hstep
    split at hstep
    · next request gov htask =>
      cases hstep
      exact h.send htask
    · cases hstep
  | fail i =>
    simp only [Plane.step] at hstep
    split_ifs at hstep
    cases hstep
    exact h.set trivial (fun _ hholds => by cases hholds) (Or.inl rfl)

theorem Plane.inv_start (db : Database) : (Plane.start db).Inv R settings registry :=
  ⟨fun _ hc => (by cases hc), nodup_nil, fun _ _ hi => (by cases hi),
    fun _ _ _ _ _ hi => (by cases hi), fun _ hjob => (by cases hjob), nodup_nil⟩

theorem Plane.inv_of_run {db : Database}
    (h : Run (Plane.step R settings registry) (fun _ _ => True) (Plane.start db) s) :
    s.Inv R settings registry :=
  h.invariant (fun hs _ hstep => Plane.inv_step hs hstep) (Plane.inv_start db)

/-! ### Jobs -/

/-- **What a job of level 3 or more rests on**: an approval that it has consumed, with the grounds
that the governance has found in states of the database. -/
def Plane.Backed (R : Runtime) (registry : Str → Option ProviderCapabilities) (s : Plane)
    (job : Job) : Prop :=
  ∃ (caps : ProviderCapabilities) (db : Statement → Database) (now : DateTime) (actor : UUID)
    (campaign : Campaign) (approval : Approval),
    registry job.request.toolKey = some caps ∧ (∀ statement, db statement ∈ s.history) ∧
      Grounded R db now.instant (job.request.governance caps)
        (deriveCapabilityLevel R caps).int actor campaign approval ∧
      (approval.id, job.task) ∈ s.consumptions ∧ s.db.Consumed approval.id

/-- **An approval is consumed by one dispatch**, and a job of level 3 or more has consumed one. -/
structure Plane.Single (R : Runtime) (registry : Str → Option ProviderCapabilities) (s : Plane) :
    Prop where
  once : (s.consumptions.map Prod.fst).Nodup
  jobs_once : (s.jobs.map Job.task).Nodup
  backed : ∀ job ∈ s.jobs, ∀ caps, registry job.request.toolKey = some caps →
    3 ≤ (deriveCapabilityLevel R caps).int → s.Backed R registry job

theorem Plane.Inv.single (h : s.Inv R settings registry) : s.Single R registry := by
  refine ⟨h.once, h.jobs_once, fun job hjob caps hcaps hlevel => ?_⟩
  obtain ⟨-, ⟨caps', db, now, hcaps', hdb, hgov, hallowed⟩, hconsumed⟩ := h.sent job hjob
  rw [hcaps] at hcaps'
  cases hcaps'
  rw [hgov] at hallowed
  obtain ⟨permission, -, heq⟩ := eq_of_allowed hallowed
  have hrequired : (evaluateGovernance R settings.platformOwnerIds db now.instant
      (job.request.governance caps)).requiredLevel = (deriveCapabilityLevel R caps).int := by
    rw [heq]
    cases job.request <;> rfl
  obtain ⟨actor, campaign, approval, hgrounded, hnamed⟩ :=
    allowed_sensitive hallowed (hrequired ▸ hlevel)
  rw [hrequired] at hgrounded
  have hmem : (approval.id, job.task) ∈ s.consumptions := hconsumed _ (by rw [hgov, hnamed]; rfl)
  exact ⟨caps, db, now, actor, campaign, approval, hcaps, hdb, hgrounded, hmem,
    h.consumed _ hmem⟩

/-- **Governed dispatch**: an allowed decision of level 3 or more has its grounds, a service account
is not allowed above level 2, and in every run each approval is consumed by one dispatch at most,
while each job of level 3 or more has consumed one. -/
theorem governed_dispatch (R : Runtime) (settings : Settings)
    (registry : Str → Option ProviderCapabilities) :
    (∀ (db : Statement → Database) (now : ℤ) (request : GovernanceRequest),
      (evaluateGovernance R settings.platformOwnerIds db now request).allowed = true →
        (3 ≤ (evaluateGovernance R settings.platformOwnerIds db now request).requiredLevel →
          ∃ actor campaign approval, Grounded R db now request
            (evaluateGovernance R settings.platformOwnerIds db now request).requiredLevel actor
            campaign approval) ∧
        ((evaluateGovernance R settings.platformOwnerIds db now request).principalKind = .service →
          (evaluateGovernance R settings.platformOwnerIds db now request).requiredLevel ≤ 2)) ∧
    ∀ (db : Database) (s : Plane),
      Run (Plane.step R settings registry) (fun _ _ => True) (Plane.start db) s →
        s.Single R registry := by
  refine ⟨fun db now request hallowed => ⟨fun hlevel => ?_, allowed_service hallowed⟩,
    fun db s hrun => ?_⟩
  · obtain ⟨actor, campaign, approval, hgrounded, -⟩ := allowed_sensitive hallowed hlevel
    exact ⟨actor, campaign, approval, hgrounded⟩
  · have hinv : s.Inv R settings registry := Plane.inv_of_run hrun
    exact hinv.single

def sampleNow : DateTime :=
  (dateTimeOf 2026 1 1 0 0 0 0 (some 0)).get (by decide)

/-- A campaign of tenant 2 in which user 1 is an operator, with an approval by user 5. -/
def sampleDatabase : Database where
  platformGrants := [⟨1, none⟩]
  memberships := []
  apiKeys := []
  toolCatalog := [⟨"probe", true⟩]
  capabilityGrants := []
  campaigns := [⟨3, 2, "active", 3, some sampleNow, none⟩]
  campaignMembers := [⟨3, 1, "operator"⟩]
  approvals := [⟨4, 2, some 3, none, 3, 5, none, none, none⟩]
  authorizations := []
  assets := []
  approvals_unique := by decide

def sampleCapabilities : ProviderCapabilities where
  network := true
  active := true
  destructive := false
  requiresAuthorization := false
  requiresHumanApproval := false
  ports := []
  protocols := []
  category := "web_checks"

def sampleRequest : Request :=
  .tool ⟨2, "probe", [], some (uuidText 1), false, ⟨none, none, true, false⟩,
    some (uuidText 3), some (uuidText 4), false⟩

/-- Two dispatches of one request: the second one finds the approval consumed. -/
def sampleRun : Option Plane :=
  [.request sampleRequest sampleNow, .request sampleRequest sampleNow,
    .gate 0 sampleNow fun _ => 0, .gate 1 sampleNow fun _ => 0, .consume 0, .commit 0, .consume 1,
    .send 0].foldlM (Plane.step .ascii ⟨[], false⟩ fun _ => some sampleCapabilities)
      (Plane.start sampleDatabase)

theorem governed_dispatch_sample : ∃ s, sampleRun = some s ∧ s.jobs.length = 1 ∧
    s.Single .ascii fun _ => some sampleCapabilities := by
  have hlength : sampleRun.map (fun s => s.jobs.length) = some 1 := by decide
  obtain ⟨s, hs, hjobs⟩ := Option.map_eq_some_iff.mp hlength
  exact ⟨s, hs, hjobs, (governed_dispatch .ascii ⟨[], false⟩ fun _ => some sampleCapabilities).2
    sampleDatabase s (run_of_foldlM (fun _ _ => trivial) hs)⟩

end Guardian.Governance

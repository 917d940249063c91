import Guardian.Order.Table
import Guardian.Order.Ranking
import Guardian.Remediation.Item
import Guardian.Triage.History
import Mathlib.Data.Prod.Lex

/-!
# Opening and closing items

Three writers share the rows of `remediation_items`: the call that opens items for findings, a
request of a person, and the scan that closes what it proved fixed and reopens what came back.
-/

namespace Guardian.Remediation

open Python Findings Guardian.Order Triage List

/-! ### The tables -/

/-- A row of `findings` with its group, and its history. -/
structure TrackedFinding where
  id : ℕ
  correlationId : Option ℕ
  history : History

abbrev TrackedFinding.row (f : TrackedFinding) : Triage.Finding := f.history.finding

/-- **The tables** that the writers read: findings, the exposures of assets, users, and items, with
the next id that is generated. -/
structure Database where
  findings : List TrackedFinding
  exposures : ℕ → Option Str
  users : List ℕ
  items : List RemediationItem
  nextId : ℕ

/-- `_TRACKABLE_STATUSES`. -/
def trackableStatuses : List FindingStatus := [.isOpen, .triaged, .confirmed]

/-! ### Opening -/

/-- The arguments of `open_items`, and the order in which its findings come. -/
structure OpenRequest where
  tenantId : ℕ
  customerId : Option ℕ
  findingIds : List ℕ
  assigneeId : Option ℕ
  now : ℕ
  order : RowOrder TrackedFinding

/-- The conditions of the query for findings. -/
def OpenRequest.Selects (request : OpenRequest) (f : TrackedFinding) : Prop :=
  f.row.tenantId = request.tenantId ∧ f.row.status ∈ trackableStatuses ∧
    (∀ c ∈ request.customerId, f.row.customerId = c) ∧
    (request.findingIds ≠ [] → f.id ∈ request.findingIds)

instance (request : OpenRequest) (f : TrackedFinding) : Decidable (request.Selects f) := by
  unfold OpenRequest.Selects; infer_instance

/-- The findings that a call considers. -/
def OpenRequest.considered (request : OpenRequest) (db : Database) : List TrackedFinding :=
  request.order.limit 5000 (db.findings.filter request.Selects)

/-- `existing_finding_ids`. -/
def existingFindingIds (tenantId : ℕ) (findings : List TrackedFinding) (db : Database) : List ℕ :=
  (db.items.filter fun i => i.tenantId = tenantId ∧ i.findingId ∈ findings.map (·.id)).map
    (·.findingId)

/-- `covered_groups`, before the loop. -/
def coveredGroups (tenantId : ℕ) (findings : List TrackedFinding) (db : Database) : List ℕ :=
  (findings.filter (·.id ∈ existingFindingIds tenantId findings db)).filterMap (·.correlationId) ++
    (db.findings.filter fun f =>
      f.row.tenantId = tenantId ∧ f.id ∈ db.items.map (·.findingId)).filterMap
      (·.correlationId)

/-- The variables of the loop: the findings that an item is opened for, the groups that have one,
and the number of findings that such a group stands for. -/
structure Opening where
  opened : List TrackedFinding
  covered : List ℕ
  grouped : ℕ

/-- The group of the finding has an item. -/
def Opening.Covers (o : Opening) (f : TrackedFinding) : Prop :=
  ∃ g ∈ f.correlationId, g ∈ o.covered

instance (o : Opening) (f : TrackedFinding) : Decidable (o.Covers f) :=
  decidable_of_iff (f.correlationId.any (· ∈ o.covered) = true)
    (by simp [Opening.Covers, Option.any_eq_true])

/-- The body of the loop. -/
def Opening.step (existing : List ℕ) (o : Opening) (f : TrackedFinding) : Opening :=
  if f.id ∈ existing then o
  else if o.Covers f then { o with grouped := o.grouped + 1 }
  else { o with opened := o.opened ++ [f], covered := f.correlationId.toList ++ o.covered }

/-- The key of the sort: the worst first. -/
def worstFirst (f : TrackedFinding) : ℤ ×ₗ ℕ := toLex (-(f.row.seen.riskScore : ℤ), f.id)

/-- The loop. -/
def Opening.run (request : OpenRequest) (db : Database) : Opening :=
  let findings := request.considered db
  (sortBy worstFirst findings).foldl
    (Opening.step (existingFindingIds request.tenantId findings db))
    ⟨[], coveredGroups request.tenantId findings db, 0⟩

/-- What `open_items` returns. -/
structure OpenResult where
  opened : ℕ
  existing : ℕ
  grouped : ℕ
  considered : ℕ
  requested : ℕ
  reason : Option Str

/-- The reason when no finding is considered. -/
def nothingTrackable (request : OpenRequest) : Str :=
  if request.findingIds ≠ [] then
    ("none of the requested findings is in a trackable state (open, triaged, confirmed) — a finding " ++
      "that is resolved or whose risk has been accepted does not get work opened against it").toList
  else "there are no findings in a trackable state for this tenant"

/-- The reason when every finding is tracked already. -/
def alreadyTracked (considered existing grouped : ℕ) : Str :=
  "every one of the " ++ decimal considered ++
    " trackable finding(s) is already tracked: " ++ decimal existing ++
    " has an item of its own and " ++ decimal grouped ++
    " belong to a correlation group that already has one"

section Writers
variable (R : Runtime)

/-- The item that is opened for a finding. -/
def newItem (request : OpenRequest) (db : Database) (f : TrackedFinding) (id : ℕ) :
    RemediationItem where
  id := id
  tenantId := f.row.tenantId
  customerId := f.row.customerId
  findingId := f.id
  status := .isOpen
  assigneeId := request.assigneeId
  dueAt := some (dueAt R f.row.seen.severity
    ((db.exposures f.row.assetId).getD "unknown") request.now)
  justification := none
  verifiedByScanId := none

def newItems (request : OpenRequest) (db : Database) : List RemediationItem :=
  ((Opening.run request db).opened.zipIdx db.nextId).map fun p => newItem R request db p.1 p.2

/-- **`open_items`.** -/
def openItems (request : OpenRequest) (db : Database) : Database × OpenResult :=
  let findings := request.considered db
  let run := Opening.run request db
  let opened := run.opened.length
  let existing := (existingFindingIds request.tenantId findings db).dedup.length
  if findings = [] then
    (db, ⟨0, 0, 0, 0, request.findingIds.length, some (nothingTrackable request)⟩)
  else
    ({ db with items := db.items ++ newItems R request db, nextId := db.nextId + opened },
      ⟨opened, existing, run.grouped, findings.length, request.findingIds.length,
        if opened = 0 then some (alreadyTracked findings.length existing run.grouped) else none⟩)

/-! ### Requests -/

/-- `UpdateRequest`. -/
structure UpdateRequest where
  status : Option Str
  assigneeId : Option ℕ
  justification : Str
  dueAt : Option ℕ

/-- How a request is refused. -/
inductive Refusal
  | itemNotFound
  | invalid (reason : InvalidTransition)
  | assigneeNotFound

/-- The status that a request asks for, if its text is not empty. -/
def UpdateRequest.target (body : UpdateRequest) : Option Str := body.status.filter (· ≠ [])

/-- The status after a request. -/
def UpdateRequest.next (body : UpdateRequest) (current : Status) :
    Except InvalidTransition Status :=
  match body.target with
  | none => .ok current
  | some target => validateTransition R current target false body.justification

/-- What a request writes over an item. -/
def UpdateRequest.write (body : UpdateRequest) (next : Status) (item : RemediationItem) :
    RemediationItem :=
  { item with
    status := next
    assigneeId := body.assigneeId.or item.assigneeId
    dueAt := body.dueAt.or item.dueAt
    justification :=
      if body.justification ≠ [] then some body.justification else item.justification }

/-- **`update_remediation`**, for a member of the staff of a tenant. -/
def updateRemediation (tenantId itemId : ℕ) (body : UpdateRequest) (db : Database) :
    Except Refusal Database :=
  match db.items.find? fun i => i.tenantId = tenantId ∧ i.id = itemId with
  | none => .error .itemNotFound
  | some item =>
    match body.next R item.status with
    | .error reason => .error (.invalid reason)
    | .ok next =>
      if body.assigneeId.any (· ∉ db.users) then .error .assigneeNotFound
      else
        .ok { db with
          items := db.items.map fun i => if i.id = item.id then body.write next i else i }

/-! ### Scans -/

/-- The verifications of a scan, each with its finding. -/
def Database.verificationsOf (scanId : ℕ) (db : Database) : List (ℕ × FindingVerification) :=
  db.findings.flatMap fun f =>
    (f.history.verifications.filter (·.scanId = some scanId)).map fun v => (f.id, v)

/-- The orders in which the verifications and the items of a scan come. -/
structure ScanOrder where
  verifications : RowOrder (ℕ × FindingVerification)
  items : RowOrder RemediationItem

/-- What a verification writes over the item of its finding. -/
def judge (scanId : ℕ) (v : FindingVerification) (item : RemediationItem) :
    Except InvalidTransition RemediationItem :=
  if v.verdict = verdictText .resolved then
    if item.status = .verified then .ok item
    else
      (validateTransition R item.status Status.verified.text true []).map fun next =>
        { item with status := next, verifiedByScanId := some scanId }
  else if v.verdict = verdictText .stillPresent ∧
      (item.status = .fixed ∨ item.status = .verified) then
    (validateTransition R item.status Status.reopened.text true []).map fun next =>
      { item with status := next, verifiedByScanId := none }
  else .ok item

/-- Changes the item with an id. -/
def updateItem (id : ℕ) (write : RemediationItem → Except InvalidTransition RemediationItem)
    (items : List RemediationItem) : Except InvalidTransition (List RemediationItem) :=
  items.mapM fun i => if i.id = id then write i else pure i

/-- The item that the dictionary of a scan holds for a finding. -/
def itemOf (order : ScanOrder) (vs : List (ℕ × FindingVerification)) (db : Database)
    (findingId : ℕ) : Option RemediationItem :=
  lastBy (·.findingId) findingId
    (order.items.rows (db.items.filter fun i => i.findingId ∈ vs.map Prod.fst))

/-- The body of the loop, for the dictionary of the items. -/
def verifyStep (scanId : ℕ) (itemOf : ℕ → Option RemediationItem) (items : List RemediationItem)
    (v : ℕ × FindingVerification) : Except InvalidTransition (List RemediationItem) :=
  match itemOf v.1 with
  | none => pure items
  | some item => updateItem item.id (judge R scanId v.2) items

/-- **`verify_after_scan`**, on the items. -/
def verifyAfterScan (order : ScanOrder) (scanId : ℕ) (db : Database) :
    Except InvalidTransition Database :=
  let vs := order.verifications.rows (db.verificationsOf scanId)
  (vs.foldlM (verifyStep R scanId (itemOf order vs db)) db.items).map fun items => { db with items }

end Writers

/-! ### What a scan does -/

/-- What a verification makes of an item. -/
def judged (scanId : ℕ) (v : FindingVerification) (item : RemediationItem) : RemediationItem :=
  if v.verdict = verdictText .resolved then
    if item.status = .verified then item
    else { item with status := .verified, verifiedByScanId := some scanId }
  else if v.verdict = verdictText .stillPresent ∧
      (item.status = .fixed ∨ item.status = .verified) then
    { item with status := .reopened, verifiedByScanId := none }
  else item

variable {R : Runtime}

theorem judge_eq (scanId : ℕ) (v : FindingVerification) (item : RemediationItem) :
    judge R scanId v item = .ok (judged scanId v item) := by
  unfold judge judged
  rw [validateTransition_byScan item.status (Or.inl rfl),
    validateTransition_byScan item.status (Or.inr rfl)]
  split_ifs <;> rfl

/-- Judges the item with an id. -/
def judgeItem (scanId id : ℕ) (v : FindingVerification) (items : List RemediationItem) :
    List RemediationItem :=
  items.map fun i => if i.id = id then judged scanId v i else i

theorem updateItem_eq (scanId id : ℕ) (v : FindingVerification) (items : List RemediationItem) :
    updateItem id (judge R scanId v) items = .ok (judgeItem scanId id v items) := by
  have hwrite : (fun i : RemediationItem => if i.id = id then judge R scanId v i else pure i) =
      fun i => pure (if i.id = id then judged scanId v i else i) := by
    funext i
    rw [judge_eq]
    split_ifs <;> rfl
  rw [updateItem, hwrite, mapM_pure]
  rfl

/-- What the verifications of a scan make of the items, for the ids that its dictionary holds. -/
def judgeAll (scanId : ℕ) (idOf : ℕ → Option ℕ) (items : List RemediationItem)
    (vs : List (ℕ × FindingVerification)) : List RemediationItem :=
  vs.foldl (fun items v => (idOf v.1).elim items fun id => judgeItem scanId id v.2 items) items

/-- **The moves that a scan makes are never refused.** -/
theorem verifyAfterScan_eq (order : ScanOrder) (scanId : ℕ) (db : Database) :
    verifyAfterScan R order scanId db =
      let vs := order.verifications.rows (db.verificationsOf scanId)
      .ok { db with
        items := judgeAll scanId (fun f => (itemOf order vs db f).map (·.id)) db.items vs } := by
  have hstep : ∀ (itemOf : ℕ → Option RemediationItem) (vs : List (ℕ × FindingVerification))
      (items : List RemediationItem), vs.foldlM (verifyStep R scanId itemOf) items =
        .ok (judgeAll scanId (fun f => (itemOf f).map (·.id)) items vs) := by
    intro itemOf vs
    induction vs with
    | nil => exact fun _ => rfl
    | cons v vs ih =>
      intro items
      rw [foldlM_cons, judgeAll, foldl_cons, verifyStep]
      rcases itemOf v.1 with _ | item
      · exact ih items
      · dsimp only
        rw [updateItem_eq]
        exact ih (judgeItem scanId item.id v.2 items)
  unfold verifyAfterScan
  dsimp only
  rw [hstep]
  rfl

/-! ### What a request does -/

/-- **What a request writes**: it finds the item, and its status is one that `validate_transition`
lets it have. -/
theorem of_updateRemediation {tenantId itemId : ℕ} {body : UpdateRequest} {db db' : Database}
    (h : updateRemediation R tenantId itemId body db = .ok db') :
    ∃ item ∈ db.items, ∃ next, item.id = itemId ∧ item.tenantId = tenantId ∧
      body.next R item.status = .ok next ∧ (∀ a ∈ body.assigneeId, a ∈ db.users) ∧
      db' = { db with
        items := db.items.map fun i => if i.id = item.id then body.write next i else i } := by
  unfold updateRemediation at h
  split at h
  · cases h
  · next item hitem =>
    have hmem := mem_of_find?_eq_some hitem
    have hfound := find?_some hitem
    rw [decide_eq_true_eq] at hfound
    split at h
    · cases h
    · next next hnext =>
      split_ifs at h with husers
      refine ⟨item, hmem, next, hfound.2, hfound.1, hnext, fun a ha => ?_, (Except.ok.inj h).symm⟩
      by_contra hnot
      exact husers (Option.any_eq_true _ _ |>.mpr ⟨a, ha, decide_eq_true hnot⟩)

/-! ### A sample -/

def sampleFinding (id : ℕ) (group : Option ℕ) (status : FindingStatus)
    (verifications : List FindingVerification) : TrackedFinding where
  id
  correlationId := group
  history :=
    { finding :=
        { tenantId := 1, customerId := 1, assetId := 1, scanId := 1, engineRunId := 1
          fingerprint := [], status, source := [], reviewedBy := none, lastVerifiedAt := none
          verificationVerdict := none, reopenedCount := 0
          seen :=
            { title := [], description := [], category := [], cweId := none, owaspRef := none
              cveIds := [], signals := ⟨none, none, false, none, false⟩, severity := .critical
              riskScore := 95, riskRationale := [], confidence := [], location := []
              evidence := [], secretCorrelationId := none, references := [] } }
      events := []
      verifications }

def sampleVerification (scanId : ℕ) (verdict : Findings.Verdict) : FindingVerification :=
  ⟨some scanId, verdictText verdict, [], none, [], 0, none⟩

def sampleDatabase : Database := ⟨[sampleFinding 1 none .isOpen []], fun _ => none, [], [], 0⟩

def sampleRequest : OpenRequest := ⟨1, none, [], none, 0, .asStored⟩

def sampleOrder : ScanOrder := ⟨.asStored, .asStored⟩

end Guardian.Remediation

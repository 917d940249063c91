import Guardian.Remediation.Coverage

/-!
# The remediation loop

Findings and items move on their own: reviewers, reconciliations and manual verifications move the
findings, and a scan moves the items of the findings that it verified.  `along_pending_iff` gives
the runs in which work stays pending.
-/

namespace Guardian.Remediation.Loop

open Python Findings Guardian.Order Triage Transition List

/-! ### Steps -/

/-- A scan as a reconciliation reads it: for each finding the run of the engine that would have found
it, and the text of the conclusion. -/
structure Rescan where
  scanId : ℕ
  tenantId : ℕ
  assetId : ℕ
  run : TrackedFinding → Option EngineRun
  engine : TrackedFinding → Option Str
  rationale : TrackedFinding → Str
  now : ℕ

/-- What the scan says of a finding. -/
def Rescan.check (scan : Rescan) (db : Database) (f : TrackedFinding) : Check where
  scanId := scan.scanId
  reported := f.row.fingerprint ∈
    (db.findings.filter (·.row.scanId = scan.scanId)).map (·.row.fingerprint)
  run := scan.run f
  engine := scan.engine f
  rationale := scan.rationale f
  now := scan.now

/-- What happens. -/
inductive Event
  | triage (tenantId findingId : ℕ) (body : FindingTriage) (reviewer : ℕ)
  | reconcile (scan : Rescan)
  | verifyByHand (findingId : ℕ) (verdict rationale : Str) (actorId : Option ℕ) (now : ℕ)
  | openItems (request : OpenRequest)
  | verify (order : ScanOrder) (scanId : ℕ)

/-- The change of a finding in a step, if there is one. -/
def Event.change (db : Database) (f : TrackedFinding) : Event → Option Triage.Change
  | .triage tenantId findingId body reviewer =>
    if f.row.tenantId = tenantId ∧ f.id = findingId then some (.triage body reviewer) else none
  | .reconcile scan =>
    if f.row.tenantId = scan.tenantId ∧ f.row.assetId = scan.assetId then
      some (.reconcile (scan.check db f))
    else none
  | .verifyByHand findingId verdict rationale actorId now =>
    if f.id = findingId then some (.verify verdict rationale actorId now) else none
  | _ => none

section Step
variable (R : Runtime)

/-- A finding after a step. -/
def moveFinding (db : Database) (e : Event) (f : TrackedFinding) : TrackedFinding :=
  match e.change db f with
  | some c => { f with history := f.history.change R c }
  | none => f

/-- **One step.** -/
def step (db : Database) (e : Event) : Database :=
  match e with
  | .openItems request => (Remediation.openItems R request db).1
  | .verify order scanId =>
    match verifyAfterScan R order scanId db with
    | .ok db' => db'
    | .error _ => db
  | _ => { db with findings := db.findings.map (moveFinding R db e) }

end Step

/-! ### Work that is pending -/

section Pending
variable (db : Database) (f : TrackedFinding)

/-- The item is one of the finding, or of its group. -/
def Concerns (i : RemediationItem) : Prop :=
  i.findingId = f.id ∨ ∃ f' ∈ db.findings, f'.id = i.findingId ∧ f'.correlationId.isSome ∧
    f'.correlationId = f.correlationId

/-- **Work is pending**: an item of the finding or of its group is not verified. -/
def Pending : Prop := ∃ i ∈ db.items, Concerns db f i ∧ i.status ≠ .verified

/-- **The finding is tracked** in its tenant, by an item of its own or by one of its group. -/
def Tracked : Prop :=
  (∃ i ∈ db.items, i.findingId = f.id ∧ i.tenantId = f.row.tenantId) ∨
    ∃ g ∈ f.correlationId, ∃ f' ∈ db.findings, f'.row.tenantId = f.row.tenantId ∧
      f'.correlationId = some g ∧ db.HasItem f'

end Pending

/-- What is claimed of a step: a call leaves work pending for every finding that it considers. -/
def LeavesPending (R : Runtime) (db : Database) (e : Event) : Prop :=
  ∀ request, e = .openItems request → ∀ f ∈ request.considered db, Pending (step R db e) f

/-- **What a call needs**: a finding that is tracked already has work pending. -/
def FindsPending (db : Database) (e : Event) : Prop :=
  ∀ request, e = .openItems request → ∀ f ∈ request.considered db, Tracked db f → Pending db f

section Call
variable {R : Runtime} {request : OpenRequest} {db : Database} {f : TrackedFinding}

theorem pending_openItems (h : Pending db f) : Pending (Remediation.openItems R request db).1 f := by
  obtain ⟨i, hi, hconcerns, hne⟩ := h
  rw [openItems_eq]
  exact ⟨i, mem_append_left _ hi, hconcerns, hne⟩

theorem pending_of_opened {f' : TrackedFinding} (h : f' ∈ (Opening.run request db).opened)
    (hf : f' = f ∨ f'.correlationId.isSome ∧ f'.correlationId = f.correlationId) :
    Pending (Remediation.openItems R request db).1 f := by
  obtain ⟨n, hn⟩ := exists_newItem R h
  rw [openItems_eq]
  refine ⟨_, mem_append_right _ hn, ?_, fun hverified => nomatch hverified⟩
  rcases hf with rfl | hgroup
  · exact Or.inl rfl
  · exact Or.inr ⟨f', mem_of_considered (mem_considered_of_opened request db h), rfl, hgroup⟩

theorem tenant_of_considered (hf : f ∈ request.considered db) :
    f ∈ db.findings ∧ f.row.tenantId = request.tenantId :=
  ⟨mem_of_considered hf, (selects_of_considered hf).1⟩

/-- **No item is opened** for a finding that is tracked, nor for its group. -/
theorem not_opened_of_tracked (hf : f ∈ request.considered db) (h : Tracked db f)
    {f' : TrackedFinding} (hopened : f' ∈ (Opening.run request db).opened) :
    f' ≠ f ∧ ∀ g ∈ f'.correlationId, f.correlationId ≠ some g := by
  have hfresh := (Opening.fits_run request db).fresh f' hopened
  have htenant := (tenant_of_considered hf).2
  rcases h with ⟨i, hi, hid, hit⟩ | ⟨g, hg, f'', hf'', ht, hg'', hitem⟩
  · have hexisting : f.id ∈ existingFindingIds request.tenantId (request.considered db) db :=
      mem_existingFindingIds.mpr ⟨mem_map_of_mem hf, i, hi, hid, hit.trans htenant⟩
    constructor
    · rintro rfl
      exact hfresh.1 hexisting
    · intro g hg hgf
      exact hfresh.2 g hg ((mem_coveredGroups fun _ => tenant_of_considered).mpr
        ⟨f, mem_of_considered hf, htenant, hgf, i, hi, hid⟩)
  · have hcovered : g ∈ coveredGroups request.tenantId (request.considered db) db :=
      (mem_coveredGroups fun _ => tenant_of_considered).mpr
        ⟨f'', hf'', ht.trans htenant, hg'', hitem⟩
    constructor
    · rintro rfl
      exact hfresh.2 g hg hcovered
    · intro c hc hcf
      have hsame : g = c := Option.some.inj (hg.symm.trans hcf)
      exact hfresh.2 c hc (hsame ▸ hcovered)

/-- **What opening does for a finding**: work is pending afterwards unless the finding is tracked, by
verified items alone. -/
theorem pending_openItems_iff (hids : (db.findings.map (·.id)).Nodup)
    (hf : f ∈ request.considered db) :
    Pending (Remediation.openItems R request db).1 f ↔ (Tracked db f → Pending db f) := by
  have hfits := Opening.fits_run request db
  constructor
  · rintro ⟨i, hi, hconcerns, hne⟩ htracked
    rw [openItems_eq] at hi hconcerns
    rcases mem_append.mp hi with hi | hi
    · exact ⟨i, hi, hconcerns, hne⟩
    · obtain ⟨f', hopened, n, rfl⟩ := of_mem_newItems R hi
      have hmem := mem_of_considered (mem_considered_of_opened request db hopened)
      obtain ⟨hother, hgroup⟩ := not_opened_of_tracked hf htracked hopened
      rcases hconcerns with hid | ⟨f'', hf'', hid, hsome, hsame⟩
      · exact absurd (inj_on_of_nodup_map hids hmem (mem_of_considered hf) hid) hother
      · have heq : f'' = f' := inj_on_of_nodup_map hids hf'' hmem hid
        subst heq
        obtain ⟨g, hg⟩ := Option.isSome_iff_exists.mp hsome
        exact absurd (hsame.symm.trans hg) (hgroup g hg)
  · intro h
    rcases hfits.done f ((mem_sortBy worstFirst).mpr hf) with hid | ⟨g, hg, hcovered⟩ | hopened
    · obtain ⟨-, i, hi, hfinding, hit⟩ := mem_existingFindingIds.mp hid
      exact pending_openItems
        (h (Or.inl ⟨i, hi, hfinding, hit.trans (tenant_of_considered hf).2.symm⟩))
    · rcases (hfits.mem_covered g).mp hcovered with hstart | ⟨f', hf', hg'⟩
      · obtain ⟨f', hf', ht, hg', hitem⟩ :=
          (mem_coveredGroups fun _ => tenant_of_considered).mp hstart
        exact pending_openItems
          (h (Or.inr ⟨g, hg, f', hf', ht.trans (tenant_of_considered hf).2.symm, hg', hitem⟩))
      · exact pending_of_opened hf' (Or.inr ⟨by rw [hg']; rfl, hg'.trans hg.symm⟩)
    · exact pending_of_opened hopened (Or.inl rfl)

end Call

/-! ### Runs -/

section Runs
variable {R : Runtime} {db : Database}

theorem moveFinding_id (db : Database) (e : Event) (f : TrackedFinding) :
    (moveFinding R db e f).id = f.id := by
  unfold moveFinding
  split <;> rfl

theorem ids_step (e : Event) : (step R db e).findings.map (·.id) = db.findings.map (·.id) := by
  have hmove : ∀ e, (db.findings.map (moveFinding R db e)).map (·.id) = db.findings.map (·.id) := by
    intro e
    rw [map_map]
    exact map_congr_left fun f _ => moveFinding_id db e f
  cases e with
  | openItems request => rw [step, openItems_eq]
  | verify order scanId => rw [step, verifyAfterScan_eq]
  | triage => exact hmove _
  | reconcile => exact hmove _
  | verifyByHand => exact hmove _

/-- **In a run, every finding that a call considers has work pending afterwards** if and only if each
call finds work pending for the findings that are tracked already. -/
theorem along_pending_iff (hids : (db.findings.map (·.id)).Nodup) (es : List Event) :
    Along (step R) (LeavesPending R) db es ↔ Along (step R) FindsPending db es := by
  refine along_iff (I := fun db => (db.findings.map (·.id)).Nodup) (fun db e hids => ?_)
    (fun db e hids _ => by rwa [ids_step]) hids es
  unfold LeavesPending FindsPending
  refine forall_congr' fun request => forall_congr' fun he => forall_congr' fun f =>
    forall_congr' fun hf => ?_
  subst he
  exact pending_openItems_iff hids hf

end Runs

/-! ### A finding that is reopened by hand -/

def sampleRescan : Rescan :=
  ⟨2, 1, 1, fun _ => some ⟨.completed, false⟩, fun _ => none, fun _ => [], 0⟩

/-- A finding gets an item, a scan verifies it, a reviewer reopens the finding, and items are opened
once more. -/
def reopenedFinding : List Event :=
  [.openItems sampleRequest, .reconcile sampleRescan, .verify sampleOrder 2,
    .triage 1 1 ⟨some .isOpen, none, []⟩ 7, .openItems sampleRequest]

theorem findsPending_sample : FindsPending sampleDatabase (.openItems sampleRequest) := by
  rintro request - f - (⟨i, hi, -⟩ | ⟨g, -, f', -, -, -, i, hi, -⟩)
  · exact absurd hi not_mem_nil
  · exact absurd hi not_mem_nil

/-- The second call finds the item that the first one opened. -/
theorem along_pending_iff_sample :
    Along (step Runtime.ascii) (LeavesPending Runtime.ascii) sampleDatabase
      [.openItems sampleRequest, .openItems sampleRequest] := by
  refine (along_pending_iff (by decide) _).mpr ⟨findsPending_sample, ?_, trivial⟩
  intro request he f hf _
  cases he
  have hbefore : f ∈ sampleRequest.considered sampleDatabase := by
    rwa [step, openItems_eq] at hf
  exact (pending_openItems_iff (by decide) hbefore).mpr (findsPending_sample _ rfl f hbefore)

theorem reopenedFinding_not_pending :
    ¬ Along (step Runtime.ascii) (LeavesPending Runtime.ascii) sampleDatabase reopenedFinding := by
  rintro ⟨-, -, -, -, hlast, -⟩
  obtain ⟨i, hi, -, hne⟩ := hlast sampleRequest rfl _ (mem_of_getElem? (i := 0) rfl)
  have hverified : ∀ i ∈ (reopenedFinding.foldl (step Runtime.ascii) sampleDatabase).items,
      i.status = .verified := by
    decide
  exact hne (hverified i hi)

end Guardian.Remediation.Loop

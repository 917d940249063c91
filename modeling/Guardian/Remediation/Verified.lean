import Guardian.Remediation.Coverage

/-!
# What only a scan says

Items are opened, requests of people move them, and scans verify or reopen them, in any order.
`along_marked_iff` gives the runs in which a verified item names its scan.
-/

namespace Guardian.Remediation

open Python Findings Guardian.Order Triage Transition List

/-- What happens to the tables.  Findings, assets and users may change in every way. -/
inductive Event
  | openItems (request : OpenRequest)
  | patch (tenantId itemId : ℕ) (body : UpdateRequest)
  | verify (order : ScanOrder) (scanId : ℕ)
  | elsewhere (findings : List TrackedFinding) (exposures : ℕ → Option Str) (users : List ℕ)

section Step
variable (R : Runtime)

/-- **One step.**  What is refused changes nothing. -/
def step (db : Database) : Event → Database
  | .openItems request => (Remediation.openItems R request db).1
  | .patch tenantId itemId body =>
    match updateRemediation R tenantId itemId body db with
    | .ok db' => db'
    | .error _ => db
  | .verify order scanId =>
    match verifyAfterScan R order scanId db with
    | .ok db' => db'
    | .error _ => db
  | .elsewhere findings exposures users => { db with findings, exposures, users }

end Step

/-! ### States -/

/-- A verified item, and no other, names the scan that verified it. -/
def Marked (i : RemediationItem) : Prop := i.status = .verified ↔ i.verifiedByScanId.isSome = true

instance (i : RemediationItem) : Decidable (Marked i) := by unfold Marked; infer_instance

/-- **Items have keys of their own**, and each is marked. -/
structure Database.Consistent (db : Database) : Prop where
  nodup_ids : (db.items.map (·.id)).Nodup
  lt_nextId : ∀ i ∈ db.items, i.id < db.nextId
  marked : ∀ i ∈ db.items, Marked i

/-- **What a step may make of a status**: a request what `validate_transition` allows a person with
its justification, and a scan what it allows a scan. -/
def Event.Allows (R : Runtime) (e : Event) (current next : Status) : Prop :=
  match e with
  | .patch _ _ body => validateTransition R current next.text false body.justification = .ok next
  | .verify _ _ => validateTransition R current next.text true [] = .ok next
  | _ => False

/-- **A move** of an item in a step: `validate_transition` allows it, and to be verified it takes a
scan that resolved the finding. -/
structure Move (R : Runtime) (db : Database) (e : Event) (i i' : RemediationItem) : Prop where
  same_id : i'.id = i.id
  allowed : i'.status = i.status ∨ e.Allows R i.status i'.status
  verified : i.status ≠ .verified → i'.status = .verified →
    ∃ order scanId, e = .verify order scanId ∧ i'.verifiedByScanId = some scanId ∧
      ∃ v, (i.findingId, v) ∈ db.verificationsOf scanId ∧ v.verdict = verdictText .resolved

theorem Move.refl (R : Runtime) (db : Database) (e : Event) (i : RemediationItem) :
    Move R db e i i :=
  ⟨rfl, Or.inl rfl, fun hne heq => absurd heq hne⟩

/-- **What a step makes of the items**: it moves each of them, and opens others. -/
def Moves (R : Runtime) (db : Database) (e : Event) : Prop :=
  ∃ write fresh, (step R db e).items = db.items.map write ++ fresh ∧
    (∀ i ∈ db.items, Move R db e i (write i)) ∧
    ∀ i ∈ fresh, i.status = .isOpen ∧ i.verifiedByScanId = none

/-- A request opens an item that is verified. -/
def Reopens (db : Database) (e : Event) : Prop :=
  ∃ tenantId itemId body, e = .patch tenantId itemId body ∧
    body.target = some Status.isOpen.text ∧ (∀ a ∈ body.assigneeId, a ∈ db.users) ∧
    ∃ i ∈ db.items, i.tenantId = tenantId ∧ i.id = itemId ∧ i.status = .verified

/-! ### Scans -/

section Scan
variable {R : Runtime} {db : Database} {scanId : ℕ}

theorem marked_judged (v : FindingVerification) {i : RemediationItem} (h : Marked i) :
    Marked (judged scanId v i) := by
  unfold judged
  split_ifs
  · exact h
  · simp [Marked]
  · simp [Marked]
  · exact h

/-- What some verifications of a scan have made of an item. -/
structure Judged (scanId : ℕ) (vs : List (ℕ × FindingVerification)) (i i' : RemediationItem) :
    Prop where
  same_id : i'.id = i.id
  same_finding : i'.findingId = i.findingId
  status : i'.status = i.status ∨ i'.status = .verified ∨ i'.status = .reopened
  verified : i'.status = .verified → i'.status = i.status ∨ i'.verifiedByScanId = some scanId ∧
    ∃ v, (i.findingId, v) ∈ vs ∧ v.verdict = verdictText .resolved
  marked : Marked i → Marked i'

theorem Judged.refl (vs : List (ℕ × FindingVerification)) (i : RemediationItem) :
    Judged scanId vs i i :=
  ⟨rfl, rfl, Or.inl rfl, fun _ => Or.inl rfl, id⟩

/-- **One verification more.** -/
theorem Judged.step {vs : List (ℕ × FindingVerification)} {i i' : RemediationItem}
    (h : Judged scanId vs i i') {v : FindingVerification} (hv : (i.findingId, v) ∈ vs) :
    Judged scanId vs i (judged scanId v i') := by
  have hmarked : Marked i' → Marked (judged scanId v i') := marked_judged v
  unfold judged at hmarked ⊢
  split_ifs at hmarked ⊢ with hresolved hverified
  · exact h
  · exact ⟨h.same_id, h.same_finding, Or.inr (Or.inl rfl),
      fun _ => Or.inr ⟨rfl, v, hv, hresolved⟩, fun hi => hmarked (h.marked hi)⟩
  · exact ⟨h.same_id, h.same_finding, Or.inr (Or.inr rfl), (fun hreopened => nomatch hreopened),
      fun hi => hmarked (h.marked hi)⟩
  · exact h

/-- **What the verifications of a scan make of the items**, if the dictionary holds the id of an item
of the finding. -/
theorem judgeAll_judged {idOf : ℕ → Option ℕ} {items : List RemediationItem}
    {all vs : List (ℕ × FindingVerification)}
    (hid : ∀ f id, idOf f = some id → ∀ i ∈ items, i.id = id → i.findingId = f)
    (hsub : ∀ v ∈ vs, v ∈ all) {write : RemediationItem → RemediationItem}
    (hwrite : ∀ i ∈ items, Judged scanId all i (write i)) :
    ∃ write', judgeAll scanId idOf (items.map write) vs = items.map write' ∧
      ∀ i ∈ items, Judged scanId all i (write' i) := by
  induction vs generalizing write with
  | nil => exact ⟨write, rfl, hwrite⟩
  | cons v vs ih =>
    have hrest : ∀ w ∈ vs, w ∈ all := fun w hw => hsub w (mem_cons_of_mem _ hw)
    rw [judgeAll, foldl_cons, ← judgeAll]
    rcases hv : idOf v.1 with _ | id
    · exact ih hrest hwrite
    · show ∃ write', judgeAll scanId idOf (judgeItem scanId id v.2 (items.map write)) vs = _ ∧ _
      rw [judgeItem, map_map]
      refine ih hrest fun i hi => ?_
      show Judged scanId all i (if (write i).id = id then judged scanId v.2 (write i) else write i)
      split_ifs with hsame
      · -- the verification is one of the finding of the item
        have hfinding : i.findingId = v.1 :=
          hid v.1 id hv i hi ((hwrite i hi).same_id.symm.trans hsame)
        refine (hwrite i hi).step ?_
        rw [hfinding]
        exact hsub v mem_cons_self
      · exact hwrite i hi

theorem of_itemOf {order : ScanOrder} {vs : List (ℕ × FindingVerification)} {f : ℕ}
    {item : RemediationItem} (h : itemOf order vs db f = some item) :
    item ∈ db.items ∧ item.findingId = f := by
  obtain ⟨hmem, hfinding⟩ := of_lastBy h
  exact ⟨(mem_filter.mp (RowOrder.mem_rows.mp hmem)).1, hfinding⟩

theorem eq_of_same_id (hdb : db.Consistent) {i j : RemediationItem} (hi : i ∈ db.items)
    (hj : j ∈ db.items) (h : i.id = j.id) : i = j :=
  inj_on_of_nodup_map hdb.nodup_ids hi hj h

/-- **A scan** judges the items of the findings that it verified. -/
theorem judged_verify (hdb : db.Consistent) (order : ScanOrder) (scanId : ℕ) :
    ∃ write, step R db (.verify order scanId) = { db with items := db.items.map write } ∧
      ∀ i ∈ db.items, Judged scanId (db.verificationsOf scanId) i (write i) := by
  have hidOf : ∀ f id,
      (itemOf order (order.verifications.rows (db.verificationsOf scanId)) db f).map (·.id) = some id →
      ∀ i ∈ db.items, i.id = id → i.findingId = f := by
    intro f id hid i hi hsame
    obtain ⟨item, hitem, rfl⟩ := Option.map_eq_some_iff.mp hid
    obtain ⟨hmem, hfinding⟩ := of_itemOf hitem
    rw [eq_of_same_id hdb hi hmem hsame]
    exact hfinding
  have hstart : ∀ i ∈ db.items, Judged scanId (db.verificationsOf scanId) i (id i) :=
    fun i _ => Judged.refl _ i
  obtain ⟨write, hwrite, hjudged⟩ := judgeAll_judged hidOf
    (fun v (hv : v ∈ order.verifications.rows (db.verificationsOf scanId)) =>
      RowOrder.mem_rows.mp hv) hstart
  rw [map_id] at hwrite
  refine ⟨write, ?_, hjudged⟩
  rw [step, verifyAfterScan_eq]
  dsimp only
  rw [hwrite]

end Scan

/-! ### Steps -/

section Steps
variable {R : Runtime} {db : Database}

theorem of_next {body : UpdateRequest} {current next : Status}
    (h : body.next R current = .ok next) :
    next = current ∧ body.target = none ∨ body.target = some next.text ∧
      validateTransition R current next.text false body.justification = .ok next := by
  unfold UpdateRequest.next at h
  split at h
  · next hnone => exact Or.inl ⟨(Except.ok.inj h).symm, hnone⟩
  · next target htarget =>
    have htext := Status.text_ofText (ofText_of_validateTransition h)
    rw [← htext] at h htarget
    exact Or.inr ⟨htarget, h⟩

/-- **A request** writes over one item, if it is not refused. -/
theorem step_patch (hdb : db.Consistent) (tenantId itemId : ℕ) (body : UpdateRequest) :
    step R db (.patch tenantId itemId body) = db ∨
      ∃ item ∈ db.items, ∃ next, item.id = itemId ∧ item.tenantId = tenantId ∧
        body.next R item.status = .ok next ∧ (∀ a ∈ body.assigneeId, a ∈ db.users) ∧
        step R db (.patch tenantId itemId body) = { db with
          items := db.items.map fun i => if i = item then body.write next i else i } := by
  rw [step]
  rcases hrun : updateRemediation R tenantId itemId body db with e | db'
  · exact Or.inl rfl
  · obtain ⟨item, hitem, next, hid, htenant, hnext, husers, rfl⟩ := of_updateRemediation hrun
    refine Or.inr ⟨item, hitem, next, hid, htenant, hnext, husers, ?_⟩
    show ({ db with items := _ } : Database) = _
    congr 1
    refine map_congr_left fun i hi => ?_
    by_cases hsame : i = item
    · rw [hsame, if_pos rfl, if_pos rfl]
    · rw [if_neg hsame, if_neg fun h => hsame (eq_of_same_id hdb hi hitem h)]

/-- **Each step moves items as it may.** -/
theorem moves_step (hdb : db.Consistent) (e : Event) : Moves R db e := by
  cases e with
  | openItems request =>
    refine ⟨id, newItems R request db, ?_, fun i _ => Move.refl R db _ i, fun i hi => ?_⟩
    · rw [map_id, step, openItems_eq]
    · obtain ⟨f, -, n, rfl⟩ := of_mem_newItems R hi
      exact ⟨rfl, rfl⟩
  | patch tenantId itemId body =>
    rcases step_patch hdb tenantId itemId body with hsame | ⟨item, -, next, -, -, hnext, -, hstep⟩
    · exact ⟨id, [], by rw [hsame, map_id, append_nil], fun i _ => Move.refl R db _ i,
        by simp⟩
    · refine ⟨_, [], by rw [hstep, append_nil], fun i hi => ?_, by simp⟩
      split_ifs with hi
      · subst hi
        rcases of_next hnext with ⟨rfl, -⟩ | ⟨-, hvalid⟩
        · exact ⟨rfl, Or.inl rfl, fun hne heq => absurd heq hne⟩
        · refine ⟨rfl, Or.inr hvalid, fun hne heq => ?_⟩
          have hnext : next = .verified := heq
          exact absurd ((eq_of_byHand hvalid (Or.inl hnext)).symm.trans hnext) hne
      · exact Move.refl R db _ i
  | verify order scanId =>
    obtain ⟨write, hstep, hjudged⟩ := judged_verify (R := R) hdb order scanId
    refine ⟨write, [], by rw [hstep, append_nil], fun i hi => ?_, by simp⟩
    have h := hjudged i hi
    refine ⟨h.same_id, ?_, fun hne heq => ?_⟩
    · rcases h.status with hsame | hscan
      · exact Or.inl hsame
      · exact Or.inr (validateTransition_byScan _ hscan)
    · rcases h.verified heq with hsame | ⟨hscan, hv⟩
      · exact absurd (hsame.symm.trans heq) hne
      · exact ⟨order, scanId, rfl, hscan, hv⟩
  | elsewhere findings exposures users =>
    exact ⟨id, [], by rw [step, map_id, append_nil], fun i _ => Move.refl R db _ i,
      by simp⟩

/-- A request that is not refused and asks for a status opens a verified item. -/
theorem step_of_reopens (hdb : db.Consistent) {e : Event} (h : Reopens db e) :
    ∃ i ∈ (step R db e).items, ¬ Marked i := by
  obtain ⟨tenantId, itemId, body, rfl, htarget, husers, i, hi, htenant, hid, hverified⟩ := h
  have hfind : db.items.find? (fun i => i.tenantId = tenantId ∧ i.id = itemId) = some i := by
    rcases hfound : db.items.find? fun i => i.tenantId = tenantId ∧ i.id = itemId with _ | j
    · have := find?_eq_none.mp hfound i hi
      simp [htenant, hid] at this
    · have hj := find?_some hfound
      rw [decide_eq_true_eq] at hj
      exact hfound.trans (congrArg some (eq_of_same_id hdb (mem_of_find?_eq_some hfound) hi
        (hj.2.trans hid.symm)))
  have hnext : body.next R i.status = .ok .isOpen := by
    have hopen : Status.ofText Status.isOpen.text = some .isOpen := by decide
    unfold UpdateRequest.next validateTransition
    rw [htarget, hverified]
    dsimp only
    rw [hopen]
    rfl
  have husers' : body.assigneeId.any (· ∉ db.users) = false := by
    rw [Bool.eq_false_iff, Ne, Option.any_eq_true]
    rintro ⟨a, ha, hnot⟩
    exact of_decide_eq_true hnot (husers a ha)
  have hstep : step R db (.patch tenantId itemId body) = { db with
      items := db.items.map fun j => if j.id = i.id then body.write .isOpen j else j } := by
    simp only [step, updateRemediation, hfind, hnext, husers', Bool.false_eq_true, if_false]
  refine ⟨body.write .isOpen i, ?_, ?_⟩
  · rw [hstep]
    exact mem_map.mpr ⟨i, hi, if_pos rfl⟩
  · have hscan := (hdb.marked i hi).mp hverified
    intro hmarked
    have hopen : (body.write .isOpen i).status = .verified := hmarked.mpr hscan
    cases hopen

/-- **A step keeps the items marked** unless a request opens a verified one. -/
theorem marked_step (hdb : db.Consistent) {e : Event} (h : ¬ Reopens db e) :
    ∀ i ∈ (step R db e).items, Marked i := by
  cases e with
  | openItems request =>
    intro i hi
    rw [step, openItems_eq] at hi
    rcases mem_append.mp hi with hi | hi
    · exact hdb.marked i hi
    · obtain ⟨f, -, n, rfl⟩ := of_mem_newItems R hi
      simp [Marked, newItem]
  | patch tenantId itemId body =>
    rcases step_patch (R := R) hdb tenantId itemId body with
      hsame | ⟨item, hitem, next, hid, htenant, hnext, husers, hstep⟩
    · rw [hsame]
      exact hdb.marked
    · intro i hi
      rw [hstep] at hi
      obtain ⟨j, hj, rfl⟩ := mem_map.mp hi
      split_ifs with heq
      · subst heq
        -- the request leaves the scan alone, so the status may neither come nor go
        have hiff : next = .verified ↔ j.status = .verified := by
          rcases of_next hnext with ⟨rfl, -⟩ | ⟨htarget, hvalid⟩
          · exact Iff.rfl
          · constructor
            · exact fun hnext => (eq_of_byHand hvalid (Or.inl hnext)).symm.trans hnext
            · intro hverified
              rw [hverified] at hvalid
              rcases of_verified hvalid with hnext | rfl
              · exact hnext
              · exact absurd ⟨tenantId, itemId, body, rfl, htarget, husers, j, hj, htenant, hid,
                  hverified⟩ h
        exact hiff.trans (hdb.marked j hj)
      · exact hdb.marked j hj
  | verify order scanId =>
    obtain ⟨write, hstep, hjudged⟩ := judged_verify (R := R) hdb order scanId
    intro i hi
    rw [hstep] at hi
    obtain ⟨j, hj, rfl⟩ := mem_map.mp hi
    exact (hjudged j hj).marked (hdb.marked j hj)
  | elsewhere findings exposures users => exact hdb.marked

theorem keys_map (hdb : db.Consistent) {write : RemediationItem → RemediationItem}
    (hid : ∀ i ∈ db.items, (write i).id = i.id) :
    ((db.items.map write).map (·.id)).Nodup ∧ ∀ i ∈ db.items.map write, i.id < db.nextId := by
  constructor
  · have hsame : db.items.map ((·.id) ∘ write) = db.items.map (·.id) := map_congr_left hid
    rw [map_map, hsame]
    exact hdb.nodup_ids
  · intro i hi
    obtain ⟨j, hj, rfl⟩ := mem_map.mp hi
    rw [hid j hj]
    exact hdb.lt_nextId j hj

theorem keys_openItems (hdb : db.Consistent) (request : OpenRequest) :
    ((openItems R request db).1.items.map (·.id)).Nodup ∧
      ∀ i ∈ (openItems R request db).1.items, i.id < (openItems R request db).1.nextId := by
  rw [openItems_eq]
  have hids : (newItems R request db).map (·.id) =
      range' db.nextId (Opening.run request db).opened.length := by
    rw [newItems, map_map]
    exact zipIdx_map_snd db.nextId _
  dsimp only
  constructor
  · rw [map_append, hids, nodup_append]
    refine ⟨hdb.nodup_ids, nodup_range', ?_⟩
    intro a ha b hb hab
    obtain ⟨i, hi, rfl⟩ := mem_map.mp ha
    have := hdb.lt_nextId i hi
    have := (mem_range'_1.mp hb).1
    omega
  · intro i hi
    rcases mem_append.mp hi with hi | hi
    · have := hdb.lt_nextId i hi
      omega
    · have := mem_map_of_mem (f := (·.id)) hi
      rw [hids, mem_range'_1] at this
      omega

theorem keys_step (hdb : db.Consistent) (e : Event) :
    ((step R db e).items.map (·.id)).Nodup ∧
      ∀ i ∈ (step R db e).items, i.id < (step R db e).nextId := by
  cases e with
  | openItems request => exact keys_openItems hdb request
  | patch tenantId itemId body =>
    rcases step_patch (R := R) hdb tenantId itemId body with
      hsame | ⟨item, -, next, -, -, -, -, hstep⟩
    · rw [hsame]
      exact ⟨hdb.nodup_ids, hdb.lt_nextId⟩
    · rw [hstep]
      refine keys_map hdb fun i _ => ?_
      split_ifs <;> rfl
  | verify order scanId =>
    obtain ⟨write, hstep, hjudged⟩ := judged_verify (R := R) hdb order scanId
    rw [hstep]
    exact keys_map hdb fun i hi => (hjudged i hi).same_id
  | elsewhere findings exposures users => exact ⟨hdb.nodup_ids, hdb.lt_nextId⟩

/-- **What is claimed of a step**: afterwards a verified item, and no other, names its scan, and the
step has moved the items as it may. -/
def Kept (R : Runtime) (db : Database) (e : Event) : Prop :=
  (∀ i ∈ (step R db e).items, Marked i) ∧ Moves R db e

/-- **A run keeps the items marked**, and moves them as it may, if and only if no request of it opens
a verified item. -/
theorem along_marked_iff (hdb : db.Consistent) (es : List Event) :
    Along (step R) (Kept R) db es ↔ Along (step R) (fun db e => ¬ Reopens db e) db es := by
  refine along_iff (I := Database.Consistent) (fun db e hdb => ?_) (fun db e hdb hq => ?_) hdb es
  · constructor
    · rintro ⟨hmarked, -⟩ hreopens
      obtain ⟨i, hi, hnot⟩ := step_of_reopens (R := R) hdb hreopens
      exact hnot (hmarked i hi)
    · exact fun hq => ⟨marked_step hdb hq, moves_step hdb e⟩
  · obtain ⟨hnodup, hlt⟩ := keys_step (R := R) hdb e
    exact ⟨hnodup, hlt, marked_step hdb hq⟩

end Steps

/-! ### A verified item that a person opens -/

/-- A finding is opened, a scan resolves it, and a person opens the item again. -/
def reopenedByHand : List Event :=
  [.openItems sampleRequest,
    .elsewhere [sampleFinding 1 none .resolved [sampleVerification 2 .resolved]] (fun _ => none) [],
    .verify sampleOrder 2,
    .patch 1 0 ⟨some "open", none, [], none⟩]

theorem consistent_sample : sampleDatabase.Consistent :=
  ⟨nodup_nil, by simp [sampleDatabase], by simp [sampleDatabase]⟩

theorem along_marked_iff_sample :
    Along (step Runtime.ascii) (Kept Runtime.ascii) sampleDatabase (reopenedByHand.take 3) :=
  (along_marked_iff consistent_sample (reopenedByHand.take 3)).mpr
    ⟨(fun ⟨_, _, _, h, _⟩ => nomatch h), (fun ⟨_, _, _, h, _⟩ => nomatch h),
      (fun ⟨_, _, _, h, _⟩ => nomatch h), trivial⟩

theorem reopenedByHand_not_kept :
    ¬ Along (step Runtime.ascii) (Kept Runtime.ascii) sampleDatabase reopenedByHand := by
  rintro ⟨-, -, -, ⟨hmarked, -⟩, -⟩
  exact absurd hmarked (by decide)

end Guardian.Remediation

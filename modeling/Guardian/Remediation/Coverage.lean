import Guardian.Remediation.Tracker

/-!
# What opening leaves behind

After a call every finding that it considered has an item, or a group that has one
(`openItems_covers`).
-/

namespace Guardian.Remediation

open Python Findings Guardian.Order Triage List

/-- The finding has an item of its own. -/
def Database.HasItem (db : Database) (f : TrackedFinding) : Prop :=
  ∃ i ∈ db.items, i.findingId = f.id

/-- A finding of the group has an item. -/
def Database.GroupHasItem (db : Database) (g : ℕ) : Prop :=
  ∃ f ∈ db.findings, f.correlationId = some g ∧ db.HasItem f

/-- **The finding is covered**, by an item of its own or by one of its group. -/
def Database.Covers (db : Database) (f : TrackedFinding) : Prop :=
  db.HasItem f ∨ ∃ g ∈ f.correlationId, db.GroupHasItem g

/-! ### The query -/

section Query
variable {request : OpenRequest} {db : Database} {f : TrackedFinding}

theorem mem_of_considered (h : f ∈ request.considered db) : f ∈ db.findings :=
  (mem_filter.mp (RowOrder.mem_of_mem_limit h)).1

theorem selects_of_considered (h : f ∈ request.considered db) : request.Selects f := by
  simpa using (mem_filter.mp (RowOrder.mem_of_mem_limit h)).2

theorem mem_existingFindingIds {tenantId n : ℕ} {findings : List TrackedFinding} :
    n ∈ existingFindingIds tenantId findings db ↔
      n ∈ findings.map (·.id) ∧ ∃ i ∈ db.items, i.findingId = n ∧ i.tenantId = tenantId := by
  simp only [existingFindingIds, mem_map, mem_filter, decide_eq_true_eq]
  constructor
  · rintro ⟨i, ⟨hi, htenant, hmem⟩, rfl⟩
    exact ⟨hmem, i, hi, rfl, htenant⟩
  · rintro ⟨hmem, i, hi, rfl, htenant⟩
    exact ⟨i, ⟨hi, htenant, hmem⟩, rfl⟩

/-- **The groups that are covered before the loop** have an item. -/
theorem mem_coveredGroups {tenantId g : ℕ} {findings : List TrackedFinding}
    (hmem : ∀ f ∈ findings, f ∈ db.findings ∧ f.row.tenantId = tenantId) :
    g ∈ coveredGroups tenantId findings db ↔
      ∃ f ∈ db.findings, f.row.tenantId = tenantId ∧ f.correlationId = some g ∧ db.HasItem f := by
  simp only [coveredGroups, mem_append, mem_filterMap, mem_filter, decide_eq_true_eq]
  constructor
  · rintro (⟨f, ⟨hf, hexisting⟩, hg⟩ | ⟨f, ⟨hf, htenant, hitem⟩, hg⟩)
    · obtain ⟨-, i, hi, hid, -⟩ := mem_existingFindingIds.mp hexisting
      exact ⟨f, (hmem f hf).1, (hmem f hf).2, hg, i, hi, hid⟩
    · obtain ⟨i, hi, hid⟩ := mem_map.mp hitem
      exact ⟨f, hf, htenant, hg, i, hi, hid⟩
  · rintro ⟨f, hf, htenant, hg, i, hi, hid⟩
    exact Or.inr ⟨f, ⟨hf, htenant, mem_map.mpr ⟨i, hi, hid⟩⟩, hg⟩

end Query

/-! ### The loop -/

section Loop
variable {existing start : List ℕ}

/-- **What the loop has done** with the findings that it has seen. -/
structure Opening.Fits (existing start : List ℕ) (seen : List TrackedFinding) (o : Opening) :
    Prop where
  mem_seen : ∀ f ∈ o.opened, f ∈ seen
  mem_covered : ∀ g, g ∈ o.covered ↔ g ∈ start ∨ ∃ f ∈ o.opened, f.correlationId = some g
  apart : o.opened.Pairwise fun f f' => ∀ g ∈ f.correlationId, f'.correlationId ≠ some g
  fresh : ∀ f ∈ o.opened, f.id ∉ existing ∧ ∀ g ∈ f.correlationId, g ∉ start
  done : ∀ f ∈ seen, f.id ∈ existing ∨ o.Covers f ∨ f ∈ o.opened

/-- **One round** keeps what the loop has done. -/
theorem Opening.Fits.step {seen : List TrackedFinding} {o : Opening}
    (h : o.Fits existing start seen) (f : TrackedFinding) :
    (o.step existing f).Fits existing start (seen ++ [f]) := by
  have hseen : ∀ g ∈ o.opened, g ∈ seen ++ [f] :=
    fun g hg => mem_append_left _ (h.mem_seen g hg)
  unfold Opening.step
  split_ifs with hexisting hcovers
  · refine ⟨hseen, h.mem_covered, h.apart, h.fresh, fun g hg => ?_⟩
    rcases mem_append.mp hg with hg | hg
    · exact h.done g hg
    · rw [mem_singleton.mp hg]
      exact Or.inl hexisting
  · refine ⟨hseen, h.mem_covered, h.apart, h.fresh, fun g hg => ?_⟩
    rcases mem_append.mp hg with hg | hg
    · exact h.done g hg
    · rw [mem_singleton.mp hg]
      exact Or.inr (Or.inl hcovers)
  · refine ⟨fun g hg => ?_, fun g => ?_, ?_, fun g hg => ?_, fun g hg => ?_⟩
    · rcases mem_append.mp hg with hg | hg
      · exact hseen g hg
      · exact mem_append_right _ hg
    · simp only [mem_append, mem_singleton, Option.mem_toList, h.mem_covered]
      constructor
      · rintro (hg | hg | ⟨f', hf', hg⟩)
        · exact Or.inr ⟨f, Or.inr rfl, hg⟩
        · exact Or.inl hg
        · exact Or.inr ⟨f', Or.inl hf', hg⟩
      · rintro (hg | ⟨f', hf' | rfl, hg⟩)
        · exact Or.inr (Or.inl hg)
        · exact Or.inr (Or.inr ⟨f', hf', hg⟩)
        · exact Or.inl hg
    · -- a finding that is opened has no group that is covered
      refine pairwise_append.mpr ⟨h.apart, pairwise_singleton _ _, ?_⟩
      intro f' hf' f'' hf'' g hg hgf
      rw [mem_singleton.mp hf''] at hgf
      exact hcovers ⟨g, hgf, (h.mem_covered g).mpr (Or.inr ⟨f', hf', hg⟩)⟩
    · rcases mem_append.mp hg with hg | hg
      · exact h.fresh g hg
      · rw [mem_singleton.mp hg]
        exact ⟨hexisting, fun c hc hstart => hcovers ⟨c, hc, (h.mem_covered c).mpr (Or.inl hstart)⟩⟩
    · rcases mem_append.mp hg with hg | hg
      · rcases h.done g hg with hid | ⟨c, hc, hmem⟩ | hopened
        · exact Or.inl hid
        · exact Or.inr (Or.inl ⟨c, hc, mem_append_right _ hmem⟩)
        · exact Or.inr (Or.inr (mem_append_left _ hopened))
      · exact Or.inr (Or.inr (mem_append_right _ hg))

theorem Opening.fits_foldl (fs : List TrackedFinding) {seen : List TrackedFinding} {o : Opening}
    (h : o.Fits existing start seen) :
    (fs.foldl (Opening.step existing) o).Fits existing start (seen ++ fs) := by
  induction fs generalizing seen o with
  | nil => rwa [append_nil]
  | cons f fs ih =>
    have := ih (h.step f)
    rwa [append_assoc, singleton_append] at this

/-- **A loop over findings that are tracked** opens nothing. -/
theorem Opening.opened_foldl (fs : List TrackedFinding) {o : Opening}
    (h : ∀ f ∈ fs, f.id ∈ existing ∨ o.Covers f) :
    (fs.foldl (Opening.step existing) o).opened = o.opened := by
  induction fs generalizing o with
  | nil => rfl
  | cons f fs ih =>
    have hstep : (o.step existing f).opened = o.opened ∧
        (o.step existing f).covered = o.covered := by
      unfold Opening.step
      split_ifs with hexisting hcovers
      · exact ⟨rfl, rfl⟩
      · exact ⟨rfl, rfl⟩
      · exact absurd (h f mem_cons_self) (not_or.mpr ⟨hexisting, hcovers⟩)
    rw [foldl_cons, ih, hstep.1]
    intro f' hf'
    rcases h f' (mem_cons_of_mem _ hf') with hid | ⟨g, hg, hmem⟩
    · exact Or.inl hid
    · exact Or.inr ⟨g, hg, by rwa [hstep.2]⟩

variable (request : OpenRequest) (db : Database)

theorem Opening.fits_run :
    (Opening.run request db).Fits
      (existingFindingIds request.tenantId (request.considered db) db)
      (coveredGroups request.tenantId (request.considered db) db)
      (sortBy worstFirst (request.considered db)) := by
  have hstart : (⟨[], coveredGroups request.tenantId (request.considered db) db, 0⟩ : Opening).Fits
      (existingFindingIds request.tenantId (request.considered db) db)
      (coveredGroups request.tenantId (request.considered db) db) [] :=
    ⟨by simp, by simp, List.Pairwise.nil, by simp, by simp⟩
  have := Opening.fits_foldl (sortBy worstFirst (request.considered db)) hstart
  rwa [nil_append] at this

theorem mem_considered_of_opened {f : TrackedFinding} (h : f ∈ (Opening.run request db).opened) :
    f ∈ request.considered db :=
  (mem_sortBy worstFirst).mp ((Opening.fits_run request db).mem_seen f h)

end Loop

/-! ### The call -/

section Call
variable (R : Runtime) (request : OpenRequest) (db : Database)

/-- **What a call does**: the loop over no findings opens nothing. -/
theorem openItems_run : (openItems R request db).1 =
    { db with
      items := db.items ++ newItems R request db
      nextId := db.nextId + (Opening.run request db).opened.length } ∧
    (openItems R request db).2.opened = (Opening.run request db).opened.length := by
  unfold openItems
  by_cases hnil : request.considered db = []
  · have hopened : (Opening.run request db).opened = [] := by
      rw [eq_nil_iff_forall_not_mem]
      intro f hf
      have := mem_considered_of_opened request db hf
      rw [hnil] at this
      exact not_mem_nil this
    rw [if_pos hnil, newItems, hopened]
    simp
  · rw [if_neg hnil]
    exact ⟨rfl, rfl⟩

theorem openItems_eq : (openItems R request db).1 =
    { db with
      items := db.items ++ newItems R request db
      nextId := db.nextId + (Opening.run request db).opened.length } :=
  (openItems_run R request db).1

variable {request db}

theorem of_mem_newItems {i : RemediationItem} (h : i ∈ newItems R request db) :
    ∃ f ∈ (Opening.run request db).opened, ∃ n, i = newItem R request db f n := by
  obtain ⟨p, hp, rfl⟩ := mem_map.mp h
  exact ⟨p.1, (mem_zipIdx hp).2.2 ▸ getElem_mem _, p.2, rfl⟩

theorem exists_newItem {f : TrackedFinding} (h : f ∈ (Opening.run request db).opened) :
    ∃ n, newItem R request db f n ∈ newItems R request db := by
  obtain ⟨k, hk, rfl⟩ := getElem_of_mem h
  refine ⟨db.nextId + k, mem_map.mpr ⟨(_, db.nextId + k), ?_, rfl⟩⟩
  rw [mk_add_mem_zipIdx_iff_getElem?]
  exact getElem?_eq_getElem hk

theorem hasItem_of_opened {f : TrackedFinding} (h : f ∈ (Opening.run request db).opened) :
    (openItems R request db).1.HasItem f := by
  obtain ⟨n, hn⟩ := exists_newItem R h
  rw [openItems_eq]
  exact ⟨_, mem_append_right _ hn, rfl⟩

theorem hasItem_openItems {f : TrackedFinding} (h : db.HasItem f) :
    (openItems R request db).1.HasItem f := by
  obtain ⟨i, hi, hid⟩ := h
  rw [openItems_eq]
  exact ⟨i, mem_append_left _ hi, hid⟩

/-- **What a second call finds** for a finding that the first one considered: an item of its own in
the tenant, or a group with an item. -/
theorem tracked_of_considered {f : TrackedFinding} (h : f ∈ request.considered db) :
    (∃ i ∈ (openItems R request db).1.items, i.findingId = f.id ∧ i.tenantId = request.tenantId) ∨
      ∃ g ∈ f.correlationId, ∃ f' ∈ db.findings, f'.row.tenantId = request.tenantId ∧
        f'.correlationId = some g ∧ (openItems R request db).1.HasItem f' := by
  have htenant : ∀ f ∈ request.considered db,
      f ∈ db.findings ∧ f.row.tenantId = request.tenantId :=
    fun f hf => ⟨mem_of_considered hf, (selects_of_considered hf).1⟩
  have hfits := Opening.fits_run request db
  rcases hfits.done f ((mem_sortBy worstFirst).mpr h) with hid | ⟨g, hg, hcovered⟩ | hopened
  · obtain ⟨-, i, hi, hfinding, hit⟩ := mem_existingFindingIds.mp hid
    rw [openItems_eq]
    exact Or.inl ⟨i, mem_append_left _ hi, hfinding, hit⟩
  · refine Or.inr ⟨g, hg, ?_⟩
    rcases (hfits.mem_covered g).mp hcovered with hstart | ⟨f', hf', hg'⟩
    · obtain ⟨f', hf', ht, hg', hitem⟩ := (mem_coveredGroups htenant).mp hstart
      exact ⟨f', hf', ht, hg', hasItem_openItems R hitem⟩
    · have hconsidered := htenant f' (mem_considered_of_opened request db hf')
      exact ⟨f', hconsidered.1, hconsidered.2, hg', hasItem_of_opened R hf'⟩
  · obtain ⟨n, hn⟩ := exists_newItem R hopened
    rw [openItems_eq]
    exact Or.inl ⟨_, mem_append_right _ hn, rfl, (htenant f h).2⟩

theorem openItems_of_tracked {again : OpenRequest}
    (h : ∀ f ∈ again.considered db,
      f.id ∈ existingFindingIds again.tenantId (again.considered db) db ∨
        ∃ g ∈ f.correlationId, g ∈ coveredGroups again.tenantId (again.considered db) db) :
    (Opening.run again db).opened = [] ∧ (openItems R again db).1 = db := by
  have hopened : (Opening.run again db).opened = [] :=
    Opening.opened_foldl _ fun f hf => h f ((mem_sortBy worstFirst).mp hf)
  refine ⟨hopened, ?_⟩
  rw [openItems_eq, newItems, hopened]
  simp

theorem length_opened_of_group_le (request : OpenRequest) (db : Database) (g : ℕ) :
    ((Opening.run request db).opened.filter fun f => f.correlationId = some g).length ≤ 1 := by
  have hapart := ((Opening.fits_run request db).apart.filter
    fun f => decide (f.correlationId = some g))
  have hmem : ∀ f ∈ (Opening.run request db).opened.filter fun f => f.correlationId = some g,
      f.correlationId = some g := by
    intro f hf
    simpa using (mem_filter.mp hf).2
  revert hapart hmem
  generalize (Opening.run request db).opened.filter (fun f => f.correlationId = some g) = fs
  intro hapart hmem
  rcases fs with _ | ⟨f, _ | ⟨f', fs⟩⟩
  · exact Nat.zero_le 1
  · exact le_rfl
  · rw [pairwise_cons] at hapart
    exact absurd (hmem f' (by simp)) (hapart.1 f' (by simp) g (hmem f (by simp)))

theorem openItems_again {request again : OpenRequest} {db : Database}
    (hsame : ∀ f ∈ again.considered (openItems R request db).1, f ∈ request.considered db) :
    (Opening.run again (openItems R request db).1).opened = [] ∧
      (openItems R again (openItems R request db).1).1 = (openItems R request db).1 := by
  have hfindings : (openItems R request db).1.findings = db.findings := by rw [openItems_eq]
  refine openItems_of_tracked R fun f hf => ?_
  have hfirst := hsame f hf
  have htenant : again.tenantId = request.tenantId :=
    (selects_of_considered hf).1.symm.trans (selects_of_considered hfirst).1
  have hmem : ∀ f ∈ again.considered (openItems R request db).1,
      f ∈ (openItems R request db).1.findings ∧ f.row.tenantId = again.tenantId :=
    fun f hf => ⟨mem_of_considered hf, (selects_of_considered hf).1⟩
  rcases tracked_of_considered R hfirst with ⟨i, hi, hid, hit⟩ | ⟨g, hg, f', hf', ht, hg', hitem⟩
  · exact Or.inl (mem_existingFindingIds.mpr
      ⟨mem_map_of_mem hf, i, hi, hid, hit.trans htenant.symm⟩)
  · exact Or.inr ⟨g, hg, (mem_coveredGroups hmem).mpr
      ⟨f', hfindings ▸ hf', ht.trans htenant.symm, hg', hitem⟩⟩

/-- **What a call leaves behind**: every finding that it considered is covered, each group has been
given one item at most, and a second call with the same findings opens none. -/
theorem openItems_covers (request : OpenRequest) (db : Database) :
    (∀ f ∈ request.considered db, (openItems R request db).1.Covers f) ∧
    (∃ opened : List TrackedFinding, (∀ f ∈ opened, f ∈ request.considered db) ∧
      (openItems R request db).1.items =
        db.items ++ (opened.zipIdx db.nextId).map (fun p => newItem R request db p.1 p.2) ∧
      ∀ g, (opened.filter fun f => f.correlationId = some g).length ≤ 1) ∧
    ∀ again : OpenRequest,
      (∀ f ∈ again.considered (openItems R request db).1, f ∈ request.considered db) →
      (openItems R again (openItems R request db).1).1 = (openItems R request db).1 ∧
      (openItems R again (openItems R request db).1).2.opened = 0 := by
  have hfindings : (openItems R request db).1.findings = db.findings := by rw [openItems_eq]
  refine ⟨fun f hf => ?_, ⟨(Opening.run request db).opened, ?_, ?_, fun g => ?_⟩,
    fun again hsame => ?_⟩
  · rcases tracked_of_considered R hf with ⟨i, hi, hid, -⟩ | ⟨g, hg, f', hf', -, hg', hitem⟩
    · exact Or.inl ⟨i, hi, hid⟩
    · exact Or.inr ⟨g, hg, f', hfindings ▸ hf', hg', hitem⟩
  · exact fun f => mem_considered_of_opened request db
  · rw [openItems_eq]
    rfl
  · exact length_opened_of_group_le request db g
  · refine ⟨(openItems_again R hsame).2, ?_⟩
    rw [(openItems_run R again _).2, (openItems_again R hsame).1]
    rfl

end Call

/-- Two findings of a group, and one of none. -/
def groupedDatabase : Database :=
  ⟨[sampleFinding 1 (some 1) .isOpen [], sampleFinding 2 (some 1) .isOpen [],
    sampleFinding 3 none .isOpen []], fun _ => none, [], [], 0⟩

theorem openItems_covers_sample :
    (openItems Runtime.ascii sampleRequest groupedDatabase).2.opened = 2 ∧
      (openItems Runtime.ascii sampleRequest
        (openItems Runtime.ascii sampleRequest groupedDatabase).1).2.opened = 0 := by
  refine ⟨by decide, ?_⟩
  refine ((openItems_covers Runtime.ascii sampleRequest groupedDatabase).2.2 sampleRequest ?_).2
  intro f hf
  rwa [openItems_eq] at hf

end Guardian.Remediation

import Guardian.Findings.Lifecycle
import Guardian.Transition.Run

/-!
# Two scans of one asset

The reconciliation of a scan reads back what the scan reported by the scan id that its findings
carry.  When another scan persists in between, the findings that both report carry the id of the
other one, and the reconciliation takes them for unreported.  `undisturbed_iff` gives the orders of
their steps that do no harm.
-/

namespace Guardian.Findings

open Python Transition List

/-- A step of a scan. -/
inductive Step
  | persist (scan : Scan)
  | reconcile (scan : Scan)

/-- What a step does to the findings of the asset. -/
def Step.run (t : Table) : Step → Table
  | .persist scan => Findings.persist scan t
  | .reconcile scan => Findings.reconcile scan t

/-- The steps of a scan, in their order. -/
def Scan.steps (scan : Scan) : List Step := [.persist scan, .reconcile scan]

def runSteps (order : List Step) (t : Table) : Table := order.foldl Step.run t

/-- Statuses and regression counts of the findings that carry a fingerprint. -/
def marks (F : Str) (t : Table) : List (FindingStatus × ℕ) := (rowsOf F t).map Finding.mark

/-- Some finding with the fingerprint was moved to resolved between two tables. -/
def MovedToResolved (F : Str) (before later : Table) : Prop :=
  ∃ e ∈ later.events.drop before.events.length, e.fingerprint = F ∧ e.toStatus = .resolved

/-- **A fingerprint is undisturbed** by an order of the steps: no reconciliation moves a finding that
carries it to resolved, and statuses and regression counts are those of the scans one after the
other. -/
def Undisturbed (A B : Scan) (F : Str) (order : List Step) (t : Table) : Prop :=
  ¬ MovedToResolved F t (runSteps order t) ∧
    marks F (runSteps order t) = marks F (runSteps (A.steps ++ B.steps) t)

/-- The scan's run of the engine that is taken for the producer of a finding completed, and not
degraded. -/
def Scan.Clean (scan : Scan) (f : Finding) : Prop :=
  engineOutcome (scan.runs (engineKey f.seen)) = .resolved

/-- **The condition**: if both scans persist before the first of them reconciles, that one has no
clean run of the engine of an open finding; and of a resolved one, if it reconciles last. -/
def Unaffected (F : Str) (order : List Step) (t : Table) : Prop :=
  ∀ X Y,
    (order = [.persist X, .persist Y, .reconcile X, .reconcile Y] →
      ∀ f ∈ rowsOf F (persist Y (persist X t)), X.Clean f → f.status.isOpenStatus = false) ∧
    (order = [.persist X, .persist Y, .reconcile Y, .reconcile X] →
      ∀ f ∈ rowsOf F (persist Y (persist X t)), X.Clean f →
        f.status.isOpenStatus = false ∧ f.status ≠ .resolved)

/-- No finding carries the id of one of the scans yet. -/
structure Fresh (A B : Scan) (t : Table) : Prop where
  ne : A.id ≠ B.id
  rows : ∀ f ∈ t.rows, f.scanId ≠ A.id ∧ f.scanId ≠ B.id

/-! ### What a verdict does to a mark -/

/-- `_apply`, on the status and the regression count. -/
def Verdict.move (v : Verdict) (m : FindingStatus × ℕ) : FindingStatus × ℕ :=
  match v with
  | .resolved => if m.1.isOpenStatus then (.resolved, m.2) else m
  | .stillPresent => if m.1 = .resolved then (.isOpen, m.2 + 1) else m
  | _ => m

theorem mark_applyVerdict (v : Verdict) (f : Finding) :
    (applyVerdict v f).mark = v.move f.mark := by
  rcases v with _ | _ | _ | _
  · by_cases h : f.status = .resolved <;> simp [applyVerdict, Verdict.move, Finding.mark, h]
  · by_cases h : f.status.isOpenStatus = true <;> simp [applyVerdict, Verdict.move, Finding.mark, h]
  · rfl
  · rfl

theorem move_stillPresent_idem (m : FindingStatus × ℕ) :
    Verdict.stillPresent.move (Verdict.stillPresent.move m) = Verdict.stillPresent.move m := by
  unfold Verdict.move
  dsimp only
  split_ifs with h h'
  · cases h'
  · rfl
  · rfl

theorem move_engineOutcome {run : Option EngineRun} {m : FindingStatus × ℕ}
    (h : engineOutcome run = .resolved → m.1.isOpenStatus = false) :
    (engineOutcome run).move m = m := by
  unfold Verdict.move
  split
  · rename_i heq
    rw [h heq]
    rfl
  · rename_i heq
    unfold engineOutcome at heq
    split at heq
    · cases heq
    · split_ifs at heq
  · rfl

/-! ### What a step does to the marks of a fingerprint -/

section Steps

variable {F : Str} {X Y : Scan} {t : Table}

theorem marks_persist (h : F ∈ X.reports.map Prod.fst) :
    marks F (persist X t) = if marks F t = [] then [(.isOpen, 0)] else marks F t := by
  obtain ⟨f, hrows, -, hmark⟩ := rowsOf_persist (t := t) h
  unfold marks
  rw [hrows]
  rcases hF : rowsOf F t with _ | ⟨g, gs⟩
  · rw [hF] at hmark
    simpa using hmark
  · rw [hF] at hmark
    simpa using hmark

theorem marks_persist_ne_nil (h : F ∈ X.reports.map Prod.fst) : marks F (persist X t) ≠ [] := by
  rw [marks_persist h]
  split_ifs with hnil
  · simp
  · exact hnil

theorem mem_reported_persist (h : F ∈ X.reports.map Prod.fst) : F ∈ reported X (persist X t) := by
  obtain ⟨f, hrows, hid, -⟩ := rowsOf_persist (t := t) h
  exact mem_reported.mpr ⟨f, by rw [hrows]; exact mem_cons_self, hid⟩

theorem mem_reported_reconcile : F ∈ reported X (reconcile Y t) ↔ F ∈ reported X t := by
  rw [mem_reported, mem_reported, rowsOf_reconcile]
  simp only [mem_map, exists_exists_and_eq_and, applyVerdict_scanId]

theorem notMem_reported (hfresh : ∀ f ∈ t.rows, f.scanId ≠ X.id) (hne : Y.id ≠ X.id)
    (hX : F ∈ X.reports.map Prod.fst) (hY : F ∈ Y.reports.map Prod.fst) :
    F ∉ reported X (persist Y (persist X t)) := by
  obtain ⟨f, hf, -, -⟩ := rowsOf_persist (t := t) hX
  obtain ⟨g, hg, hgid, -⟩ := rowsOf_persist (t := persist X t) hY
  rw [mem_reported, hg, hf]
  rintro ⟨k, hk, hkid⟩
  rcases mem_cons.mp hk with rfl | hk
  · rw [hgid] at hkid
    exact hne hkid
  · have hmem : k ∈ rowsOf F t := mem_of_mem_tail hk
    exact hfresh k (mem_rowsOf.mp hmem).1 hkid

theorem rowsOf_reconcile_of_mem (h : F ∈ reported X t) :
    rowsOf F (reconcile X t) = (rowsOf F t).map (applyVerdict .stillPresent) := by
  rw [rowsOf_reconcile]
  refine map_congr_left fun f hf => ?_
  rw [verdictFor, (mem_rowsOf.mp hf).2, if_pos h]

theorem marks_reconcile_of_mem (h : F ∈ reported X t) :
    marks F (reconcile X t) = (marks F t).map Verdict.stillPresent.move := by
  unfold marks
  rw [rowsOf_reconcile_of_mem h, map_map, map_map]
  exact map_congr_left fun f _ => mark_applyVerdict _ f

theorem isOpenStatus_stillPresent (f : Finding) :
    (applyVerdict .stillPresent f).status.isOpenStatus = true ↔
      f.status.isOpenStatus = true ∨ f.status = .resolved := by
  unfold applyVerdict
  by_cases hres : f.status = .resolved
  · simp [hres, FindingStatus.isOpenStatus]
  · simp [hres]

theorem marks_reconcile_of_notMem (h : F ∉ reported X t) :
    marks F (reconcile X t) =
      (rowsOf F t).map fun f => (engineOutcome (X.runs (engineKey f.seen))).move f.mark := by
  unfold marks
  rw [rowsOf_reconcile, map_map]
  refine map_congr_left fun f hf => ?_
  have hF := (mem_rowsOf.mp hf).2
  simp only [Function.comp_apply, mark_applyVerdict, verdictFor, hF, h, if_false]

/-! ### What a reconciliation records -/

/-- The events that a reconciliation records. -/
def newEvents (scan : Scan) (t : Table) : List FindingEvent :=
  t.rows.filterMap fun f => eventOf (verdictFor f (reported scan t) scan.runs) f

theorem events_persist (scan : Scan) (t : Table) : (persist scan t).events = t.events := by
  unfold persist
  induction scan.reports generalizing t with
  | nil => rfl
  | cons r rs ih =>
    rw [foldl_cons, ih]
    unfold persistOne
    split_ifs
    · rfl
    · rfl

theorem eventOf_resolved {v : Verdict} {f : Finding} {e : FindingEvent} (h : eventOf v f = some e) :
    e.fingerprint = f.fingerprint ∧
      (e.toStatus = .resolved ↔ v = .resolved ∧ f.status.isOpenStatus = true) := by
  unfold eventOf at h
  split at h
  · split_ifs at h with hopen
    cases h
    exact ⟨rfl, by simp [hopen]⟩
  · split_ifs at h
    cases h
    exact ⟨rfl, by simp⟩
  · cases h

/-- **A reconciliation resolves** a finding exactly if it does not see it among what its scan
reported, the engine's run is clean, and the finding is open. -/
theorem exists_resolved_iff :
    (∃ e ∈ newEvents X t, e.fingerprint = F ∧ e.toStatus = .resolved) ↔
      F ∉ reported X t ∧ ∃ f ∈ rowsOf F t, X.Clean f ∧ f.status.isOpenStatus = true := by
  constructor
  · rintro ⟨e, he, hF, hto⟩
    obtain ⟨f, hf, hev⟩ := mem_filterMap.mp he
    obtain ⟨hfp, hres⟩ := eventOf_resolved hev
    obtain ⟨hverdict, hopen⟩ := hres.mp hto
    have hfF : f.fingerprint = F := by rw [← hfp, hF]
    unfold verdictFor at hverdict
    split_ifs at hverdict with hmem
    rw [hfF] at hmem
    exact ⟨hmem, f, mem_rowsOf.mpr ⟨hf, hfF⟩, hverdict, hopen⟩
  · rintro ⟨hmem, f, hf, hclean, hopen⟩
    obtain ⟨hrow, rfl⟩ := mem_rowsOf.mp hf
    refine ⟨⟨f.id, f.fingerprint, f.status, .resolved⟩, mem_filterMap.mpr ⟨f, hrow, ?_⟩, rfl,
      rfl⟩
    have hverdict : verdictFor f (reported X t) X.runs = .resolved := by
      unfold verdictFor
      rw [if_neg hmem]
      exact hclean
    simp [hverdict, eventOf, hopen]

end Steps

/-! ### The orders -/

section Orders

variable {A B X Y : Scan} {F : Str} {t : Table}

theorem movedToResolved_iff {before later : Table} {es : List FindingEvent}
    (h : later.events = before.events ++ es) :
    MovedToResolved F before later ↔ ∃ e ∈ es, e.fingerprint = F ∧ e.toStatus = .resolved := by
  unfold MovedToResolved
  rw [h, drop_left]

theorem exists_mem_append_iff {es es' : List FindingEvent} :
    (∃ e ∈ es ++ es', e.fingerprint = F ∧ e.toStatus = .resolved) ↔
      (∃ e ∈ es, e.fingerprint = F ∧ e.toStatus = .resolved) ∨
        ∃ e ∈ es', e.fingerprint = F ∧ e.toStatus = .resolved := by
  simp only [mem_append, or_and_right, exists_or]

theorem marks_serial (hX : F ∈ X.reports.map Prod.fst) (hY : F ∈ Y.reports.map Prod.fst) :
    marks F (runSteps (X.steps ++ Y.steps) t) =
      (marks F (persist X t)).map Verdict.stillPresent.move := by
  show marks F (reconcile Y (persist Y (reconcile X (persist X t)))) = _
  have hne := marks_persist_ne_nil (t := t) hX
  rw [marks_reconcile_of_mem (mem_reported_persist hY), marks_persist hY,
    marks_reconcile_of_mem (mem_reported_persist hX), if_neg (by simpa using hne), map_map]
  refine map_congr_left fun m _ => ?_
  exact move_stillPresent_idem m

theorem not_movedToResolved_serial (hX : F ∈ X.reports.map Prod.fst)
    (hY : F ∈ Y.reports.map Prod.fst) :
    ¬ MovedToResolved F t (runSteps (X.steps ++ Y.steps) t) := by
  have hevents : (runSteps (X.steps ++ Y.steps) t).events = t.events ++
      (newEvents X (persist X t) ++ newEvents Y (persist Y (reconcile X (persist X t)))) := by
    show (persist Y (reconcile X (persist X t))).events ++ newEvents Y _ = _
    rw [events_persist, ← append_assoc]
    show ((persist X t).events ++ newEvents X (persist X t)) ++ _ = _
    rw [events_persist]
    rfl
  rw [movedToResolved_iff hevents, exists_mem_append_iff, exists_resolved_iff, exists_resolved_iff]
  rintro (⟨hnot, -⟩ | ⟨hnot, -⟩)
  · exact hnot (mem_reported_persist hX)
  · exact hnot (mem_reported_persist hY)

/-- After both scans have persisted, the first of them has reported nothing. -/
structure Overlapping (X Y : Scan) (F : Str) (t : Table) : Prop where
  first : F ∈ X.reports.map Prod.fst
  second : F ∈ Y.reports.map Prod.fst
  overwritten : F ∉ reported X (persist Y (persist X t))

theorem Overlapping.marks_eq (h : Overlapping X Y F t) :
    marks F (persist Y (persist X t)) = marks F (persist X t) := by
  rw [marks_persist h.second, if_neg (marks_persist_ne_nil h.first)]

theorem movedToResolved_overlap {U V : Scan} :
    MovedToResolved F t (runSteps [.persist X, .persist Y, .reconcile U, .reconcile V] t) ↔
      (F ∉ reported U (persist Y (persist X t)) ∧
        ∃ f ∈ rowsOf F (persist Y (persist X t)), U.Clean f ∧ f.status.isOpenStatus = true) ∨
      F ∉ reported V (reconcile U (persist Y (persist X t))) ∧
        ∃ f ∈ rowsOf F (reconcile U (persist Y (persist X t))),
          V.Clean f ∧ f.status.isOpenStatus = true := by
  have hevents : (runSteps [.persist X, .persist Y, .reconcile U, .reconcile V] t).events =
      t.events ++ (newEvents U (persist Y (persist X t)) ++
        newEvents V (reconcile U (persist Y (persist X t)))) := by
    show ((persist Y (persist X t)).events ++ newEvents U _) ++ newEvents V _ = _
    rw [events_persist, events_persist, append_assoc]
    rfl
  rw [movedToResolved_iff hevents, exists_mem_append_iff, exists_resolved_iff, exists_resolved_iff]

theorem Overlapping.undisturbed_first (h : Overlapping X Y F t)
    (hserial : marks F (runSteps (A.steps ++ B.steps) t) =
      (marks F (persist X t)).map Verdict.stillPresent.move) :
    Undisturbed A B F [.persist X, .persist Y, .reconcile X, .reconcile Y] t ↔
      ∀ f ∈ rowsOf F (persist Y (persist X t)), X.Clean f → f.status.isOpenStatus = false := by
  have hmem : F ∈ reported Y (reconcile X (persist Y (persist X t))) :=
    mem_reported_reconcile.mpr (mem_reported_persist h.second)
  unfold Undisturbed
  rw [movedToResolved_overlap, hserial, ← h.marks_eq]
  constructor
  · rintro ⟨hmoved, -⟩ f hf hclean
    by_contra hopen
    exact hmoved (.inl ⟨h.overwritten, f, hf, hclean, by simpa using hopen⟩)
  · intro hall
    refine ⟨?_, ?_⟩
    · rintro (⟨-, f, hf, hclean, hopen⟩ | ⟨hnot, -⟩)
      · rw [hall f hf hclean] at hopen
        cases hopen
      · exact hnot hmem
    · show marks F (reconcile Y (reconcile X (persist Y (persist X t)))) = _
      rw [marks_reconcile_of_mem hmem, marks_reconcile_of_notMem h.overwritten, marks, map_map,
        map_map]
      refine map_congr_left fun f hf => ?_
      exact congrArg _ (move_engineOutcome (m := f.mark) fun hclean => hall f hf hclean)

/-- The first scan reconciles last. -/
theorem Overlapping.undisturbed_last (h : Overlapping X Y F t)
    (hserial : marks F (runSteps (A.steps ++ B.steps) t) =
      (marks F (persist X t)).map Verdict.stillPresent.move) :
    Undisturbed A B F [.persist X, .persist Y, .reconcile Y, .reconcile X] t ↔
      ∀ f ∈ rowsOf F (persist Y (persist X t)), X.Clean f →
        f.status.isOpenStatus = false ∧ f.status ≠ .resolved := by
  have hmem : F ∈ reported Y (persist Y (persist X t)) := mem_reported_persist h.second
  have hnot : F ∉ reported X (reconcile Y (persist Y (persist X t))) := fun hX =>
    h.overwritten (mem_reported_reconcile.mp hX)
  have hrows := rowsOf_reconcile_of_mem hmem
  unfold Undisturbed
  rw [movedToResolved_overlap, hserial, ← h.marks_eq, hrows]
  constructor
  · rintro ⟨hmoved, -⟩ f hf hclean
    have hclosed : ¬ (applyVerdict .stillPresent f).status.isOpenStatus = true := by
      intro hopen
      refine hmoved (.inr ⟨hnot, _, mem_map_of_mem hf, ?_, hopen⟩)
      rw [Scan.Clean, applyVerdict_seen]
      exact hclean
    rw [isOpenStatus_stillPresent, not_or] at hclosed
    exact ⟨by simpa using hclosed.1, hclosed.2⟩
  · intro hall
    refine ⟨?_, ?_⟩
    · rintro (⟨hY, -⟩ | ⟨-, g, hg, hclean, hopen⟩)
      · exact hY hmem
      · obtain ⟨f, hf, rfl⟩ := mem_map.mp hg
        rw [Scan.Clean, applyVerdict_seen] at hclean
        obtain ⟨hclosed, hres⟩ := hall f hf hclean
        rcases (isOpenStatus_stillPresent f).mp hopen with hopen | hopen
        · rw [hclosed] at hopen
          cases hopen
        · exact hres hopen
    · show marks F (reconcile X (reconcile Y (persist Y (persist X t)))) = _
      rw [marks_reconcile_of_notMem hnot, hrows, marks, map_map, map_map]
      refine map_congr_left fun f hf => ?_
      simp only [Function.comp_apply, applyVerdict_seen, mark_applyVerdict]
      refine move_engineOutcome fun hclean => ?_
      obtain ⟨hclosed, hres⟩ := hall f hf hclean
      have hnotopen : ¬ (applyVerdict .stillPresent f).status.isOpenStatus = true := by
        rw [isOpenStatus_stillPresent, hclosed]
        simpa using hres
      have hfst : (Verdict.stillPresent.move f.mark).1 = (applyVerdict .stillPresent f).status := by
        rw [← mark_applyVerdict]
        rfl
      rw [hfst]
      simpa using hnotopen

theorem marks_serial_comm (hA : F ∈ A.reports.map Prod.fst) (hB : F ∈ B.reports.map Prod.fst) :
    marks F (runSteps (B.steps ++ A.steps) t) = marks F (runSteps (A.steps ++ B.steps) t) := by
  rw [marks_serial hB hA, marks_serial hA hB, marks_persist hA, marks_persist hB]

/-- What the condition says of an order in which both scans persist first. -/
theorem unaffected_overlap {U V : Scan} :
    Unaffected F [.persist X, .persist Y, .reconcile U, .reconcile V] t ↔
      (U = X ∧ V = Y → ∀ f ∈ rowsOf F (persist Y (persist X t)), X.Clean f →
        f.status.isOpenStatus = false) ∧
      (U = Y ∧ V = X → ∀ f ∈ rowsOf F (persist Y (persist X t)), X.Clean f →
        f.status.isOpenStatus = false ∧ f.status ≠ .resolved) := by
  constructor
  · intro h
    refine ⟨?_, ?_⟩
    · rintro ⟨rfl, rfl⟩
      exact (h _ _).1 rfl
    · rintro ⟨rfl, rfl⟩
      exact (h _ _).2 rfl
  · intro h X' Y'
    refine ⟨fun heq => ?_, fun heq => ?_⟩
    all_goals
      simp only [cons.injEq, Step.persist.injEq, Step.reconcile.injEq] at heq
      obtain ⟨rfl, rfl, hU, hV, -⟩ := heq
    · exact h.1 ⟨hU, hV⟩
    · exact h.2 ⟨hU, hV⟩

theorem Overlapping.undisturbed_both (h : Overlapping X Y F t) (hne : X.id ≠ Y.id)
    (hserial : marks F (runSteps (A.steps ++ B.steps) t) =
      (marks F (persist X t)).map Verdict.stillPresent.move) :
    (Undisturbed A B F [.persist X, .persist Y, .reconcile X, .reconcile Y] t ↔
        Unaffected F [.persist X, .persist Y, .reconcile X, .reconcile Y] t) ∧
      (Undisturbed A B F [.persist X, .persist Y, .reconcile Y, .reconcile X] t ↔
        Unaffected F [.persist X, .persist Y, .reconcile Y, .reconcile X] t) := by
  have hXY : X ≠ Y := fun heq => hne (congrArg Scan.id heq)
  rw [h.undisturbed_first hserial, h.undisturbed_last hserial, unaffected_overlap,
    unaffected_overlap]
  simp [hXY, hXY.symm]

theorem undisturbed_iff_serial (hX : F ∈ X.reports.map Prod.fst) (hY : F ∈ Y.reports.map Prod.fst)
    (hserial : marks F (runSteps (A.steps ++ B.steps) t) =
      (marks F (persist X t)).map Verdict.stillPresent.move) :
    Undisturbed A B F (X.steps ++ Y.steps) t ↔ Unaffected F (X.steps ++ Y.steps) t := by
  refine ⟨fun _ X' Y' => ⟨?_, ?_⟩, fun _ => ⟨not_movedToResolved_serial hX hY, ?_⟩⟩
  · rintro ⟨⟩
  · rintro ⟨⟩
  · rw [marks_serial hX hY, hserial]

/-- **Two scans of one asset**: an order of their steps treats a finding that both report as the
scans one after the other do exactly if the scan whose report the other one has overwritten does not
find a clean run of the engine for it, or finds it closed. -/
theorem undisturbed_iff (hfresh : Fresh A B t) (hA : F ∈ A.reports.map Prod.fst)
    (hB : F ∈ B.reports.map Prod.fst) {order : List Step}
    (horder : order ∈ shuffles A.steps B.steps) :
    Undisturbed A B F order t ↔ Unaffected F order t := by
  have hAB : Overlapping A B F t :=
    ⟨hA, hB, notMem_reported (fun f hf => (hfresh.rows f hf).1) hfresh.ne.symm hA hB⟩
  have hBA : Overlapping B A F t :=
    ⟨hB, hA, notMem_reported (fun f hf => (hfresh.rows f hf).2) hfresh.ne hB hA⟩
  have hsA := marks_serial (t := t) hA hB
  have hsB : marks F (runSteps (A.steps ++ B.steps) t) = _ :=
    (marks_serial_comm hA hB).symm.trans (marks_serial hB hA)
  rcases mem_shuffles_pairs.mp horder with rfl | rfl | rfl | rfl | rfl | rfl
  · exact undisturbed_iff_serial hA hB hsA
  · exact undisturbed_iff_serial hB hA hsB
  · exact (hAB.undisturbed_both hfresh.ne hsA).1
  · exact (hAB.undisturbed_both hfresh.ne hsA).2
  · exact (hBA.undisturbed_both hfresh.ne.symm hsB).1
  · exact (hBA.undisturbed_both hfresh.ne.symm hsB).2

end Orders

/-- Two scans that overlap on a finding that both report. -/
theorem undisturbed_iff_sample :
    Undisturbed (sampleScan 1) (sampleScan 2) "f"
        [.persist (sampleScan 1), .persist (sampleScan 2), .reconcile (sampleScan 1),
          .reconcile (sampleScan 2)] sampleTable ↔
      Unaffected "f"
        [.persist (sampleScan 1), .persist (sampleScan 2), .reconcile (sampleScan 1),
          .reconcile (sampleScan 2)] sampleTable :=
  undisturbed_iff ⟨by decide, by decide⟩ (by decide) (by decide)
    (mem_shuffles_pairs.mpr (.inr (.inr (.inl rfl))))

/-- **A live finding that is resolved**: both scans persist it, and the first one to reconcile finds
it under the id of the other. -/
theorem overlap_resolves :
    ¬ ∀ (A B : Scan) (F : Str) (order : List Step) (t : Table), Fresh A B t →
      F ∈ A.reports.map Prod.fst → F ∈ B.reports.map Prod.fst →
      order ∈ shuffles A.steps B.steps → Undisturbed A B F order t := by
  intro h
  have hsample := (h (sampleScan 1) (sampleScan 2) "f" _ sampleTable ⟨by decide, by decide⟩
    (by decide) (by decide) (mem_shuffles_pairs.mpr (.inr (.inr (.inl rfl))))).1
  refine hsample ⟨⟨0, "f", .isOpen, .resolved⟩, ?_, rfl, rfl⟩
  decide

end Guardian.Findings

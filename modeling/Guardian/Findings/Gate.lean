import Guardian.Findings.Lifecycle
import Mathlib.Algebra.Order.Ring.Unbundled.Rat

/-!
# The deployment gate

The gate of a scan evaluates the findings that carry the id of the scan.  A later scan that reports
the same findings moves them to itself.  `countsObserved_iff` says when the gate counts what its
scan has seen.
-/

namespace Guardian.Findings

open Python List

/-! ### The policy -/

/-- A rule of a policy.  A key that is absent is `none`. -/
structure Rule where
  severity : Option Str
  riskGte : Option ℚ
  epssGt : Option ℚ
  kev : Bool
  deriving DecidableEq

/-- The rules of a policy: an empty mapping, one with `fail_on`, or one without. -/
inductive Rules
  | empty
  | failOn (rules : List Rule)
  | withoutFailOn

/-- `DEFAULT_RULES`. -/
def defaultRules : List Rule :=
  [⟨some "critical", none, none, false⟩, ⟨some "high", none, some (1 / 2), false⟩,
    ⟨none, none, none, true⟩]

/-- `(rules or DEFAULT_RULES).get("fail_on", [])`. -/
def failOn : Option Rules → List Rule
  | none => defaultRules
  | some .empty => defaultRules
  | some (.failOn rules) => rules
  | some .withoutFailOn => []

/-- `_matches`. -/
def Rule.matchesFinding (rule : Rule) (f : Finding) : Bool :=
  (match rule.severity with
    | some severity => decide (f.seen.severity = severity)
    | none => true) &&
  (match rule.riskGte with
    | some risk => decide (risk ≤ f.seen.riskScore)
    | none => true) &&
  (match rule.epssGt with
    | some epss =>
      match f.seen.epssScore with
      | some score => decide (epss < score)
      | none => false
    | none => true) &&
  (!rule.kev || f.seen.kev)

/-! ### The gate -/

/-- An entry of `GateResult.blocking`. -/
structure Blocking where
  id : ℕ
  title : Str
  severity : Str
  rule : Rule

/-- `GateResult`. -/
structure GateResult where
  passed : Bool
  blocking : List Blocking
  ruleHits : List Str

/-- The open findings that match a rule, each with the first one that it matches. -/
def blockers (findings : List Finding) (rules : Option Rules) : List (Finding × Rule) :=
  findings.filterMap fun f =>
    if f.status.isOpenStatus then ((failOn rules).find? (·.matchesFinding f)).map (f, ·) else none

/-- **`evaluate_gate`.** -/
def evaluateGate (findings : List Finding) (rules : Option Rules) : GateResult where
  passed := (blockers findings rules).isEmpty
  blocking := (blockers findings rules).map fun b => ⟨b.1.id, b.1.seen.title, b.1.seen.severity, b.2⟩
  ruleHits := (blockers findings rules).map fun b => b.1.seen.severity ++ ':' :: b.1.seen.title

/-- The findings that `scan_gate` selects. -/
def scanFindings (scan : Scan) (t : Table) : List Finding := t.rows.filter (·.scanId = scan.id)

/-- **`scan_gate`.** -/
def scanGate (scan : Scan) (rules : Option Rules) (t : Table) : GateResult :=
  evaluateGate (scanFindings scan t) rules

/-! ### Histories -/

/-- What may happen to the findings of an asset after a scan: another scan persists, a scan
reconciles, or a person decides on a finding. -/
inductive Change
  | persist (scan : Scan)
  | reconcile (scan : Scan)
  | decide (id : ℕ) (status : FindingStatus)

/-- What a change does. -/
def Change.run (t : Table) : Change → Table
  | .persist scan => Findings.persist scan t
  | .reconcile scan => Findings.reconcile scan t
  | .decide id status =>
    { t with rows := t.rows.map fun f => if f.id = id then { f with status := status } else f }

def runChanges (history : List Change) (t : Table) : Table := history.foldl Change.run t

/-- The finding that `known` holds for a fingerprint. -/
def known (F : Str) (t : Table) : Option Finding := (rowsOf F t).head?

/-- A history in which another scan reports a fingerprint. -/
def ReportedAgain (F : Str) (history : List Change) : Prop :=
  ∃ scan, Change.persist scan ∈ history ∧ F ∈ scan.reports.map Prod.fst

/-- **The gate counts what the scan observed**: after the history, every finding that the scan
reported and that is still open blocks the gate of the scan, for every policy that it matches. -/
def CountsObserved (scan : Scan) (history : List Change) (t : Table) : Prop :=
  ∀ F ∈ scan.reports.map Prod.fst, ∀ f,
    known F (runChanges history (persist scan t)) = some f → f.status.isOpenStatus = true →
    ∀ rules, (∃ rule ∈ failOn rules, rule.matchesFinding f = true) →
      (∃ rule, (f, rule) ∈ blockers (scanFindings scan (runChanges history (persist scan t))) rules) ∧
        (scanGate scan rules (runChanges history (persist scan t))).passed = false

/-- **The condition**: no later scan has reported a finding that the scan observed and that is still
open. -/
def NotReportedAgain (scan : Scan) (history : List Change) (t : Table) : Prop :=
  ∀ F ∈ scan.reports.map Prod.fst, ∀ f,
    known F (runChanges history (persist scan t)) = some f → f.status.isOpenStatus = true →
    ¬ ReportedAgain F history

/-! ### Whose finding it is -/

/-- The scan that the known finding of a fingerprint belongs to. -/
def owner (F : Str) (t : Table) : Option ℕ := (known F t).map (·.scanId)

section Owner

variable {F : Str} {scan : Scan} {t : Table} {history : List Change}

theorem owner_persist :
    owner F (persist scan t) =
      if F ∈ scan.reports.map Prod.fst then some scan.id else owner F t := by
  unfold owner known
  split_ifs with h
  · obtain ⟨f, hrows, hid, -⟩ := rowsOf_persist (t := t) h
    rw [hrows, ← hid]
    rfl
  · rw [rowsOf_persist_of_notMem h]

theorem owner_map {g : Finding → Finding} (hF : ∀ f, (g f).fingerprint = f.fingerprint)
    (hid : ∀ f, (g f).scanId = f.scanId) :
    ((t.rows.map g).filter (·.fingerprint = F)).head?.map (·.scanId) = owner F t := by
  unfold owner known rowsOf
  rw [filter_map, head?_map, Option.map_map]
  have hpred : ((fun f : Finding => decide (f.fingerprint = F)) ∘ g) =
      fun f => decide (f.fingerprint = F) := by
    funext f
    simp [hF]
  rw [hpred]
  congr 1
  funext f
  exact hid f

theorem owner_reconcile : owner F (reconcile scan t) = owner F t :=
  owner_map (fun _ => applyVerdict_fingerprint _ _) fun _ => applyVerdict_scanId _ _

theorem owner_decide (id : ℕ) (status : FindingStatus) :
    owner F (Change.run t (.decide id status)) = owner F t := by
  refine owner_map (g := fun f => if f.id = id then { f with status := status } else f) ?_ ?_
  · intro f
    split_ifs
    · rfl
    · rfl
  · intro f
    split_ifs
    · rfl
    · rfl

theorem owner_change {c : Change} :
    (∀ scan, c = .persist scan → F ∉ scan.reports.map Prod.fst) →
      owner F (c.run t) = owner F t := by
  intro h
  rcases c with S | S | ⟨id, status⟩
  · exact owner_persist.trans (if_neg (h S rfl))
  · exact owner_reconcile
  · exact owner_decide id status

/-- **The run lemma**: the known finding stays where it is until a scan reports it again, and then
belongs to such a scan. -/
theorem owner_runChanges :
    (¬ ReportedAgain F history → owner F (runChanges history t) = owner F t) ∧
      (ReportedAgain F history → ∃ S, Change.persist S ∈ history ∧
        owner F (runChanges history t) = some S.id) := by
  induction history generalizing t with
  | nil => exact ⟨fun _ => rfl, fun ⟨_, hmem, _⟩ => by cases hmem⟩
  | cons c rest ih =>
    have hrun : runChanges (c :: rest) t = runChanges rest (c.run t) := rfl
    rw [hrun]
    obtain ⟨hkeep, hmove⟩ := ih (t := c.run t)
    by_cases hrest : ReportedAgain F rest
    · refine ⟨fun hnot => ?_, fun _ => ?_⟩
      · obtain ⟨S, hS, hF⟩ := hrest
        exact absurd ⟨S, mem_cons_of_mem _ hS, hF⟩ hnot
      · obtain ⟨S, hS, hown⟩ := hmove hrest
        exact ⟨S, mem_cons_of_mem _ hS, hown⟩
    · rw [hkeep hrest]
      refine ⟨fun hnot => owner_change fun S hS hF => ?_, fun hagain => ?_⟩
      · exact hnot ⟨S, by rw [hS]; exact mem_cons_self, hF⟩
      · obtain ⟨S, hS, hF⟩ := hagain
        rcases mem_cons.mp hS with rfl | hS
        · exact ⟨S, mem_cons_self, owner_persist.trans (if_pos hF)⟩
        · exact absurd ⟨S, hS, hF⟩ hrest

end Owner

/-! ### What the gate counts -/

theorem mem_blockers {findings : List Finding} {rules : Option Rules} {f : Finding} :
    (∃ rule, (f, rule) ∈ blockers findings rules) ↔ f ∈ findings ∧ f.status.isOpenStatus = true ∧
      ∃ rule ∈ failOn rules, rule.matchesFinding f = true := by
  simp only [blockers, mem_filterMap]
  constructor
  · rintro ⟨rule, g, hg, heq⟩
    split_ifs at heq with hopen
    obtain ⟨r, hr, hgr⟩ := Option.map_eq_some_iff.mp heq
    cases hgr
    exact ⟨hg, hopen, rule, mem_of_find?_eq_some hr,
      find?_some (p := fun r : Rule => r.matchesFinding f) hr⟩
  · rintro ⟨hf, hopen, rule, hmem, hmatch⟩
    rcases hfind : (failOn rules).find? (·.matchesFinding f) with _ | r
    · exact absurd hmatch (find?_eq_none.mp hfind rule hmem)
    · exact ⟨r, f, hf, by rw [if_pos hopen, hfind]; rfl⟩

theorem passed_eq_false {scan : Scan} {rules : Option Rules} {t : Table} {f : Finding}
    (h : ∃ rule, (f, rule) ∈ blockers (scanFindings scan t) rules) :
    (scanGate scan rules t).passed = false := by
  obtain ⟨rule, hmem⟩ := h
  show (blockers (scanFindings scan t) rules).isEmpty = false
  rcases hb : blockers (scanFindings scan t) rules with _ | ⟨b, bs⟩
  · rw [hb] at hmem
    cases hmem
  · rfl

theorem mem_scanFindings_iff {F : Str} {scan : Scan} {t : Table} {f : Finding}
    (hf : known F t = some f) : f ∈ scanFindings scan t ↔ owner F t = some scan.id := by
  have hrow := (mem_rowsOf.mp (mem_of_mem_head? hf)).1
  simp [scanFindings, owner, hf, hrow]

/-- **The gate of a scan** counts every finding that the scan observed and that is still open exactly
if no later scan has reported one of them again. -/
theorem countsObserved_iff {scan : Scan} {history : List Change}
    (hlater : ∀ S, Change.persist S ∈ history → S.id ≠ scan.id) (t : Table) :
    CountsObserved scan history t ↔ NotReportedAgain scan history t := by
  constructor
  · intro hcounts F hF f hknown hopen hagain
    obtain ⟨S, hS, hown⟩ := (owner_runChanges (t := persist scan t)).2 hagain
    -- a policy that every finding matches
    obtain ⟨hblocks, -⟩ := hcounts F hF f hknown hopen (some (.failOn [⟨none, none, none, false⟩]))
      ⟨_, mem_singleton_self _, rfl⟩
    have hmem := (mem_scanFindings_iff hknown).mp (mem_blockers.mp hblocks).1
    rw [hown] at hmem
    exact hlater S hS (Option.some_inj.mp hmem)
  · intro hnot F hF f hknown hopen rules hmatch
    have hown : owner F (runChanges history (persist scan t)) = some scan.id := by
      rw [owner_runChanges.1 (hnot F hF f hknown hopen), owner_persist, if_pos hF]
    have hblocks := mem_blockers.mpr ⟨(mem_scanFindings_iff hknown).mpr hown, hopen, hmatch⟩
    exact ⟨hblocks, passed_eq_false hblocks⟩

/-- A history in which another scan reports the finding again and reconciles. -/
theorem countsObserved_iff_sample :
    CountsObserved (sampleScan 1) [.persist (sampleScan 2), .reconcile (sampleScan 2)]
        sampleTable ↔
      NotReportedAgain (sampleScan 1) [.persist (sampleScan 2), .reconcile (sampleScan 2)]
        sampleTable :=
  countsObserved_iff (by simp [sampleScan]) sampleTable

/-- **A gate that turns to pass**: a critical finding fails the gate of a scan; after another scan
has reported the same finding, which is still open, the gate passes. -/
theorem gate_passes :
    (scanGate (sampleScan 1) none (persist (sampleScan 1) sampleTable)).passed = false ∧
    (scanGate (sampleScan 1) none
      (runChanges [.persist (sampleScan 2)] (persist (sampleScan 1) sampleTable))).passed = true ∧
    ¬ CountsObserved (sampleScan 1) [.persist (sampleScan 2)] sampleTable := by
  refine ⟨by decide, by decide, fun h => ?_⟩
  have hblocked := (h "f" (by decide) ⟨0, "f", 2, sampleSighting, .isOpen, 0⟩
    (by decide) rfl none ⟨_, mem_cons_self, by decide⟩).2
  revert hblocked
  decide

end Guardian.Findings

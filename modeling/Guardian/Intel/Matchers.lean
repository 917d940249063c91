import Guardian.Findings.Scoring
import Guardian.Order.Bucket
import Guardian.Order.Filing
import Mathlib.Data.Finset.Max

/-!
# Matches of several sources

`CompositeVulnMatcher.match` asks each source and merges the matches of one advisory.  A float is
the rational number that it stands for.  `match_perm_iff` says when the order of the sources does
not count.
-/

namespace Guardian.Intel

open Python Guardian.Order Findings List

/-! ### Matches -/

/-- `VulnMatch`. -/
structure VulnMatch where
  externalId : Str
  summary : Str
  severity : Severity
  cvssBase : Option ℚ
  epssScore : Option ℚ
  kev : Bool
  malicious : Bool
  exploitMaturity : Option Str
  ransomware : Bool
  cweIds : List Str
  references : List Str
  deriving DecidableEq

/-- `_severity_from_cvss`. -/
def severityFromCvss : Option ℚ → Severity
  | none => .medium
  | some cvss =>
    if 9 ≤ cvss then .critical
    else if 7 ≤ cvss then .high
    else if 4 ≤ cvss then .medium
    else .low

/-- `MATURITY_ORDER`. -/
def maturityOrder : List Str :=
  ["unproven", "poc", "functional", "high"]

/-- `rank`: an unknown value sorts lowest. -/
def rank (maturity : Str) : ℕ :=
  if maturity ∈ maturityOrder then maturityOrder.idxOf maturity else 0

/-- `_stronger_maturity`. -/
def strongerMaturity : Option Str → Option Str → Option Str
  | none, b => b
  | some a, none => some a
  | some a, some b => if rank b ≤ rank a then some a else some b

/-- `_merge`. -/
def VulnMatch.merge (a b : VulnMatch) : VulnMatch :=
  let cvss := match a.cvssBase, b.cvssBase with
    | some x, some y => some (max x y)
    | some x, none => some x
    | none, y => y
  { externalId := a.externalId
    summary := if a.summary = [] then b.summary else a.summary
    severity := if cvss.isSome then severityFromCvss cvss else a.severity
    cvssBase := cvss
    epssScore := if a.epssScore.isSome then a.epssScore else b.epssScore
    kev := a.kev || b.kev
    exploitMaturity := strongerMaturity a.exploitMaturity b.exploitMaturity
    ransomware := a.ransomware || b.ransomware
    cweIds := sortBy id (a.cweIds ++ b.cweIds).dedup
    references := firsts (a.references ++ b.references)
    malicious := a.malicious || b.malicious }

/-! ### The composite matcher -/

/-- A source of matches: `VulnMatcher.match` by name, version and ecosystem. -/
abbrev Matcher : Type := Str → Str → Str → List VulnMatch

section Composite
variable (upper : Str → Str)

def keyOf (m : VulnMatch) : Str := upper m.externalId

/-- What is stored of a match that was found, with the one that exists. -/
def entry (found : VulnMatch) : Option VulnMatch → VulnMatch
  | none => found
  | some existing => existing.merge found

/-- The matches of one source are merged into those that are there. -/
def mergeFrom (merged : List VulnMatch) (found : List VulnMatch) : List VulnMatch :=
  found.foldl (fun merged m =>
    if keyOf upper m = [] then merged else amend (keyOf upper) (keyOf upper m) (entry m) merged)
    merged

/-- `CompositeVulnMatcher.match`; the matchers are those that are not `None`. -/
def compositeMatch (matchers : List Matcher) (name version ecosystem : Str) : List VulnMatch :=
  matchers.foldl (fun merged matcher => mergeFrom upper merged (matcher name version ecosystem)) []

end Composite

/-! ### What is shown of a match -/

/-- What a match says of an advisory; its weaknesses and references are sets. -/
structure Assessment where
  severity : Severity
  cvssBase : Option ℚ
  epssScore : Option ℚ
  kev : Bool
  exploitMaturity : Option Str
  ransomware : Bool
  cweIds : Finset Str
  malicious : Bool
  references : Finset Str
  deriving DecidableEq

/-- What is shown of a match. -/
def assessment (m : VulnMatch) : Assessment where
  severity := m.severity
  cvssBase := m.cvssBase
  epssScore := m.epssScore
  kev := m.kev
  exploitMaturity := m.exploitMaturity
  ransomware := m.ransomware
  cweIds := m.cweIds.toFinset
  malicious := m.malicious
  references := m.references.toFinset

/-- The first of some maturities that none of all outranks. -/
def firstTop (all maturities : List Str) : Option Str :=
  maturities.find? fun a => all.all fun b => rank b ≤ rank a

def scores (ms : List VulnMatch) : List ℚ := ms.filterMap VulnMatch.cvssBase

/-- The maturities of some matches. -/
def maturities (ms : List VulnMatch) : List Str := ms.filterMap VulnMatch.exploitMaturity

/-- What a match and those that are merged into it say. -/
def joint (m : VulnMatch) (ms : List VulnMatch) : Assessment where
  severity := if ms ≠ [] ∧ (scores (m :: ms)).max?.isSome then
      severityFromCvss (scores (m :: ms)).max? else m.severity
  cvssBase := (scores (m :: ms)).max?
  epssScore := (m :: ms).findSome? VulnMatch.epssScore
  kev := (m :: ms).any VulnMatch.kev
  exploitMaturity := firstTop (maturities (m :: ms)) (maturities (m :: ms))
  ransomware := (m :: ms).any VulnMatch.ransomware
  cweIds := ((m :: ms).flatMap VulnMatch.cweIds).toFinset
  malicious := (m :: ms).any VulnMatch.malicious
  references := ((m :: ms).flatMap VulnMatch.references).toFinset

theorem max?_concat (l : List ℚ) (x : ℚ) :
    (l ++ [x]).max? = Option.merge max l.max? (some x) := by
  rcases l with _ | ⟨y, l⟩
  · rfl
  · rw [cons_append, max?_cons', foldl_append, max?_cons']
    rfl

theorem cvssBase_merge (a b : VulnMatch) :
    (a.merge b).cvssBase = Option.merge max a.cvssBase b.cvssBase := by
  unfold VulnMatch.merge
  rcases a.cvssBase with _ | x <;> rcases b.cvssBase with _ | y <;> rfl

theorem severity_merge (a b : VulnMatch) :
    (a.merge b).severity =
      if (a.merge b).cvssBase.isSome then severityFromCvss (a.merge b).cvssBase else a.severity :=
  rfl

theorem exists_top {as : List Str} (h : as ≠ []) : ∃ a, firstTop as as = some a := by
  rcases hfirst : firstTop as as with _ | a
  · obtain ⟨b, bs, rfl⟩ := exists_cons_of_ne_nil h
    obtain ⟨a, ha, hmax⟩ := (b :: bs).toFinset.exists_max_image rank ⟨b, by simp⟩
    refine absurd (find?_eq_none.mp hfirst a (mem_toFinset.mp ha)) ?_
    simp only [all_eq_true, decide_eq_true_eq, not_not]
    exact fun c hc => hmax c (mem_toFinset.mpr hc)
  · exact ⟨a, rfl⟩

/-- A maturity after some others is the first at the top if it outranks the one that was. -/
theorem firstTop_concat (as : List Str) (b : Str) :
    firstTop (as ++ [b]) (as ++ [b]) = strongerMaturity (firstTop as as) (some b) := by
  rcases eq_or_ne as [] with rfl | hne
  · simp [firstTop, strongerMaturity]
  obtain ⟨a, ha⟩ := exists_top hne
  obtain ⟨htop, pre, post, hsplit, hpre⟩ := find?_eq_some_iff_append.mp ha
  simp only [all_eq_true, decide_eq_true_eq] at htop
  rw [ha]
  show _ = if rank b ≤ rank a then some a else some b
  split_ifs with hb
  · refine find?_eq_some_iff_append.mpr ⟨?_, pre, post ++ [b], by rw [hsplit]; simp, ?_⟩
    · simp only [all_eq_true, decide_eq_true_eq, mem_append, mem_singleton]
      rintro c (hc | rfl)
      · exact htop c hc
      · exact hb
    · intro c hc
      have hlow := hpre c hc
      simp only [all_append, Bool.not_and, Bool.or_eq_true]
      exact Or.inl hlow
  · -- No one of the others is as high as the new one.
    have hnone : as.find? (fun c => (as ++ [b]).all fun d => rank d ≤ rank c) = none := by
      refine find?_eq_none.mpr fun c hc hall => hb ?_
      simp only [all_eq_true, decide_eq_true_eq] at hall
      exact (hall b (by simp)).trans (htop c hc)
    have hself : (as ++ [b]).all (fun d => rank d ≤ rank b) = true := by
      simp only [all_eq_true, decide_eq_true_eq, mem_append, mem_singleton]
      rintro c (hc | rfl)
      · exact (htop c hc).trans (not_le.mp hb).le
      · exact le_refl _
    rw [firstTop, find?_append, hnone, Option.none_or, find?_cons, hself]

theorem scores_concat (ms : List VulnMatch) (m : VulnMatch) :
    scores (ms ++ [m]) = scores ms ++ m.cvssBase.toList := by
  rw [scores, filterMap_append, ← scores]
  rcases hm : m.cvssBase with _ | c <;> simp [hm]

theorem maturities_concat (ms : List VulnMatch) (m : VulnMatch) :
    maturities (ms ++ [m]) = maturities ms ++ m.exploitMaturity.toList := by
  rw [maturities, filterMap_append, ← maturities]
  rcases hm : m.exploitMaturity with _ | a <;> simp [hm]

section Concat
variable {r : VulnMatch} {ms : List VulnMatch}

theorem cvssBase_merge_concat (h : r.cvssBase = (scores ms).max?) (x : VulnMatch) :
    (r.merge x).cvssBase = (scores (ms ++ [x])).max? := by
  rw [cvssBase_merge, h, scores_concat]
  rcases x.cvssBase with _ | c
  · rw [Option.toList_none, append_nil, Option.merge_none_right]
  · rw [Option.toList_some, max?_concat]

theorem exploitMaturity_merge_concat
    (h : r.exploitMaturity = firstTop (maturities ms) (maturities ms)) (x : VulnMatch) :
    (r.merge x).exploitMaturity =
      firstTop (maturities (ms ++ [x])) (maturities (ms ++ [x])) := by
  show strongerMaturity r.exploitMaturity x.exploitMaturity = _
  rw [h, maturities_concat]
  rcases x.exploitMaturity with _ | b
  · rw [Option.toList_none, append_nil]
    rcases firstTop (maturities ms) (maturities ms) with _ | a <;> rfl
  · rw [Option.toList_some, firstTop_concat]

theorem epssScore_merge_concat (h : r.epssScore = ms.findSome? VulnMatch.epssScore)
    (x : VulnMatch) : (r.merge x).epssScore = (ms ++ [x]).findSome? VulnMatch.epssScore := by
  show (if r.epssScore.isSome then r.epssScore else x.epssScore) = _
  rw [findSome?_append, ← h]
  rcases r.epssScore with _ | e
  · rcases he : x.epssScore with _ | e <;> simp [he]
  · rfl

end Concat

/-- **One more match** is merged into what some say jointly. -/
theorem assessment_merge {m r : VulnMatch} {ms : List VulnMatch} (h : assessment r = joint m ms)
    (x : VulnMatch) : assessment (r.merge x) = joint m (ms ++ [x]) := by
  have hsev : r.severity = (joint m ms).severity := congrArg Assessment.severity h
  have hkev : r.kev = (m :: ms).any VulnMatch.kev := congrArg Assessment.kev h
  have hransom : r.ransomware = (m :: ms).any VulnMatch.ransomware :=
    congrArg Assessment.ransomware h
  have hcwe : r.cweIds.toFinset = ((m :: ms).flatMap VulnMatch.cweIds).toFinset :=
    congrArg Assessment.cweIds h
  have hmal : r.malicious = (m :: ms).any VulnMatch.malicious := congrArg Assessment.malicious h
  have href : r.references.toFinset = ((m :: ms).flatMap VulnMatch.references).toFinset :=
    congrArg Assessment.references h
  have hmax : (r.merge x).cvssBase = (scores (m :: (ms ++ [x]))).max? :=
    cvssBase_merge_concat (congrArg Assessment.cvssBase h) x
  have htop := exploitMaturity_merge_concat (congrArg Assessment.exploitMaturity h) x
  have hepss := epssScore_merge_concat (congrArg Assessment.epssScore h) x
  have hrated : (r.merge x).severity = (joint m (ms ++ [x])).severity := by
    rw [severity_merge, hmax, hsev]
    simp only [joint, ne_eq, append_eq_nil_iff, cons_ne_nil, and_false, not_false_eq_true,
      true_and]
    split_ifs with hsome hmany
    · rfl
    · -- A score among the earlier ones would be a score now.
      rw [← cons_append, scores_concat, Option.not_isSome_iff_eq_none, max?_eq_none_iff,
        append_eq_nil_iff] at hsome
      rw [hsome.1] at hmany
      exact absurd hmany.2 (by simp)
    · rfl
  have hany : ∀ p : VulnMatch → Bool, (m :: (ms ++ [x])).any p = ((m :: ms).any p || p x) := by
    intro p
    rw [← cons_append, any_append, any_cons (l := []), any_nil, Bool.or_false]
  have hunion : ∀ f : VulnMatch → List Str, ((m :: (ms ++ [x])).flatMap f).toFinset =
      ((m :: ms).flatMap f).toFinset ∪ (f x).toFinset := by
    intro f
    rw [← cons_append, flatMap_append, toFinset_append, flatMap_singleton]
  refine (Assessment.mk.injEq ..).mpr ⟨hrated, hmax, hepss, ?_, htop, ?_, ?_, ?_, ?_⟩
  · rw [hany, ← hkev]
    rfl
  · rw [hany, ← hransom]
    rfl
  · rw [hunion, ← hcwe]
    ext c
    simp [VulnMatch.merge]
  · rw [hany, ← hmal]
    rfl
  · rw [hunion, ← href]
    ext c
    simp [VulnMatch.merge, mem_firsts]

theorem joint_nil (m : VulnMatch) : joint m [] = assessment m := by
  have hcvss : (scores [m]).max? = m.cvssBase := by
    rcases hm : m.cvssBase with _ | c <;> simp [scores, hm]
  have hepss : [m].findSome? VulnMatch.epssScore = m.epssScore := by
    rcases hm : m.epssScore with _ | e <;> simp [hm]
  have htop : firstTop (maturities [m]) (maturities [m]) = m.exploitMaturity := by
    rcases hm : m.exploitMaturity with _ | a <;> simp [maturities, firstTop, hm]
  simp [assessment, joint, hcvss, hepss, htop]

theorem assessment_gathered (m : VulnMatch) (ms : List VulnMatch) :
    (gathered entry (m :: ms)).map assessment = some (joint m ms) := by
  induction ms using reverseRecOn with
  | nil => rw [joint_nil]; rfl
  | append_singleton ms x ih =>
    obtain ⟨r, hr, h⟩ := Option.map_eq_some_iff.mp ih
    rw [← cons_append, gathered, foldl_append, ← gathered, hr]
    exact congrArg some (assessment_merge h x)

/-- **A match that is merged with itself** stays as it is if its severity is that of its score. -/
theorem assessment_merge_self (m : VulnMatch) :
    assessment (m.merge m) = assessment m ↔
      (m.cvssBase.isSome → m.severity = severityFromCvss m.cvssBase) := by
  have hcvss : (m.merge m).cvssBase = m.cvssBase := by
    rw [cvssBase_merge]
    rcases m.cvssBase with _ | c <;> simp
  have hmat : strongerMaturity m.exploitMaturity m.exploitMaturity = m.exploitMaturity := by
    rcases m.exploitMaturity with _ | a <;> simp [strongerMaturity]
  have hsev := severity_merge m m
  rw [hcvss] at hsev
  constructor
  · intro h hsome
    have hsame : (m.merge m).severity = m.severity := congrArg Assessment.severity h
    rw [← hsame, hsev, if_pos hsome]
  · intro h
    refine (Assessment.mk.injEq ..).mpr ⟨?_, hcvss, ite_self _, Bool.or_self _, hmat,
      Bool.or_self _, ?_, Bool.or_self _, ?_⟩
    · rw [hsev]
      split_ifs with hsome
      · exact (h hsome).symm
      · rfl
    · ext c
      simp [VulnMatch.merge]
    · ext c
      simp [VulnMatch.merge, mem_firsts]

/-! ### Another order of the matches -/

theorem scores_eq_nil_iff {ms : List VulnMatch} :
    scores ms = [] ↔ ∀ m ∈ ms, m.cvssBase = none := by
  rw [scores, filterMap_eq_nil_iff]

/-- What all say does not depend on their order, but for what is taken from the first one. -/
theorem joint_eq_iff {m m' : VulnMatch} {ms ms' : List VulnMatch}
    (hperm : (m :: ms).Perm (m' :: ms')) :
    joint m' ms' = joint m ms ↔
      (m' :: ms').findSome? VulnMatch.epssScore = (m :: ms).findSome? VulnMatch.epssScore ∧
        firstTop (maturities (m :: ms)) (maturities (m' :: ms')) =
          firstTop (maturities (m :: ms)) (maturities (m :: ms)) ∧
        ((∀ x ∈ m :: ms, x.cvssBase = none) → m'.severity = m.severity) := by
  have hmax : (scores (m' :: ms')).max? = (scores (m :: ms)).max? := by
    have hscores : (scores (m :: ms)).Perm (scores (m' :: ms')) := hperm.filterMap _
    refine Option.ext fun c => ?_
    simp only [max?_eq_some_iff, hscores.mem_iff]
  have hall : ∀ as, firstTop (maturities (m' :: ms')) as = firstTop (maturities (m :: ms)) as := by
    have hmat : (maturities (m :: ms)).Perm (maturities (m' :: ms')) := hperm.filterMap _
    intro as
    simp only [firstTop, hmat.all_eq]
  have hany : ∀ p : VulnMatch → Bool, (m' :: ms').any p = (m :: ms).any p :=
    fun p => hperm.symm.any_eq
  have hunion : ∀ f : VulnMatch → List Str,
      ((m' :: ms').flatMap f).toFinset = ((m :: ms).flatMap f).toFinset :=
    fun f => toFinset_eq_of_perm _ _ (hperm.symm.flatMap_right f)
  have hsev : (joint m' ms').severity = (joint m ms).severity ↔
      ((∀ x ∈ m :: ms, x.cvssBase = none) → m'.severity = m.severity) := by
    have hlength : ms.length = ms'.length := Nat.succ.inj hperm.length_eq
    rcases eq_or_ne ms [] with rfl | hne
    · obtain rfl := eq_nil_of_length_eq_zero hlength.symm
      obtain rfl := singleton_perm_singleton.mp hperm
      simp
    have hne' : ms' ≠ [] := by
      rintro rfl
      exact hne (eq_nil_of_length_eq_zero hlength)
    rw [← scores_eq_nil_iff, ← max?_eq_none_iff]
    simp only [joint, hmax, hne, hne', ne_eq, not_false_eq_true, true_and]
    rcases (scores (m :: ms)).max? with _ | c <;> simp
  constructor
  · intro h
    refine ⟨congrArg Assessment.epssScore h, ?_, hsev.mp (congrArg Assessment.severity h)⟩
    rw [← hall]
    exact congrArg Assessment.exploitMaturity h
  · rintro ⟨hepss, htop, hfirst⟩
    refine (Assessment.mk.injEq ..).mpr ⟨hsev.mpr hfirst, hmax, hepss, hany _, ?_, hany _,
      hunion _, hany _, hunion _⟩
    rw [hall, htop]

section Blocks
variable {σ : Type*} (block : σ → List VulnMatch)

/-- **Some sources agree** on an advisory where what is shown is taken from the first one that has
it: the score of an exploit's likelihood, a maturity that no other outranks, and, where no match has
a score, the severity. -/
structure Agree (sources : List σ) : Prop where
  epssScore : ∀ a ∈ sources, ∀ b ∈ sources, ∀ x ∈ (block a).findSome? VulnMatch.epssScore,
    ∀ y ∈ (block b).findSome? VulnMatch.epssScore, x = y
  exploitMaturity : ∀ a ∈ sources, ∀ b ∈ sources,
    ∀ x ∈ firstTop (maturities (sources.flatMap block)) (maturities (block a)),
      ∀ y ∈ firstTop (maturities (sources.flatMap block)) (maturities (block b)), x = y
  severity : (∀ m ∈ sources.flatMap block, m.cvssBase = none) →
    ∀ a ∈ sources, ∀ b ∈ sources, ∀ x ∈ (block a).head?.map VulnMatch.severity,
      ∀ y ∈ (block b).head?.map VulnMatch.severity, x = y

variable {block}

theorem findSome_flatMap {β : Type*} (g : VulnMatch → Option β) (sources : List σ) :
    (sources.flatMap block).findSome? g = sources.findSome? fun a => (block a).findSome? g := by
  rw [← head?_filterMap, filterMap_flatMap, List.head?_flatMap]
  simp only [head?_filterMap]

theorem firstTop_flatMap (all : List Str) (sources : List σ) :
    firstTop all (maturities (sources.flatMap block)) =
      sources.findSome? fun a => firstTop all (maturities (block a)) := by
  simp only [firstTop, maturities, filterMap_flatMap, find?_flatMap]

theorem severity_flatMap (sources : List σ) :
    (sources.flatMap block).head?.map VulnMatch.severity =
      sources.findSome? fun a => (block a).head?.map VulnMatch.severity := by
  rw [List.head?_flatMap, map_findSome?]
  rfl

/-- **What is shown of an advisory** does not depend on the order of the sources exactly if they
agree. -/
theorem gathered_perm_iff (sources : List σ) :
    (∀ sources', sources.Perm sources' →
        (gathered entry (sources'.flatMap block)).map assessment =
          (gathered entry (sources.flatMap block)).map assessment) ↔ Agree block sources := by
  have hshown : ∀ sources', sources.Perm sources' →
      ((gathered entry (sources'.flatMap block)).map assessment =
          (gathered entry (sources.flatMap block)).map assessment ↔
        (sources'.findSome? (fun a => (block a).findSome? VulnMatch.epssScore) =
            sources.findSome? fun a => (block a).findSome? VulnMatch.epssScore) ∧
          (sources'.findSome? (fun a =>
              firstTop (maturities (sources.flatMap block)) (maturities (block a))) =
            sources.findSome? fun a =>
              firstTop (maturities (sources.flatMap block)) (maturities (block a))) ∧
          ((∀ m ∈ sources.flatMap block, m.cvssBase = none) →
            sources'.findSome? (fun a => (block a).head?.map VulnMatch.severity) =
              sources.findSome? fun a => (block a).head?.map VulnMatch.severity)) := by
    intro sources' hperm
    have hitems : (sources.flatMap block).Perm (sources'.flatMap block) := hperm.flatMap_right _
    simp only [← findSome_flatMap, ← firstTop_flatMap, ← severity_flatMap]
    rcases hms : sources.flatMap block with _ | ⟨m, ms⟩
    · rw [hms] at hitems
      rw [hitems.nil_eq.symm]
      simp
    rcases hms' : sources'.flatMap block with _ | ⟨m', ms'⟩
    · rw [hms, hms'] at hitems
      exact absurd hitems.length_eq (by simp)
    rw [hms, hms'] at hitems
    rw [assessment_gathered, assessment_gathered, Option.some_inj, joint_eq_iff hitems]
    simp only [head?_cons, Option.map_some, Option.some_inj]
  constructor
  · intro h
    refine ⟨(findSome_perm_iff _ _).mp fun l' hl' => ((hshown l' hl').mp (h l' hl')).1,
      (findSome_perm_iff _ _).mp fun l' hl' => ((hshown l' hl').mp (h l' hl')).2.1, ?_⟩
    exact fun hnone => (findSome_perm_iff _ _).mp fun l' hl' =>
      ((hshown l' hl').mp (h l' hl')).2.2 hnone
  · rintro ⟨hepss, hmat, hsev⟩ l' hl'
    exact (hshown l' hl').mpr ⟨(findSome_perm_iff _ _).mpr hepss l' hl',
      (findSome_perm_iff _ _).mpr hmat l' hl',
      fun hnone => (findSome_perm_iff _ _).mpr (hsev hnone) l' hl'⟩

end Blocks

/-! ### Another order of the sources -/

section Composite
variable (upper : Str → Str)

theorem keyed_entry : Keyed (keyOf upper) (keyOf upper) entry := by
  rintro i (_ | s) h
  · rfl
  · exact h s rfl

theorem compositeMatch_eq (matchers : List Matcher) (name version ecosystem : Str) :
    compositeMatch upper matchers name version ecosystem =
      filed (keyOf upper) (keyOf upper) entry
        ((matchers.flatMap fun matcher => matcher name version ecosystem).filter
          fun m => keyOf upper m ≠ []) := by
  rw [filed, foldl_filter, foldl_flatMap]
  simp only [compositeMatch, mergeFrom, decide_eq_true_eq, ne_eq, ite_not]

theorem nodup_compositeMatch (matchers : List Matcher) (name version ecosystem : Str) :
    ((compositeMatch upper matchers name version ecosystem).map (keyOf upper)).Nodup := by
  rw [compositeMatch_eq]
  exact nodup_filed (keyed_entry upper) _

/-- What a source has of an advisory. -/
def found (name version ecosystem k : Str) (matcher : Matcher) : List VulnMatch :=
  (matcher name version ecosystem).filter fun m => keyOf upper m = k

/-- **A merged match** is made of what the sources have of its advisory, one after the other. -/
theorem rowOf_compositeMatch (matchers : List Matcher) (name version ecosystem k : Str) :
    rowOf (keyOf upper) k (compositeMatch upper matchers name version ecosystem) =
      if k = [] then none
      else gathered entry (matchers.flatMap (found upper name version ecosystem k)) := by
  rw [compositeMatch_eq, rowOf_filed (keyed_entry upper), filter_filter]
  split_ifs with hk
  · have hnone : ∀ l : List VulnMatch,
        l.filter (fun m => decide (keyOf upper m = k) && decide (keyOf upper m ≠ [])) = [] := by
      intro l
      refine filter_eq_nil_iff.mpr fun m _ => ?_
      rw [hk]
      simp
    rw [hnone]
    rfl
  · rw [filter_flatMap]
    congr 2
    funext matcher
    refine filter_congr fun m _ => ?_
    by_cases hm : keyOf upper m = k
    · simp [hm, hk]
    · simp [hm]

/-- What the merged matches say, by their keys. -/
def shown (ms : List VulnMatch) : List (Str × Assessment) :=
  ms.map fun m => (keyOf upper m, assessment m)

theorem shown_perm_iff (matchers matchers' : List Matcher) (name version ecosystem : Str) :
    (shown upper (compositeMatch upper matchers' name version ecosystem)).Perm
        (shown upper (compositeMatch upper matchers name version ecosystem)) ↔
      ∀ k ≠ [], (gathered entry (matchers'.flatMap (found upper name version ecosystem k))).map
          assessment =
        (gathered entry (matchers.flatMap (found upper name version ecosystem k))).map
          assessment := by
  rw [shown, shown, map_perm_iff (nodup_compositeMatch ..) (nodup_compositeMatch ..)]
  simp only [rowOf_compositeMatch]
  refine forall_congr' fun k => ?_
  by_cases hk : k = []
  · simp [hk]
  · simp [hk]

/-- **The order of the sources does not matter**, and no match that a source has changes when it is
merged with itself, exactly if the sources agree on each advisory and every match with a score has
the severity of its score. -/
theorem match_perm_iff (matchers : List Matcher) (name version ecosystem : Str) :
    ((∀ matchers', matchers.Perm matchers' →
        (shown upper (compositeMatch upper matchers' name version ecosystem)).Perm
          (shown upper (compositeMatch upper matchers name version ecosystem))) ∧
      ∀ matcher ∈ matchers, ∀ m ∈ matcher name version ecosystem,
        assessment (m.merge m) = assessment m) ↔
      (∀ k ≠ [], Agree (found upper name version ecosystem k) matchers) ∧
        ∀ matcher ∈ matchers, ∀ m ∈ matcher name version ecosystem,
          m.cvssBase.isSome → m.severity = severityFromCvss m.cvssBase := by
  refine and_congr ?_ ?_
  · simp only [shown_perm_iff, ← gathered_perm_iff]
    constructor
    · exact fun h k hk matchers' hperm => h matchers' hperm k hk
    · exact fun h matchers' hperm k hk => h k hk matchers' hperm
  · simp only [assessment_merge_self]

/-- A match of `CVE-1` with that likelihood of an exploit. -/
def scored (epss : ℚ) : VulnMatch where
  externalId := "CVE-1"
  summary := []
  severity := .high
  cvssBase := some 7
  epssScore := some epss
  kev := false
  malicious := false
  exploitMaturity := none
  ransomware := false
  cweIds := []
  references := []

/-- Of two sources that know the likelihood of an exploit the first one is believed. -/
theorem first_epss_wins :
    ¬ ((∀ matchers', [fun _ _ _ => [scored 0], fun _ _ _ => [scored 1]].Perm matchers' →
        (shown (List.map Char.toUpper)
            (compositeMatch (List.map Char.toUpper) matchers' [] [] [])).Perm
          (shown (List.map Char.toUpper) (compositeMatch (List.map Char.toUpper)
            [fun _ _ _ => [scored 0], fun _ _ _ => [scored 1]] [] [] []))) ∧
      ∀ matcher ∈ ([fun _ _ _ => [scored 0], fun _ _ _ => [scored 1]] : List Matcher),
        ∀ m ∈ matcher [] [] [], assessment (m.merge m) = assessment m) := by
  intro h
  exact absurd (h.1 [fun _ _ _ => [scored 1], fun _ _ _ => [scored 0]] (Perm.swap ..))
    (by decide)

end Composite

end Guardian.Intel

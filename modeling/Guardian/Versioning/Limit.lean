import Guardian.Python.Runs
import Guardian.Versioning.Compare

/-!
# The limit on integers

`int` refuses a text with more digits than the interpreter's limit.  `versionKey` catches that of
the parser of an ecosystem and answers with the generic key, whose numbers go through `int` as well.
`raisesNothing_iff` says when nothing is raised.
-/

namespace Guardian.Versioning

open Python Val
open List hiding partition
open Regex (classRuns)

variable (R : Runtime)

/-- The call raises nothing: it returns, or it does not end. -/
def RaisesNothing {A : Type} (x : Except Fault A) : Prop := ∀ f, x = .error f → f = .diverges

/-! ### The numbers of a version -/

/-- No more characters than the limit has digits. -/
def Within (s : Str) : Prop := R.maxStrDigits = 0 ∨ s.length ≤ R.maxStrDigits

/-- A text that `int` reads. -/
def Numeral (s : Str) : Prop := s ≠ [] ∧ (∀ c ∈ s, R.isDecimal c = true) ∧ Within R s

/-- Each run of decimal digits in a version is within the limit. -/
def ShortRuns (raw : Str) : Prop :=
  ∀ w ∈ classRuns R.isDecimal (lower R (strip R raw)), Within R w

/-- A group that took part in a match, if it is not empty. -/
def given (group : Option Str) : List Str := group.toList.filter fun s => !s.isEmpty

/-- The texts that the PEP 440 key of a match is computed from. -/
def pep440Numerals (m : Cursor) : List Str :=
  given (m.group "epoch") ++ ((m.group "release").getD []).splitOn '.' ++
    (if given (m.group "pre_l") = [] then [] else given (m.group "pre_n")) ++
    (if given (m.group "post_n1") ≠ [] then given (m.group "post_n1")
      else if given (m.group "post_l") ≠ [] then given (m.group "post_n") else []) ++
    if given (m.group "dev") = [] then [] else given (m.group "dev_n")

/-- The texts that the SemVer key of a match is computed from. -/
def semverNumerals (m : Cursor) : List Str :=
  ((m.group "release").getD []).splitOn '.' ++
    (((m.group "pre").map (·.splitOn '.')).getD []).filter (strIsdigit R)

/-- The text that the number of a token of a Maven version is computed from. -/
def mavenNumeral (tok : Str) : List Str :=
  if strIsdigit R tok then [tok]
  else
    match ((mavenToken R).rematch tok).bind fun m =>
      (mavenRank ((m.group "1").getD [])).map fun r => (r, (m.group "2").getD []) with
    | some (_, n) => given n
    | none => []

/-- The text that the epoch of a distribution version is computed from. -/
def epochNumeral (text : Str) : List Str :=
  if (partition ':' text).2.1 && strIsdigit R (partition ':' text).1 then [(partition ':' text).1]
  else []

/-- **The texts that the parser of an ecosystem hands to `int`**, if it recognises the version. -/
def numerals (text : Str) : Ecosystem → Option (List Str)
  | .pypi => ((pep440Regex R).rematch text).map pep440Numerals
  | .npm | .semver | .go | .nuget | .rubygems =>
    ((semverRegex R).rematch (semverCleaned R text)).map (semverNumerals R)
  | .maven => some (((lower R text).splitOnP fun c => c == '.' || c == '-' || c == '_').flatMap
      (mavenNumeral R))
  | .debian | .rpm => some (epochNumeral R text)
  | .generic => none

/-- **A version that has a key**: its runs of digits are within the limit, or the parser of the
ecosystem takes numbers only that `int` reads. -/
def Keyed (eco : Ecosystem) (raw : Str) : Prop :=
  ShortRuns R raw ∨ ∃ ns, numerals R (strip R raw) eco = some ns ∧ ∀ n ∈ ns, Numeral R n

/-- A version whose key is an `_EvrVersion`. -/
def ByEvr (eco : Ecosystem) (raw : Str) : Prop :=
  (eco = .debian ∨ eco = .rpm) ∧ strip R raw ≠ [] ∧
    ∀ n ∈ epochNumeral R (strip R raw), Numeral R n

variable {R}

/-! ### When a key is computed -/

theorem returns_int_iff {s : Str} : Returns (Python.int R s) ↔ Numeral R s := by
  unfold Python.int Numeral Within
  rw [← all_eq_true]
  split_ifs with h
  · exact ⟨fun _ => h, fun _ => returns_ok _⟩
  · exact ⟨fun hret => absurd hret (not_returns_error _), fun hnum => absurd hnum h⟩

theorem returns_identKey_iff {number : Bool} {tok text : Str} :
    Returns (identKey R number tok text) ↔ (number = true → Numeral R tok) := by
  unfold identKey
  cases number
  · exact ⟨fun _ h => absurd h Bool.false_ne_true, fun _ => returns_ok _⟩
  · rw [if_pos rfl, returns_bind_pure_iff, returns_int_iff]
    simp

theorem genericTokens_filter (s : Str) :
    ((genericTokens R).findall s).filter (·.all R.isDecimal) = classRuns R.isDecimal s :=
  Regex.findall_alt (fun c hc => by
    have hdigit : R.isDigit c = false := isDigit_letter hc
    rcases hdec : R.isDecimal c with _ | _
    · rfl
    · rw [R.isDigit_of_isDecimal c hdec] at hdigit
      exact hdigit) s

/-- **A generic key is computed just when each run of digits is within the limit.** -/
theorem returns_genericKey_iff {raw : Str} : Returns (genericKey R raw) ↔ ShortRuns R raw := by
  unfold genericKey ShortRuns
  dsimp only
  rw [returns_bind_pure_iff,
    returns_mapM_iff, ← genericTokens_filter]
  simp only [mem_filter, and_imp, returns_identKey_iff]
  refine forall₂_congr fun tok htok => ?_
  obtain ⟨hne, hchars⟩ := of_matches_genericTokens (Regex.matches_of_mem_findall htok)
  rcases hchars with hdec | hword
  · have hdigit : strIsdigit R tok = true := by
      unfold strIsdigit
      rw [Bool.and_eq_true, all_eq_true]
      exact ⟨by simpa using hne, fun c hc => R.isDigit_of_isDecimal c (hdec c hc)⟩
    simp only [hdigit, all_eq_true.mpr hdec, forall_const]
    exact ⟨fun h => h.2.2, fun h => ⟨hne, hdec, h⟩⟩
  · -- a word: no digit
    obtain ⟨c, tok, rfl⟩ := exists_cons_of_ne_nil hne
    have hc : R.isDigit c = false := hword c mem_cons_self
    have hdec : R.isDecimal c ≠ true := fun h => by
      rw [R.isDigit_of_isDecimal c h] at hc
      cases hc
    simp [strIsdigit, hc, hdec]

theorem returns_intOrZero_iff {group : Option Str} :
    Returns (intOrZero R group) ↔ ∀ n ∈ given group, Numeral R n := by
  unfold intOrZero given
  rcases group with _ | s
  · exact iff_of_true (returns_ok _) (by simp)
  · by_cases hs : s = []
    · subst hs
      exact iff_of_true (returns_ok _) (by simp)
    · simp only [if_neg hs, returns_int_iff]
      simp [hs]

theorem returns_releaseTuple_iff {release : Str} :
    Returns (releaseTuple R release) ↔ ∀ n ∈ release.splitOn '.', Numeral R n := by
  unfold releaseTuple
  rw [returns_bind_pure_iff,
    returns_mapM_iff]
  simp only [returns_int_iff]

theorem given_eq_nil {group : Option Str} : given group = [] ↔ group.getD [] = [] := by
  rcases group with _ | s
  · simp [given]
  · simp [given]

theorem given_getD {group : Option Str} (h : group.getD [] ≠ []) :
    given group = [group.getD []] := by
  rcases group with _ | s
  · exact absurd rfl h
  · have hs : s ≠ [] := h
    simp [given, hs]

theorem returns_pep440Pre_iff {m : Cursor} : Returns (pep440Pre R m) ↔
    ∀ n ∈ (if given (m.group "pre_l") = [] then [] else given (m.group "pre_n")), Numeral R n := by
  unfold pep440Pre
  rcases hl : m.group "pre_l" with _ | letter
  · exact iff_of_true (returns_ok _) (by simp [given])
  · by_cases hletter : letter = []
    · subst hletter
      exact iff_of_true (returns_ok _) (by simp [given])
    · have hg : given (some letter) ≠ [] := by simpa [given_eq_nil] using hletter
      simp only [if_neg hletter, if_neg hg]
      rw [returns_bind_pure_iff,
        returns_intOrZero_iff]

theorem returns_pep440Post_iff {m : Cursor} : Returns (pep440Post R m) ↔
    ∀ n ∈ (if given (m.group "post_n1") ≠ [] then given (m.group "post_n1")
      else if given (m.group "post_l") ≠ [] then given (m.group "post_n") else []),
      Numeral R n := by
  unfold pep440Post
  simp only [ne_eq, given_eq_nil]
  by_cases h1 : (m.group "post_n1").getD [] = []
  · rw [if_neg (not_not.mpr h1), if_neg (not_not.mpr h1)]
    by_cases h2 : (m.group "post_l").getD [] = []
    · rw [if_neg (not_not.mpr h2), if_neg (not_not.mpr h2)]
      exact iff_of_true (returns_ok _) (by simp)
    · rw [if_pos h2, if_pos h2, returns_map_iff, returns_intOrZero_iff]
  · rw [if_pos h1, if_pos h1, returns_map_iff, returns_int_iff, given_getD h1]
    simp

theorem returns_pep440Dev_iff {m : Cursor} : Returns (pep440Dev R m) ↔
    ∀ n ∈ (if given (m.group "dev") = [] then [] else given (m.group "dev_n")), Numeral R n := by
  unfold pep440Dev
  simp only [given_eq_nil]
  by_cases h : (m.group "dev").getD [] = []
  · rw [if_neg (not_not.mpr h), if_pos h]
    exact iff_of_true (returns_ok _) (by simp)
  · rw [if_pos h, if_neg h, returns_map_iff, returns_intOrZero_iff]

theorem returns_pep440Parsed_iff {m : Cursor} :
    Returns (pep440Parsed R m) ↔ ∀ n ∈ pep440Numerals m, Numeral R n := by
  unfold pep440Parsed pep440Numerals
  rw [returns_bind_iff fun _ => returns_bind_iff fun _ => returns_bind_iff fun _ =>
    returns_bind_iff fun _ => returns_bind_pure_iff]
  rw [returns_intOrZero_iff, returns_releaseTuple_iff, returns_pep440Pre_iff,
    returns_pep440Post_iff, returns_pep440Dev_iff]
  simp only [forall_mem_append, and_assoc]

theorem returns_semverPreKey_iff {pre : Option Str} : Returns (semverPreKey R pre) ↔
    ∀ n ∈ (((pre.map (·.splitOn '.')).getD []).filter (strIsdigit R)), Numeral R n := by
  unfold semverPreKey
  rcases pre with _ | pre
  · exact iff_of_true (returns_ok _) (by simp)
  · dsimp only
    rw [returns_bind_pure_iff,
      returns_mapM_iff]
    simp only [returns_identKey_iff, Option.map_some, Option.getD_some, mem_filter, and_imp]

theorem returns_semverParsed_iff {m : Cursor} :
    Returns (semverParsed R m) ↔ ∀ n ∈ semverNumerals R m, Numeral R n := by
  unfold semverParsed semverNumerals
  rw [returns_bind_iff fun _ => returns_bind_pure_iff,
    returns_releaseTuple_iff, returns_semverPreKey_iff]
  simp only [forall_mem_append]

theorem returns_mavenStep_iff {s : MavenState} {tok : Str} :
    Returns (mavenStep R s tok) ↔ ∀ n ∈ mavenNumeral R tok, Numeral R n := by
  unfold mavenStep mavenNumeral
  by_cases hd : strIsdigit R tok = true
  · rw [if_pos hd, if_pos hd, returns_bind_iff (P := True) fun n => ?_, returns_int_iff]
    · simp
    · split_ifs <;> exact iff_of_true (returns_ok _) trivial
  · rw [if_neg hd, if_neg hd]
    generalize (((mavenToken R).rematch tok).bind fun m =>
      (mavenRank ((m.group "1").getD [])).map fun r => (r, (m.group "2").getD [])) = token
    rcases token with _ | ⟨r, n⟩
    · refine iff_of_true ?_ (by simp)
      dsimp only
      split_ifs <;> exact returns_ok _
    · dsimp only
      by_cases hn : n = []
      · subst hn
        exact iff_of_true (returns_ok _) (by simp [given])
      · rw [if_pos hn, returns_bind_pure_iff, returns_int_iff]
        simp [given, hn]

theorem returns_mavenKey_iff {raw : Str} : Returns (mavenKey R raw) ↔
    ∀ n ∈ ((lower R (strip R raw)).splitOnP fun c => c == '.' || c == '-' || c == '_').flatMap
      (mavenNumeral R), Numeral R n := by
  unfold mavenKey
  rw [returns_bind_pure_iff,
    returns_foldlM_iff (P := fun tok => ∀ n ∈ mavenNumeral R tok, Numeral R n)
      fun _ _ => returns_mavenStep_iff, forall_mem_flatMap]

theorem returns_parseEvr_iff {raw : Str} {rpm : Bool} :
    Returns (parseEvr R raw rpm) ↔ ∀ n ∈ epochNumeral R (strip R raw), Numeral R n := by
  unfold parseEvr epochNumeral
  dsimp only
  split_ifs
  · rw [returns_bind_pure_iff, returns_int_iff]
    simp
  · exact iff_of_true (returns_ok _) (by simp)

theorem returns_degrade_iff {text : Str} {key : Except Fault Key} (hkey : OnlyValueError key) :
    Returns (degrade R text key) ↔ Returns key ∨ ShortRuns R text := by
  unfold degrade
  split
  · exact absurd (hkey _ rfl) (by simp)
  · rw [returns_map_iff, returns_genericKey_iff, or_iff_right (not_returns_error _)]
  · exact iff_of_true (returns_ok _) (Or.inl (returns_ok _))

theorem returns_pep440Key_iff {raw : Str} : Returns (pep440Key R raw) ∨ ShortRuns R raw ↔
    ShortRuns R raw ∨ ∃ ns, numerals R raw .pypi = some ns ∧ ∀ n ∈ ns, Numeral R n := by
  unfold pep440Key numerals
  rcases (pep440Regex R).rematch raw with _ | m
  · simp [returns_genericKey_iff]
  · simp [returns_pep440Parsed_iff, or_comm]

theorem returns_semverKey_iff {raw : Str} : Returns (semverKey R raw) ∨ ShortRuns R raw ↔
    ShortRuns R raw ∨ ∃ ns, numerals R raw .semver = some ns ∧ ∀ n ∈ ns, Numeral R n := by
  unfold semverKey numerals
  rcases (semverRegex R).rematch (semverCleaned R raw) with _ | m
  · simp [returns_genericKey_iff]
  · simp [returns_semverParsed_iff, or_comm]

theorem shortRuns_strip {raw : Str} : ShortRuns R (strip R raw) ↔ ShortRuns R raw := by
  unfold ShortRuns
  rw [strip_strip]

theorem shortRuns_of_blank {raw : Str} (h : strip R raw = []) : ShortRuns R raw := by
  unfold ShortRuns
  rw [h]
  exact fun w hw => absurd hw not_mem_nil

/-- **`versionKey` returns just for the versions that have a key.** -/
theorem versionKey_returns_iff {raw : Str} {arg : Ecosystem ⊕ Str} :
    Returns (versionKey R raw arg) ↔ Keyed R (Ecosystem.of R arg) raw := by
  unfold versionKey Keyed
  by_cases ht : strip R raw = []
  · rw [if_pos ht, returns_map_iff, returns_genericKey_iff]
    exact iff_of_true (shortRuns_of_blank rfl) (Or.inl (shortRuns_of_blank ht))
  rw [if_neg ht, ← shortRuns_strip]
  generalize Ecosystem.of R arg = eco
  cases eco
  case pypi =>
    rw [returns_degrade_iff (onlyValueError_map (onlyValueError_pep440Key _)), returns_map_iff,
      returns_pep440Key_iff]
  case maven =>
    rw [returns_degrade_iff (onlyValueError_map (onlyValueError_mavenKey _)), returns_map_iff,
      returns_mavenKey_iff, strip_strip, or_comm]
    simp only [numerals, Option.some.injEq, exists_eq_left']
  case debian | rpm =>
    rw [returns_degrade_iff (onlyValueError_map (onlyValueError_parseEvr _ _)), returns_map_iff,
      returns_parseEvr_iff, strip_strip, or_comm]
    simp only [numerals, Option.some.injEq, exists_eq_left']
  case generic =>
    rw [returns_map_iff, returns_genericKey_iff]
    simp [numerals]
  all_goals
    rw [returns_degrade_iff (onlyValueError_map (onlyValueError_semverKey _)), returns_map_iff]
    exact returns_semverKey_iff

/-! ### When a comparison is computed -/

theorem isEvr_degrade {text : Str} {key : Except Fault Evr} {k : Key}
    (h : degrade R text (.evr <$> key) = .ok k) : k.isEvr = true ↔ Returns key := by
  rcases key with f | x
  · refine iff_of_false (fun hk => ?_) (not_returns_error f)
    cases f
    case diverges => cases h
    all_goals
      obtain ⟨v, -, rfl⟩ := map_eq_ok.mp h
      cases hk
  · cases h
    exact iff_of_true rfl (returns_ok x)

theorem not_isEvr_of_tupleKeyed {eco : Ecosystem} {k : Key} (hk : KeyOf eco k)
    (ht : TupleKeyed eco) : k.isEvr = false := by
  obtain ⟨v, rfl, -⟩ | ⟨x, rfl, hnot, -⟩ := hk
  · rfl
  · exact absurd ht hnot

theorem isEvr_iff {raw : Str} {arg : Ecosystem ⊕ Str} {k : Key}
    (h : versionKey R raw arg = .ok k) : k.isEvr = true ↔ ByEvr R (Ecosystem.of R arg) raw := by
  have hmem := versionKey_mem h
  unfold ByEvr
  unfold versionKey at h
  by_cases ht : strip R raw = []
  · rw [if_pos ht] at h
    obtain ⟨v, -, rfl⟩ := map_eq_ok.mp h
    exact iff_of_false Bool.false_ne_true fun hevr => hevr.2.1 ht
  rw [if_neg ht] at h
  generalize Ecosystem.of R arg = eco at h hmem ⊢
  by_cases htuple : TupleKeyed eco
  · rw [not_isEvr_of_tupleKeyed hmem htuple]
    exact iff_of_false Bool.false_ne_true fun hevr => hevr.1.elim htuple.1 htuple.2
  · have heco : eco = .debian ∨ eco = .rpm := by
      unfold TupleKeyed at htuple
      tauto
    rcases heco with rfl | rfl
    all_goals
      rw [isEvr_degrade h, returns_parseEvr_iff, strip_strip]
      simp [ht]

theorem raisesNothing_of_returns {A : Type} {x : Except Fault A} (h : Returns x) :
    RaisesNothing x := by
  obtain ⟨a, rfl⟩ := h
  intro f hf
  cases hf

theorem raisesNothing_iff_returns {A : Type} {x : Except Fault A} (hx : OnlyValueError x) :
    RaisesNothing x ↔ Returns x := by
  refine ⟨fun h => ?_, raisesNothing_of_returns⟩
  rcases x with f | a
  · have hf := h f rfl
    subst hf
    cases hx _ rfl
  · exact returns_ok a

theorem returns_of_raisesNothing_bind {A B : Type} {x : Except Fault A} {f : A → Except Fault B}
    (hx : OnlyValueError x) (h : RaisesNothing (x >>= f)) : Returns x := by
  rcases x with e | a
  · obtain rfl := hx e rfl
    cases h _ rfl
  · exact returns_ok a

theorem genericCompare_raisesNothing_iff {a b : Str} :
    RaisesNothing (genericCompare R a b) ↔ ShortRuns R a ∧ ShortRuns R b := by
  rw [← returns_genericKey_iff, ← returns_genericKey_iff]
  constructor
  · intro h
    have ha := returns_of_raisesNothing_bind (onlyValueError_genericKey a) h
    refine ⟨ha, ?_⟩
    obtain ⟨ga, hga⟩ := ha
    unfold genericCompare at h
    rw [hga] at h
    exact returns_of_raisesNothing_bind (onlyValueError_genericKey b) h
  · rintro ⟨⟨ga, hga⟩, ⟨gb, hgb⟩⟩
    obtain ⟨z, hz⟩ := compareKeys_val_ok (R := R)
      (keySet_of_generic .generic (genericKey_mem hga))
      (keySet_of_generic .generic (genericKey_mem hgb))
    exact raisesNothing_of_returns ⟨z, bind_eq_ok.mpr ⟨ga, hga, bind_eq_ok.mpr ⟨gb, hgb, hz⟩⟩⟩

/-- **The comparison of two keys with its fallback**: it raises nothing just when the keys are of
one kind or both versions have a generic key. -/
theorem onTypeError_raisesNothing_iff {eco : Ecosystem} {k l : Key} (hk : KeyOf eco k)
    (hl : KeyOf eco l) {a b : Str} :
    RaisesNothing (onTypeError (compareKeys R k l) (genericCompare R a b)) ↔
      (k.isEvr = true ↔ l.isEvr = true) ∨ ShortRuns R a ∧ ShortRuns R b := by
  cases k with
  | val v =>
    cases l with
    | val w =>
      obtain ⟨z, hz⟩ := compareKeys_val_ok (R := R) hk.keySet hl.keySet
      rw [hz]
      exact iff_of_true (raisesNothing_of_returns (returns_ok z)) (Or.inl Iff.rfl)
    | evr y =>
      rw [← genericCompare_raisesNothing_iff, or_iff_right (by simp [Key.isEvr])]
      exact Iff.rfl
  | evr x =>
    cases l with
    | val w =>
      rw [← genericCompare_raisesNothing_iff, or_iff_right (by simp [Key.isEvr])]
      exact Iff.rfl
    | evr y =>
      refine iff_of_true ?_ (Or.inl Iff.rfl)
      rw [compareKeys_evr]
      rcases hxy : x.cmp R y with f | o
      · -- the loop of an RPM comparison may not end
        obtain rfl := Evr.cmp_error hxy
        intro f hf
        cases hf
        rfl
      · exact raisesNothing_of_returns (returns_ok _)

theorem compare_raisesNothing_iff {a b : Str} {arg : Ecosystem ⊕ Str} :
    RaisesNothing (compare R a b arg) ↔
      Keyed R (Ecosystem.of R arg) a ∧ Keyed R (Ecosystem.of R arg) b ∧
        ((ByEvr R (Ecosystem.of R arg) a ↔ ByEvr R (Ecosystem.of R arg) b) ∨
          ShortRuns R a ∧ ShortRuns R b) := by
  rw [← versionKey_returns_iff, ← versionKey_returns_iff]
  unfold compare
  rcases ha : versionKey R a arg with f | k
  · refine iff_of_false (fun h => ?_) fun h => not_returns_error f h.1
    exact not_returns_error f (returns_of_raisesNothing_bind
      (ha ▸ onlyValueError_versionKey a arg) h)
  rcases hb : versionKey R b arg with f | l
  · refine iff_of_false (fun h => ?_) fun h => not_returns_error f h.2.1
    have h' : RaisesNothing ((.error f : Except Fault Key) >>= fun l =>
      onTypeError (compareKeys R k l) (genericCompare R a b)) := h
    exact not_returns_error f (returns_of_raisesNothing_bind
      (hb ▸ onlyValueError_versionKey b arg) h')
  rw [← isEvr_iff ha, ← isEvr_iff hb, and_iff_right (returns_ok k), and_iff_right (returns_ok l)]
  exact onTypeError_raisesNothing_iff (versionKey_mem ha) (versionKey_mem hb)

/-- **When `version_key` and `compare` raise nothing.**  A key is computed just for the versions
whose runs of digits are within the limit or whose ecosystem's parser takes numbers only that `int`
reads; two keys are compared unless one of them alone is an `_EvrVersion` and a generic key is
beyond the limit. -/
theorem raisesNothing_iff (a b : Str) (arg : Ecosystem ⊕ Str) :
    (RaisesNothing (versionKey R a arg) ↔ Keyed R (Ecosystem.of R arg) a) ∧
      (RaisesNothing (compare R a b arg) ↔
        Keyed R (Ecosystem.of R arg) a ∧ Keyed R (Ecosystem.of R arg) b ∧
          ((ByEvr R (Ecosystem.of R arg) a ↔ ByEvr R (Ecosystem.of R arg) b) ∨
            ShortRuns R a ∧ ShortRuns R b)) := by
  refine ⟨?_, compare_raisesNothing_iff⟩
  rw [raisesNothing_iff_returns (onlyValueError_versionKey a arg), versionKey_returns_iff]

/-- **A number beyond the limit** raises in the handler what it raised in the parser. -/
theorem versionKey_maven_ones {n : ℕ} (h : ¬ Within R (replicate n '1')) :
    versionKey R (replicate n '1') (.inl .maven) = .error .valueError := by
  have hone : IsAscii '1' := by decide
  have hne : replicate n '1' ≠ [] := fun h0 => h (Or.inr (by simp [h0]))
  have hmem : ∀ c ∈ replicate n '1', c = '1' := fun c hc => eq_of_mem_replicate hc
  have hstrip : strip R (replicate n '1') = replicate n '1' :=
    strip_of_clean fun c hc => by rw [hmem c hc, R.isSpace_ascii '1' hone]; decide
  have hlower : lower R (replicate n '1') = replicate n '1' :=
    lower_of_ascii fun c hc => by rw [hmem c hc]; decide
  have hnot : ¬ Keyed R .maven (replicate n '1') := by
    rintro (hshort | ⟨ns, hns, hnum⟩)
    · unfold ShortRuns at hshort
      rw [hstrip, hlower, ← append_nil (replicate n '1'), Regex.classRuns_append hne
        (fun c hc => by rw [hmem c hc, R.isDecimal_ascii '1' hone]; decide) rfl] at hshort
      exact h (hshort _ mem_cons_self)
    · have hdigit : strIsdigit R (replicate n '1') = true := by
        unfold strIsdigit
        rw [Bool.and_eq_true, all_eq_true]
        refine ⟨by simpa using hne, fun c hc => ?_⟩
        rw [hmem c hc, R.isDigit_ascii '1' hone]
        decide
      rw [numerals, hstrip, hlower,
        splitOnP_eq_singleton fun c hc => by rw [hmem c hc]; decide, Option.some.injEq] at hns
      subst hns
      refine h (hnum (replicate n '1') ?_).2.2
      simp [mavenNumeral, hdigit]
  rcases hkey : versionKey R (replicate n '1') (.inl .maven) with f | k
  · rw [onlyValueError_versionKey _ _ f hkey]
  · exact absurd (versionKey_returns_iff.mp ⟨k, hkey⟩) hnot

/-- One digit more than Python's own limit. -/
theorem hostile_version_raises :
    versionKey { Runtime.ascii with maxStrDigits := 4300 } (replicate 4301 '1')
      (.inl .maven) = .error .valueError := by
  refine versionKey_maven_ones fun h => ?_
  rcases h with h | h
  · exact absurd h (by decide)
  · rw [length_replicate] at h
    exact absurd h (by decide)

end Guardian.Versioning

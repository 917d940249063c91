import Guardian.Versioning.Compare

/-!
# Versions outside the grammar

PyPI and the SemVer family have a grammar.  A version outside it gets its generic key, and that key
is a tuple like the keys of the others, so `compare` never falls back on the generic order of both:
`generic_lt_parsed` puts the version below every version the grammar knows.  `compare_mixed_iff`
says when both orders agree.
-/

namespace Guardian.Versioning

open Python

variable (R : Runtime)

/-- The ecosystems whose parser may reject a text. -/
def HasGrammar (eco : Ecosystem) : Prop :=
  eco = .pypi ∨ eco = .npm ∨ eco = .semver ∨ eco = .go ∨ eco = .nuget ∨ eco = .rubygems

/-- The match of a text with the grammar of its ecosystem. -/
def grammarMatch (eco : Ecosystem) (text : Str) : Option Cursor :=
  if eco = .pypi then (pep440Regex R).rematch text
  else (semverRegex R).rematch (semverCleaned R text)

def grammarKey (eco : Ecosystem) (m : Cursor) : Except Fault Val :=
  if eco = .pypi then pep440Parsed R m else semverParsed R m

/-- The grammar of the ecosystem takes the version. -/
def Parses (eco : Ecosystem) (s : Str) : Prop := (grammarMatch R eco (strip R s)).isSome = true

instance (eco : Ecosystem) (s : Str) : Decidable (Parses R eco s) := by
  unfold Parses
  infer_instance

variable {R}

theorem genericKey_strip (s : Str) : genericKey R (strip R s) = genericKey R s := by
  unfold genericKey
  rw [strip_strip]

theorem grammarMatch_nil (eco : Ecosystem) : grammarMatch R eco [] = none := by
  unfold grammarMatch
  split_ifs <;> rfl

theorem parser_eq {eco : Ecosystem} (heco : HasGrammar eco) {s : Str} (hs : strip R s ≠ [])
    {arg : Ecosystem ⊕ Str} (harg : Ecosystem.of R arg = eco) :
    versionKey R s arg = degrade R (strip R s) (.val <$>
      match grammarMatch R eco (strip R s) with
      | none => genericKey R (strip R s)
      | some m => grammarKey R eco m) := by
  unfold versionKey grammarMatch grammarKey
  rw [if_neg hs, harg]
  by_cases hpypi : eco = .pypi
  · subst hpypi
    rcases h : (pep440Regex R).rematch (strip R s) with _ | m <;> simp [pep440Key, h]
  · rcases heco with rfl | rfl | rfl | rfl | rfl | rfl
    · exact absurd rfl hpypi
    all_goals
      rcases h : (semverRegex R).rematch (semverCleaned R (strip R s)) with _ | m <;>
        simp [semverKey, h]

/-- **A version outside the grammar has its generic key.** -/
theorem versionKey_of_not_parses {arg : Ecosystem ⊕ Str} (heco : HasGrammar (Ecosystem.of R arg))
    {s : Str} (hs : ¬ Parses R (Ecosystem.of R arg) s) :
    versionKey R s arg = .val <$> genericKey R s := by
  by_cases hblank : strip R s = []
  · unfold versionKey
    rw [if_pos hblank, ← genericKey_strip s, hblank]
  · have hnone : grammarMatch R (Ecosystem.of R arg) (strip R s) = none := by
      unfold Parses at hs
      simpa using hs
    rw [parser_eq heco hblank rfl, hnone]
    show degrade R _ (Key.val <$> genericKey R (strip R s)) = _
    rw [genericKey_strip]
    rcases hg : genericKey R s with f | v
    · obtain rfl := onlyValueError_genericKey s f hg
      show Key.val <$> genericKey R (strip R s) = _
      rw [genericKey_strip, hg]
    · rfl

theorem strip_ne_nil_of_parses {eco : Ecosystem} {s : Str} (h : Parses R eco s) :
    strip R s ≠ [] := by
  intro hs
  unfold Parses at h
  rw [hs, grammarMatch_nil] at h
  cases h

variable (R) in
/-- The key the grammar gives a version. -/
def parsedKey (eco : Ecosystem) (s : Str) : Except Fault Val :=
  match grammarMatch R eco (strip R s) with
  | none => .error .valueError
  | some m => grammarKey R eco m

theorem parsedKey_parsed {eco : Ecosystem} {s : Str} {v : Val} (h : parsedKey R eco s = .ok v) :
    Parsed v := by
  unfold parsedKey at h
  split at h
  · cases h
  · unfold grammarKey at h
    split_ifs at h
    · exact parsed_of_pep440 (pep440Parsed_mem h)
    · exact parsed_of_semver (semverParsed_mem h)

theorem onlyValueError_grammarKey (eco : Ecosystem) (m : Cursor) :
    OnlyValueError (grammarKey R eco m) := by
  unfold grammarKey
  split_ifs
  · exact onlyValueError_pep440Parsed m
  · exact onlyValueError_semverParsed m

/-- **A version of the grammar has the grammar's key**, or its generic key where that one cannot be
built. -/
theorem versionKey_of_parses {arg : Ecosystem ⊕ Str} (heco : HasGrammar (Ecosystem.of R arg))
    {s : Str} (hs : Parses R (Ecosystem.of R arg) s) :
    versionKey R s arg =
      match parsedKey R (Ecosystem.of R arg) s with
      | .ok v => .ok (.val v)
      | .error _ => .val <$> genericKey R s := by
  rw [parser_eq heco (strip_ne_nil_of_parses hs) rfl]
  obtain ⟨m, hm⟩ := Option.isSome_iff_exists.mp hs
  have hkey : parsedKey R (Ecosystem.of R arg) s = grammarKey R (Ecosystem.of R arg) m := by
    unfold parsedKey
    rw [hm]
  rw [hm, hkey]
  show degrade R _ (Key.val <$> grammarKey R (Ecosystem.of R arg) m) = _
  rcases hg : grammarKey R (Ecosystem.of R arg) m with f | v
  · obtain rfl := onlyValueError_grammarKey _ m f hg
    rw [← genericKey_strip]
    rfl
  · rfl

/-! ### The order across the grammar -/

variable (R) in
/-- The generic key of `u` is below that of `p`. -/
def GenericBelow (u p : Str) : Prop :=
  ∃ gu gp, genericKey R u = .ok gu ∧ genericKey R p = .ok gp ∧ gu.lt gp = .ok true

theorem compareKeys_of_lt {v w : Val} (h : v.lt w = .ok true) :
    compareKeys R (.val v) (.val w) = .ok (-1) ∧ compareKeys R (.val w) (.val v) = .ok 1 := by
  have hne := Val.ne_of_lt h
  rw [compareKeys_val, if_neg (by simpa [Val.eq_iff] using hne), h, compareKeys_val,
    if_neg (by simpa [Val.eq_iff] using Ne.symm hne), Val.lt_asymm h]
  exact ⟨rfl, rfl⟩

theorem lt_of_compareKeys {v w : Val} (h : compareKeys R (.val v) (.val w) = .ok (-1)) :
    v.lt w = .ok true := by
  rw [compareKeys_val] at h
  split_ifs at h
  · cases h
  · obtain ⟨b, hb, h⟩ := map_eq_ok.mp h
    cases b
    · cases h
    · exact hb

theorem compare_eq_of_lt {a b : Str} {arg : Ecosystem ⊕ Str} {v w : Val}
    (ha : versionKey R a arg = .ok (.val v)) (hb : versionKey R b arg = .ok (.val w))
    (h : v.lt w = .ok true) : compare R a b arg = .ok (-1) ∧ compare R b a arg = .ok 1 :=
  ⟨compare_of_keys ha hb (compareKeys_of_lt h).1, compare_of_keys hb ha (compareKeys_of_lt h).2⟩

theorem genericCompare_eq {a b : Str} {v w : Val} (ha : genericKey R a = .ok v)
    (hb : genericKey R b = .ok w) : genericCompare R a b = compareKeys R (.val v) (.val w) := by
  unfold genericCompare
  rw [ha, hb]
  rfl

theorem compare_of_generic {a b : Str} {arg : Ecosystem ⊕ Str}
    (ha : versionKey R a arg = .val <$> genericKey R a)
    (hb : versionKey R b arg = .val <$> genericKey R b) :
    compare R a b arg = genericCompare R a b := by
  unfold compare
  rw [ha, hb]
  rcases hga : genericKey R a with f | v
  · unfold genericCompare
    rw [hga]
    rfl
  rcases hgb : genericKey R b with f | w
  · unfold genericCompare
    rw [hga, hgb]
    rfl
  · rw [genericCompare_eq hga hgb]
    have hv : keySet .generic v := keySet_of_generic _ (genericKey_mem hga)
    have hw : keySet .generic w := keySet_of_generic _ (genericKey_mem hgb)
    obtain ⟨z, hz⟩ := compareKeys_val_ok (R := R) hv hw
    show onTypeError (compareKeys R (.val v) (.val w)) (compareKeys R (.val v) (.val w)) = _
    rw [hz]
    rfl

/-- **Across the grammar**: let the grammar know `p` but not `u`.  `compare` puts `u` below `p`, so
it is the comparison of their generic keys exactly when those have `u` below `p` too, or when a
key cannot be built and everything is left to the generic ones. -/
theorem compare_mixed_iff {arg : Ecosystem ⊕ Str} (heco : HasGrammar (Ecosystem.of R arg))
    {u p : Str} (hu : ¬ Parses R (Ecosystem.of R arg) u) (hp : Parses R (Ecosystem.of R arg) p) :
    (compare R u p arg = genericCompare R u p ↔
        (∀ v, genericKey R u ≠ .ok v) ∨ (∀ v, parsedKey R (Ecosystem.of R arg) p ≠ .ok v) ∨
          GenericBelow R u p) ∧
      (compare R p u arg = genericCompare R p u ↔
        (∀ v, genericKey R u ≠ .ok v) ∨ (∀ v, parsedKey R (Ecosystem.of R arg) p ≠ .ok v) ∨
          GenericBelow R u p) := by
  have hku := versionKey_of_not_parses heco hu
  have hkp := versionKey_of_parses heco hp
  rcases hpk : parsedKey R (Ecosystem.of R arg) p with f | v
  · -- the generic keys decide
    rw [hpk] at hkp
    have hcond : ∀ v, (Except.error f : Except Fault Val) ≠ .ok v := fun v h => by cases h
    exact ⟨iff_of_true (compare_of_generic hku hkp) (Or.inr (Or.inl hcond)),
      iff_of_true (compare_of_generic hkp hku) (Or.inr (Or.inl hcond))⟩
  rw [hpk] at hkp
  rcases hgu : genericKey R u with f | gu
  · -- no key of `u` at all
    rw [hgu] at hku
    obtain rfl := onlyValueError_genericKey u f hgu
    have hcond : ∀ v, (Except.error .valueError : Except Fault Val) ≠ .ok v := fun v h => by cases h
    have hleft : compare R u p arg = genericCompare R u p := by
      unfold compare genericCompare
      rw [hku, hgu]
      rfl
    have hright : compare R p u arg = genericCompare R p u := by
      unfold compare genericCompare
      rw [hku, hkp, hgu]
      rcases hgp : genericKey R p with f | gp
      · obtain rfl := onlyValueError_genericKey p f hgp
        rfl
      · rfl
    exact ⟨iff_of_true hleft (Or.inl hcond), iff_of_true hright (Or.inl hcond)⟩
  · rw [hgu] at hku
    have hlt := generic_lt_parsed (genericKey_mem hgu) (parsedKey_parsed hpk)
    obtain ⟨hup, hpu⟩ := compare_eq_of_lt hku hkp hlt
    have hbelow : (∀ w, (Except.ok gu : Except Fault Val) ≠ .ok w) ∨
        (∀ w, (Except.ok v : Except Fault Val) ≠ .ok w) ∨ GenericBelow R u p ↔
          GenericBelow R u p := by
      simp
    rw [hbelow, hup, hpu]
    rcases hgp : genericKey R p with f | gp
    · -- the generic order is not there to agree with
      have hnot : ¬ GenericBelow R u p := by
        rintro ⟨_, gp, -, h, -⟩
        rw [hgp] at h
        cases h
      refine ⟨iff_of_false ?_ hnot, iff_of_false ?_ hnot⟩ <;>
      · unfold genericCompare
        rw [hgu, hgp]
        exact fun h => by cases h
    · have hiff : GenericBelow R u p ↔ gu.lt gp = .ok true := by
        constructor
        · rintro ⟨gu', gp', h1, h2, h⟩
          rw [hgu] at h1
          rw [hgp] at h2
          cases h1
          cases h2
          exact h
        · exact fun h => ⟨gu, gp, hgu, hgp, h⟩
      rw [hiff, genericCompare_eq hgu hgp, genericCompare_eq hgp hgu]
      refine ⟨⟨fun h => lt_of_compareKeys h.symm, fun h => (compareKeys_of_lt h).1.symm⟩,
        ⟨fun h => ?_, fun h => (compareKeys_of_lt h).2.symm⟩⟩
      have hkp' : KeyOf .generic (.val gp) :=
        Or.inl ⟨gp, rfl, keySet_of_generic _ (genericKey_mem hgp)⟩
      have hku' : KeyOf .generic (.val gu) :=
        Or.inl ⟨gu, rfl, keySet_of_generic _ (genericKey_mem hgu)⟩
      exact lt_of_compareKeys (compareKeys_flip hkp' hku' h.symm)

/-- PyPI: the generic order puts `0.x` below `1.0`, and so does `compare`. -/
theorem compare_mixed_iff_pypi :
    (compare .ascii "0.x" "1.0" (.inl .pypi) =
          genericCompare .ascii "0.x" "1.0" ↔
        (∀ v, genericKey .ascii "0.x" ≠ .ok v) ∨
          (∀ v, parsedKey .ascii .pypi "1.0" ≠ .ok v) ∨
          GenericBelow .ascii "0.x" "1.0") ∧
      (compare .ascii "1.0" "0.x" (.inl .pypi) =
          genericCompare .ascii "1.0" "0.x" ↔
        (∀ v, genericKey .ascii "0.x" ≠ .ok v) ∨
          (∀ v, parsedKey .ascii .pypi "1.0" ≠ .ok v) ∨
          GenericBelow .ascii "0.x" "1.0") :=
  compare_mixed_iff (Or.inl rfl) (by decide) (by decide)

/-- **Not the generic order**: `99.x` is no PEP 440 version, and goes below `1.0` although its
generic key is above. -/
theorem compare_mixed_ne_generic :
    ¬ ∀ (R : Runtime) (arg : Ecosystem ⊕ Str) (a b : Str), HasGrammar (Ecosystem.of R arg) →
      (Parses R (Ecosystem.of R arg) a ↔ ¬ Parses R (Ecosystem.of R arg) b) →
      compare R a b arg = genericCompare R a b := by
  intro h
  have hcmp := h .ascii (.inl .pypi) "99.x" "1.0" (Or.inl rfl) (by decide)
  have hlow : compare .ascii "99.x" "1.0" (.inl .pypi) = .ok (-1) := by
    decide +kernel
  have hhigh : genericCompare .ascii "99.x" "1.0" = .ok 1 := by
    decide +kernel
  rw [hlow, hhigh] at hcmp
  exact absurd hcmp (by decide)

end Guardian.Versioning

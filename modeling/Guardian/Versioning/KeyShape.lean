import Guardian.Versioning.Key

/-!
# The shapes of version keys

* `genericKey_mem`, `pep440Key_mem`, `semverKey_mem`, `mavenKey_mem`: the tuples each parser builds.
* `keySet eco` has every tuple that `versionKey` builds for an ecosystem (`versionKey_mem`), and
  Python can order any two of its tuples (`comparable_keySet`).
* The generic key of a text is below every key with numbers of a release (`generic_lt_parsed`):
  its own release is the empty tuple.
-/

namespace Guardian.Versioning

open Python Val List

variable {R : Runtime}

/-! ### The sets of keys -/

/-- An identifier: a rank, a number, a text. -/
def Triple : Val → Prop := Tuple [IsInt, IsInt, IsStr]

def Identifiers : Val → Prop := TupleOf (OrInf Triple)

def Release (a : Val) : Prop := ∃ n ns, a = .tup (.int n :: ns) ∧ ∀ m ∈ ns, IsInt m

def Generic : Val → Prop :=
  Tuple [(· = .int 0), (· = .tup []), Identifiers, (· = .negInf), (· = .inf)]

def Semver : Val → Prop :=
  Tuple [(· = .int 0), Release, Identifiers, (· = .negInf), (· = .inf)]

/-- The keys with the shape of a generic key: those of Maven and SemVer too. -/
def Ordinary : Val → Prop :=
  Tuple [(· = .int 0), TupleOf IsInt, Identifiers, (· = .negInf), (· = .inf)]

def Pep440 : Val → Prop :=
  Tuple [IsInt, Release, OrInf (Tuple [IsStr, IsInt]), OrInf IsInt, OrInf IsInt]

/-- A key with an epoch and the numbers of a release. -/
def Parsed (a : Val) : Prop := ∃ e r rest, a = .tup (.int e :: r :: rest) ∧ Release r

/-! ### The parsers -/

variable {v : Val} {raw : Str}

theorem identKey_mem {number : Bool} {tok text : Str}
    (h : identKey R number tok text = .ok v) : OrInf Triple v := by
  refine Or.inl ?_
  unfold identKey at h
  split_ifs at h
  · obtain ⟨n, -, h⟩ := bind_eq_ok.mp h
    cases h
    exact ⟨_, rfl, .cons ⟨0, rfl⟩ (.cons ⟨n, rfl⟩ (.cons ⟨[], rfl⟩ .nil))⟩
  · cases h
    exact ⟨_, rfl, .cons ⟨1, rfl⟩ (.cons ⟨0, rfl⟩ (.cons ⟨text, rfl⟩ .nil))⟩

theorem genericKey_mem (h : genericKey R raw = .ok v) : Generic v := by
  obtain ⟨parts, hparts, h⟩ := bind_eq_ok.mp h
  cases h
  refine ⟨_, rfl, .cons rfl (.cons rfl (.cons ⟨_, rfl, ?_⟩ (.cons rfl (.cons rfl .nil))))⟩
  split_ifs
  · intro v hv
    rw [mem_singleton] at hv
    subst hv
    exact Or.inl ⟨_, rfl, .cons ⟨1, rfl⟩ (.cons ⟨0, rfl⟩ (.cons ⟨_, rfl⟩ .nil))⟩
  · exact of_mem_mapM (fun tok _ v hv => identKey_mem hv) hparts

theorem trimZerosRev_ne_nil {ns : List ℕ} (h : ns ≠ []) : trimZerosRev ns ≠ [] := by
  fun_induction trimZerosRev ns with
  | case1 n ns ih => exact ih (by simp)
  | case2 ns => exact h

theorem trimZeros_ne_nil {ns : List ℕ} (h : ns ≠ []) : trimZeros ns ≠ [] := by
  unfold trimZeros
  rw [ne_eq, reverse_eq_nil_iff]
  exact trimZerosRev_ne_nil (by simpa using h)

theorem releaseTuple_mem {release : Str} (h : releaseTuple R release = .ok v) :
    Release v := by
  obtain ⟨ns, hns, h⟩ := bind_eq_ok.mp h
  cases h
  have hne : ns ≠ [] := by
    have hlen := length_of_mapM hns
    rintro rfl
    have hsplit : release.splitOn '.' ≠ [] := splitOn_ne_nil _ _
    exact hsplit (length_eq_zero_iff.mp hlen.symm)
  rcases htrim : trimZeros ns with _ | ⟨n, ms⟩
  · exact absurd htrim (trimZeros_ne_nil hne)
  · refine ⟨n, ms.map .int, rfl, fun m hm => ?_⟩
    obtain ⟨k, -, rfl⟩ := mem_map.mp hm
    exact ⟨k, rfl⟩

theorem semverPreKey_mem {pre : Option Str} (h : semverPreKey R pre = .ok v) :
    Identifiers v := by
  unfold semverPreKey at h
  cases pre with
  | none =>
    cases h
    refine ⟨_, rfl, fun v hv => ?_⟩
    rw [mem_singleton] at hv
    exact Or.inr (Or.inl hv)
  | some pre =>
    obtain ⟨parts, hparts, h⟩ := bind_eq_ok.mp h
    cases h
    exact ⟨_, rfl, of_mem_mapM (fun tok _ v hv => identKey_mem hv) hparts⟩

theorem semverParsed_mem {m : Cursor} (h : semverParsed R m = .ok v) : Semver v := by
  obtain ⟨release, hrelease, h⟩ := bind_eq_ok.mp h
  obtain ⟨pre, hpre, h⟩ := bind_eq_ok.mp h
  cases h
  exact ⟨_, rfl, .cons rfl (.cons (releaseTuple_mem hrelease)
    (.cons (semverPreKey_mem hpre) (.cons rfl (.cons rfl .nil))))⟩

theorem semverKey_mem (h : semverKey R raw = .ok v) :
    Generic v ∨ Semver v := by
  unfold semverKey at h
  split at h
  · exact Or.inl (genericKey_mem h)
  · exact Or.inr (semverParsed_mem h)

theorem pep440Pre_mem {m : Cursor} (h : pep440Pre R m = .ok (some v)) :
    Tuple [IsStr, IsInt] v := by
  unfold pep440Pre at h
  split at h
  · cases h
  · split_ifs at h
    · cases h
    · obtain ⟨n, -, h⟩ := bind_eq_ok.mp h
      cases h
      exact ⟨_, rfl, .cons ⟨_, rfl⟩ (.cons ⟨n, rfl⟩ .nil)⟩

theorem pep440Parsed_mem {m : Cursor} (h : pep440Parsed R m = .ok v) : Pep440 v := by
  obtain ⟨epoch, -, h⟩ := bind_eq_ok.mp h
  obtain ⟨release, hrelease, h⟩ := bind_eq_ok.mp h
  obtain ⟨pre, hpre, h⟩ := bind_eq_ok.mp h
  obtain ⟨post, -, h⟩ := bind_eq_ok.mp h
  obtain ⟨dev, -, h⟩ := bind_eq_ok.mp h
  cases h
  refine ⟨_, rfl, .cons ⟨epoch, rfl⟩ (.cons (releaseTuple_mem hrelease)
    (.cons ?_ (.cons ?_ (.cons ?_ .nil))))⟩
  · rcases pre with _ | p
    · unfold pep440PreKey OrInf
      split_ifs <;> simp
    · exact Or.inl (pep440Pre_mem hpre)
  · rcases post with _ | n
    · exact Or.inr (Or.inr rfl)
    · exact Or.inl ⟨n, rfl⟩
  · rcases dev with _ | n
    · exact Or.inr (Or.inl rfl)
    · exact Or.inl ⟨n, rfl⟩

theorem pep440Key_mem (h : pep440Key R raw = .ok v) :
    Generic v ∨ Pep440 v := by
  unfold pep440Key at h
  split at h
  · exact Or.inl (genericKey_mem h)
  · exact Or.inr (pep440Parsed_mem h)

theorem ordinary_of_generic (h : Generic v) : Ordinary v := by
  obtain ⟨vs, rfl, h⟩ := h
  cases h with
  | cons h0 h =>
    cases h with
    | cons h1 h => exact ⟨_, rfl, .cons h0 (.cons ⟨[], h1, by simp⟩ h)⟩

theorem ordinary_of_semver (h : Semver v) : Ordinary v := by
  obtain ⟨vs, rfl, h⟩ := h
  cases h with
  | cons h0 h =>
    cases h with
    | cons h1 h =>
      obtain ⟨n, ns, hn, hns⟩ := h1
      refine ⟨_, rfl, .cons h0 (.cons ⟨_, hn, fun m hm => ?_⟩ h)⟩
      rcases mem_cons.mp hm with rfl | hm
      · exact ⟨n, rfl⟩
      · exact hns m hm

theorem mavenKey_mem (h : mavenKey R raw = .ok v) : Ordinary v := by
  obtain ⟨s, -, h⟩ := bind_eq_ok.mp h
  cases h
  refine ⟨_, rfl, .cons rfl (.cons ⟨_, rfl, fun v hv => ?_⟩
    (.cons ⟨_, rfl, fun v hv => ?_⟩ (.cons rfl (.cons rfl .nil))))⟩
  · obtain ⟨n, -, rfl⟩ := mem_map.mp hv
    exact ⟨n, rfl⟩
  · rw [mem_singleton] at hv
    subst hv
    exact Or.inl ⟨_, rfl, .cons ⟨_, rfl⟩ (.cons ⟨_, rfl⟩ (.cons ⟨_, rfl⟩ .nil))⟩

/-! ### Python orders them -/

theorem comparable_triple : Comparable Triple :=
  comparable_tuple (by
    simp only [mem_cons, not_mem_nil, or_false]
    rintro S (rfl | rfl | rfl)
    · exact comparable_isInt
    · exact comparable_isInt
    · exact comparable_isStr)

theorem comparable_ordinary : Comparable Ordinary :=
  comparable_tuple (by
    simp only [mem_cons, not_mem_nil, or_false]
    rintro S (rfl | rfl | rfl | rfl | rfl)
    · exact comparable_singleton _
    · exact comparable_tupleOf comparable_isInt
    · exact comparable_tupleOf (comparable_orInf comparable_triple)
    · exact comparable_singleton _
    · exact comparable_singleton _)

theorem comparable_release : Comparable Release := by
  rintro _ _ ⟨m, ms, rfl, hm⟩ ⟨n, ns, rfl, hn⟩
  refine comparable_tupleOf comparable_isInt _ _ ⟨_, rfl, fun a ha => ?_⟩ ⟨_, rfl, fun a ha => ?_⟩
  · rcases mem_cons.mp ha with rfl | ha
    · exact ⟨m, rfl⟩
    · exact hm a ha
  · rcases mem_cons.mp ha with rfl | ha
    · exact ⟨n, rfl⟩
    · exact hn a ha

theorem comparable_pep440 : Comparable Pep440 :=
  comparable_tuple (by
    simp only [mem_cons, not_mem_nil, or_false]
    rintro S (rfl | rfl | rfl | rfl | rfl)
    · exact comparable_isInt
    · exact comparable_release
    · refine comparable_orInf (comparable_tuple ?_)
      simp only [mem_cons, not_mem_nil, or_false]
      rintro S (rfl | rfl)
      · exact comparable_isStr
      · exact comparable_isInt
    · exact comparable_orInf comparable_isInt
    · exact comparable_orInf comparable_isInt)

/-- **A generic key is below every key with a release**: its own release is the empty tuple, and
that decides before the identifiers are looked at. -/
theorem generic_lt_parsed {a b : Val} (ha : Generic a) (hb : Parsed b) : lt a b = .ok true := by
  obtain ⟨vs, rfl, h⟩ := ha
  obtain ⟨e, r, rest, rfl, n, ns, rfl, -⟩ := hb
  cases h with
  | cons h0 h =>
    cases h with
    | cons h1 h =>
      subst h0 h1
      rw [lt]
      by_cases he : e = 0
      · subst he
        rw [ltAll_cons_self, ltAll_cons_ne (by simp), lt, ltAll]
      · rw [ltAll_cons_ne (by simpa using Ne.symm he), lt, decide_eq_true (by omega)]

theorem parsed_of_pep440 (h : Pep440 v) : Parsed v := by
  obtain ⟨vs, rfl, h⟩ := h
  cases h with
  | cons h0 h =>
    cases h with
    | cons h1 h =>
      obtain ⟨e, rfl⟩ := h0
      exact ⟨e, _, _, rfl, h1⟩

theorem parsed_of_semver (h : Semver v) : Parsed v := by
  obtain ⟨vs, rfl, h⟩ := h
  cases h with
  | cons h0 h =>
    cases h with
    | cons h1 h =>
      subst h0
      exact ⟨0, _, _, rfl, h1⟩

/-! ### Every version has a key -/

theorem onlyValueError_identKey (number : Bool) (tok text : Str) :
    OnlyValueError (identKey R number tok text) := by
  unfold identKey
  split_ifs
  · exact onlyValueError_bind (onlyValueError_int tok) fun _ => onlyValueError_ok _
  · exact onlyValueError_ok _

theorem onlyValueError_genericKey (raw : Str) : OnlyValueError (genericKey R raw) :=
  onlyValueError_bind (onlyValueError_mapM (fun tok => onlyValueError_identKey _ tok tok) _)
    fun _ => onlyValueError_ok _

theorem onlyValueError_intOrZero (group : Option Str) : OnlyValueError (intOrZero R group) := by
  unfold intOrZero
  split
  · exact onlyValueError_ok _
  · split_ifs
    · exact onlyValueError_ok _
    · exact onlyValueError_int _

theorem onlyValueError_releaseTuple (release : Str) : OnlyValueError (releaseTuple R release) :=
  onlyValueError_bind (onlyValueError_mapM onlyValueError_int _) fun _ => onlyValueError_ok _

theorem onlyValueError_pep440Pre (m : Cursor) : OnlyValueError (pep440Pre R m) := by
  unfold pep440Pre
  split
  · exact onlyValueError_ok _
  · split_ifs
    · exact onlyValueError_ok _
    · exact onlyValueError_bind (onlyValueError_intOrZero _) fun _ => onlyValueError_ok _

theorem onlyValueError_pep440Post (m : Cursor) : OnlyValueError (pep440Post R m) := by
  unfold pep440Post
  split_ifs
  · exact onlyValueError_map (onlyValueError_int _)
  · exact onlyValueError_map (onlyValueError_intOrZero _)
  · exact onlyValueError_ok _

theorem onlyValueError_pep440Dev (m : Cursor) : OnlyValueError (pep440Dev R m) := by
  unfold pep440Dev
  split_ifs
  · exact onlyValueError_map (onlyValueError_intOrZero _)
  · exact onlyValueError_ok _

theorem onlyValueError_pep440Parsed (m : Cursor) : OnlyValueError (pep440Parsed R m) :=
  onlyValueError_bind (onlyValueError_intOrZero _) fun _ =>
    onlyValueError_bind (onlyValueError_releaseTuple _) fun _ =>
    onlyValueError_bind (onlyValueError_pep440Pre _) fun _ =>
    onlyValueError_bind (onlyValueError_pep440Post _) fun _ =>
    onlyValueError_bind (onlyValueError_pep440Dev _) fun _ => onlyValueError_ok _

theorem onlyValueError_pep440Key (raw : Str) : OnlyValueError (pep440Key R raw) := by
  unfold pep440Key
  split
  · exact onlyValueError_genericKey raw
  · exact onlyValueError_pep440Parsed _

theorem onlyValueError_semverPreKey (pre : Option Str) : OnlyValueError (semverPreKey R pre) := by
  unfold semverPreKey
  split
  · exact onlyValueError_ok _
  · exact onlyValueError_bind (onlyValueError_mapM (fun _ => onlyValueError_identKey _ _ _) _)
      fun _ => onlyValueError_ok _

theorem onlyValueError_semverParsed (m : Cursor) : OnlyValueError (semverParsed R m) :=
  onlyValueError_bind (onlyValueError_releaseTuple _) fun _ =>
    onlyValueError_bind (onlyValueError_semverPreKey _) fun _ => onlyValueError_ok _

theorem onlyValueError_semverKey (raw : Str) : OnlyValueError (semverKey R raw) := by
  unfold semverKey
  split
  · exact onlyValueError_genericKey raw
  · exact onlyValueError_semverParsed _

theorem onlyValueError_mavenStep (s : MavenState) (tok : Str) :
    OnlyValueError (mavenStep R s tok) := by
  unfold mavenStep
  by_cases hd : strIsdigit R tok = true
  · rw [if_pos hd]
    refine onlyValueError_bind (onlyValueError_int _) fun n => ?_
    split_ifs <;> exact onlyValueError_ok _
  · rw [if_neg hd]
    split
    · next r n _ =>
      by_cases hn : n ≠ []
      · rw [if_pos hn]
        exact onlyValueError_bind (onlyValueError_int _) fun _ => onlyValueError_ok _
      · rw [if_neg hn]
        exact onlyValueError_ok _
    · split_ifs <;> exact onlyValueError_ok _

theorem onlyValueError_mavenKey (raw : Str) : OnlyValueError (mavenKey R raw) :=
  onlyValueError_bind (onlyValueError_foldlM onlyValueError_mavenStep _ _) fun _ => onlyValueError_ok _

theorem onlyValueError_parseEvr (raw : Str) (rpm : Bool) :
    OnlyValueError (parseEvr R raw rpm) := by
  unfold parseEvr
  dsimp only
  split_ifs
  · exact onlyValueError_bind (onlyValueError_int _) fun _ => onlyValueError_ok _
  · exact onlyValueError_ok _

theorem isDigit_letter {c : Char} (h : (Regex.lowerAZ c || Regex.upperAZ c) = true) :
    R.isDigit c = false := by
  simp only [Regex.lowerAZ, Regex.upperAZ, Bool.or_eq_true, decide_eq_true_eq, Char.le_def,
    UInt32.le_iff_toNat_le] at h
  change (97 ≤ c.toNat ∧ c.toNat ≤ 122) ∨ (65 ≤ c.toNat ∧ c.toNat ≤ 90) at h
  have hac : IsAscii c := by
    unfold IsAscii
    omega
  rw [R.isDigit_ascii c hac, Char.isDigit, Bool.and_eq_false_iff, decide_eq_false_iff_not,
    decide_eq_false_iff_not]
  simp only [UInt32.le_iff_toNat_le]
  change ¬ 48 ≤ c.toNat ∨ ¬ c.toNat ≤ 57
  omega

theorem of_matches_genericTokens {tok : Str} (h : (genericTokens R).Matches tok) :
    tok ≠ [] ∧ ((∀ c ∈ tok, R.isDecimal c = true) ∨ ∀ c ∈ tok, R.isDigit c = false) := by
  unfold genericTokens at h
  cases h with
  | altLeft h => exact ⟨(Regex.of_matches_plus h).1, Or.inl (Regex.of_matches_plus h).2⟩
  | altRight h =>
    exact ⟨(Regex.of_matches_plus h).1,
      Or.inr fun c hc => isDigit_letter ((Regex.of_matches_plus h).2 c hc)⟩

/-- **Every text has a generic key**, if no limit is set on integers. -/
theorem genericKey_ok (hR : R.maxStrDigits = 0) (raw : Str) : ∃ v, genericKey R raw = .ok v := by
  have htok : ∀ tok ∈ (genericTokens R).findall (lower R (strip R raw)),
      ∃ v, identKey R (strIsdigit R tok) tok tok = .ok v := by
    intro tok htok
    obtain ⟨hne, hchars⟩ := of_matches_genericTokens (Regex.matches_of_mem_findall htok)
    unfold identKey
    split_ifs with hdigit
    · have hdecimal : ∀ c ∈ tok, R.isDecimal c = true := by
        rcases hchars with h | h
        · exact h
        · -- a word has no digit
          intro c hc
          simp only [strIsdigit, Bool.and_eq_true, all_eq_true] at hdigit
          exact absurd (hdigit.2 c hc) (by simp [h c hc])
      obtain ⟨n, hn⟩ := int_ok hR hne hdecimal
      exact ⟨_, by rw [hn]; rfl⟩
    · exact ⟨_, rfl⟩
  obtain ⟨parts, hparts⟩ := exists_mapM htok
  exact ⟨_, bind_eq_ok.mpr ⟨parts, hparts, rfl⟩⟩

theorem degrade_ok (hR : R.maxStrDigits = 0) (text : Str) {key : Except Fault Key}
    (hkey : OnlyValueError key) : ∃ k, degrade R text key = .ok k := by
  obtain ⟨v, hv⟩ := genericKey_ok hR text
  unfold degrade
  split
  · exact absurd (hkey _ rfl) (by simp)
  · exact ⟨.val v, by rw [hv]; rfl⟩
  · exact ⟨_, rfl⟩

/-- **`versionKey` never raises**, if no limit is set on integers. -/
theorem versionKey_ok (hR : R.maxStrDigits = 0) (raw : Str) (arg : Ecosystem ⊕ Str) :
    ∃ k, versionKey R raw arg = .ok k := by
  unfold versionKey
  by_cases ht : strip R raw = []
  · obtain ⟨v, hv⟩ := genericKey_ok hR []
    exact ⟨.val v, by rw [if_pos ht, hv]; rfl⟩
  rw [if_neg ht]
  generalize Ecosystem.of R arg = eco
  cases eco
  case pypi => exact degrade_ok hR _ (onlyValueError_map (onlyValueError_pep440Key _))
  case maven => exact degrade_ok hR _ (onlyValueError_map (onlyValueError_mavenKey _))
  case debian | rpm => exact degrade_ok hR _ (onlyValueError_map (onlyValueError_parseEvr _ _))
  case generic =>
    obtain ⟨v, hv⟩ := genericKey_ok hR (strip R raw)
    exact ⟨.val v, by rw [hv]; rfl⟩
  all_goals exact degrade_ok hR _ (onlyValueError_map (onlyValueError_semverKey _))

theorem onlyValueError_degrade (text : Str) {key : Except Fault Key} (hkey : OnlyValueError key) :
    OnlyValueError (degrade R text key) := by
  unfold degrade
  split
  · exact absurd (hkey _ rfl) (by simp)
  · exact onlyValueError_map (onlyValueError_genericKey text)
  · exact onlyValueError_ok _

theorem onlyValueError_versionKey (raw : Str) (arg : Ecosystem ⊕ Str) :
    OnlyValueError (versionKey R raw arg) := by
  unfold versionKey
  by_cases ht : strip R raw = []
  · rw [if_pos ht]
    exact onlyValueError_map (onlyValueError_genericKey _)
  rw [if_neg ht]
  generalize Ecosystem.of R arg = eco
  cases eco
  case pypi => exact onlyValueError_degrade _ (onlyValueError_map (onlyValueError_pep440Key _))
  case maven => exact onlyValueError_degrade _ (onlyValueError_map (onlyValueError_mavenKey _))
  case debian | rpm =>
    exact onlyValueError_degrade _ (onlyValueError_map (onlyValueError_parseEvr _ _))
  case generic => exact onlyValueError_map (onlyValueError_genericKey _)
  all_goals exact onlyValueError_degrade _ (onlyValueError_map (onlyValueError_semverKey _))

/-! ### The keys of an ecosystem -/

/-- **The tuples `versionKey` builds** for an ecosystem. -/
def keySet : Ecosystem → Val → Prop
  | .pypi => fun v => Generic v ∨ Pep440 v
  | .debian | .rpm => Generic
  | _ => Ordinary

/-- The ecosystems whose keys are tuples only. -/
def TupleKeyed (eco : Ecosystem) : Prop := eco ≠ .debian ∧ eco ≠ .rpm

/-- **Python can order any two tuples of one ecosystem.** -/
theorem comparable_keySet (eco : Ecosystem) : Comparable (keySet eco) := by
  have hgeneric : Comparable Generic := fun a b ha hb =>
    comparable_ordinary a b (ordinary_of_generic ha) (ordinary_of_generic hb)
  cases eco
  case pypi =>
    exact comparable_of_below hgeneric comparable_pep440 fun a b ha hb =>
      generic_lt_parsed ha (parsed_of_pep440 hb)
  case debian | rpm => exact hgeneric
  all_goals exact comparable_ordinary

theorem keySet_of_generic (eco : Ecosystem) (h : Generic v) : keySet eco v := by
  cases eco
  case pypi => exact Or.inl h
  case debian | rpm => exact h
  all_goals exact ordinary_of_generic h

/-- A key that `versionKey` may build for an ecosystem. -/
def KeyOf (eco : Ecosystem) (k : Key) : Prop :=
  (∃ v, k = .val v ∧ keySet eco v) ∨
    ∃ x, k = .evr x ∧ ¬ TupleKeyed eco ∧ x.rpm = decide (eco = .rpm)

theorem keyOf_genericKey {k : Key} (eco : Ecosystem)
    (h : Key.val <$> genericKey R raw = .ok k) : KeyOf eco k := by
  obtain ⟨v, hv, rfl⟩ := map_eq_ok.mp h
  exact Or.inl ⟨v, rfl, keySet_of_generic eco (genericKey_mem hv)⟩

theorem keyOf_degrade {text : Str} {key : Except Fault Key} {k : Key} {eco : Ecosystem}
    (hkey : ∀ k, key = .ok k → KeyOf eco k) (h : degrade R text key = .ok k) : KeyOf eco k := by
  unfold degrade at h
  split at h
  · cases h
  · exact keyOf_genericKey eco h
  · cases h
    exact hkey _ rfl

theorem keyOf_val {key : Except Fault Val} {eco : Ecosystem}
    (hkey : ∀ v, key = .ok v → keySet eco v) (k : Key) (h : Key.val <$> key = .ok k) :
    KeyOf eco k := by
  obtain ⟨v, hv, rfl⟩ := map_eq_ok.mp h
  exact Or.inl ⟨v, rfl, hkey v hv⟩

theorem semverKey_ordinary (h : semverKey R raw = .ok v) : Ordinary v :=
  (semverKey_mem h).elim ordinary_of_generic ordinary_of_semver

/-- **What `versionKey` builds is a key of the ecosystem.** -/
theorem versionKey_mem {arg : Ecosystem ⊕ Str} {k : Key}
    (h : versionKey R raw arg = .ok k) : KeyOf (Ecosystem.of R arg) k := by
  unfold versionKey at h
  by_cases ht : strip R raw = []
  · rw [if_pos ht] at h
    exact keyOf_genericKey _ h
  rw [if_neg ht] at h
  generalize Ecosystem.of R arg = eco at h ⊢
  cases eco
  case pypi => exact keyOf_degrade (keyOf_val fun v => pep440Key_mem) h
  case maven => exact keyOf_degrade (keyOf_val fun v => mavenKey_mem) h
  case generic => exact keyOf_genericKey _ h
  case debian | rpm =>
    refine keyOf_degrade (fun k hk => ?_) h
    obtain ⟨x, hx, rfl⟩ := map_eq_ok.mp hk
    exact Or.inr ⟨x, rfl, by simp [TupleKeyed], parseEvr_rpm hx⟩
  all_goals exact keyOf_degrade (keyOf_val fun v => semverKey_ordinary) h

end Guardian.Versioning

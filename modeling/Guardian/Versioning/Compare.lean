import Guardian.Versioning.KeyShape

/-!
# Comparing versions

`compare` compares the keys of two versions, and where Python cannot order the keys, their generic
keys.  On ASCII versions that is a total preorder (`compare_total_preorder`).
-/

namespace Guardian.Versioning

open Python
open Std (TransCmp OrientedCmp)

variable (R : Runtime)

namespace Key

/-- `k == l`.  A tuple is never equal to an `_EvrVersion`. -/
def eq : Key → Key → Except Fault Bool
  | .val v, .val w => .ok (v.eq w)
  | .evr x, .evr y => (fun o => decide (o = .eq)) <$> x.cmp R y
  | _, _ => .ok false

/-- `k < l`.  Between a tuple and an `_EvrVersion` there is no order. -/
def lt : Key → Key → Except Fault Bool
  | .val v, .val w => v.lt w
  | .evr x, .evr y => (fun o => decide (o = .lt)) <$> x.cmp R y
  | _, _ => .error .typeError

end Key

/-- The three outcomes of a comparison of two keys. -/
def compareKeys (k l : Key) : Except Fault ℤ := do
  if ← k.eq R l then return 0
  if ← k.lt R l then return -1
  return 1

/-- `try: x except TypeError: h`. -/
def onTypeError {A : Type} (x h : Except Fault A) : Except Fault A :=
  match x with
  | .error .typeError => h
  | x => x

/-- The comparison of the generic keys of two versions. -/
def genericCompare (a b : Str) : Except Fault ℤ := do
  let ga ← genericKey R a
  let gb ← genericKey R b
  compareKeys R (.val ga) (.val gb)

/-- `compare`. -/
def compare (a b : Str) (ecosystem : Ecosystem ⊕ Str) : Except Fault ℤ := do
  let ka ← versionKey R a ecosystem
  let kb ← versionKey R b ecosystem
  onTypeError (compareKeys R ka kb) (genericCompare R a b)

/-! ### The order of keys -/

/-- `-1`, `0`, `1`. -/
def ofOrdering : Ordering → ℤ
  | .lt => -1
  | .eq => 0
  | .gt => 1

theorem ofOrdering_swap (o : Ordering) : ofOrdering o.swap = -ofOrdering o := by
  cases o <;> rfl

theorem ofOrdering_nonpos {o : Ordering} : ofOrdering o ≤ 0 ↔ o.isLE = true := by
  cases o <;> decide

variable {eco : Ecosystem}

theorem rpm_eq_of_keyOf {x y : Evr} (hx : KeyOf eco (.evr x))
    (hy : KeyOf eco (.evr y)) : x.rpm = y.rpm := by
  obtain ⟨_, h, -⟩ | ⟨x', hx, -, hxr⟩ := hx
  · cases h
  obtain ⟨_, h, -⟩ | ⟨y', hy, -, hyr⟩ := hy
  · cases h
  cases hx
  cases hy
  rw [hxr, hyr]

namespace Key

/-- **The order of keys.**  Nothing depends on where it puts a tuple and an `_EvrVersion`, which
Python does not order. -/
def ord : Key → Key → Ordering
  | .val v, .val w => if v.eq w then .eq else if v.lt w = .ok true then .lt else .gt
  | .evr x, .evr y => Evr.ord R x.rpm x y
  | .val _, .evr _ => .lt
  | .evr _, .val _ => .gt

variable {R}

theorem ord_val_isLE {v w : Val} :
    (ord R (.val v) (.val w)).isLE = true ↔ v = w ∨ v.lt w = .ok true := by
  rw [ord]
  split_ifs with h1 h2
  · simp [Val.eq_iff.mp h1]
  · simp [h2]
  · rw [Val.eq_iff] at h1
    simp [h1, h2]

/-- **The order of keys is transitive** among the keys of one ecosystem. -/
theorem ord_isLE_trans {eco : Ecosystem} {k l m : Key} (hk : KeyOf eco k) (hl : KeyOf eco l)
    (hkl : (ord R k l).isLE = true) (hlm : (ord R l m).isLE = true) :
    (ord R k m).isLE = true := by
  cases k with
  | val v =>
    cases m with
    | evr z => rfl
    | val u =>
      cases l with
      | evr y => cases hlm
      | val w =>
        rw [ord_val_isLE] at *
        rcases hkl with rfl | hkl
        · exact hlm
        rcases hlm with rfl | hlm
        · exact Or.inr hkl
        · exact Or.inr (Val.lt_trans hkl hlm)
  | evr x =>
    cases l with
    | val w => cases hkl
    | evr y =>
      cases m with
      | val u => cases hlm
      | evr z =>
        have hyz : (Evr.ord R x.rpm y z).isLE = true := by
          rw [rpm_eq_of_keyOf hk hl]
          exact hlm
        exact (Evr.ord_transCmp R x.rpm).isLE_trans hkl hyz

end Key

variable {R}

theorem compareKeys_val (v w : Val) :
    compareKeys R (.val v) (.val w) =
      if v.eq w then .ok 0 else (fun b => if b then -1 else 1) <$> v.lt w := by
  unfold compareKeys
  simp only [Key.eq, Key.lt]
  rcases hvw : v.eq w with _ | _
  · rcases v.lt w with f | b
    · rfl
    · cases b <;> rfl
  · rfl

theorem compareKeys_evr (x y : Evr) :
    compareKeys R (.evr x) (.evr y) = ofOrdering <$> x.cmp R y := by
  unfold compareKeys
  simp only [Key.eq, Key.lt]
  rcases x.cmp R y with f | o
  · rfl
  · cases o <;> rfl

/-- **Where the comparison of two keys returns, it is their order.** -/
theorem compareKeys_eq_of_ok {k l : Key} {z : ℤ} (h : compareKeys R k l = .ok z) :
    z = ofOrdering (k.ord R l) := by
  cases k with
  | val v =>
    cases l with
    | val w =>
      rw [compareKeys_val] at h
      rw [Key.ord]
      split_ifs at h ⊢ with hvw hlt
      · cases h; rfl
      · rw [hlt] at h; cases h; rfl
      · obtain ⟨b, hb, rfl⟩ := map_eq_ok.mp h
        cases b
        · rfl
        · exact absurd hb hlt
    | evr y => cases h
  | evr x =>
    cases l with
    | val w => cases h
    | evr y =>
      rw [compareKeys_evr] at h
      obtain ⟨o, ho, rfl⟩ := map_eq_ok.mp h
      rw [Key.ord, Evr.cmp_eq_of_ok ho]

/-- **The two comparisons of a pair of keys** give opposite answers. -/
theorem compareKeys_flip {k l : Key} {z : ℤ} (hk : KeyOf eco k)
    (hl : KeyOf eco l) (h : compareKeys R k l = .ok z) : compareKeys R l k = .ok (-z) := by
  cases k with
  | val v =>
    cases l with
    | val w =>
      rw [compareKeys_val] at h ⊢
      by_cases hvw : v = w
      · subst hvw
        rw [if_pos (Val.eq_iff.mpr rfl)] at h ⊢
        cases h
        rfl
      · rw [if_neg (by simpa [Val.eq_iff] using hvw)] at h
        obtain ⟨b, hb, rfl⟩ := map_eq_ok.mp h
        rw [if_neg (by simpa [Val.eq_iff] using Ne.symm hvw), Val.lt_flip hvw hb]
        cases b <;> rfl
    | evr y => cases h
  | evr x =>
    cases l with
    | val w => cases h
    | evr y =>
      rw [compareKeys_evr] at h ⊢
      obtain ⟨o, ho, rfl⟩ := map_eq_ok.mp h
      rw [Evr.cmp_flip (rpm_eq_of_keyOf hk hl), ho, ← ofOrdering_swap]
      rfl

theorem compareKeys_self {v : Key} {z : ℤ} (h : compareKeys R v v = .ok z) : z = 0 := by
  cases v with
  | val v =>
    rw [compareKeys_val, if_pos (Val.eq_iff.mpr rfl)] at h
    cases h
    rfl
  | evr x =>
    rw [compareKeys_eq_of_ok h, Key.ord]
    have hself : Evr.ord R x.rpm x x = .eq := Std.ReflCmp.compare_self
    rw [hself]
    rfl

theorem compareKeys_val_ok {v w : Val} (hv : keySet eco v) (hw : keySet eco w) :
    ∃ z, compareKeys R (.val v) (.val w) = .ok z := by
  obtain ⟨b, hb⟩ := comparable_keySet eco v w hv hw
  rw [compareKeys_val, hb]
  split_ifs <;> exact ⟨_, rfl⟩

theorem KeyOf.keySet {v : Val} (h : KeyOf eco (.val v)) :
    Versioning.keySet eco v := by
  obtain ⟨_, hv, hvs⟩ | ⟨_, hv, -⟩ := h
  · cases hv
    exact hvs
  · cases hv

/-- **`<` between two keys of one ecosystem**: both ways it answers, at most once with yes; or it
raises a `TypeError` both ways; or it ends neither way. -/
theorem Key.lt_cases {k l : Key} (hk : KeyOf eco k) (hl : KeyOf eco l) :
    (∃ x y, k.lt R l = .ok x ∧ l.lt R k = .ok y ∧ (x && y) = false) ∨
      (k.lt R l = .error .typeError ∧ l.lt R k = .error .typeError) ∨
      (k.lt R l = .error .diverges ∧ l.lt R k = .error .diverges) := by
  cases k with
  | val v =>
    cases l with
    | val w =>
      obtain ⟨x, hx⟩ := comparable_keySet eco v w hk.keySet hl.keySet
      obtain ⟨y, hy⟩ := comparable_keySet eco w v hl.keySet hk.keySet
      refine Or.inl ⟨x, y, hx, hy, ?_⟩
      by_contra hxy
      rw [Bool.not_eq_false, Bool.and_eq_true] at hxy
      rw [hxy.1] at hx
      rw [hxy.2, Val.lt_asymm hx] at hy
      cases hy
    | evr y => exact Or.inr (Or.inl ⟨rfl, rfl⟩)
  | evr x =>
    cases l with
    | val w => exact Or.inr (Or.inl ⟨rfl, rfl⟩)
    | evr y =>
      simp only [Key.lt]
      rw [Evr.cmp_flip (rpm_eq_of_keyOf hk hl)]
      rcases hxy : x.cmp R y with f | o
      · obtain rfl := Evr.cmp_error hxy
        exact Or.inr (Or.inr ⟨rfl, rfl⟩)
      · exact Or.inl ⟨_, _, rfl, rfl, by cases o <;> rfl⟩

/-- Where `<` answers, the answers both ways are those of the order of keys. -/
theorem Key.lt_ok {k l : Key} (hk : KeyOf eco k) (hl : KeyOf eco l) {x : Bool}
    (h : k.lt R l = .ok x) :
    k.lt R l = .ok (decide (k.ord R l = .lt)) ∧ l.lt R k = .ok (decide (k.ord R l = .gt)) ∧
      l.ord R k = (k.ord R l).swap := by
  cases k with
  | val v =>
    cases l with
    | evr y => cases h
    | val w =>
      simp only [Key.lt] at h ⊢
      by_cases hvw : v = w
      · subst hvw
        have hord : Key.ord R (.val v) (.val v) = .eq := if_pos (Val.eq_iff.mpr rfl)
        rw [hord, Val.lt_self]
        exact ⟨rfl, rfl, rfl⟩
      · have hflip := Val.lt_flip hvw h
        have hvw' : v.eq w = false := Val.eq_eq_false_iff.mpr hvw
        have hwv' : w.eq v = false := Val.eq_eq_false_iff.mpr (Ne.symm hvw)
        simp only [Key.ord, hvw', hwv', h, hflip]
        cases x <;> exact ⟨rfl, rfl, rfl⟩
  | evr x' =>
    cases l with
    | val w => cases h
    | evr y =>
      obtain ⟨o, ho, -⟩ := map_eq_ok.mp h
      have hrpm := rpm_eq_of_keyOf hk hl
      have hflip : y.cmp R x' = .ok o.swap := by
        rw [Evr.cmp_flip hrpm, ho]
        rfl
      simp only [Key.lt, Key.ord, Evr.cmp_eq_of_ok ho, Evr.cmp_eq_of_ok hflip, ho, hflip]
      cases o <;> exact ⟨rfl, rfl, trivial⟩

/-- The key is an `_EvrVersion`. -/
def Key.isEvr : Key → Bool
  | .val _ => false
  | .evr _ => true

/-- **A `TypeError` comes from a tuple and an `_EvrVersion`**, and from nothing else. -/
theorem Key.lt_typeError_iff {k l : Key} (hk : KeyOf eco k) (hl : KeyOf eco l) :
    k.lt R l = .error .typeError ↔ k.isEvr ≠ l.isEvr := by
  cases k with
  | val v =>
    cases l with
    | val w =>
      obtain ⟨x, hx⟩ := comparable_keySet eco v w hk.keySet hl.keySet
      simp [Key.lt, Key.isEvr, hx]
    | evr y => simp [Key.lt, Key.isEvr]
  | evr x =>
    cases l with
    | val w => simp [Key.lt, Key.isEvr]
    | evr y =>
      simp only [Key.lt, Key.isEvr, ne_eq, not_true_eq_false, iff_false]
      rcases hxy : x.cmp R y with f | o
      · obtain rfl := Evr.cmp_error hxy
        exact fun h => by cases h
      · exact fun h => by cases h

/-! ### ASCII versions -/

variable (R) in
/-- An ASCII version that is not blank. -/
def AsciiVersion (s : Str) : Prop := (∀ c ∈ s, IsAscii c) ∧ strip R s ≠ []

/-- A key of an ASCII version: a tuple or an `_EvrVersion`, as the ecosystem has it. -/
def AsciiKey (eco : Ecosystem) (k : Key) : Prop :=
  (∃ v, k = .val v ∧ keySet eco v) ∧ TupleKeyed eco ∨
    (∃ x, k = .evr x ∧ x.Ascii) ∧ ¬ TupleKeyed eco

theorem versionKey_ascii (hR : R.maxStrDigits = 0) (arg : Ecosystem ⊕ Str) {s : Str}
    (hs : AsciiVersion R s) :
    ∃ k, versionKey R s arg = .ok k ∧ KeyOf (Ecosystem.of R arg) k ∧
      AsciiKey (Ecosystem.of R arg) k := by
  obtain ⟨k, hk⟩ := versionKey_ok hR s arg
  have hmem := versionKey_mem hk
  refine ⟨k, hk, hmem, ?_⟩
  by_cases htuple : TupleKeyed (Ecosystem.of R arg)
  · obtain ⟨v, rfl, hv⟩ | ⟨x, -, h, -⟩ := hmem
    · exact Or.inl ⟨⟨v, rfl, hv⟩, htuple⟩
    · exact absurd htuple h
  · -- Debian or RPM: the version parses
    refine Or.inr ⟨?_, htuple⟩
    have htext : ∀ c ∈ strip R s, IsAscii c := fun c hc => hs.1 c (strip_subset s hc)
    unfold versionKey at hk
    rw [if_neg hs.2] at hk
    unfold TupleKeyed at htuple
    rcases eco_cases : Ecosystem.of R arg with _ | _ | _ | _ | _ | _ | _ | _ | _ | _ <;>
      rw [eco_cases] at hk htuple <;> try exact absurd (by decide) htuple
    · obtain ⟨x, hx, hxa⟩ := parseEvr_ascii hR false htext
      rw [hx] at hk
      cases hk
      exact ⟨x, rfl, hxa⟩
    · obtain ⟨x, hx, hxa⟩ := parseEvr_ascii hR true htext
      rw [hx] at hk
      cases hk
      exact ⟨x, rfl, hxa⟩

theorem compareKeys_ascii {k l : Key} (hk : AsciiKey eco k)
    (hl : AsciiKey eco l) : ∃ z, compareKeys R k l = .ok z := by
  obtain ⟨⟨v, rfl, hv⟩, ht⟩ | ⟨⟨x, rfl, hx⟩, ht⟩ := hk
  · obtain ⟨⟨w, rfl, hw⟩, -⟩ | ⟨-, ht'⟩ := hl
    · exact compareKeys_val_ok hv hw
    · exact absurd ht ht'
  · obtain ⟨-, ht'⟩ | ⟨⟨y, rfl, hy⟩, -⟩ := hl
    · exact absurd ht' ht
    · obtain ⟨o, ho⟩ := Evr.cmp_ascii (R := R) hx hy
      exact ⟨ofOrdering o, by rw [compareKeys_evr, ho]; rfl⟩

theorem compare_of_keys {a b : Str} {arg : Ecosystem ⊕ Str} {k l : Key} {z : ℤ}
    (ha : versionKey R a arg = .ok k) (hb : versionKey R b arg = .ok l)
    (h : compareKeys R k l = .ok z) : compare R a b arg = .ok z := by
  unfold compare
  rw [ha, hb]
  show onTypeError (compareKeys R k l) _ = _
  rw [h]
  rfl

/-- **`compare` is a total preorder on ASCII versions**: it always returns, two equal versions are
equal, swapping the arguments flips the sign, and at or below is transitive.  Integers are taken as
unbounded. -/
theorem compare_total_preorder (hR : R.maxStrDigits = 0) (arg : Ecosystem ⊕ Str) {a b c : Str}
    (ha : AsciiVersion R a) (hb : AsciiVersion R b) (hc : AsciiVersion R c) :
    compare R a a arg = .ok 0 ∧
      (∃ z, compare R a b arg = .ok z ∧ compare R b a arg = .ok (-z)) ∧
      ∀ x y, compare R a b arg = .ok x → compare R b c arg = .ok y → x ≤ 0 → y ≤ 0 →
        ∃ z ≤ 0, compare R a c arg = .ok z := by
  obtain ⟨ka, hka, hkeya, hasca⟩ := versionKey_ascii hR arg ha
  obtain ⟨kb, hkb, hkeyb, hascb⟩ := versionKey_ascii hR arg hb
  obtain ⟨kc, hkc, hkeyc, hascc⟩ := versionKey_ascii hR arg hc
  obtain ⟨z0, h0⟩ := compareKeys_ascii (R := R) hasca hasca
  obtain ⟨zab, hab⟩ := compareKeys_ascii (R := R) hasca hascb
  obtain ⟨zbc, hbc⟩ := compareKeys_ascii (R := R) hascb hascc
  obtain ⟨zac, hac⟩ := compareKeys_ascii (R := R) hasca hascc
  refine ⟨?_, ⟨zab, compare_of_keys hka hkb hab, ?_⟩, ?_⟩
  · rw [compare_of_keys hka hka h0, compareKeys_self h0]
  · exact compare_of_keys hkb hka (compareKeys_flip hkeya hkeyb hab)
  · intro x y hx hy hx0 hy0
    rw [compare_of_keys hka hkb hab] at hx
    rw [compare_of_keys hkb hkc hbc] at hy
    cases hx
    cases hy
    refine ⟨zac, ?_, compare_of_keys hka hkc hac⟩
    rw [compareKeys_eq_of_ok hab, ofOrdering_nonpos] at hx0
    rw [compareKeys_eq_of_ok hbc, ofOrdering_nonpos] at hy0
    rw [compareKeys_eq_of_ok hac, ofOrdering_nonpos]
    exact Key.ord_isLE_trans hkeya hkeyb hx0 hy0

/-- Three RPM versions in ascending order. -/
theorem compare_total_preorder_rpm :
    compare .ascii "1.0~rc1" "1.0~rc1" (.inl .rpm) = .ok 0 ∧
      (∃ z, compare .ascii "1.0~rc1" "1.0" (.inl .rpm) = .ok z ∧
        compare .ascii "1.0" "1.0~rc1" (.inl .rpm) = .ok (-z)) ∧
      ∀ x y, compare .ascii "1.0~rc1" "1.0" (.inl .rpm) = .ok x →
        compare .ascii "1.0" "1:0.1" (.inl .rpm) = .ok y → x ≤ 0 → y ≤ 0 →
        ∃ z ≤ 0, compare .ascii "1.0~rc1" "1:0.1" (.inl .rpm) = .ok z :=
  compare_total_preorder rfl (.inl .rpm) ⟨by decide, by decide⟩ ⟨by decide, by decide⟩
    ⟨by decide, by decide⟩

example : compare .ascii "1.0~rc1" "1.0" (.inl .rpm) = .ok (-1) := by rfl

end Guardian.Versioning

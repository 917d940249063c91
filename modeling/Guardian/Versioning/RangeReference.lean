import Guardian.Versioning.Interval
import Guardian.Versioning.RangeOrder
import Mathlib.Data.List.Chain

/-!
# Event ranges against the reference

The events of ascending intervals, evaluated by `inEventRange`, against the reference meaning: some
interval contains the version.  "At or below" and "below" are Python's order of the version keys.

The proof reads each bound as the sign of its comparison with the version, so that
`verdict_agrees_iff` applies, with the version at zero.  `inEventRange_reference_iff` says when the
two agree.
-/

namespace Guardian.Versioning

open Python Guardian.Order List

variable (R : Runtime)

/-! ### The reference -/

def HasKey (eco : Ecosystem) (a : Str) : Prop := ∃ k, versionKey R a (.inl eco) = .ok k

/-- `a <= b`: both have keys, and the key of `b` is not below that of `a`. -/
def KeyLe (eco : Ecosystem) (a b : Str) : Prop :=
  ∃ k l, versionKey R a (.inl eco) = .ok k ∧ versionKey R b (.inl eco) = .ok l ∧
    l.lt R k = .ok false

/-- `a < b`: both have keys, and the key of `a` is below that of `b`. -/
def KeyLt (eco : Ecosystem) (a b : Str) : Prop :=
  ∃ k l, versionKey R a (.inl eco) = .ok k ∧ versionKey R b (.inl eco) = .ok l ∧
    k.lt R l = .ok true

/-- The interval begins at or below the version. -/
def Begun (eco : Ecosystem) (version : Str) (I : Interval Str) : Prop :=
  IsStart .introduced I.introduced ∨ KeyLe R eco I.introduced version

/-- **The interval contains the version.** -/
def Affects (eco : Ecosystem) (version : Str) (I : Interval Str) : Prop :=
  Begun R eco version I ∧
    match I.closing with
    | none => True
    | some (.lastAffected, b) => KeyLe R eco version b
    | some (_, b) => KeyLt R eco version b

def Interval.events (I : Interval Str) : List (Kind × Str) :=
  (.introduced, I.introduced) :: (I.closing.map fun c => (c.1.kind, c.2)).toList

/-- The list of events of a list of intervals. -/
def eventsOf (l : List (Interval Str)) : List (Option Event) :=
  (l.flatMap Interval.events).map Event.single

/-- A bound is at or below the next one. -/
def BoundLe (eco : Ecosystem) (p q : Kind × Str) : Prop :=
  IsStart p.1 p.2 ∨ ¬ IsStart q.1 q.2 ∧ KeyLe R eco p.2 q.2

/-- **The events are in ascending version order**: every bound has a key, and each is at or below
the next. -/
def AscendingEvents (eco : Ecosystem) (l : List (Interval Str)) : Prop :=
  (∀ p ∈ l.flatMap Interval.events, IsStart p.1 p.2 ∨ HasKey R eco p.2) ∧
    (l.flatMap Interval.events).IsChain (BoundLe R eco)

/-- **The condition for the code to agree with the reference**: the list is empty; or the version
has a key whose comparisons with the bounds end, and

* where Python cannot order the version and a bound, the list does not begin at the beginning of
  time;
* of the intervals before the last one that begins at or below the version, none ends with a
  `last_affected` below the version if that last one contains it, and none ends with a
  `last_affected` at or above it if not. -/
def AgreesWithReference (eco : Ecosystem) (version : Str) (l : List (Interval Str)) : Prop :=
  l = [] ∨ ∃ vkey, versionKey R version (.inl eco) = .ok vkey ∧
    (∀ p ∈ l.flatMap Interval.events, ¬ IsStart p.1 p.2 →
      ∀ k, versionKey R p.2 (.inl eco) = .ok k → vkey.lt R k ≠ .error .diverges) ∧
    (∀ p ∈ l.flatMap Interval.events, ¬ IsStart p.1 p.2 →
      ∀ k, versionKey R p.2 (.inl eco) = .ok k → vkey.lt R k = .error .typeError →
        ∀ q ∈ l.flatMap Interval.events, ¬ IsStart q.1 q.2) ∧
    ∀ pre I post, l = pre ++ I :: post → Begun R eco version I →
      (∀ J ∈ post, ¬ Begun R eco version J) →
      ∀ J ∈ pre, ∀ b, J.closing = some (.lastAffected, b) →
        (Affects R eco version I → ¬ KeyLt R eco b version) ∧
          (¬ Affects R eco version I → ¬ KeyLe R eco version b)

/-! ### The points of the events -/

/-- Where a bound stands, if it has a key. -/
def keyAt (eco : Ecosystem) (p : Kind × Str) : PointKey :=
  if IsStart p.1 p.2 then .start
  else
    match versionKey R p.2 (.inl eco) with
    | .ok k => .key k
    | .error _ => .start

def pointAt (eco : Ecosystem) (p : Kind × Str) : PointKey × Kind := (keyAt R eco p, p.1)

variable {R} {eco : Ecosystem}

theorem keyLe_iff {a b : Str} {k l : Key} (hk : versionKey R a (.inl eco) = .ok k)
    (hl : versionKey R b (.inl eco) = .ok l) : KeyLe R eco a b ↔ l.lt R k = .ok false := by
  unfold KeyLe
  rw [hk, hl]
  constructor
  · rintro ⟨k', l', hk', hl', hlt⟩
    cases hk'
    cases hl'
    exact hlt
  · exact fun h => ⟨k, l, rfl, rfl, h⟩

theorem keyLt_iff {a b : Str} {k l : Key} (hk : versionKey R a (.inl eco) = .ok k)
    (hl : versionKey R b (.inl eco) = .ok l) : KeyLt R eco a b ↔ k.lt R l = .ok true := by
  unfold KeyLt
  rw [hk, hl]
  constructor
  · rintro ⟨k', l', hk', hl', hlt⟩
    cases hk'
    cases hl'
    exact hlt
  · exact fun h => ⟨k, l, rfl, rfl, h⟩

instance (a : Str) : Decidable (HasKey R eco a) :=
  match h : versionKey R a (.inl eco) with
  | .ok k => isTrue ⟨k, h⟩
  | .error _ => isFalse fun ⟨k, hk⟩ => by rw [h] at hk; cases hk

instance (a b : Str) : Decidable (KeyLe R eco a b) :=
  match hk : versionKey R a (.inl eco), hl : versionKey R b (.inl eco) with
  | .ok _, .ok _ => decidable_of_iff _ (keyLe_iff hk hl).symm
  | .error _, _ => isFalse fun ⟨_, _, h, _⟩ => by rw [hk] at h; cases h
  | .ok _, .error _ => isFalse fun ⟨_, _, _, h, _⟩ => by rw [hl] at h; cases h

instance (a b : Str) : Decidable (KeyLt R eco a b) :=
  match hk : versionKey R a (.inl eco), hl : versionKey R b (.inl eco) with
  | .ok _, .ok _ => decidable_of_iff _ (keyLt_iff hk hl).symm
  | .error _, _ => isFalse fun ⟨_, _, h, _⟩ => by rw [hk] at h; cases h
  | .ok _, .error _ => isFalse fun ⟨_, _, _, h, _⟩ => by rw [hl] at h; cases h

instance (version : Str) (I : Interval Str) : Decidable (Affects R eco version I) := by
  unfold Affects Begun
  rcases I.closing with _ | ⟨_ | _ | _, b⟩ <;> infer_instance

instance (l : List (Interval Str)) : Decidable (AscendingEvents R eco l) := by
  unfold AscendingEvents BoundLe
  infer_instance

theorem isStart_closing (c : Closing) (b : Str) : ¬ IsStart c.kind b := by
  cases c <;> exact fun h => nomatch h.1

variable {l : List (Interval Str)} {p : Kind × Str}

theorem introduced_mem_events {I : Interval Str} (hI : I ∈ l) :
    (Kind.introduced, I.introduced) ∈ l.flatMap Interval.events :=
  mem_flatMap.mpr ⟨I, hI, by simp [Interval.events]⟩

theorem closing_mem_events {I : Interval Str} (hI : I ∈ l) {c : Closing}
    {b : Str} (hc : I.closing = some (c, b)) : (c.kind, b) ∈ l.flatMap Interval.events :=
  mem_flatMap.mpr ⟨I, hI, by simp [Interval.events, hc]⟩

theorem keyAt_start (h : IsStart p.1 p.2) : keyAt R eco p = .start := if_pos h

theorem keyAt_key {k : Key} (h : ¬ IsStart p.1 p.2)
    (hk : versionKey R p.2 (.inl eco) = .ok k) : keyAt R eco p = .key k := by
  rw [keyAt, if_neg h, hk]

theorem eventPoint_single (h : IsStart p.1 p.2 ∨ HasKey R eco p.2) :
    eventPoint R eco (Event.single p) = .ok (some (pointAt R eco p)) := by
  have hfirst : (Event.single p).bind Event.first = some p := by
    obtain ⟨_ | _ | _ | _, raw⟩ := p <;> rfl
  unfold eventPoint pointAt
  rw [hfirst]
  obtain ⟨kind, raw⟩ := p
  by_cases hs : IsStart kind raw
  · rw [keyAt_start hs]
    exact if_pos hs
  · obtain ⟨k, hk⟩ := h.resolve_left hs
    rw [keyAt_key hs hk]
    show (if IsStart kind raw then _ else _) = _
    rw [if_neg hs, hk]
    rfl

theorem eventPoints_single {ps : List (Kind × Str)}
    (h : ∀ p ∈ ps, IsStart p.1 p.2 ∨ HasKey R eco p.2) :
    eventPoints R (ps.map Event.single) eco = .ok (ps.map (pointAt R eco)) := by
  have hmap : (ps.map Event.single).mapM (eventPoint R eco) =
      .ok (ps.map fun p => some (pointAt R eco p)) := by
    induction ps with
    | nil => rfl
    | cons p ps ih =>
      rw [map_cons, mapM_cons, eventPoint_single (h p (by simp)),
        ih fun q hq => h q (by simp [hq])]
      rfl
  refine bind_eq_ok.mpr ⟨_, hmap, ?_⟩
  show Except.ok _ = _
  congr 1
  clear h hmap
  induction ps with
  | nil => rfl
  | cons p ps ih => rw [map_cons, reduceOption_cons_of_some, ih, map_cons]

/-! ### The order of the bounds -/

/-- One bound is at or below another: it is the beginning of time, or both are keys of one type in
this order. -/
def PointLe (R : Runtime) (eco : Ecosystem) (p q : PointKey) : Prop :=
  p = .start ∨ ∃ k l, p = .key k ∧ q = .key l ∧ KeyOf eco k ∧ KeyOf eco l ∧
    k.isEvr = l.isEvr ∧ (k.ord R l).isLE = true

theorem pointLe_trans {p q r : PointKey} (hpq : PointLe R eco p q) (hqr : PointLe R eco q r) :
    PointLe R eco p r := by
  rcases hpq with rfl | ⟨k, l, rfl, rfl, hk, hl, hkind, hkl⟩
  · exact Or.inl rfl
  · rcases hqr with h | ⟨l', m, h, rfl, -, hm, hkind', hlm⟩
    · cases h
    · cases h
      exact Or.inr ⟨k, m, rfl, rfl, hk, hm, hkind.trans hkind', Key.ord_isLE_trans hk hl hkl hlm⟩

theorem pointLe_of_boundLe {q : Kind × Str} (h : BoundLe R eco p q) :
    PointLe R eco (keyAt R eco p) (keyAt R eco q) := by
  by_cases hp : IsStart p.1 p.2
  · exact Or.inl (keyAt_start hp)
  obtain ⟨hq, k, l, hk, hl, hlt⟩ := h.resolve_left hp
  have hkeyk : KeyOf eco k := versionKey_mem hk
  have hkeyl : KeyOf eco l := versionKey_mem hl
  obtain ⟨h1, -, hswap⟩ := Key.lt_ok hkeyl hkeyk hlt
  have hkind : k.isEvr = l.isEvr := by
    by_contra hne
    rw [(Key.lt_typeError_iff hkeyl hkeyk).mpr (Ne.symm hne)] at hlt
    cases hlt
  refine Or.inr ⟨k, l, keyAt_key hp hk, keyAt_key hq hl, hkeyk, hkeyl, hkind, ?_⟩
  rw [h1] at hlt
  rw [hswap]
  cases hord : l.ord R k
  · rw [hord] at hlt
    cases hlt
  · rfl
  · rfl

theorem pairwise_pointLe (h : AscendingEvents R eco l) :
    ((l.flatMap Interval.events).map (keyAt R eco)).Pairwise (PointLe R eco) := by
  have : Trans (PointLe R eco) (PointLe R eco) (PointLe R eco) := ⟨pointLe_trans⟩
  rw [← isChain_iff_pairwise, isChain_map]
  exact h.2.imp fun p q => pointLe_of_boundLe

/-- Ascending events are in the order of the scan already. -/
theorem sortable_pointAt {ps : List (Kind × Str)}
    (h : (ps.map (keyAt R eco)).Pairwise (PointLe R eco)) :
    sortable (ps.map (pointAt R eco)) = ps.map (pointAt R eco) := by
  rw [sortable_eq]
  induction ps with
  | nil => rfl
  | cons p ps ih =>
    rw [map_cons, pairwise_cons] at h
    rcases hp : isStart (pointAt R eco p) with _ | _
    · -- no beginning of time after a version
      have hrest : ∀ q ∈ p :: ps, isStart (pointAt R eco q) = false := by
        intro q hq
        rcases mem_cons.mp hq with rfl | hq
        · exact hp
        rcases h.1 _ (mem_map_of_mem hq) with hstart | ⟨k, l, -, hl, -⟩
        · unfold pointAt at hp
          rw [hstart] at hp
          cases hp
        · unfold pointAt
          rw [hl]
          rfl
      rw [filter_eq_nil_iff.mpr, filter_eq_self.mpr, nil_append]
      · intro r hr
        obtain ⟨q, hq, rfl⟩ := mem_map.mp hr
        rw [hrest q hq]
        rfl
      · intro r hr
        obtain ⟨q, hq, rfl⟩ := mem_map.mp hr
        rw [hrest q hq]
        exact Bool.false_ne_true
    · rw [map_cons, filter_cons_of_pos hp, filter_cons_of_neg (by simp [hp]),
        cons_append, ih h.2]

/-! ### Signs -/

/-- The sign of the comparison of a bound with the version. -/
def sign (R : Runtime) (vkey : Key) : PointKey → ℤ
  | .start => -1
  | .key k => ofOrdering (k.ord R vkey)

/-- The interval of the signs of its bounds. -/
def Interval.signs (R : Runtime) (eco : Ecosystem) (vkey : Key) (I : Interval Str) : Interval ℤ where
  introduced := sign R vkey (keyAt R eco (.introduced, I.introduced))
  closing := I.closing.map fun c => (c.1, sign R vkey (keyAt R eco (c.1.kind, c.2)))

/-- Python orders the version and every bound. -/
def Ordered (R : Runtime) (eco : Ecosystem) (vkey : Key) (ps : List (Kind × Str)) : Prop :=
  ∀ p ∈ ps, ¬ IsStart p.1 p.2 → ∃ k x, versionKey R p.2 (.inl eco) = .ok k ∧ vkey.lt R k = .ok x

section

variable {vkey : Key} (hv : KeyOf eco vkey)
include hv

theorem key_signs {p : Kind × Str} (hp : ¬ IsStart p.1 p.2) {k : Key} {x : Bool}
    (hk : versionKey R p.2 (.inl eco) = .ok k) (hx : vkey.lt R k = .ok x) :
    vkey.lt R k = .ok (decide (0 < sign R vkey (keyAt R eco p))) ∧
      k.lt R vkey = .ok (decide (sign R vkey (keyAt R eco p) < 0)) := by
  obtain ⟨h1, h2, hswap⟩ := Key.lt_ok hv (versionKey_mem hk) hx
  rw [keyAt_key hp hk, sign, hswap, h1, h2]
  cases vkey.ord R k <;> exact ⟨rfl, rfl⟩

theorem swap_of_ordered {ps : List (Kind × Str)} (h : Ordered R eco vkey ps) {p : Kind × Str}
    (hp : p ∈ ps) {k : Key} (hk : keyAt R eco p = .key k) :
    vkey.ord R k = (k.ord R vkey).swap := by
  by_cases hs : IsStart p.1 p.2
  · rw [keyAt_start hs] at hk
    cases hk
  · obtain ⟨k', x, hk', hx⟩ := h p hp hs
    rw [keyAt_key hs hk'] at hk
    cases hk
    rw [(Key.lt_ok hv (versionKey_mem hk') hx).2.2, Ordering.swap_swap]

theorem reads_of_ordered {ps : List (Kind × Str)} (h : Ordered R eco vkey ps) {p : Kind × Str}
    (hp : p ∈ ps) :
    Reads R vkey (pointAt R eco p)
      (Interval.reading 0 p.1 (sign R vkey (keyAt R eco p))) := by
  unfold pointAt
  by_cases hs : IsStart p.1 p.2
  · rw [keyAt_start hs]
    exact ⟨rfl, rfl, rfl⟩
  · obtain ⟨k, x, hk, hx⟩ := h p hp hs
    obtain ⟨h1, h2⟩ := key_signs hv hs hk hx
    have hsign : keyAt R eco p = .key k := keyAt_key hs hk
    refine ⟨rfl, ?_, ?_⟩
    · rw [hsign, atOrBelow, h1, hsign]
      show Except.ok (!decide _) = Except.ok _
      rw [← decide_not]
      exact congrArg Except.ok (decide_eq_decide.mpr not_lt)
    · rw [hsign, below, h2, hsign]
      rfl

theorem sign_le {p q : PointKey} (h : PointLe R eco p q)
    (hp : ∀ k, p = .key k → vkey.ord R k = (k.ord R vkey).swap)
    (hq : ∀ k, q = .key k → vkey.ord R k = (k.ord R vkey).swap) :
    sign R vkey p ≤ sign R vkey q := by
  rcases h with rfl | ⟨k, l, rfl, rfl, hk, hl, -, hkl⟩
  · cases q with
    | start => exact le_refl _
    | key l =>
      simp only [sign]
      cases l.ord R vkey <;> decide
  · have hkv : (l.ord R vkey).isLE = true → (k.ord R vkey).isLE = true :=
      Key.ord_isLE_trans hk hl hkl
    have hvl : (vkey.ord R k).isLE = true → (vkey.ord R l).isLE = true :=
      fun h => Key.ord_isLE_trans hv hk h hkl
    rw [hp k rfl, hq l rfl] at hvl
    simp only [sign]
    revert hkv hvl
    cases k.ord R vkey <;> cases l.ord R vkey <;> decide

/-! ### The relations as signs -/

/-- **The four relations of a bound and the version**, from the sign of the bound. -/
theorem relations_iff {version : Str} (hversion : versionKey R version (.inl eco) = .ok vkey)
    {ps : List (Kind × Str)} (h : Ordered R eco vkey ps) {p : Kind × Str} (hmem : p ∈ ps)
    (hp : ¬ IsStart p.1 p.2) :
    (KeyLe R eco p.2 version ↔ sign R vkey (keyAt R eco p) ≤ 0) ∧
      (KeyLe R eco version p.2 ↔ 0 ≤ sign R vkey (keyAt R eco p)) ∧
      (KeyLt R eco p.2 version ↔ sign R vkey (keyAt R eco p) < 0) ∧
      (KeyLt R eco version p.2 ↔ 0 < sign R vkey (keyAt R eco p)) := by
  obtain ⟨k, x, hk, hx⟩ := h p hmem hp
  obtain ⟨h1, h2⟩ := key_signs hv hp hk hx
  rw [keyLe_iff hk hversion, keyLe_iff hversion hk, keyLt_iff hk hversion, keyLt_iff hversion hk,
    h1, h2]
  simp

section

variable {version : Str} (hversion : versionKey R version (.inl eco) = .ok vkey)
  {l : List (Interval Str)} (hord : Ordered R eco vkey (l.flatMap Interval.events))
include hversion hord

theorem begun_iff {I : Interval Str} (hI : I ∈ l) :
    Begun R eco version I ↔ (I.signs R eco vkey).introduced ≤ 0 := by
  unfold Begun Interval.signs
  by_cases hs : IsStart .introduced I.introduced
  · simp only [hs, true_or, true_iff]
    rw [keyAt_start hs, sign]
    decide
  · simp only [hs, false_or]
    exact (relations_iff hv hversion hord (introduced_mem_events hI) hs).1

theorem affects_iff {I : Interval Str} (hI : I ∈ l) :
    Affects R eco version I ↔ (I.signs R eco vkey).Contains 0 := by
  unfold Affects Interval.Contains
  rw [begun_iff hv hversion hord hI]
  refine and_congr_right fun _ => ?_
  unfold Interval.signs
  rcases hc : I.closing with _ | ⟨c, b⟩
  · rfl
  · obtain ⟨-, hle, -, hlt⟩ := relations_iff hv hversion hord (closing_mem_events hI hc)
      (isStart_closing c b)
    cases c
    · exact hlt
    · exact hlt
    · exact hle

theorem decided_signs_iff :
    Decided 0 (l.map (Interval.signs R eco vkey)) ↔
      ∀ pre I post, l = pre ++ I :: post → Begun R eco version I →
        (∀ J ∈ post, ¬ Begun R eco version J) →
        ∀ J ∈ pre, ∀ b, J.closing = some (.lastAffected, b) →
          (Affects R eco version I → ¬ KeyLt R eco b version) ∧
            (¬ Affects R eco version I → ¬ KeyLe R eco version b) := by
  have hbound : ∀ J ∈ l, ∀ b, J.closing = some (.lastAffected, b) →
      (J.signs R eco vkey).closing =
          some (.lastAffected, sign R vkey (keyAt R eco (.lastAffected, b))) ∧
        (KeyLt R eco b version ↔ sign R vkey (keyAt R eco (.lastAffected, b)) < 0) ∧
        (KeyLe R eco version b ↔ 0 ≤ sign R vkey (keyAt R eco (.lastAffected, b))) := by
    intro J hJ b hc
    obtain ⟨-, hle, hlt, -⟩ := relations_iff hv hversion hord (closing_mem_events hJ hc)
      (isStart_closing .lastAffected b)
    refine ⟨?_, hlt, hle⟩
    unfold Interval.signs
    rw [hc]
    rfl
  constructor
  · rintro h pre I post rfl hI hpost J hJ b hc
    have hJmem : J ∈ pre ++ I :: post := by simp [hJ]
    obtain ⟨hsc, hlt, hle⟩ := hbound J hJmem b hc
    rw [hlt, hle, affects_iff hv hversion hord (by simp)]
    refine h (pre.map (Interval.signs R eco vkey)) _ (post.map (Interval.signs R eco vkey))
      (by simp) ((begun_iff hv hversion hord (by simp)).mp hI) ?_ _ (mem_map_of_mem hJ) _ hsc
    intro K' hK'
    obtain ⟨K, hK, rfl⟩ := mem_map.mp hK'
    rw [← begun_iff hv hversion hord (by simp [hK])]
    exact hpost K hK
  · intro h pre' I' post' heq hI' hpost' J' hJ' b' hc'
    obtain ⟨pre, t, rfl, rfl, ht⟩ := map_eq_append_iff.mp heq
    obtain ⟨I, post, rfl, rfl, rfl⟩ := map_eq_cons_iff.mp ht
    obtain ⟨J, hJ, rfl⟩ := mem_map.mp hJ'
    have hJmem : J ∈ pre ++ I :: post := by simp [hJ]
    obtain ⟨b, hc⟩ : ∃ b, J.closing = some (.lastAffected, b) := by
      unfold Interval.signs at hc'
      rcases hc : J.closing with _ | ⟨c, b⟩
      · simp [hc] at hc'
      · rw [hc] at hc'
        cases hc'
        exact ⟨b, rfl⟩
    obtain ⟨hsc, hlt, hle⟩ := hbound J hJmem b hc
    obtain rfl : sign R vkey (keyAt R eco (.lastAffected, b)) = b' := by
      rw [hsc] at hc'
      cases hc'
      rfl
    rw [← hlt, ← hle, ← affects_iff hv hversion hord (by simp)]
    refine h pre I post rfl ((begun_iff hv hversion hord (by simp)).mpr hI') ?_ J hJ b hc
    intro K hK
    rw [begun_iff hv hversion hord (by simp [hK])]
    exact hpost' _ (mem_map_of_mem hK)

/-- **Where Python orders the version and every bound**, the verdict is that of the signs. -/
theorem verdict_ordered_iff (halt : Alternates l) (hasc : AscendingEvents R eco l) :
    (verdict ((sortable ((l.flatMap Interval.events).map (pointAt R eco))).map
        (readingOf R vkey)) = true ↔ ∃ I ∈ l, Affects R eco version I) ↔
      Decided 0 (l.map (Interval.signs R eco vkey)) := by
  have hpair := pairwise_pointLe hasc
  have hreadings : ((l.flatMap Interval.events).map (pointAt R eco)).map (readingOf R vkey) =
      (l.map (Interval.signs R eco vkey)).flatMap (Interval.readings 0) := by
    have hmap : ((l.flatMap Interval.events).map (pointAt R eco)).map (readingOf R vkey) =
        (l.flatMap Interval.events).map fun p =>
          Interval.reading 0 p.1 (sign R vkey (keyAt R eco p)) := by
      rw [map_map]
      exact map_congr_left fun p hp => readingOf_of_reads (reads_of_ordered hv hord hp)
    rw [hmap, flatMap_map, map_flatMap]
    refine flatMap_congr fun I _ => ?_
    unfold Interval.events Interval.signs Interval.readings
    rcases I.closing with _ | c <;> rfl
  have hascending : Ascending (l.map (Interval.signs R eco vkey)) := by
    have hbounds : (l.map (Interval.signs R eco vkey)).flatMap Interval.bounds =
        (l.flatMap Interval.events).map fun p => sign R vkey (keyAt R eco p) := by
      rw [flatMap_map, map_flatMap]
      refine flatMap_congr fun I _ => ?_
      unfold Interval.events Interval.signs Interval.bounds
      rcases I.closing with _ | c <;> rfl
    unfold Ascending
    rw [hbounds, pairwise_map]
    rw [pairwise_map] at hpair
    refine hpair.imp_of_mem fun {p q} hp hq hle => sign_le hv hle ?_ ?_
    · exact fun k hk => swap_of_ordered hv hord hp hk
    · exact fun k hk => swap_of_ordered hv hord hq hk
  have halternates : Alternates (l.map (Interval.signs R eco vkey)) := by
    intro I hI
    rw [← map_dropLast] at hI
    obtain ⟨J, hJ, rfl⟩ := mem_map.mp hI
    have := halt J hJ
    unfold Interval.signs
    simpa using this
  have hexists : (∃ I ∈ l, Affects R eco version I) ↔
      ∃ I ∈ l.map (Interval.signs R eco vkey), I.Contains 0 := by
    constructor
    · rintro ⟨I, hI, h⟩
      exact ⟨_, mem_map_of_mem hI, (affects_iff hv hversion hord hI).mp h⟩
    · rintro ⟨I', hI', h⟩
      obtain ⟨I, hI, rfl⟩ := mem_map.mp hI'
      exact ⟨I, hI, (affects_iff hv hversion hord hI).mpr h⟩
  rw [← verdict_agrees_iff halternates hascending, sortable_pointAt hpair, hreadings, hexists]

end

end

/-! ### Versions that Python cannot order -/

/-- The keys of two points are of one type. -/
def SameType (p q : PointKey) : Prop := ∀ k l, p = .key k → q = .key l → k.isEvr = l.isEvr

instance : Std.Symm SameType where
  symm _ _ h k l hk hl := (h l k hl hk).symm

theorem sameType_of_pointLe {p q : PointKey} (h : PointLe R eco p q) : SameType p q := by
  rcases h with rfl | ⟨x, y, rfl, rfl, -, -, h, -⟩
  · exact fun _ _ h => nomatch h
  · rintro _ _ ⟨⟩ ⟨⟩
    exact h

/-- What the comparisons say where only the beginning of time is below the version. -/
def startReading (p : Kind × Str) : Reading :=
  ⟨p.1, decide (IsStart p.1 p.2), decide (IsStart p.1 p.2)⟩

theorem startReading_switch (p : Kind × Str) :
    (startReading p).switch = if IsStart p.1 p.2 then some true else none := by
  obtain ⟨_ | _ | _ | _, raw⟩ := p <;> simp [startReading, Reading.switch, IsStart]

theorem startReading_isPast (p : Kind × Str) : (startReading p).isPast = false := by
  obtain ⟨_ | _ | _ | _, raw⟩ := p <;> simp [startReading, Reading.isPast, IsStart]

section

variable {vkey : Key} (hv : KeyOf eco vkey) {l : List (Interval Str)} (halt : Alternates l)
  (hasc : AscendingEvents R eco l)
  (hunordered : ∃ p ∈ l.flatMap Interval.events, ¬ IsStart p.1 p.2 ∧
    ∃ k, versionKey R p.2 (.inl eco) = .ok k ∧ vkey.lt R k = .error .typeError)
include hv hasc hunordered

theorem typeError_of_unordered {p : Kind × Str} (hp : p ∈ l.flatMap Interval.events)
    (hs : ¬ IsStart p.1 p.2) {k : Key} (hk : versionKey R p.2 (.inl eco) = .ok k) :
    vkey.lt R k = .error .typeError ∧ k.lt R vkey = .error .typeError := by
  obtain ⟨q, hq, hqs, m, hm, hlt⟩ := hunordered
  have hsame := (pairwise_pointLe hasc).imp fun h => sameType_of_pointLe h
  have hkm : k.isEvr = m.isEvr := by
    refine List.Pairwise.forall_of_forall ?_ hsame (mem_map_of_mem hp)
      (mem_map_of_mem hq) k m (keyAt_key hs hk) (keyAt_key hqs hm)
    rintro a - x y rfl ⟨⟩
    rfl
  rw [Key.lt_typeError_iff hv (versionKey_mem hm), ← hkm] at hlt
  rw [Key.lt_typeError_iff hv (versionKey_mem hk), Key.lt_typeError_iff (versionKey_mem hk) hv]
  exact ⟨hlt, hlt.symm⟩

theorem not_keyLe_of_unordered {version : Str}
    (hversion : versionKey R version (.inl eco) = .ok vkey) {p : Kind × Str}
    (hp : p ∈ l.flatMap Interval.events) (hs : ¬ IsStart p.1 p.2) :
    ¬ KeyLe R eco p.2 version ∧ ¬ KeyLe R eco version p.2 ∧ ¬ KeyLt R eco version p.2 := by
  obtain ⟨k, hk⟩ := (hasc.1 p hp).resolve_left hs
  obtain ⟨h1, h2⟩ := typeError_of_unordered hv hasc hunordered hp hs hk
  rw [keyLe_iff hk hversion, keyLe_iff hversion hk, keyLt_iff hversion hk, h1, h2]
  simp

/-- The verdict says whether an interval begins at the beginning of time. -/
theorem verdict_unordered :
    verdict ((sortable ((l.flatMap Interval.events).map (pointAt R eco))).map
        (readingOf R vkey)) = true ↔ ∃ p ∈ l.flatMap Interval.events, IsStart p.1 p.2 := by
  have hreading : ∀ p ∈ l.flatMap Interval.events,
      readingOf R vkey (pointAt R eco p) = startReading p := by
    intro p hp
    by_cases hs : IsStart p.1 p.2
    · refine readingOf_of_reads ⟨rfl, ?_, ?_⟩ <;>
        simp [pointAt, keyAt_start hs, startReading, hs, atOrBelow, below]
    · obtain ⟨k, hk⟩ := (hasc.1 p hp).resolve_left hs
      obtain ⟨h1, h2⟩ := typeError_of_unordered hv hasc hunordered hp hs hk
      refine readingOf_of_reads ⟨rfl, ?_, ?_⟩ <;>
        simp [pointAt, keyAt_key hs hk, startReading, hs, atOrBelow, below, h1, h2, onTypeError]
  have hoff : ∀ r ∈ (l.flatMap Interval.events).map startReading, r.switch ≠ some false := by
    intro r hr
    obtain ⟨p, -, rfl⟩ := mem_map.mp hr
    rw [startReading_switch]
    split_ifs <;> simp
  have hpast : ((l.flatMap Interval.events).map startReading).any Reading.isPast = false := by
    simp [startReading_isPast]
  have hmap : (l.flatMap Interval.events).map (readingOf R vkey ∘ pointAt R eco) =
      (l.flatMap Interval.events).map startReading := map_congr_left hreading
  rw [sortable_pointAt (pairwise_pointLe hasc), map_map, hmap, verdict,
    latch_of_ne hoff, hpast, Bool.not_false, Bool.and_true, Bool.if_false_right, Bool.decide_eq_true,
    any_map, Bool.and_true, any_eq_true]
  refine exists_congr fun p => and_congr_right fun _ => ?_
  rw [Function.comp_apply, startReading_switch]
  split_ifs with h <;> simp [h]

include halt in
/-- No interval contains such a version. -/
theorem not_affects_of_unordered {version : Str}
    (hversion : versionKey R version (.inl eco) = .ok vkey) :
    ¬ ∃ I ∈ l, Affects R eco version I := by
  rintro ⟨I, hI, hbegun, hclosing⟩
  by_cases hs : IsStart .introduced I.introduced
  swap
  · exact (not_keyLe_of_unordered hv hasc hunordered hversion (introduced_mem_events hI) hs).1
      (hbegun.resolve_left hs)
  rcases hc : I.closing with _ | ⟨c, b⟩
  · -- an open interval is the last one, and no bound is before the beginning of time
    obtain ⟨pre, post, rfl⟩ := append_of_mem hI
    have hpost : post = [] := by
      by_contra hne
      refine halt I ?_ hc
      rw [dropLast_append_of_ne_nil (by simp), dropLast_cons_of_ne_nil hne]
      simp
    subst hpost
    obtain ⟨p, hp, hps, k, hk, -⟩ := hunordered
    have hpair := pairwise_pointLe hasc
    rw [flatMap_append, map_append, pairwise_append] at hpair
    rw [flatMap_append] at hp
    rcases mem_append.mp hp with hp | hp
    · have hle := hpair.2.2 _ (mem_map_of_mem hp) (keyAt R eco (.introduced, I.introduced))
        (mem_map_of_mem (introduced_mem_events (by simp)))
      rw [keyAt_key hps hk, keyAt_start hs] at hle
      rcases hle with hle | ⟨_, _, -, hle, -⟩ <;> cases hle
    · simp only [flatMap_cons, flatMap_nil, append_nil, Interval.events, hc,
        Option.map_none, Option.toList_none, mem_singleton] at hp
      subst hp
      exact hps hs
  · rw [hc] at hclosing
    obtain ⟨-, hnle, hnlt⟩ := not_keyLe_of_unordered hv hasc hunordered hversion
      (closing_mem_events hI hc) (isStart_closing c b)
    cases c
    · exact hnlt hclosing
    · exact hnlt hclosing
    · exact hnle hclosing

end

/-! ### The reference and the code -/

theorem events_ne_nil (h : l ≠ []) : l.flatMap Interval.events ≠ [] := by
  obtain ⟨I, l, rfl⟩ := exists_cons_of_ne_nil h
  simp [Interval.events]

/-- The comparisons of a bound with the version end unless that of the keys does not. -/
theorem ends_pointAt_iff {vkey : Key} (hv : KeyOf eco vkey)
    (h : IsStart p.1 p.2 ∨ HasKey R eco p.2) :
    Ends R vkey (pointAt R eco p) ↔ (¬ IsStart p.1 p.2 →
      ∀ k, versionKey R p.2 (.inl eco) = .ok k → vkey.lt R k ≠ .error .diverges) := by
  unfold pointAt
  by_cases hs : IsStart p.1 p.2
  · rw [keyAt_start hs]
    exact iff_of_true ⟨⟨p.1, true, true⟩, rfl, rfl, rfl⟩ fun h => absurd hs h
  obtain ⟨k, hk⟩ := h.resolve_left hs
  have hkey : KeyOf eco k := versionKey_mem hk
  rw [keyAt_key hs hk]
  constructor
  · rintro ⟨r, -, hle, -⟩ - k' hk' hlt
    rw [hk] at hk'
    cases hk'
    rw [atOrBelow, hlt] at hle
    cases hle
  · intro h
    obtain ⟨r, hr, -⟩ | ⟨hle, -⟩ := reading_cases (R := R) (p := (.key k, p.1)) hv
      (Or.inr ⟨k, rfl, hkey⟩)
    · exact ⟨r, hr⟩
    · have hlt := h hs k hk
      rcases hx : vkey.lt R k with f | x
      · rw [hx] at hlt
        rw [atOrBelow, hx] at hle
        cases f
        all_goals first | exact absurd rfl hlt | cases hle
      · rw [atOrBelow, hx] at hle
        cases hle

/-- **The code agrees with the reference exactly under `AgreesWithReference`**: for ascending
events that alternate, it answers, and answers "affected" when an interval contains the version. -/
theorem inEventRange_reference_iff {version : Str} {arg : Ecosystem ⊕ Str}
    {l : List (Interval Str)} (halt : Alternates l)
    (hasc : AscendingEvents R (Ecosystem.of R arg) l) :
    (∃ x, inEventRange R version (eventsOf l) arg = .ok x ∧
      (x = true ↔ ∃ I ∈ l, Affects R (Ecosystem.of R arg) version I)) ↔
      AgreesWithReference R (Ecosystem.of R arg) version l := by
  have hpoints := eventPoints_single hasc.1
  by_cases hl : l = []
  · subst hl
    exact iff_of_true ⟨false, inEventRange_nil hpoints, by simp⟩ (Or.inl rfl)
  rcases hversion : versionKey R version (.inl (Ecosystem.of R arg)) with f | vkey
  · -- the version has no key
    refine iff_of_false ?_ ?_
    · rintro ⟨x, hx, -⟩
      have hne : ((l.flatMap Interval.events).map (pointAt R (Ecosystem.of R arg))).isEmpty =
          false := by
        simpa using events_ne_nil hl
      unfold inEventRange at hx
      simp only [eventsOf, hpoints, hversion] at hx
      change (if isEmpty _ then _ else _) = _ at hx
      rw [hne] at hx
      cases hx
    · rintro (h | ⟨vkey, h, -⟩)
      · exact hl h
      · rw [hversion] at h
        cases h
  have hv : KeyOf (Ecosystem.of R arg) vkey := versionKey_mem hversion
  have hagrees : AgreesWithReference R (Ecosystem.of R arg) version l ↔ _ :=
    ⟨fun h => h.resolve_left hl, Or.inr⟩
  rw [hagrees]
  by_cases hends : ∀ p ∈ (l.flatMap Interval.events).map (pointAt R (Ecosystem.of R arg)),
      Ends R vkey p
  swap
  · refine iff_of_false ?_ ?_
    · rintro ⟨x, hx, -⟩
      rw [eventsOf, inEventRange_diverges hpoints hversion hends] at hx
      cases hx
    · rintro ⟨vkey', hvkey', hdiv, -⟩
      rw [hversion] at hvkey'
      cases hvkey'
      refine hends fun q hq => ?_
      obtain ⟨p, hp, rfl⟩ := mem_map.mp hq
      exact (ends_pointAt_iff hv (hasc.1 p hp)).mpr (hdiv p hp)
  have hdiv : ∀ p ∈ l.flatMap Interval.events, ¬ IsStart p.1 p.2 → ∀ k,
      versionKey R p.2 (.inl (Ecosystem.of R arg)) = .ok k → vkey.lt R k ≠ .error .diverges :=
    fun p hp => (ends_pointAt_iff hv (hasc.1 p hp)).mp (hends _ (mem_map_of_mem hp))
  rw [eventsOf, inEventRange_eq hpoints hversion hends]
  simp only [Except.ok.injEq, exists_eq_left', hversion]
  by_cases hunordered : ∃ p ∈ l.flatMap Interval.events, ¬ IsStart p.1 p.2 ∧
      ∃ k, versionKey R p.2 (.inl (Ecosystem.of R arg)) = .ok k ∧ vkey.lt R k = .error .typeError
  · rw [verdict_unordered hv hasc hunordered,
      iff_false_right (not_affects_of_unordered hv halt hasc hunordered hversion)]
    constructor
    · intro hstart
      refine ⟨hdiv, fun _ _ _ _ _ _ q hq hqs => hstart ⟨q, hq, hqs⟩, ?_⟩
      rintro pre I post rfl hbegun
      have hI := introduced_mem_events (l := pre ++ I :: post) (I := I) (by simp)
      have hs : ¬ IsStart .introduced I.introduced := fun hs => hstart ⟨_, hI, hs⟩
      exact absurd (hbegun.resolve_left hs)
        (not_keyLe_of_unordered hv hasc hunordered hversion hI hs).1
    · rintro ⟨-, htype, -⟩ ⟨q, hq, hqs⟩
      obtain ⟨p, hp, hs, k, hk, hlt⟩ := hunordered
      exact htype p hp hs k hk hlt q hq hqs
  · have hord : Ordered R (Ecosystem.of R arg) vkey (l.flatMap Interval.events) := by
      intro p hp hs
      obtain ⟨k, hk⟩ := (hasc.1 p hp).resolve_left hs
      obtain ⟨x, -, hx, -⟩ | ⟨hx, -⟩ | ⟨hx, -⟩ := Key.lt_cases (R := R) hv (versionKey_mem hk)
      · exact ⟨k, x, hk, hx⟩
      · exact absurd ⟨p, hp, hs, k, hk, hx⟩ hunordered
      · exact absurd hx (hdiv p hp hs k hk)
    rw [verdict_ordered_iff hv hversion hord halt hasc, decided_signs_iff hv hversion hord]
    constructor
    · exact fun h => ⟨hdiv, fun p hp hs k hk hlt => absurd ⟨p, hp, hs, k, hk, hlt⟩ hunordered, h⟩
    · exact fun h => h.2.2

/-- Two intervals of one package: up to and with 2.0, and from 3.0 to 4.0. -/
def twoIntervals : List (Interval Str) :=
  [⟨"1.0", some (.lastAffected, "2.0")⟩, ⟨"3.0", some (.fixed, "4.0")⟩]

theorem inEventRange_reference_iff_npm :
    (Alternates twoIntervals ∧ AscendingEvents .ascii .npm twoIntervals) ∧
      ((∃ x, inEventRange .ascii "1.5" (eventsOf twoIntervals) (.inl .npm) = .ok x ∧
        (x = true ↔ ∃ I ∈ twoIntervals, Affects .ascii .npm "1.5" I)) ↔
        AgreesWithReference .ascii .npm "1.5" twoIntervals) :=
  have halt : Alternates twoIntervals := by simp [Alternates, twoIntervals]
  have hasc : AscendingEvents .ascii (Ecosystem.of .ascii (.inl .npm)) twoIntervals := by
    decide
  ⟨⟨halt, hasc⟩, inEventRange_reference_iff halt hasc⟩

/-- **A version inside the second of two intervals** is reported as not affected: it is above the
`last_affected` of the first one. -/
theorem inEventRange_ne_reference :
    ¬ ∀ (R : Runtime) (version : Str) (arg : Ecosystem ⊕ Str) (l : List (Interval Str)),
      Alternates l → AscendingEvents R (Ecosystem.of R arg) l →
      ∃ x, inEventRange R version (eventsOf l) arg = .ok x ∧
        (x = true ↔ ∃ I ∈ l, Affects R (Ecosystem.of R arg) version I) := by
  intro h
  obtain ⟨x, hx, hiff⟩ := h .ascii "3.5" (.inl .npm) twoIntervals
    (by simp [Alternates, twoIntervals]) (by decide)
  have hfalse : inEventRange .ascii "3.5" (eventsOf twoIntervals) (.inl .npm) =
      .ok false := by decide
  have haffects : ∃ I ∈ twoIntervals, Affects .ascii (Ecosystem.of .ascii (.inl .npm))
      "3.5" I := by decide
  rw [hfalse] at hx
  cases hx
  exact Bool.false_ne_true (hiff.mpr haffects)

end Guardian.Versioning

import Guardian.Versioning.Range

/-!
# Affected intervals

The reference meaning of an ascending list of events, over any linear order: the events alternate
between `introduced` and a closing one, so they are intervals, and a version is affected when an
interval contains it.  The intervals are in ascending order; only the last one may be open.
-/

namespace Guardian.Versioning

open Guardian.Order List

/-- The events that close an interval. -/
inductive Closing
  | fixed
  | limit
  | lastAffected
  deriving DecidableEq

/-- The kind of a closing event. -/
def Closing.kind : Closing → Kind
  | .fixed => .fixed
  | .limit => .limit
  | .lastAffected => .lastAffected

/-- An interval: where it begins and, unless it is open, where it ends and how. -/
structure Interval (A : Type*) where
  introduced : A
  closing : Option (Closing × A)

namespace Interval

variable {A : Type*}

def bounds (I : Interval A) : List A := I.introduced :: (I.closing.map Prod.snd).toList

variable [LinearOrder A]

/-- **The interval contains the version**: `fixed` and `limit` bounds do not belong to it,
`last_affected` bounds do. -/
def Contains (v : A) (I : Interval A) : Prop :=
  I.introduced ≤ v ∧
    match I.closing with
    | none => True
    | some (.lastAffected, b) => v ≤ b
    | some (_, b) => v < b

/-- What the comparisons of a bound with the version say. -/
def reading (v : A) (kind : Kind) (b : A) : Reading := ⟨kind, decide (b ≤ v), decide (b < v)⟩

/-- What the comparisons of both bounds say. -/
def readings (v : A) (I : Interval A) : List Reading :=
  reading v .introduced I.introduced ::
    (I.closing.map fun c => reading v c.1.kind c.2).toList

end Interval

variable {A : Type*} [LinearOrder A]

/-! ### The verdict on one interval -/

theorem switch_introduced (v a : A) :
    (Interval.reading v .introduced a).switch = if a ≤ v then some true else none := by
  simp [Interval.reading, Reading.switch]

theorem switch_closing (v b : A) (c : Closing) :
    (Interval.reading v c.kind b).switch =
      if c ≠ .lastAffected ∧ b ≤ v then some false else none := by
  cases c
  · simp [Interval.reading, Reading.switch, Closing.kind]
  · simp [Interval.reading, Reading.switch, Closing.kind]
  · have h : ¬ (b < v ∧ v < b) := fun h => lt_asymm h.1 h.2
    simp [Interval.reading, Reading.switch, Closing.kind, h]

theorem isPast_reading (v b : A) (k : Kind) :
    (Interval.reading v k b).isPast = true ↔ k = .lastAffected ∧ b < v := by
  show (decide (k = .lastAffected) && decide (b < v)) = true ↔ _
  rw [Bool.and_eq_true, decide_eq_true_eq, decide_eq_true_eq]

/-- An interval that ends with a `last_affected` below the version. -/
def Interval.Passed (v : A) (I : Interval A) : Prop :=
  ∃ b, I.closing = some (.lastAffected, b) ∧ b < v

theorem any_isPast_iff (v : A) (l : List (Interval A)) :
    (l.flatMap (Interval.readings v)).any Reading.isPast = true ↔
      ∃ I ∈ l, Interval.Passed v I := by
  rw [any_eq_true]
  constructor
  · rintro ⟨r, hr, hpast⟩
    obtain ⟨I, hI, hr⟩ := mem_flatMap.mp hr
    rcases mem_cons.mp hr with rfl | hr
    · rw [isPast_reading] at hpast
      cases hpast.1
    · refine ⟨I, hI, ?_⟩
      rcases hc : I.closing with _ | ⟨c, b⟩
      · simp [hc] at hr
      · rw [hc] at hr
        obtain rfl : r = Interval.reading v c.kind b := by simpa using hr
        rw [isPast_reading] at hpast
        cases c
        · cases hpast.1
        · cases hpast.1
        · exact ⟨b, hc, hpast.2⟩
  · rintro ⟨I, hI, b, hc, hb⟩
    refine ⟨Interval.reading v .lastAffected b, mem_flatMap.mpr ⟨I, hI, ?_⟩, ?_⟩
    · simp [Interval.readings, hc, Closing.kind]
    · exact (isPast_reading v b _).mpr ⟨rfl, hb⟩

theorem latch_readings {v : A} {I : Interval A} (ha : I.introduced ≤ v) (b : Bool) :
    latch Reading.switch b (I.readings v) = true ↔
      ∀ c x, I.closing = some (c, x) → c ≠ .lastAffected → v < x := by
  unfold Interval.readings
  rw [latch_cons, switch_introduced, if_pos ha]
  rcases hc : I.closing with _ | ⟨c, x⟩
  · simp [latch]
  · have hsw := switch_closing v x c
    simp only [Option.map_some, Option.toList_some]
    rw [latch_cons, hsw]
    by_cases h : c ≠ .lastAffected ∧ x ≤ v
    · rw [if_pos h]
      simp only [latch, foldl_nil, Option.getD_some, Bool.false_eq_true, false_iff]
      intro hall
      exact absurd (hall c x rfl h.1) (not_lt.mpr h.2)
    · rw [if_neg h]
      simp only [latch, foldl_nil, Option.getD_some, Option.getD_none, true_iff]
      rintro c' x' heq hne
      cases heq
      exact not_le.mp fun hle => h ⟨hne, hle⟩

theorem switch_of_above {v : A} {l : List (Interval A)}
    (h : ∀ I ∈ l, v < I.introduced ∧ ∀ c b, I.closing = some (c, b) → v < b) :
    ∀ r ∈ l.flatMap (Interval.readings v), r.switch = none := by
  intro r hr
  obtain ⟨I, hI, hr⟩ := mem_flatMap.mp hr
  obtain ⟨ha, hb⟩ := h I hI
  rcases mem_cons.mp hr with rfl | hr
  · rw [switch_introduced, if_neg (not_le.mpr ha)]
  · rcases hc : I.closing with _ | ⟨c, b⟩
    · simp [hc] at hr
    · rw [hc] at hr
      obtain rfl : r = Interval.reading v c.kind b := by simpa using hr
      rw [switch_closing, if_neg fun h => absurd h.2 (not_le.mpr (hb c b hc))]

/-! ### The last interval that begins at or below the version -/

theorem last_split_unique {B : Type*} {P : B → Prop} {pre pre' post post' : List B} {x x' : B}
    (h : pre ++ x :: post = pre' ++ x' :: post') (hx : P x) (hpost : ∀ y ∈ post, ¬ P y)
    (hx' : P x') (hpost' : ∀ y ∈ post', ¬ P y) : pre = pre' ∧ x = x' := by
  rcases append_eq_append_iff.mp h with ⟨as, rfl, has⟩ | ⟨as, rfl, has⟩
  · rcases as with _ | ⟨a, as⟩
    · simp only [nil_append, List.cons.injEq] at has
      exact ⟨(append_nil _).symm, has.1⟩
    · simp only [cons_append, List.cons.injEq] at has
      exact absurd hx' (hpost x' (by rw [has.2]; simp))
  · rcases as with _ | ⟨a, as⟩
    · simp only [nil_append, List.cons.injEq] at has
      exact ⟨append_nil _, has.1.symm⟩
    · simp only [cons_append, List.cons.injEq] at has
      exact absurd hx (hpost' x (by rw [has.2]; simp))

theorem exists_last_split {B : Type*} {P : B → Prop} {l : List B} (h : ∃ x ∈ l, P x) :
    ∃ pre x post, l = pre ++ x :: post ∧ P x ∧ ∀ y ∈ post, ¬ P y := by
  induction l with
  | nil => simp at h
  | cons a l ih =>
    by_cases hl : ∃ x ∈ l, P x
    · obtain ⟨pre, x, post, rfl, hx, hpost⟩ := ih hl
      exact ⟨a :: pre, x, post, rfl, hx, hpost⟩
    · obtain ⟨x, hx, hPx⟩ := h
      rcases mem_cons.mp hx with rfl | hx
      · exact ⟨[], x, l, rfl, hPx, fun y hy hPy => hl ⟨y, hy, hPy⟩⟩
      · exact absurd ⟨x, hx, hPx⟩ hl

/-- The bounds of a list of intervals are in ascending order. -/
def Ascending (l : List (Interval A)) : Prop := (l.flatMap Interval.bounds).Pairwise (· ≤ ·)

/-- Only the last interval may be open. -/
def Alternates {B : Type*} (l : List (Interval B)) : Prop := ∀ I ∈ l.dropLast, I.closing ≠ none

theorem closing_of_alternates {B : Type*} {pre post : List (Interval B)} {I J : Interval B}
    (h : Alternates (pre ++ I :: post)) (hJ : J ∈ pre) : J.closing ≠ none := by
  refine h J ?_
  rw [dropLast_append_of_ne_nil (by simp)]
  exact mem_append_left _ hJ

theorem le_closing {v : A} {I : Interval A} {l : List (Interval A)} (h : Ascending l) (hI : I ∈ l)
    {c : Closing} {b : A} (hc : I.closing = some (c, b)) (hv : v < I.introduced) : v < b := by
  obtain ⟨s, t, rfl⟩ := append_of_mem hI
  unfold Ascending at h
  rw [flatMap_append, flatMap_cons, pairwise_append, pairwise_append] at h
  have hbounds := h.2.1.1
  simp only [Interval.bounds, hc, Option.map_some, Option.toList_some, pairwise_cons,
    mem_singleton, forall_eq] at hbounds
  exact lt_of_lt_of_le hv hbounds.1

theorem closing_le {pre post : List (Interval A)} {I J : Interval A}
    (h : Ascending (pre ++ I :: post)) (hJ : J ∈ pre) {c : Closing} {b : A}
    (hc : J.closing = some (c, b)) : b ≤ I.introduced ∧ J.introduced ≤ I.introduced := by
  unfold Ascending at h
  rw [flatMap_append, pairwise_append] at h
  have hI : I.introduced ∈ (I :: post).flatMap Interval.bounds := by
    simp [Interval.bounds]
  refine ⟨h.2.2 b (mem_flatMap.mpr ⟨J, hJ, ?_⟩) _ hI,
    h.2.2 _ (mem_flatMap.mpr ⟨J, hJ, ?_⟩) _ hI⟩
  · simp [Interval.bounds, hc]
  · simp [Interval.bounds]

/-- **The verdict**, from the last interval that begins at or below the version: that interval
contains the version, and no earlier one ends with a `last_affected` below it. -/
theorem verdict_iff_of_last {v : A} {pre post : List (Interval A)} {I : Interval A}
    (h : Ascending (pre ++ I :: post)) (hI : I.introduced ≤ v)
    (hpost : ∀ J ∈ post, ¬ J.introduced ≤ v) :
    verdict ((pre ++ I :: post).flatMap (Interval.readings v)) = true ↔
      I.Contains v ∧ ∀ J ∈ pre, ¬ J.Passed v := by
  have habove : ∀ J ∈ post, v < J.introduced ∧ ∀ c b, J.closing = some (c, b) → v < b := by
    intro J hJ
    have hJ' : v < J.introduced := not_le.mp (hpost J hJ)
    exact ⟨hJ', fun c b hc => le_closing h (by simp [hJ]) hc hJ'⟩
  have hlatch : latch Reading.switch false ((pre ++ I :: post).flatMap (Interval.readings v)) =
      true ↔ ∀ c x, I.closing = some (c, x) → c ≠ .lastAffected → v < x := by
    rw [flatMap_append, flatMap_cons, ← append_assoc,
      latch_append_of_none (switch_of_above habove), latch_append, latch_readings hI]
  have hcontains : I.Contains v ↔ (∀ c x, I.closing = some (c, x) → c ≠ .lastAffected → v < x) ∧
      ¬ I.Passed v := by
    unfold Interval.Contains Interval.Passed
    rcases hc : I.closing with _ | ⟨_ | _ | _, b⟩ <;> simp [hI]
  have hpast : (∃ J ∈ pre ++ I :: post, Interval.Passed v J) ↔
      (∃ J ∈ pre, Interval.Passed v J) ∨ Interval.Passed v I := by
    constructor
    · rintro ⟨J, hJ, hp⟩
      rcases mem_append.mp hJ with hJ | hJ
      · exact Or.inl ⟨J, hJ, hp⟩
      rcases mem_cons.mp hJ with rfl | hJ
      · exact Or.inr hp
      · obtain ⟨b, hc, hb⟩ := hp
        exact absurd hb (lt_asymm ((habove J hJ).2 _ b hc))
    · rintro (⟨J, hJ, hp⟩ | hp)
      · exact ⟨J, by simp [hJ], hp⟩
      · exact ⟨I, by simp, hp⟩
  unfold verdict
  rw [Bool.and_eq_true, hlatch, Bool.not_eq_true', ← Bool.not_eq_true, any_isPast_iff, hpast,
    hcontains, not_or]
  constructor
  · rintro ⟨h1, h2, h3⟩
    exact ⟨⟨h1, h3⟩, fun J hJ hp => h2 ⟨J, hJ, hp⟩⟩
  · rintro ⟨⟨h1, h3⟩, h2⟩
    exact ⟨h1, fun ⟨J, hJ, hp⟩ => h2 J hJ hp, h3⟩

/-- **The condition under which the verdict is the reference meaning**: of the intervals before the
last one that begins at or below the version, none ends with a `last_affected` below the version
if that last one contains it, and none ends with a `last_affected` at or above it if not. -/
def Decided (v : A) (l : List (Interval A)) : Prop :=
  ∀ pre I post, l = pre ++ I :: post → I.introduced ≤ v → (∀ J ∈ post, ¬ J.introduced ≤ v) →
    ∀ J ∈ pre, ∀ b, J.closing = some (.lastAffected, b) →
      (I.Contains v → ¬ b < v) ∧ (¬ I.Contains v → ¬ v ≤ b)

/-- **The verdict is the reference meaning exactly under `Decided`.** -/
theorem verdict_agrees_iff {v : A} {l : List (Interval A)} (halt : Alternates l)
    (hasc : Ascending l) :
    (verdict (l.flatMap (Interval.readings v)) = true ↔ ∃ I ∈ l, I.Contains v) ↔
      Decided v l := by
  by_cases hlast : ∃ I ∈ l, I.introduced ≤ v
  · obtain ⟨pre, I, post, rfl, hI, hpost⟩ := exists_last_split hlast
    rw [verdict_iff_of_last hasc hI hpost]
    -- an earlier interval contains the version only up to its last affected version
    have hpre : ∀ J ∈ pre, J.Contains v ↔ ∃ b, J.closing = some (.lastAffected, b) ∧ v ≤ b := by
      intro J hJ
      unfold Interval.Contains
      rcases hc : J.closing with _ | ⟨c, b⟩
      · exact absurd hc (closing_of_alternates halt hJ)
      · obtain ⟨hb, ha⟩ := closing_le hasc hJ hc
        have hb' : ¬ v < b := not_lt.mpr (hb.trans hI)
        cases c <;> simp [hb', ha.trans hI]
    have href : (∃ J ∈ pre ++ I :: post, J.Contains v) ↔
        I.Contains v ∨ ∃ J ∈ pre, ∃ b, J.closing = some (.lastAffected, b) ∧ v ≤ b := by
      constructor
      · rintro ⟨J, hJ, hv⟩
        rcases mem_append.mp hJ with hJ | hJ
        · exact Or.inr ⟨J, hJ, (hpre J hJ).mp hv⟩
        rcases mem_cons.mp hJ with rfl | hJ
        · exact Or.inl hv
        · exact absurd hv.1 (hpost J hJ)
      · rintro (hv | ⟨J, hJ, hb⟩)
        · exact ⟨I, by simp, hv⟩
        · exact ⟨J, by simp [hJ], (hpre J hJ).mpr hb⟩
    have hdec : Decided v (pre ++ I :: post) ↔
        ∀ J ∈ pre, ∀ b, J.closing = some (.lastAffected, b) →
          (I.Contains v → ¬ b < v) ∧ (¬ I.Contains v → ¬ v ≤ b) := by
      constructor
      · exact fun h => h pre I post rfl hI hpost
      · intro h pre' I' post' heq hI' hpost'
        obtain ⟨rfl, rfl⟩ := last_split_unique heq hI hpost hI' hpost'
        exact h
    rw [href, hdec]
    by_cases hv : I.Contains v
    · simp only [hv, true_and, true_or, iff_true, not_true_eq_false, false_implies, and_true,
        true_implies]
      constructor
      · exact fun h J hJ b hc hb => h J hJ ⟨b, hc, hb⟩
      · rintro h J hJ ⟨b, hc, hb⟩
        exact h J hJ b hc hb
    · simp only [hv, false_and, false_or, false_iff, false_implies, true_and, not_false_eq_true,
        true_implies]
      constructor
      · exact fun h J hJ b hc hb => h ⟨J, hJ, b, hc, hb⟩
      · rintro h ⟨J, hJ, b, hc, hb⟩
        exact h J hJ b hc hb
  · -- the version is below every interval
    have habove : ∀ J ∈ l, v < J.introduced ∧ ∀ c b, J.closing = some (c, b) → v < b := by
      intro J hJ
      have hJ' : v < J.introduced := not_le.mp fun h => hlast ⟨J, hJ, h⟩
      exact ⟨hJ', fun c b hc => le_closing hasc hJ hc hJ'⟩
    have hverdict : verdict (l.flatMap (Interval.readings v)) = false := by
      unfold verdict
      rw [latch_of_none (switch_of_above habove), Bool.false_and]
    rw [hverdict]
    refine iff_of_true ?_ ?_
    · simp only [Bool.false_eq_true, false_iff]
      rintro ⟨I, hI, hv⟩
      exact hlast ⟨I, hI, hv.1⟩
    · rintro pre I post rfl hI
      exact absurd ⟨I, by simp, hI⟩ hlast

end Guardian.Versioning

import Mathlib.Data.List.Basic
import Mathlib.Data.List.Induction
import Mathlib.Order.Bounds.Basic
import Mathlib.Order.MinMax

/-!
# Optimal string alignment

The edits of a list are insertions, deletions, substitutions and swaps of neighbours, and no place
is edited twice.  `osa` is the recursion over the prefixes of two lists.

* `isLeast_osa`: it is the least number of edits that make one list of the other.
* `osa_eq_zero_iff`: it is zero just for equal lists.
-/

namespace Guardian.Order

open List
variable {A : Type*}

/-- **An alignment** of two lists, with the number of its edits. -/
inductive Edits : List A → List A → ℕ → Prop
  | nil : Edits [] [] 0
  | insert {a b : List A} {n : ℕ} (h : Edits a b n) (y : A) : Edits a (b ++ [y]) (n + 1)
  | delete {a b : List A} {n : ℕ} (h : Edits a b n) (x : A) : Edits (a ++ [x]) b (n + 1)
  | keep {a b : List A} {n : ℕ} (h : Edits a b n) (x : A) : Edits (a ++ [x]) (b ++ [x]) n
  | substitute {a b : List A} {n : ℕ} (h : Edits a b n) (x y : A) :
      Edits (a ++ [x]) (b ++ [y]) (n + 1)
  | swap {a b : List A} {n : ℕ} (h : Edits a b n) (x y : A) :
      Edits (a ++ [x, y]) (b ++ [y, x]) (n + 1)

theorem Edits.eq_of_zero {a b : List A} {n : ℕ} (h : Edits a b n) (hn : n = 0) : a = b := by
  induction h with
  | nil => rfl
  | keep _ x ih => rw [ih hn]
  | insert | delete | substitute | swap => cases hn

theorem edits_self (a : List A) : Edits a a 0 := by
  induction a using reverseRecOn with
  | nil => exact .nil
  | append_singleton a x ih => exact .keep ih x

variable [DecidableEq A]

/-- The last two members of the prefixes are those of each other. -/
def Swapped (a b : List A) (i j : ℕ) : Prop :=
  0 < i ∧ 0 < j ∧ a[i]? = b[j - 1]? ∧ a[i - 1]? = b[j]?

instance (a b : List A) (i j : ℕ) : Decidable (Swapped a b i j) :=
  inferInstanceAs (Decidable (_ ∧ _))

/-- **The distance** of the first `i` members of one list and the first `j` of the other. -/
def osa (a b : List A) : ℕ → ℕ → ℕ
  | 0, j => j
  | i + 1, 0 => i + 1
  | i + 1, j + 1 =>
    let edited := min (min (osa a b (i + 1) j + 1) (osa a b i (j + 1) + 1))
      (osa a b i j + if a[i]? = b[j]? then 0 else 1)
    if Swapped a b i j then min edited (osa a b (i - 1) (j - 1) + 1) else edited
  termination_by i j => i + j

theorem osa_zero_left (a b : List A) (j : ℕ) : osa a b 0 j = j := by rw [osa]

theorem osa_zero_right (a b : List A) (i : ℕ) : osa a b i 0 = i := by cases i <;> rw [osa]

theorem osa_succ (a b : List A) (i j : ℕ) : osa a b (i + 1) (j + 1) =
    if Swapped a b i j then
      min (min (min (osa a b (i + 1) j + 1) (osa a b i (j + 1) + 1))
        (osa a b i j + if a[i]? = b[j]? then 0 else 1)) (osa a b (i - 1) (j - 1) + 1)
    else min (min (osa a b (i + 1) j + 1) (osa a b i (j + 1) + 1))
      (osa a b i j + if a[i]? = b[j]? then 0 else 1) := by rw [osa]

omit [DecidableEq A] in
theorem swapped_append {a b : List A} (s t : List A) {i j : ℕ} (hi : i < a.length)
    (hj : j < b.length) : Swapped (a ++ s) (b ++ t) i j ↔ Swapped a b i j := by
  unfold Swapped
  rw [getElem?_append_left hi, getElem?_append_left hj,
    getElem?_append_left (by omega : i - 1 < a.length),
    getElem?_append_left (by omega : j - 1 < b.length)]

/-- The distance reads nothing behind the prefixes. -/
theorem osa_append {a b : List A} (s t : List A) {i j : ℕ} (hi : i ≤ a.length)
    (hj : j ≤ b.length) : osa (a ++ s) (b ++ t) i j = osa a b i j := by
  induction i, j using osa.induct a b with
  | case1 j => rw [osa_zero_left, osa_zero_left]
  | case2 i => rw [osa_zero_right, osa_zero_right]
  | case3 i j hswap ih1 ih2 ih3 ih4 =>
    rw [osa_succ, osa_succ, if_pos ((swapped_append s t hi hj).mpr hswap), if_pos hswap,
      ih1 hi (by omega), ih2 (by omega) hj, ih3 (by omega) (by omega),
      ih4 (by omega) (by omega), getElem?_append_left hi, getElem?_append_left hj]
  | case4 i j hswap ih1 ih2 ih3 =>
    rw [osa_succ, osa_succ, if_neg fun h => hswap ((swapped_append s t hi hj).mp h), if_neg hswap,
      ih1 hi (by omega), ih2 (by omega) hj, ih3 (by omega) (by omega),
      getElem?_append_left hi, getElem?_append_left hj]

/-- The distance of two prefixes without the swap. -/
theorem osa_succ_le (a b : List A) (i j : ℕ) : osa a b (i + 1) (j + 1) ≤
    min (min (osa a b (i + 1) j + 1) (osa a b i (j + 1) + 1))
      (osa a b i j + if a[i]? = b[j]? then 0 else 1) := by
  rw [osa_succ]
  by_cases hswap : Swapped a b i j
  · rw [if_pos hswap]
    exact min_le_left _ _
  · rw [if_neg hswap]

theorem osa_insert_le (a b : List A) (i j : ℕ) : osa a b i (j + 1) ≤ osa a b i j + 1 := by
  cases i with
  | zero => rw [osa_zero_left, osa_zero_left]
  | succ i => exact (osa_succ_le a b i j).trans ((min_le_left _ _).trans (min_le_left _ _))

theorem osa_delete_le (a b : List A) (i j : ℕ) : osa a b (i + 1) j ≤ osa a b i j + 1 := by
  cases j with
  | zero => rw [osa_zero_right, osa_zero_right]
  | succ j => exact (osa_succ_le a b i j).trans ((min_le_left _ _).trans (min_le_right _ _))

theorem osa_substitute_le (a b : List A) (i j : ℕ) :
    osa a b (i + 1) (j + 1) ≤ osa a b i j + if a[i]? = b[j]? then 0 else 1 :=
  (osa_succ_le a b i j).trans (min_le_right _ _)

theorem osa_swap_le {a b : List A} {i j : ℕ} (h : Swapped a b (i + 1) (j + 1)) :
    osa a b (i + 2) (j + 2) ≤ osa a b i j + 1 := by
  rw [osa_succ, if_pos h]
  exact min_le_right _ _

/-- No alignment has fewer edits. -/
theorem Edits.osa_le {a b : List A} {n : ℕ} (h : Edits a b n) :
    osa a b a.length b.length ≤ n := by
  induction h with
  | nil => rw [length_nil, osa_zero_left]
  | @insert a b n _ y ih =>
    have hpre := osa_append (a := a) (b := b) [] [y] le_rfl le_rfl
    rw [append_nil] at hpre
    rw [length_append, length_singleton]
    exact (osa_insert_le _ _ _ _).trans (by omega)
  | @delete a b n _ x ih =>
    have hpre := osa_append (a := a) (b := b) [x] [] le_rfl le_rfl
    rw [append_nil] at hpre
    rw [length_append, length_singleton]
    exact (osa_delete_le _ _ _ _).trans (by omega)
  | @keep a b n _ x ih =>
    have hpre := osa_append (a := a) (b := b) [x] [x] le_rfl le_rfl
    have hle := osa_substitute_le (a ++ [x]) (b ++ [x]) a.length b.length
    rw [getElem?_concat_length, getElem?_concat_length, if_pos rfl, hpre] at hle
    rw [length_append, length_append, length_singleton]
    omega
  | @substitute a b n _ x y ih =>
    have hpre := osa_append (a := a) (b := b) [x] [y] le_rfl le_rfl
    have hle := osa_substitute_le (a ++ [x]) (b ++ [y]) a.length b.length
    rw [hpre] at hle
    rw [length_append, length_append, length_singleton, length_singleton]
    split_ifs at hle <;> omega
  | @swap a b n _ x y ih =>
    have hpre := osa_append (a := a) (b := b) [x, y] [y, x] le_rfl le_rfl
    have hswapped : Swapped (a ++ [x, y]) (b ++ [y, x]) (a.length + 1) (b.length + 1) := by
      refine ⟨Nat.succ_pos _, Nat.succ_pos _, ?_, ?_⟩ <;> simp
    have hle := osa_swap_le hswapped
    rw [hpre] at hle
    rw [length_append, length_append]
    show osa _ _ (a.length + 2) (b.length + 2) ≤ n + 1
    omega

omit [DecidableEq A] in
theorem edits_nil_left (b : List A) : Edits [] b b.length := by
  induction b using reverseRecOn with
  | nil => exact .nil
  | append_singleton b y ih =>
    rw [length_append, length_singleton]
    exact ih.insert y

omit [DecidableEq A] in
theorem edits_nil_right (a : List A) : Edits a [] a.length := by
  induction a using reverseRecOn with
  | nil => exact .nil
  | append_singleton a x ih =>
    rw [length_append, length_singleton]
    exact ih.delete x

/-- The prefixes that are one longer have an alignment without a swap. -/
theorem edits_min {a b : List A} {i j : ℕ} (hi : i < a.length) (hj : j < b.length) {l m n : ℕ}
    (hinsert : Edits (a.take (i + 1)) (b.take j) l) (hdelete : Edits (a.take i) (b.take (j + 1)) m)
    (hboth : Edits (a.take i) (b.take j) n) :
    Edits (a.take (i + 1)) (b.take (j + 1))
      (min (min (l + 1) (m + 1)) (n + if a[i]? = b[j]? then 0 else 1)) := by
  have ha := take_succ_eq_append_getElem hi
  have hb := take_succ_eq_append_getElem hj
  rcases min_choice (min (l + 1) (m + 1)) (n + if a[i]? = b[j]? then 0 else 1) with h | h <;> rw [h]
  · rcases min_choice (l + 1) (m + 1) with h | h <;> rw [h]
    · rw [hb]
      exact hinsert.insert _
    · rw [ha]
      exact hdelete.delete _
  · rw [ha, hb]
    split_ifs with heq
    · rw [getElem?_eq_getElem hi, getElem?_eq_getElem hj] at heq
      rw [Option.some.inj heq]
      exact hboth.keep _
    · exact hboth.substitute _ _

/-- There is an alignment of the prefixes with so many edits. -/
theorem edits_osa {a b : List A} {i j : ℕ} (hi : i ≤ a.length) (hj : j ≤ b.length) :
    Edits (a.take i) (b.take j) (osa a b i j) := by
  induction i, j using osa.induct a b with
  | case1 j =>
    have hall := edits_nil_left (b.take j)
    rw [length_take_of_le hj] at hall
    rw [osa_zero_left]
    exact hall
  | case2 i =>
    have hall := edits_nil_right (a.take (i + 1))
    rw [length_take_of_le hi] at hall
    rw [osa_zero_right]
    exact hall
  | case3 i j hswap ih1 ih2 ih3 ih4 =>
    rw [osa_succ, if_pos hswap]
    have hmin := edits_min hi hj (ih1 hi (by omega)) (ih2 (by omega) hj)
      (ih3 (by omega) (by omega))
    rcases min_choice (min (min (osa a b (i + 1) j + 1) (osa a b i (j + 1) + 1))
      (osa a b i j + if a[i]? = b[j]? then 0 else 1)) (osa a b (i - 1) (j - 1) + 1) with h | h <;>
      rw [h]
    · exact hmin
    · obtain ⟨hi0, hj0, hx, hy⟩ := hswap
      obtain ⟨i, rfl⟩ := Nat.exists_eq_succ_of_ne_zero hi0.ne'
      obtain ⟨j, rfl⟩ := Nat.exists_eq_succ_of_ne_zero hj0.ne'
      have hshort := ih4 (by omega) (by omega)
      simp only [Nat.succ_eq_add_one, Nat.add_sub_cancel] at hx hy hshort ⊢
      rw [getElem?_eq_getElem hi, getElem?_eq_getElem (by omega)] at hx
      rw [getElem?_eq_getElem hj, getElem?_eq_getElem (by omega)] at hy
      rw [take_succ_eq_append_getElem hi, take_succ_eq_append_getElem (by omega),
        take_succ_eq_append_getElem hj, take_succ_eq_append_getElem (by omega),
        append_assoc, append_assoc, Option.some.inj hx, Option.some.inj hy]
      exact hshort.swap _ _
  | case4 i j hswap ih1 ih2 ih3 =>
    rw [osa_succ, if_neg hswap]
    exact edits_min hi hj (ih1 hi (by omega)) (ih2 (by omega) hj) (ih3 (by omega) (by omega))

/-- **The distance is the least number of edits** of an alignment. -/
theorem isLeast_osa (a b : List A) : IsLeast {n | Edits a b n} (osa a b a.length b.length) := by
  refine ⟨?_, fun n h => Edits.osa_le h⟩
  have hall := edits_osa (a := a) (b := b) le_rfl le_rfl
  rwa [take_length, take_length] at hall

/-- Only equal lists have no distance. -/
theorem osa_eq_zero_iff {a b : List A} : osa a b a.length b.length = 0 ↔ a = b := by
  constructor
  · exact fun h => Edits.eq_of_zero (isLeast_osa a b).1 h
  · rintro rfl
    exact Nat.le_zero.mp ((isLeast_osa a a).2 (edits_self a))

end Guardian.Order

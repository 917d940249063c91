import Mathlib.Order.Lattice
import Mathlib.Order.Nat

/-!
# Comparing by the first difference that two readers see

Many comparison loops read two inputs in step: a `head` is taken off each side, the heads are
compared, and if they agree the loop goes on with the two `tail`s.  `streamCmp n` is such a loop
for `n` rounds.  A side that is used up is still read: its head is then one fixed value.

* `streamCmp` is oriented and transitive when the comparison of heads is (`streamCmp_transCmp`).
* `streamCmp_map`: two comparisons that read the same.
* After the round in which both sides are used up nothing changes any more
  (`streamCmp_eq_of_le`), so any two comparisons can be run for the same number of rounds; the
  comparison to the ends, `streamCmpAll`, is a total preorder too (`streamCmpAll_transCmp`).
-/

namespace Guardian.Order

open Std (TransCmp OrientedCmp)

theorem then_of_ne {o p : Ordering} (h : o ≠ .eq) : o.then p = o := by
  cases o with
  | eq => exact absurd rfl h
  | _ => rfl

theorem compare_of_ne {A : Type*} [LinearOrder A] {x y : A} (h : x ≠ y) :
    (if x < y then Ordering.lt else .gt) = compare x y := by
  split_ifs with hlt
  · exact (compare_lt_iff_lt.mpr hlt).symm
  · exact (compare_gt_iff_gt.mpr (lt_of_le_of_ne (not_lt.mp hlt) (Ne.symm h))).symm

/-- A comparison of what is read off two values. -/
theorem transCmp_on {A H : Type*} (cmp : H → H → Ordering) (f : A → H) [TransCmp cmp] :
    TransCmp fun a b => cmp (f a) (f b) where
  eq_swap := OrientedCmp.eq_swap
  isLE_trans := TransCmp.isLE_trans

variable {S H : Type*} (cmp : H → H → Ordering) (head : S → H) (tail : S → S)

/-- **Compare two streams of heads**, for `n` rounds. -/
def streamCmp : ℕ → S → S → Ordering
  | 0, _, _ => .eq
  | n + 1, s, t => (cmp (head s) (head t)).then (streamCmp n (tail s) (tail t))

variable {cmp head tail}

theorem streamCmp_succ (n : ℕ) (s t : S) :
    streamCmp cmp head tail (n + 1) s t =
      (cmp (head s) (head t)).then (streamCmp cmp head tail n (tail s) (tail t)) := rfl

theorem streamCmp_swap [OrientedCmp cmp] (n : ℕ) (s t : S) :
    streamCmp cmp head tail n s t = (streamCmp cmp head tail n t s).swap := by
  induction n generalizing s t with
  | zero => rfl
  | succ n ih =>
    have hhead : cmp (head s) (head t) = (cmp (head t) (head s)).swap := OrientedCmp.eq_swap
    rw [streamCmp_succ, streamCmp_succ, Ordering.swap_then, ← ih, hhead]

theorem streamCmp_isLE_trans [TransCmp cmp] (n : ℕ) {s t u : S}
    (hst : (streamCmp cmp head tail n s t).isLE = true)
    (htu : (streamCmp cmp head tail n t u).isLE = true) :
    (streamCmp cmp head tail n s u).isLE = true := by
  induction n generalizing s t u with
  | zero => rfl
  | succ n ih =>
    rw [streamCmp_succ, Ordering.isLE_then_iff_and] at hst htu ⊢
    obtain ⟨hst, hst'⟩ := hst
    obtain ⟨htu, htu'⟩ := htu
    refine ⟨TransCmp.isLE_trans hst htu, ?_⟩
    -- a strict step on either side makes the outer step strict
    rcases hst' with h | hst'
    · exact Or.inl (TransCmp.lt_of_lt_of_isLE h htu)
    rcases htu' with h | htu'
    · exact Or.inl (TransCmp.lt_of_isLE_of_lt hst h)
    · exact Or.inr (ih hst' htu')

/-- **The comparison of streams is a total preorder** when that of heads is one. -/
instance streamCmp_transCmp [TransCmp cmp] (n : ℕ) : TransCmp (streamCmp cmp head tail n) where
  eq_swap := streamCmp_swap n _ _
  isLE_trans := streamCmp_isLE_trans n

/-- Two sides with equal heads, now and in every later round. -/
theorem streamCmp_eq_of_stable {I : S → Prop} (htail : ∀ s, I s → I (tail s))
    (hhead : ∀ s t, I s → I t → cmp (head s) (head t) = .eq) (n : ℕ) {s t : S}
    (hs : I s) (ht : I t) : streamCmp cmp head tail n s t = .eq := by
  induction n generalizing s t with
  | zero => rfl
  | succ n ih =>
    rw [streamCmp_succ, hhead s t hs ht, ih (htail s hs) (htail t ht)]
    rfl

/-- **Two comparisons of streams agree** if one reads of the image of a stream what the other reads
of the stream. -/
theorem streamCmp_map {T H' : Type*} {cmp' : H' → H' → Ordering} {head' : T → H'} {tail' : T → T}
    {I : S → Prop} {f : S → T} (htail : ∀ s, I s → I (tail s))
    (hhead : ∀ s t, I s → I t → cmp' (head' (f s)) (head' (f t)) = cmp (head s) (head t))
    (hrest : ∀ s, I s → tail' (f s) = f (tail s)) (n : ℕ) {s t : S} (hs : I s) (ht : I t) :
    streamCmp cmp' head' tail' n (f s) (f t) = streamCmp cmp head tail n s t := by
  induction n generalizing s t with
  | zero => rfl
  | succ n ih =>
    rw [streamCmp_succ, streamCmp_succ, hhead s t hs ht, hrest s hs, hrest t ht,
      ih (htail s hs) (htail t ht)]

variable (size : S → ℕ)

/-- **Rounds after the end change nothing.**  `size` bounds the rounds until a side is used up. -/
theorem streamCmp_eq_of_le (hsize : ∀ s, size (tail s) ≤ size s - 1)
    (hend : ∀ s t, size s = 0 → size t = 0 → cmp (head s) (head t) = .eq) {m n : ℕ}
    {s t : S} (hs : size s ≤ m) (ht : size t ≤ m) (hmn : m ≤ n) :
    streamCmp cmp head tail n s t = streamCmp cmp head tail m s t := by
  induction m generalizing n s t with
  | zero =>
    have htail : ∀ s, size s = 0 → size (tail s) = 0 := fun s h => by
      have := hsize s
      omega
    rw [streamCmp_eq_of_stable htail hend n (by omega) (by omega)]
    rfl
  | succ m ih =>
    obtain ⟨n, rfl⟩ : ∃ k, n = k + 1 := ⟨n - 1, by omega⟩
    have hs' := hsize s
    have ht' := hsize t
    rw [streamCmp_succ, streamCmp_succ, ih (by omega) (by omega) (by omega)]

variable (cmp head tail)

/-- **Compare two streams to their ends.** -/
def streamCmpAll (s t : S) : Ordering :=
  streamCmp cmp head tail (max (size s) (size t)) s t

variable {cmp head tail size}

theorem streamCmpAll_eq (hsize : ∀ s, size (tail s) ≤ size s - 1)
    (hend : ∀ s t, size s = 0 → size t = 0 → cmp (head s) (head t) = .eq) {n : ℕ} {s t : S}
    (hs : size s ≤ n) (ht : size t ≤ n) :
    streamCmp cmp head tail n s t = streamCmpAll cmp head tail size s t :=
  streamCmp_eq_of_le size hsize hend (le_max_left _ _) (le_max_right _ _) (max_le hs ht)

/-- **Comparing to the ends is a total preorder** when comparing heads is one. -/
theorem streamCmpAll_transCmp [TransCmp cmp] (hsize : ∀ s, size (tail s) ≤ size s - 1)
    (hend : ∀ s t, size s = 0 → size t = 0 → cmp (head s) (head t) = .eq) :
    TransCmp (streamCmpAll cmp head tail size) where
  eq_swap {s t} := by
    unfold streamCmpAll
    rw [max_comm (size t), ← streamCmp_swap]
  isLE_trans {s t u} hst htu := by
    -- all three pairs for the same number of rounds
    have hs : size s ≤ max (max (size s) (size t)) (size u) := by omega
    have ht : size t ≤ max (max (size s) (size t)) (size u) := by omega
    have hu : size u ≤ max (max (size s) (size t)) (size u) := by omega
    rw [← streamCmpAll_eq hsize hend hs ht] at hst
    rw [← streamCmpAll_eq hsize hend ht hu] at htu
    rw [← streamCmpAll_eq hsize hend hs hu]
    exact streamCmp_isLE_trans _ hst htu

end Guardian.Order

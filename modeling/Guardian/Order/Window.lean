import Mathlib.Algebra.Order.Group.Basic
import Mathlib.Data.List.Count
import Mathlib.Tactic.Linarith

/-!
# Sliding windows

Events are stamped with the instants at which they happen.  A bound on the events of every window of
a given length is kept by an event that finds fewer than the bound in the window that ends with it.

* `Spread.cons`: the bound is kept.
-/

namespace Guardian.Order

open List
variable {α : Type*} [LinearOrder α]

/-- How many instants are later than `y`. -/
def after (y : α) (ts : List α) : ℕ := ts.countP fun t => decide (y < t)

@[simp] theorem after_nil (y : α) : after y [] = 0 := rfl

theorem after_cons (y t : α) (ts : List α) :
    after y (t :: ts) = after y ts + if y < t then 1 else 0 := by
  unfold after
  rw [countP_cons]
  simp only [decide_eq_true_eq]

theorem after_append (y : α) (ts us : List α) : after y (ts ++ us) = after y ts + after y us :=
  countP_append

theorem after_mono {y z : α} (h : y ≤ z) (ts : List α) : after z ts ≤ after y ts := by
  refine countP_mono_left fun t _ hz => ?_
  simp only [decide_eq_true_eq] at hz ⊢
  exact lt_of_le_of_lt h hz

/-- What is not later than `y` may be dropped. -/
theorem after_filter {y : α} {p : α → Bool} (hp : ∀ t, y < t → p t = true) (ts : List α) :
    after y (ts.filter p) = after y ts := by
  unfold after
  rw [countP_filter]
  refine countP_congr fun t _ => ?_
  by_cases h : y < t
  · simp [h, hp t h]
  · simp [h]

theorem after_eq_zero {y : α} {ts : List α} (h : ∀ t ∈ ts, t ≤ y) : after y ts = 0 := by
  refine countP_eq_zero.mpr fun t ht => ?_
  simpa using h t ht

variable [AddCommGroup α]

/-- **The bound**: no window of length `w` holds more than `c` of the instants. -/
def Spread (w : α) (c : ℤ) (ts : List α) : Prop :=
  ∀ x, (ts.countP fun t => decide (x ≤ t ∧ t < x + w) : ℤ) ≤ c

/-- **The bound is kept** by an instant when fewer than the bound lie within the window that ends
there, or later. -/
theorem Spread.cons [IsOrderedAddMonoid α] {w now : α} {c : ℤ} {ts : List α} (h : Spread w c ts)
    (hroom : (after (now - w) ts : ℤ) < c) :
    Spread w c (now :: ts) := by
  intro x
  rw [countP_cons]
  by_cases hx : x ≤ now ∧ now < x + w
  · have hle : (ts.countP fun t => decide (x ≤ t ∧ t < x + w)) ≤ after (now - w) ts := by
      refine countP_mono_left fun t _ ht => ?_
      simp only [decide_eq_true_eq] at ht ⊢
      exact lt_of_lt_of_le (sub_lt_iff_lt_add.mpr hx.2) ht.1
    simp only [hx, and_self, decide_true, if_true]
    push_cast
    omega
  · have := h x
    simp only [hx, decide_false]
    simpa using this

end Guardian.Order

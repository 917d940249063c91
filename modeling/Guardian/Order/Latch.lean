import Mathlib.Data.List.Perm.Basic

/-!
# A scan that carries one boolean

Each element of a list switches a boolean on, switches it off, or leaves it: `latch d b l` is the
boolean after the list, started from `b`.  The last element that switches decides.

* `latch_perm`: the order of the list does not matter when no element switches on, or none off.
* `latch_append_of_some`, `latch_append_of_none`: what the end of the list does.
-/

namespace Guardian.Order

open List
variable {A : Type*}

/-- **The boolean after a list** of switches. -/
def latch (d : A → Option Bool) (b : Bool) (l : List A) : Bool :=
  l.foldl (fun b a => (d a).getD b) b

variable {d : A → Option Bool}

theorem latch_cons (b : Bool) (a : A) (l : List A) :
    latch d b (a :: l) = latch d ((d a).getD b) l := rfl

theorem latch_append (b : Bool) (l m : List A) :
    latch d b (l ++ m) = latch d (latch d b l) m := by
  unfold latch
  rw [foldl_append]

/-- Elements that switch nothing. -/
theorem latch_of_none {b : Bool} {l : List A} (h : ∀ a ∈ l, d a = none) : latch d b l = b := by
  induction l with
  | nil => rfl
  | cons a l ih =>
    rw [latch_cons, h a (by simp), Option.getD_none]
    exact ih fun a ha => h a (by simp [ha])

theorem latch_append_of_none {b : Bool} {l m : List A} (h : ∀ a ∈ m, d a = none) :
    latch d b (l ++ m) = latch d b l := by
  rw [latch_append, latch_of_none h]

/-- The last element that switches decides. -/
theorem latch_append_of_some {b x : Bool} {l : List A} {a : A} (h : d a = some x) :
    latch d b (l ++ [a]) = x := by
  rw [latch_append, latch_cons, h]
  rfl

/-- Where no element switches one way, the latch is switched the other way or stays. -/
theorem latch_of_ne {v b : Bool} {l : List A} (h : ∀ a ∈ l, d a ≠ some v) :
    latch d b l = if l.any fun a => d a == some !v then !v else b := by
  induction l generalizing b with
  | nil => simp [latch]
  | cons a l ih =>
    rw [latch_cons, ih fun a ha => h a (by simp [ha]), any_cons]
    have ha := h a (by simp)
    rcases hd : d a with _ | x
    · simp
    · have hx : x = !v := by
        rw [Bool.eq_not]
        rintro rfl
        exact ha hd
      simp [hx]

/-- **The order does not matter** when no element switches on, or none switches off. -/
theorem latch_perm {b : Bool} {l m : List A} (hlm : l.Perm m)
    (h : (∀ a ∈ l, d a ≠ some true) ∨ ∀ a ∈ l, d a ≠ some false) :
    latch d b l = latch d b m := by
  have hone : ∀ v, (∀ a ∈ l, d a ≠ some v) → latch d b l = latch d b m := by
    intro v hv
    rw [latch_of_ne hv, latch_of_ne fun a ha => hv a (hlm.mem_iff.mpr ha), hlm.any_eq]
  exact h.elim (hone true) (hone false)

end Guardian.Order

import Mathlib.Data.List.Infix

/-!
# Zones of names

A name is a word; its labels are separated by one letter.  A name lies inside a zone when it is the
name of the zone, or ends with a separator and the name of the zone.
-/

namespace Guardian.Order

variable {A : Type*} {sep : A}

/-- **The name lies inside the zone.** -/
def Within (sep : A) (z n : List A) : Prop := n = z ∨ sep :: z <:+ n

instance [DecidableEq A] (z n : List A) : Decidable (Within sep z n) :=
  inferInstanceAs (Decidable (_ ∨ _))

theorem within_refl (z : List A) : Within sep z z := Or.inl rfl

theorem suffix_of_within {z n : List A} (h : Within sep z n) : z <:+ n := by
  rcases h with rfl | h
  · exact List.suffix_rfl
  · exact (List.suffix_cons sep z).trans h

theorem within_trans {z y n : List A} (hzy : Within sep z y) (hyn : Within sep y n) :
    Within sep z n := by
  rcases hyn with rfl | hyn
  · exact hzy
  · rcases hzy with rfl | hzy
    · exact Or.inr hyn
    · exact Or.inr (hzy.trans ((List.suffix_cons sep y).trans hyn))

end Guardian.Order

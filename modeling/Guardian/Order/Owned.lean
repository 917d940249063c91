import Mathlib.Data.List.Perm.Basic

/-!
# A value with an owner

Records contribute to a value one after the other.  The first one sets it; an empty contribution
changes nothing; the owner's goes over what is there, and any other one only fills an empty value.

* `settled`: the value after all records.
* `settled_of_owner`: the contribution of an owner, if it is not empty, is the value.
* `settled_perm_iff`: when the value does not depend on the order of the records.
-/

namespace Guardian.Order

open List
variable {A V : Type*} (val : A → V) (empty : V → Prop) [DecidablePred empty] (owner : A → Prop)
  [DecidablePred owner]

/-- One record more. -/
def contribute (current : V) (r : A) : V :=
  if empty (val r) then current else if empty current ∨ owner r then val r else current

/-- **The value after all records**, if there are any. -/
def settled : List A → Option V
  | [] => none
  | r :: rs => some (rs.foldl (contribute val empty owner) (val r))

/-- **The order of the records does not matter**: the owner contributes something, or all that
contribute something contribute the same, and likewise if nobody does. -/
def OrderFree (l : List A) : Prop :=
  (∃ r ∈ l, owner r ∧ ¬ empty (val r)) ∨
    (∀ r ∈ l, ∀ r' ∈ l, ¬ empty (val r) → ¬ empty (val r') → val r = val r') ∧
      ((∀ r ∈ l, empty (val r)) → ∀ r ∈ l, ∀ r' ∈ l, val r = val r')

variable {val empty owner} {l rs : List A} {current v : V} {o : A}

@[simp] theorem settled_cons (r : A) (rs : List A) : settled val empty owner (r :: rs) =
    some (rs.foldl (contribute val empty owner) (val r)) := rfl

/-- A value stays if no owner contributes another one. -/
theorem foldl_contribute_eq_self (hc : ¬ empty current)
    (h : ∀ r ∈ rs, owner r → ¬ empty (val r) → val r = current) :
    rs.foldl (contribute val empty owner) current = current := by
  induction rs with
  | nil => rfl
  | cons r rs ih =>
    have hstep : contribute val empty owner current r = current := by
      unfold contribute
      split_ifs with he ho
      · rfl
      · exact h r (by simp) (ho.resolve_left hc) he
      · rfl
    rw [foldl_cons, hstep]
    exact ih fun r hr => h r (by simp [hr])

/-- Contributions that are all empty change nothing. -/
theorem foldl_contribute_of_empty (h : ∀ r ∈ rs, empty (val r)) :
    rs.foldl (contribute val empty owner) current = current := by
  induction rs with
  | nil => rfl
  | cons r rs ih =>
    rw [foldl_cons, contribute, if_pos (h r (by simp))]
    exact ih fun r hr => h r (by simp [hr])

/-- The contribution of an owner goes over any value. -/
theorem foldl_contribute_owner (ho : o ∈ rs) (howner : owner o) (hne : ¬ empty (val o))
    (hunique : ∀ r ∈ rs, owner r → r = o) :
    rs.foldl (contribute val empty owner) current = val o := by
  obtain ⟨pre, post, rfl⟩ := append_of_mem ho
  rw [foldl_append, foldl_cons]
  have hstep : ∀ c, contribute val empty owner c o = val o := fun c => by
    rw [contribute, if_neg hne, if_pos (.inr howner)]
  rw [hstep]
  refine foldl_contribute_eq_self hne fun r hr hro _ => ?_
  rw [hunique r (by simp [hr]) hro]

/-- Where all that contribute something contribute the same, that is the value. -/
theorem foldl_contribute_same (hv : ¬ empty v) (h : ∀ r ∈ rs, ¬ empty (val r) → val r = v)
    (hsome : current = v ∨ empty current ∧ ∃ r ∈ rs, ¬ empty (val r)) :
    rs.foldl (contribute val empty owner) current = v := by
  induction rs generalizing current with
  | nil =>
    obtain rfl | ⟨-, r, hr, -⟩ := hsome
    · rfl
    · simp at hr
  | cons r rs ih =>
    obtain rfl | ⟨hc, r', hr', hne⟩ := hsome
    · exact foldl_contribute_eq_self hv fun r hr _ hne => h r hr hne
    · rw [foldl_cons]
      refine ih (fun r hr => h r (by simp [hr])) ?_
      by_cases he : empty (val r)
      · rw [contribute, if_pos he]
        rcases mem_cons.mp hr' with rfl | hr'
        · exact absurd he hne
        · exact .inr ⟨hc, r', hr', hne⟩
      · rw [contribute, if_neg he, if_pos (.inl hc)]
        exact .inl (h r (by simp) he)

/-- **What an owner contributes is the value.** -/
theorem settled_of_owner (ho : o ∈ l) (howner : owner o) (hne : ¬ empty (val o))
    (hunique : ∀ r ∈ l, owner r → r = o) : settled val empty owner l = some (val o) := by
  cases l with
  | nil => simp at ho
  | cons r rs =>
    rw [settled_cons]
    rcases mem_cons.mp ho with rfl | ho
    · rw [foldl_contribute_eq_self hne]
      intro r hr hro _
      rw [hunique r (by simp [hr]) hro]
    · rw [foldl_contribute_owner ho howner hne fun r hr => hunique r (by simp [hr])]

/-- Without an owner that contributes something, the first value that is not empty stays. -/
theorem settled_of_first {r : A} (howner : ∀ r' ∈ r :: rs, owner r' → empty (val r'))
    (hr : ¬ empty (val r)) : settled val empty owner (r :: rs) = some (val r) := by
  rw [settled_cons]
  rw [foldl_contribute_eq_self hr]
  intro r' hr' hro hne
  exact absurd (howner r' (by simp [hr']) hro) hne

theorem settled_of_empty {r : A} (h : ∀ r' ∈ rs, empty (val r')) :
    settled val empty owner (r :: rs) = some (val r) := by
  rw [settled_cons]
  rw [foldl_contribute_of_empty h]

theorem settled_of_same (hv : ¬ empty v) (h : ∀ r ∈ l, ¬ empty (val r) → val r = v)
    (hsome : ∃ r ∈ l, ¬ empty (val r)) : settled val empty owner l = some v := by
  cases l with
  | nil => simp at hsome
  | cons r rs =>
    rw [settled_cons]
    rw [foldl_contribute_same hv fun r hr => h r (by simp [hr])]
    by_cases he : empty (val r)
    · obtain ⟨r', hr', hne⟩ := hsome
      rcases mem_cons.mp hr' with rfl | hr'
      · exact absurd he hne
      · exact .inr ⟨he, r', hr', hne⟩
    · exact .inl (h r (by simp) he)

/-- Some order of the records starts with any of them. -/
theorem exists_perm_cons {r : A} (hr : r ∈ l) : ∃ rs, (r :: rs).Perm l := by
  obtain ⟨pre, post, rfl⟩ := append_of_mem hr
  exact ⟨pre ++ post, perm_middle.symm⟩

/-- **When the value does not depend on the order** of records with one owner at most. -/
theorem settled_perm_iff (hunique : ∀ r ∈ l, ∀ r' ∈ l, owner r → owner r' → r = r') :
    (∀ l', l'.Perm l → settled val empty owner l' = settled val empty owner l) ↔
      OrderFree val empty owner l := by
  constructor
  · intro h
    by_cases howner : ∃ r ∈ l, owner r ∧ ¬ empty (val r)
    · exact .inl howner
    push Not at howner
    -- each record can come first
    have hfirst : ∀ r ∈ l, (¬ empty (val r) ∨ ∀ r ∈ l, empty (val r)) →
        settled val empty owner l = some (val r) := by
      intro r hr hcase
      obtain ⟨rs, hperm⟩ := exists_perm_cons hr
      rw [← h _ hperm]
      rcases hcase with hne | hempty
      · exact settled_of_first (fun r hr => howner r (hperm.mem_iff.mp hr)) hne
      · exact settled_of_empty fun r' hr' => hempty r' (hperm.mem_iff.mp (by simp [hr']))
    refine .inr ⟨fun r hr r' hr' hne hne' => ?_, fun hempty r hr r' hr' => ?_⟩
    · exact Option.some.inj ((hfirst r hr (.inl hne)).symm.trans (hfirst r' hr' (.inl hne')))
    · exact Option.some.inj
        ((hfirst r hr (.inr hempty)).symm.trans (hfirst r' hr' (.inr hempty)))
  · rintro (⟨o, ho, howner, hne⟩ | ⟨hsame, hempty⟩) l' hperm
    · rw [settled_of_owner ho howner hne fun r hr hro => hunique r hr o ho hro howner,
        settled_of_owner (hperm.mem_iff.mpr ho) howner hne fun r hr hro =>
          hunique r (hperm.mem_iff.mp hr) o ho hro howner]
    · by_cases hsome : ∃ r ∈ l, ¬ empty (val r)
      · obtain ⟨r, hr, hne⟩ := hsome
        have hall : ∀ r' ∈ l, ¬ empty (val r') → val r' = val r := fun r' hr' hne' =>
          hsame r' hr' r hr hne' hne
        rw [settled_of_same hne hall ⟨r, hr, hne⟩, settled_of_same hne
          (fun r' hr' => hall r' (hperm.mem_iff.mp hr')) ⟨r, hperm.mem_iff.mpr hr, hne⟩]
      · push Not at hsome
        cases l with
        | nil => rw [hperm.eq_nil]
        | cons r rs =>
          cases l' with
          | nil => simp at hperm
          | cons r' rs' =>
            rw [settled_of_empty fun r hr => hsome r (mem_cons_of_mem _ hr),
              settled_of_empty fun r hr => hsome r (hperm.mem_iff.mp (mem_cons_of_mem _ hr)),
              hempty hsome r' (hperm.mem_iff.mp (by simp)) r (by simp)]

end Guardian.Order

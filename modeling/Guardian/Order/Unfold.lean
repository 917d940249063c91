import Mathlib.Data.List.Nodup
import Mathlib.Logic.Function.Iterate

/-!
# Search trees

A search steps from a state to the states of a list.  Its tree is unfolded depth first, up to a
number of steps.

* `mem_unfold`: the tree holds what so many steps reach.
* `nodup_unfold_roots`: it holds each state once, if a state tells the one it comes from.
* `filter_unfold`: cutting the branches that lose a property leaves the states that have it.
-/

namespace Guardian.Order

open List
variable {S : Type*}

/-- **The tree** of a search, depth first. -/
def unfold (next : S → List S) : ℕ → S → List S
  | 0, s => [s]
  | n + 1, s => s :: (next s).flatMap (unfold next n)

/-- So many steps lead from one state to the other. -/
inductive Steps (next : S → List S) : ℕ → S → S → Prop
  | refl (s : S) : Steps next 0 s s
  | head {n : ℕ} {s t u : S} (h : t ∈ next s) (hu : Steps next n t u) : Steps next (n + 1) s u

variable {next : S → List S}

theorem Steps.tail {n : ℕ} {s t u : S} (h : Steps next n s t) (hu : u ∈ next t) :
    Steps next (n + 1) s u := by
  induction h with
  | refl s => exact .head hu (.refl u)
  | head hmem _ ih => exact .head hmem (ih hu)

/-- **The tree holds what so many steps reach.** -/
theorem mem_unfold {n : ℕ} {s t : S} : t ∈ unfold next n s ↔ ∃ k ≤ n, Steps next k s t := by
  induction n generalizing s with
  | zero =>
    simp only [unfold, mem_singleton, Nat.le_zero_eq, exists_eq_left]
    constructor
    · rintro rfl
      exact .refl t
    · rintro (_ | _)
      rfl
  | succ n ih =>
    simp only [unfold, mem_cons, mem_flatMap, ih]
    constructor
    · rintro (rfl | ⟨u, hu, k, hk, hsteps⟩)
      · exact ⟨0, Nat.zero_le _, .refl t⟩
      · exact ⟨k + 1, by omega, .head hu hsteps⟩
    · rintro ⟨k, hk, hsteps⟩
      cases hsteps with
      | refl => exact Or.inl rfl
      | head hmem hu => exact Or.inr ⟨_, hmem, _, by omega, hu⟩

/-- **What each step preserves** holds of every state of the tree. -/
theorem Steps.invariant {P : S → Prop} (hstep : ∀ s t, P s → t ∈ next s → P t) {n : ℕ} {s t : S}
    (h : Steps next n s t) (hs : P s) : P t := by
  induction h with
  | refl => exact hs
  | head hmem _ ih => exact ih (hstep _ _ hs hmem)

section Nodup
variable {P : Type*} (proj : S → P) (back : P → P) (size : P → ℕ)
  (hback : ∀ s, ∀ t ∈ next s, back (proj t) = proj s)
  (hsize : ∀ s, ∀ t ∈ next s, size (proj t) = size (proj s) + 1)

include hback in
/-- What is read of a state tells what is read of the states that it comes from. -/
theorem Steps.back_iterate {n : ℕ} {s t : S} (h : Steps next n s t) :
    back^[n] (proj t) = proj s := by
  induction h with
  | refl => rfl
  | head hmem _ ih => rw [Function.iterate_succ_apply', ih, hback _ _ hmem]

include hsize in
theorem Steps.size_eq {n : ℕ} {s t : S} (h : Steps next n s t) :
    size (proj t) = size (proj s) + n := by
  induction h with
  | refl => rfl
  | head hmem _ ih =>
    rw [ih, hsize _ _ hmem]
    omega

include hback hsize

/-- Trees with different roots of one size share no state. -/
theorem root_eq_of_mem_unfold {m n : ℕ} {s t u v : S} (hst : size (proj s) = size (proj t))
    (hu : u ∈ unfold next m s) (hv : v ∈ unfold next n t) (huv : proj u = proj v) :
    proj s = proj t := by
  obtain ⟨j, -, hj⟩ := mem_unfold.mp hu
  obtain ⟨k, -, hk⟩ := mem_unfold.mp hv
  have hlen : j = k := by
    have h1 := hj.size_eq proj size hsize
    have h2 := hk.size_eq proj size hsize
    rw [huv] at h1
    omega
  subst hlen
  rw [← hj.back_iterate proj back hback, huv, hk.back_iterate proj back hback]

theorem nodup_flatMap_unfold {n : ℕ} {roots : List S} (hroots : (roots.map proj).Nodup)
    (hsizes : ∀ s ∈ roots, ∀ t ∈ roots, size (proj s) = size (proj t))
    (hone : ∀ s ∈ roots, ((unfold next n s).map proj).Nodup) :
    ((roots.flatMap (unfold next n)).map proj).Nodup := by
  rw [map_flatMap]
  refine nodup_flatMap.mpr ⟨hone, ?_⟩
  refine (pairwise_map.mp hroots).imp_of_mem fun {s t} hs ht hne => ?_
  intro p hp hq
  obtain ⟨u, hu, rfl⟩ := mem_map.mp hp
  obtain ⟨v, hv, huv⟩ := mem_map.mp hq
  exact hne (root_eq_of_mem_unfold proj back size hback hsize (hsizes s hs t ht) hu hv huv.symm)

/-- The tree holds each state once. -/
theorem nodup_unfold (hnext : ∀ s, ((next s).map proj).Nodup) (n : ℕ) (s : S) :
    ((unfold next n s).map proj).Nodup := by
  induction n generalizing s with
  | zero => exact nodup_singleton _
  | succ n ih =>
    rw [unfold, map_cons]
    refine nodup_cons.mpr ⟨fun hmem => ?_, ?_⟩
    · obtain ⟨u, hu, hproj⟩ := mem_map.mp hmem
      obtain ⟨t, ht, htree⟩ := mem_flatMap.mp hu
      obtain ⟨k, -, hk⟩ := mem_unfold.mp htree
      have h1 := hk.size_eq proj size hsize
      have h2 := hsize s t ht
      rw [hproj] at h1
      omega
    · refine nodup_flatMap_unfold proj back size hback hsize (hnext s)
        (fun t ht u hu => ?_) fun t _ => ih t
      rw [hsize s t ht, hsize s u hu]

/-- **The trees of several roots** hold each state once. -/
theorem nodup_unfold_roots (hnext : ∀ s, ((next s).map proj).Nodup) {n : ℕ} {roots : List S}
    (hroots : (roots.map proj).Nodup)
    (hsizes : ∀ s ∈ roots, ∀ t ∈ roots, size (proj s) = size (proj t)) :
    ((roots.flatMap (unfold next n)).map proj).Nodup :=
  nodup_flatMap_unfold proj back size hback hsize hroots hsizes fun s _ =>
    nodup_unfold proj back size hback hsize hnext n s

end Nodup

section Filter
variable {next' : S → List S} {p : S → Bool} (inv : S → Prop)
  (hp : ∀ s, ∀ t ∈ next s, p t = true → p s = true)
  (hinv : ∀ s, inv s → ∀ t ∈ next s, inv t)

include hp in
/-- A branch that has lost the property does not find it again. -/
theorem filter_unfold_eq_nil {s : S} (hs : p s = false) (n : ℕ) :
    (unfold next n s).filter p = [] := by
  refine filter_eq_nil_iff.mpr fun t ht htrue => ?_
  obtain ⟨k, -, hk⟩ := mem_unfold.mp ht
  have hlost : p t = false :=
    hk.invariant (P := fun u => p u = false) (fun u v hu hv => by
      by_contra hne
      rw [Bool.not_eq_false] at hne
      rw [hp u v hv hne] at hu
      cases hu) hs
  rw [hlost] at htrue
  cases htrue

include hp hinv in
/-- **Cutting the branches that lose a property** leaves the states that have it. -/
theorem filter_unfold (hnext : ∀ s, inv s → p s = true → next' s = (next s).filter p) (n : ℕ)
    {s : S} (hi : inv s) (hs : p s = true) :
    unfold next' n s = (unfold next n s).filter p := by
  induction n generalizing s with
  | zero => simp [unfold, hs]
  | succ n ih =>
    have hrest : ∀ l : List S, (∀ t ∈ l, inv t) →
        (l.filter p).flatMap (unfold next' n) = (l.flatMap (unfold next n)).filter p := by
      intro l hl
      induction l with
      | nil => rfl
      | cons t l ihl =>
        have hrec := ihl fun u hu => hl u (mem_cons_of_mem _ hu)
        rw [flatMap_cons, filter_append, ← hrec, filter_cons]
        cases ht : p t with
        | true => simp [ih (hl t mem_cons_self) ht]
        | false => simp [filter_unfold_eq_nil hp ht]
    rw [unfold, unfold, filter_cons, if_pos hs, hnext s hi hs, hrest _ (hinv s hi)]

end Filter

end Guardian.Order

import Mathlib.Data.List.Sort
import Mathlib.Data.List.Dedup

/-!
# Rankings

A list is sorted by a key, equal keys in the order in which they came.  If no two members have one
key, then the ranking forgets the order of the list, and a cut of it holds the least keys.

* `sortBy_perm_eq`: lists with the same members have the same ranking.
* `sortBy_filter`: a part of the list is ranked as it stands in the whole.
* `key_le_of_take`: what is cut off ranks behind what is kept.
-/

namespace Guardian.Order

open List
variable {α K : Type*} [LinearOrder K]

/-- **The ranking** of a list by a key. -/
def sortBy (key : α → K) (l : List α) : List α := l.insertionSort fun a b => key a ≤ key b

variable (key : α → K)

theorem sortBy_perm (l : List α) : (sortBy key l).Perm l := perm_insertionSort _ l

@[simp] theorem mem_sortBy {l : List α} {a : α} : a ∈ sortBy key l ↔ a ∈ l :=
  (sortBy_perm key l).mem_iff

@[simp] theorem length_sortBy (l : List α) : (sortBy key l).length = l.length :=
  (sortBy_perm key l).length_eq

theorem nodup_sortBy {l : List α} (h : l.Nodup) : (sortBy key l).Nodup :=
  (sortBy_perm key l).nodup_iff.mpr h

theorem pairwise_sortBy (l : List α) : (sortBy key l).Pairwise fun a b => key a ≤ key b := by
  have htotal : Std.Total fun a b : α => key a ≤ key b := ⟨fun a b => le_total (key a) (key b)⟩
  have htrans : IsTrans α fun a b => key a ≤ key b := ⟨fun _ _ _ => le_trans⟩
  exact pairwise_insertionSort _ l

/-- No two members have one key. -/
def KeyInj (l : List α) : Prop := ∀ a ∈ l, ∀ b ∈ l, key a = key b → a = b

variable {key}

omit [LinearOrder K] in
theorem KeyInj.mono {l m : List α} (h : KeyInj key l) (hsub : ∀ a ∈ m, a ∈ l) : KeyInj key m :=
  fun a ha b hb => h a (hsub a ha) b (hsub b hb)

/-- Two lists in the order of their keys with the same members are one. -/
theorem eq_of_pairwise_key {l m : List α} (hinj : KeyInj key l) (hperm : l.Perm m)
    (hl : l.Pairwise fun a b => key a ≤ key b) (hm : m.Pairwise fun a b => key a ≤ key b) :
    l = m := by
  refine Perm.eq_of_pairwise (fun a b ha hb hab hba => ?_) hl hm hperm
  exact hinj a ha b (hperm.mem_iff.mpr hb) (le_antisymm hab hba)

/-- **The ranking forgets the order of the list.** -/
theorem sortBy_perm_eq {l m : List α} (hinj : KeyInj key l) (h : l.Perm m) :
    sortBy key l = sortBy key m := by
  have hperm : (sortBy key l).Perm (sortBy key m) :=
    (sortBy_perm key l).trans (h.trans (sortBy_perm key m).symm)
  have hinj' : KeyInj key (sortBy key l) := hinj.mono fun a ha => (mem_sortBy key).mp ha
  exact eq_of_pairwise_key hinj' hperm (pairwise_sortBy key l) (pairwise_sortBy key m)

/-- The ranking depends on the keys of the members only. -/
theorem sortBy_congr {key' : α → K} {l : List α} (hinj : KeyInj key l)
    (h : ∀ a ∈ l, key' a = key a) : sortBy key' l = sortBy key l := by
  have hperm : (sortBy key' l).Perm (sortBy key l) :=
    (sortBy_perm key' l).trans (sortBy_perm key l).symm
  have hsort : (sortBy key' l).Pairwise fun a b => key a ≤ key b := by
    refine (pairwise_sortBy key' l).imp_of_mem fun {a b} ha hb hab => ?_
    rwa [← h a ((mem_sortBy key').mp ha), ← h b ((mem_sortBy key').mp hb)]
  exact eq_of_pairwise_key (hinj.mono fun a ha => (mem_sortBy key').mp ha) hperm hsort
    (pairwise_sortBy key l)

/-- **A part of the list** is ranked as it stands in the ranking of the whole. -/
theorem sortBy_filter {l : List α} (hinj : KeyInj key l) (p : α → Bool) :
    sortBy key (l.filter p) = (sortBy key l).filter p := by
  have hperm : (sortBy key (l.filter p)).Perm ((sortBy key l).filter p) :=
    (sortBy_perm key _).trans ((sortBy_perm key l).filter p).symm
  have hinj' : KeyInj key (sortBy key (l.filter p)) :=
    hinj.mono fun a ha => mem_of_mem_filter ((mem_sortBy key).mp ha)
  exact eq_of_pairwise_key hinj' hperm (pairwise_sortBy key _)
    ((pairwise_sortBy key l).sublist filter_sublist)

/-- **What is cut off ranks behind what is kept.** -/
theorem key_le_of_take {l : List α} {n : ℕ} {a b : α} (ha : a ∈ (sortBy key l).take n)
    (hb : b ∈ l) (hcut : b ∉ (sortBy key l).take n) : key a ≤ key b := by
  have hpair := pairwise_sortBy key l
  rw [← take_append_drop n (sortBy key l), pairwise_append] at hpair
  have hmem : b ∈ (sortBy key l).take n ++ (sortBy key l).drop n := by
    rw [take_append_drop]
    exact (mem_sortBy key).mpr hb
  have hdrop : b ∈ (sortBy key l).drop n := by
    rcases mem_append.mp hmem with h | h
    · exact absurd h hcut
    · exact h
  exact hpair.2.2 a ha b hdrop

end Guardian.Order

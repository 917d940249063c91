import Guardian.Order.Bucket
import Guardian.Order.Ranking

/-!
# The best of each key

Of the members of a list with one key the best one is kept, and of equals the first.

* `best_spec`: what is kept is one best member for each key.
* `best_perm`, `map_best_perm`: what does not depend on the order of the list.
-/

namespace Guardian.Order

open List
variable {α K R : Type*} [DecidableEq K] [LinearOrder R] (key : α → K) (rank : α → R)

/-- Puts a member in the place of the one with its key, if it is better. -/
def offer (a : α) : List α → List α
  | [] => [a]
  | b :: bs =>
    if key b = key a then (if rank b < rank a then a :: bs else b :: bs) else b :: offer a bs

/-- **The best member of each key.** -/
def best (l : List α) : List α := l.foldl (fun bs a => offer key rank a bs) []

variable {key rank}

theorem best_concat (l : List α) (a : α) :
    best key rank (l ++ [a]) = offer key rank a (best key rank l) := by
  rw [best, foldl_append]
  rfl

theorem map_key_offer (a : α) (bs : List α) :
    (offer key rank a bs).map key =
      if key a ∈ bs.map key then bs.map key else bs.map key ++ [key a] := by
  induction bs with
  | nil => rfl
  | cons b bs ih =>
    unfold offer
    by_cases hb : key b = key a
    · have hmem : key a ∈ (b :: bs).map key := mem_map.mpr ⟨b, mem_cons_self, hb⟩
      rw [if_pos hb, if_pos hmem]
      split_ifs
      · rw [map_cons, map_cons, hb]
      · rfl
    · have hne : ¬ key a = key b := fun heq => hb heq.symm
      rw [if_neg hb, map_cons, ih, map_cons]
      by_cases hmem : key a ∈ bs.map key
      · rw [if_pos hmem, if_pos (mem_cons_of_mem _ hmem)]
      · rw [if_neg hmem, if_neg fun h => (mem_cons.mp h).elim hne hmem, cons_append]

/-- The keys of what is kept, in the order in which they came first. -/
theorem map_key_best (l : List α) : (best key rank l).map key = firsts (l.map key) := by
  induction l using reverseRecOn with
  | nil => rfl
  | append_singleton l a ih =>
    rw [best_concat, map_key_offer, ih, map_append, map_singleton, firsts_concat]

theorem nodup_map_best (l : List α) : ((best key rank l).map key).Nodup := by
  rw [map_key_best]
  exact nodup_firsts _

/-- There is one for each key. -/
theorem exists_best {l : List α} {y : α} (hy : y ∈ l) : ∃ x ∈ best key rank l, key x = key y := by
  have hmem : key y ∈ (best key rank l).map key := by
    rw [map_key_best, mem_firsts]
    exact mem_map_of_mem hy
  exact mem_map.mp hmem

/-- A member that is kept was there, or is new; and no better one is given up for it. -/
theorem mem_offer {a x : α} {bs : List α} (hbs : (bs.map key).Nodup) (hx : x ∈ offer key rank a bs) :
    (x ∈ bs ∧ (key a = key x → rank a ≤ rank x)) ∨
      (x = a ∧ ∀ b ∈ bs, key b = key a → rank b ≤ rank a) := by
  induction bs with
  | nil =>
    obtain rfl := mem_singleton.mp hx
    exact Or.inr ⟨rfl, fun b hb => absurd hb not_mem_nil⟩
  | cons b bs ih =>
    rw [map_cons, nodup_cons] at hbs
    have hother : key b = key a → ∀ c ∈ bs, key c ≠ key a := by
      intro hb c hc heq
      exact hbs.1 (hb.trans heq.symm ▸ mem_map_of_mem hc)
    unfold offer at hx
    split_ifs at hx with hb hlt
    · rcases mem_cons.mp hx with rfl | hx
      · refine Or.inr ⟨rfl, fun c hc heq => ?_⟩
        rcases mem_cons.mp hc with rfl | hc
        · exact hlt.le
        · exact absurd heq (hother hb c hc)
      · exact Or.inl ⟨mem_cons_of_mem _ hx, fun heq => absurd heq.symm (hother hb x hx)⟩
    · rcases mem_cons.mp hx with rfl | hx
      · exact Or.inl ⟨mem_cons_self, fun _ => not_lt.mp hlt⟩
      · exact Or.inl ⟨mem_cons_of_mem _ hx, fun heq => absurd heq.symm (hother hb x hx)⟩
    · rcases mem_cons.mp hx with rfl | hx
      · exact Or.inl ⟨mem_cons_self, fun heq => absurd heq.symm hb⟩
      · rcases ih hbs.2 hx with ⟨hmem, hrank⟩ | ⟨rfl, hrank⟩
        · exact Or.inl ⟨mem_cons_of_mem _ hmem, hrank⟩
        · refine Or.inr ⟨rfl, fun c hc heq => ?_⟩
          rcases mem_cons.mp hc with rfl | hc
          · exact absurd heq hb
          · exact hrank c hc heq

/-- **What is kept** is a best member of its key. -/
theorem best_spec {l : List α} {x : α} (hx : x ∈ best key rank l) :
    x ∈ l ∧ ∀ y ∈ l, key y = key x → rank y ≤ rank x := by
  induction l using reverseRecOn generalizing x with
  | nil => cases hx
  | append_singleton l a ih =>
    rw [best_concat] at hx
    simp only [mem_append, mem_singleton]
    rcases mem_offer (nodup_map_best l) hx with ⟨hmem, hrank⟩ | ⟨rfl, hrank⟩
    · refine ⟨Or.inl (ih hmem).1, ?_⟩
      rintro y (hy | rfl) heq
      · exact (ih hmem).2 y hy heq
      · exact hrank heq
    · refine ⟨Or.inr rfl, ?_⟩
      rintro y (hy | rfl) heq
      · obtain ⟨z, hz, hkey⟩ : ∃ z ∈ best key rank l, key z = key y := exists_best hy
        exact ((ih hz).2 y hy hkey.symm).trans (hrank z hz (hkey.trans heq))
      · exact le_rfl

/-- Lists with the same members keep members of the same keys and ranks. -/
theorem exists_best_of_perm {l m : List α} (h : l.Perm m) {x : α} (hx : x ∈ best key rank l) :
    ∃ y ∈ best key rank m, key y = key x ∧ rank y = rank x := by
  obtain ⟨hmem, hmax⟩ := best_spec hx
  obtain ⟨y, hy, hkey⟩ : ∃ y ∈ best key rank m, key y = key x :=
    exists_best (h.mem_iff.mp hmem)
  obtain ⟨hmem', hmax'⟩ := best_spec hy
  exact ⟨y, hy, hkey, le_antisymm (hmax y (h.mem_iff.mpr hmem') hkey)
    (hmax' x (h.mem_iff.mp hmem) hkey.symm)⟩

/-- Members of one key and one rank are one. -/
def NoTies (key : α → K) (rank : α → R) (l : List α) : Prop :=
  ∀ x ∈ l, ∀ y ∈ l, key x = key y → rank x = rank y → x = y

/-- **Without ties** the same is kept, in some order. -/
theorem best_perm {l m : List α} (h : l.Perm m) (hties : NoTies key rank l) :
    (best key rank l).Perm (best key rank m) := by
  have hsub : ∀ {l m : List α}, l.Perm m → NoTies key rank l → ∀ x ∈ best key rank l,
      x ∈ best key rank m := by
    intro l m h hties x hx
    obtain ⟨y, hy, hkey, hrank⟩ := exists_best_of_perm h hx
    obtain rfl := hties y (h.mem_iff.mpr (best_spec hy).1) x (best_spec hx).1 hkey hrank
    exact hy
  have hties' : NoTies key rank m := fun x hx y hy =>
    hties x (h.mem_iff.mpr hx) y (h.mem_iff.mpr hy)
  rw [perm_ext_iff_of_nodup ((nodup_map_best l).of_map key) ((nodup_map_best m).of_map key)]
  exact fun x => ⟨hsub h hties x, hsub h.symm hties' x⟩

/-- **The keys and ranks** of what is kept are the same, in some order. -/
theorem map_best_perm {l m : List α} (h : l.Perm m) :
    ((best key rank l).map fun x => (key x, rank x)).Perm
      ((best key rank m).map fun x => (key x, rank x)) := by
  have hnodup : ∀ l : List α, ((best key rank l).map fun x => (key x, rank x)).Nodup := by
    intro l
    refine Nodup.of_map Prod.fst ?_
    rw [map_map]
    exact nodup_map_best l
  have hsub : ∀ {l m : List α}, l.Perm m → ∀ p ∈ (best key rank l).map fun x => (key x, rank x),
      p ∈ (best key rank m).map fun x => (key x, rank x) := by
    intro l m h p hp
    obtain ⟨x, hx, rfl⟩ := mem_map.mp hp
    obtain ⟨y, hy, hkey, hrank⟩ := exists_best_of_perm h hx
    exact mem_map.mpr ⟨y, hy, by rw [hkey, hrank]⟩
  rw [perm_ext_iff_of_nodup (hnodup l) (hnodup m)]
  exact fun p => ⟨hsub h p, hsub h.symm p⟩

end Guardian.Order

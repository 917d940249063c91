import Guardian.Order.Ranking
import Guardian.Order.Table
import Mathlib.Data.List.Induction

/-!
# Filing

Items are filed one after the other into a table: each goes into the row of its key, which is then
shown in the order of the keys, or cut after some rows.

* `rowOf_filed`: a row is made of the items of its key, in the order in which they came.
* `mem_take_sortBy_iff`: the keys that are shown.
* `take_map_eq_iff`, `map_perm_iff`: two tables show the same, hold the same.
* `findSome_perm_iff`: what members of a list tell first.
* `filed_perm_iff`: where a row shows what its first item says, the table does not depend on the
  order of the items exactly if the items of a key that is shown say the same.
-/

namespace Guardian.Order

open List
/-! ### Tables in the order of their keys -/

section Ranked
variable {α B K L : Type*} [DecidableEq K] [LinearOrder L] {key : α → K} {rank : K → L}

omit [DecidableEq K] [LinearOrder L] in
theorem keyInj_of_injective {B : Type*} {rank : B → L} (h : Function.Injective rank) (l : List B) :
    KeyInj rank l := fun _ _ _ _ heq => h heq

omit [DecidableEq K] in
/-- The keys of a ranked table are ranked. -/
theorem map_key_sortBy (hrank : Function.Injective rank) (rows : List α) :
    (sortBy (rank ∘ key) rows).map key = sortBy rank (rows.map key) := by
  have hperm : ((sortBy (rank ∘ key) rows).map key).Perm (sortBy rank (rows.map key)) :=
    ((sortBy_perm _ rows).map key).trans (sortBy_perm rank _).symm
  refine eq_of_pairwise_key (keyInj_of_injective hrank _) hperm ?_ (pairwise_sortBy rank _)
  rw [pairwise_map]
  exact pairwise_sortBy (rank ∘ key) rows

/-- A ranked table is the rows of its ranked keys. -/
theorem map_some_sortBy (hrank : Function.Injective rank) {rows : List α}
    (hrows : (rows.map key).Nodup) :
    (sortBy (rank ∘ key) rows).map some =
      (sortBy rank (rows.map key)).map fun k => rowOf key k rows := by
  rw [← map_key_sortBy hrank, map_map]
  refine map_congr_left fun r hr => ?_
  rw [mem_sortBy] at hr
  exact ((mem_iff_rowOf hrows).mp hr).symm

omit [DecidableEq K] in
/-- **What is shown of a table** is what fewer than so many come before. -/
theorem mem_take_iff {l : List α} {r : α → L} (hl : l.Pairwise fun a b => r a < r b) {n : ℕ}
    {a : α} : a ∈ l.take n ↔ a ∈ l ∧ (l.filter fun b => r b < r a).length < n := by
  induction l generalizing n with
  | nil => simp
  | cons b l ih =>
    obtain ⟨hb, hl⟩ := pairwise_cons.mp hl
    rcases n with _ | n
    · simp
    rw [take_succ_cons, mem_cons, mem_cons, ih hl]
    have hnone : l.filter (fun c => decide (r c < r b)) = [] :=
      filter_eq_nil_iff.mpr fun c hc => by simpa using (hb c hc).le
    by_cases hab : a = b
    · subst hab
      simp [hnone]
    · simp only [hab, false_or]
      refine and_congr_right fun ha => ?_
      rw [filter_cons_of_pos (by simpa using hb a ha), length_cons]
      exact Nat.succ_lt_succ_iff.symm

omit [DecidableEq K] in
theorem mem_take_sortBy_iff {rank : K → L} (hrank : Function.Injective rank) {l : List K}
    (hl : l.Nodup) {n : ℕ} {k : K} :
    k ∈ (sortBy rank l).take n ↔ k ∈ l ∧ (l.filter fun j => rank j < rank k).length < n := by
  have hne : (sortBy rank l).Pairwise (· ≠ ·) := nodup_sortBy rank hl
  have hlt : (sortBy rank l).Pairwise fun a b => rank a < rank b :=
    ((pairwise_sortBy rank l).and hne).imp fun h => lt_of_le_of_ne h.1 fun heq => h.2 (hrank heq)
  rw [mem_take_iff hlt, mem_sortBy, ((sortBy_perm rank l).filter _).length_eq]

/-- **Two tables with the same keys show the same** if the rows of the keys that are shown do. -/
theorem take_map_eq_iff (hrank : Function.Injective rank) {rows rows' : List α}
    (hrows : (rows.map key).Nodup) (hperm : (rows.map key).Perm (rows'.map key)) (n : ℕ)
    (out : α → B) :
    ((sortBy (rank ∘ key) rows').take n).map out = ((sortBy (rank ∘ key) rows).take n).map out ↔
      ∀ k ∈ (sortBy rank (rows.map key)).take n,
        (rowOf key k rows').map out = (rowOf key k rows).map out := by
  have hrows' := hperm.nodup_iff.mp hrows
  have hkeys : sortBy rank (rows'.map key) = sortBy rank (rows.map key) :=
    sortBy_perm_eq (keyInj_of_injective hrank _) hperm.symm
  have hshow : ∀ {rows : List α}, (rows.map key).Nodup →
      (((sortBy (rank ∘ key) rows).take n).map out).map some =
        ((sortBy rank (rows.map key)).take n).map fun k => (rowOf key k rows).map out := by
    intro rows hrows
    have htake := congrArg (fun l => (l.take n).map (Option.map out)) (map_some_sortBy hrank hrows)
    simp only [← map_take, map_map] at htake
    rw [map_map]
    exact htake
  rw [← (map_injective_iff.mpr (Option.some_injective B)).eq_iff, hshow hrows, hshow hrows',
    hkeys, map_inj_left]

omit [LinearOrder L] in
/-- **Two tables hold the same**, in whatever order, if the rows of each key do. -/
theorem map_perm_iff {rows rows' : List α} (hrows : (rows.map key).Nodup)
    (hrows' : (rows'.map key).Nodup) (out : α → B) :
    (rows'.map fun r => (key r, out r)).Perm (rows.map fun r => (key r, out r)) ↔
      ∀ k, (rowOf key k rows').map out = (rowOf key k rows).map out := by
  have hnodup : ∀ {rows : List α}, (rows.map key).Nodup →
      (rows.map fun r => (key r, out r)).Nodup := by
    intro rows hrows
    refine Nodup.of_map Prod.fst ?_
    rwa [map_map]
  have hmem : ∀ {rows : List α}, (rows.map key).Nodup → ∀ k b,
      (k, b) ∈ rows.map (fun r => (key r, out r)) ↔ (rowOf key k rows).map out = some b := by
    intro rows hrows k b
    rw [mem_map, Option.map_eq_some_iff]
    refine exists_congr fun r => ?_
    constructor
    · rintro ⟨hr, heq⟩
      obtain ⟨rfl, rfl⟩ := Prod.mk.inj heq
      exact ⟨(mem_iff_rowOf hrows).mp hr, rfl⟩
    · rintro ⟨hr, rfl⟩
      obtain ⟨hmem, hk⟩ := of_rowOf hr
      exact ⟨hmem, by rw [hk]⟩
  rw [perm_ext_iff_of_nodup (hnodup hrows') (hnodup hrows), Prod.forall]
  refine forall_congr' fun k => ?_
  constructor
  · intro h
    refine Option.ext fun b => ?_
    rw [← hmem hrows', ← hmem hrows]
    exact h b
  · intro h b
    rw [hmem hrows', hmem hrows, h]

end Ranked

/-! ### What comes first -/

section First
variable {α β : Type*}

/-- **What comes first** of that which members of a list tell does not depend on their order exactly
if they tell the same. -/
theorem findSome_perm_iff (g : α → Option β) (l : List α) :
    (∀ l', l.Perm l' → l'.findSome? g = l.findSome? g) ↔
      ∀ a ∈ l, ∀ b ∈ l, ∀ x ∈ g a, ∀ y ∈ g b, x = y := by
  constructor
  · intro h a ha b hb x hx y hy
    have hfirst : ∀ a ∈ l, ∀ x ∈ g a, l.findSome? g = some x := by
      intro a ha x hx
      obtain ⟨pre, post, rfl⟩ := append_of_mem ha
      rw [← h _ perm_middle, findSome?_cons, Option.mem_def.mp hx]
    exact Option.some.inj ((hfirst a ha x hx).symm.trans (hfirst b hb y hy))
  · intro h l' hperm
    have hsome : ∀ {l' : List α}, l.Perm l' → ∀ x,
        l'.findSome? g = some x ↔ ∃ a ∈ l, g a = some x := by
      intro l' hperm x
      constructor
      · intro hx
        obtain ⟨a, ha, hax⟩ := exists_of_findSome?_eq_some hx
        exact ⟨a, hperm.mem_iff.mpr ha, hax⟩
      · rintro ⟨a, ha, hx⟩
        rcases hl : l'.findSome? g with _ | y
        · have hnone := findSome?_eq_none_iff.mp hl a (hperm.mem_iff.mp ha)
          rw [hx] at hnone
          exact absurd hnone (by simp)
        · obtain ⟨b, hb, hy⟩ := exists_of_findSome?_eq_some hl
          rw [h b (hperm.mem_iff.mpr hb) a ha y hy x hx]
    refine Option.ext fun x => ?_
    rw [hsome hperm, hsome (Perm.refl _)]

end First

/-! ### Items -/

section Filed
variable {I α B K L V : Type*} [DecidableEq K] (kOf : I → K) (key : α → K)
  (write : I → Option α → α)

/-- **The table** that items are filed into. -/
def filed (items : List I) : List α :=
  items.foldl (fun rows i => amend key (kOf i) (write i) rows) []

/-- What items make of one row. -/
def gathered (items : List I) : Option α := items.foldl (fun r i => some (write i r)) none

/-- An item goes into the row of its key. -/
def Keyed : Prop := ∀ i r, (∀ s ∈ r, key s = kOf i) → key (write i r) = kOf i

variable {kOf key write}

theorem filed_concat (items : List I) (i : I) :
    filed kOf key write (items ++ [i]) =
      amend key (kOf i) (write i) (filed kOf key write items) := by
  rw [filed, foldl_append]
  rfl

/-- **A row** is made of the items of its key. -/
theorem rowOf_filed (h : Keyed kOf key write) (k : K) (items : List I) :
    rowOf key k (filed kOf key write items) =
      gathered write (items.filter fun i => kOf i = k) := by
  induction items using reverseRecOn with
  | nil => rfl
  | append_singleton items i ih =>
    rw [filed_concat, rowOf_amend (h i), filter_append]
    by_cases hk : k = kOf i
    · have hone : [i].filter (fun i => decide (kOf i = k)) = [i] := by simp [hk]
      rw [if_pos hk, hone, gathered, foldl_append, ← gathered, ← ih, hk]
      rfl
    · have hnone : [i].filter (fun i => decide (kOf i = k)) = [] := by simp [Ne.symm hk]
      rw [if_neg hk, hnone, append_nil, ih]

theorem nodup_filed (h : Keyed kOf key write) (items : List I) :
    ((filed kOf key write items).map key).Nodup := by
  induction items using reverseRecOn with
  | nil => exact nodup_nil
  | append_singleton items i ih =>
    rw [filed_concat]
    exact nodup_amend (h i) ih

theorem mem_keys_filed (h : Keyed kOf key write) {k : K} {items : List I} :
    k ∈ (filed kOf key write items).map key ↔ ∃ i ∈ items, kOf i = k := by
  induction items using reverseRecOn with
  | nil => simp [filed]
  | append_singleton items i ih =>
    rw [filed_concat, keys_amend (h i)]
    split_ifs with hmem
    · rw [ih]
      constructor
      · rintro ⟨j, hj, hk⟩
        exact ⟨j, mem_append_left _ hj, hk⟩
      · rintro ⟨j, hj, hk⟩
        rcases mem_append.mp hj with hj | hj
        · exact ⟨j, hj, hk⟩
        · rw [mem_singleton.mp hj] at hk
          exact ih.mp (hk ▸ hmem)
    · simp [ih, or_and_right, exists_or, eq_comm]

/-- Items in another order make the same keys. -/
theorem keys_filed_perm (h : Keyed kOf key write) {items items' : List I}
    (hperm : items.Perm items') :
    ((filed kOf key write items).map key).Perm ((filed kOf key write items').map key) := by
  rw [perm_ext_iff_of_nodup (nodup_filed h _) (nodup_filed h _)]
  intro k
  rw [mem_keys_filed h, mem_keys_filed h]
  exact exists_congr fun i => and_congr_left fun _ => hperm.mem_iff

/-! ### The order of the items -/

variable (kOf key write) in
/-- **A row shows what its first item says**, and that is all there is to it if the others say the
same. -/
structure FirstSpeaks (out : α → B) (voice : I → V) : Prop where
  tells : ∀ i j is js, (∀ l ∈ is, kOf l = kOf i) → (∀ l ∈ js, kOf l = kOf j) →
    (gathered write (i :: is)).map out = (gathered write (j :: js)).map out → voice i = voice j
  same : ∀ i j is js, (∀ l ∈ is, kOf l = kOf i ∧ voice l = voice i) →
    (∀ l ∈ j :: js, kOf l = kOf i ∧ voice l = voice i) →
      (gathered write (i :: is)).map out = (gathered write (j :: js)).map out

variable (kOf) in
/-- A member of a list comes first in another order. -/
theorem exists_perm_filter {items : List I} {i : I} (hi : i ∈ items) :
    ∃ is, items.Perm (i :: is) ∧
      (i :: is).filter (fun j => kOf j = kOf i) = i :: is.filter fun j => kOf j = kOf i := by
  obtain ⟨pre, post, rfl⟩ := append_of_mem hi
  exact ⟨pre ++ post, perm_middle, filter_cons_of_pos (by simp)⟩

/-- The orders of some items are those of the ones that are kept, for what reads only these. -/
theorem forall_perm_filter_iff (items : List I) (p : I → Bool) {P : List I → Prop} :
    (∀ items', items.Perm items' → P (items'.filter p)) ↔
      ∀ is, (items.filter p).Perm is → P is := by
  constructor
  · intro h is his
    have hfilter : (is ++ items.filter fun i => !p i).filter p = is := by
      rw [filter_append, filter_eq_self.mpr, filter_eq_nil_iff.mpr,
        append_nil]
      · intro i hi
        simpa using (mem_filter.mp hi).2
      · exact fun i hi => (mem_filter.mp (his.mem_iff.mpr hi)).2
    rw [← hfilter]
    exact h _ ((filter_append_perm p items).symm.trans (his.append_right _))
  · exact fun h items' hperm => h _ (hperm.filter p)

omit [DecidableEq K] in
/-- Items of one key that say the same show the same in another order. -/
theorem FirstSpeaks.gathered_perm {out : α → B} {voice : I → V}
    (hvoice : FirstSpeaks kOf write out voice) {is is' : List I} (hperm : is.Perm is')
    (hsame : ∀ i ∈ is, ∀ j ∈ is, kOf i = kOf j ∧ voice i = voice j) :
    (gathered write is').map out = (gathered write is).map out := by
  rcases is with _ | ⟨i, is⟩
  · rw [hperm.nil_eq]
  rcases is' with _ | ⟨j, js⟩
  · exact absurd hperm.length_eq (by simp)
  have hfirst : ∀ l ∈ i :: is, kOf l = kOf i ∧ voice l = voice i :=
    fun l hl => hsame l hl i mem_cons_self
  exact (hvoice.same i j is js (fun l hl => hfirst l (mem_cons_of_mem _ hl))
    fun l hl => hfirst l (hperm.mem_iff.mpr hl)).symm

/-- **The order of the items does not matter** for what is shown exactly if the items of each key
that is shown say the same. -/
theorem filed_perm_iff [LinearOrder L] {rank : K → L} (hrank : Function.Injective rank)
    (h : Keyed kOf key write) {out : α → B} {voice : I → V}
    (hvoice : FirstSpeaks kOf write out voice) (items : List I) (n : ℕ) :
    (∀ items', items.Perm items' →
        ((sortBy (rank ∘ key) (filed kOf key write items')).take n).map out =
          ((sortBy (rank ∘ key) (filed kOf key write items)).take n).map out) ↔
      ∀ i ∈ items, ∀ j ∈ items, kOf i = kOf j →
        kOf i ∈ (sortBy rank ((filed kOf key write items).map key)).take n → voice i = voice j := by
  have hrow : ∀ items', items.Perm items' →
      (((sortBy (rank ∘ key) (filed kOf key write items')).take n).map out =
          ((sortBy (rank ∘ key) (filed kOf key write items)).take n).map out ↔
        ∀ k ∈ (sortBy rank ((filed kOf key write items).map key)).take n,
          (gathered write (items'.filter fun i => kOf i = k)).map out =
            (gathered write (items.filter fun i => kOf i = k)).map out) := by
    intro items' hperm
    rw [take_map_eq_iff hrank (nodup_filed h _) (keys_filed_perm h hperm)]
    simp only [rowOf_filed h]
  have hkey : ∀ (items : List I) (k : K), ∀ l ∈ items.filter fun i => kOf i = k, kOf l = k :=
    fun items k l hl => by simpa using (mem_filter.mp hl).2
  constructor
  · intro hall i hi j hj hij hk
    obtain ⟨is, hperm, hfilter⟩ := exists_perm_filter kOf hi
    obtain ⟨js, hperm', hfilter'⟩ := exists_perm_filter kOf hj
    have hfirst := (hrow _ hperm).mp (hall _ hperm) _ hk
    have hsecond := (hrow _ hperm').mp (hall _ hperm') _ hk
    rw [hfilter] at hfirst
    rw [hij, hfilter', ← hij] at hsecond
    exact hvoice.tells i j _ _ (hkey _ _) (hij ▸ hkey _ _) (hfirst.trans hsecond.symm)
  · intro hsame items' hperm
    rw [hrow _ hperm]
    intro k hk
    refine hvoice.gathered_perm (hperm.filter _) fun i hi j hj => ?_
    have hki : kOf i = k := hkey _ _ i hi
    have hij : kOf i = kOf j := hki.trans (hkey _ _ j hj).symm
    exact ⟨hij, hsame i (mem_filter.mp hi).1 j (mem_filter.mp hj).1 hij (hki ▸ hk)⟩

/-- The same where every key is shown. -/
theorem filed_perm_iff_of_all [LinearOrder L] {rank : K → L} (hrank : Function.Injective rank)
    (h : Keyed kOf key write) {out : α → B} {voice : I → V}
    (hvoice : FirstSpeaks kOf write out voice) (items : List I) :
    (∀ items', items.Perm items' →
        (sortBy (rank ∘ key) (filed kOf key write items')).map out =
          (sortBy (rank ∘ key) (filed kOf key write items)).map out) ↔
      ∀ i ∈ items, ∀ j ∈ items, kOf i = kOf j → voice i = voice j := by
  have htake : ∀ items', items.Perm items' →
      (sortBy (rank ∘ key) (filed kOf key write items')).take (filed kOf key write items).length =
        sortBy (rank ∘ key) (filed kOf key write items') := by
    intro items' hperm
    have hlength := (keys_filed_perm h hperm).length_eq
    rw [length_map, length_map] at hlength
    exact take_of_length_le (((sortBy_perm _ _).length_eq.trans hlength.symm).le)
  have hmem : ∀ i ∈ items, kOf i ∈
      (sortBy rank ((filed kOf key write items).map key)).take (filed kOf key write items).length := by
    intro i hi
    rw [take_of_length_le (by rw [(sortBy_perm _ _).length_eq, length_map]), mem_sortBy,
      mem_keys_filed h]
    exact ⟨i, hi, rfl⟩
  have hmain := filed_perm_iff hrank h hvoice items (filed kOf key write items).length
  constructor
  · intro hall i hi j hj hij
    refine hmain.mp (fun items' hperm => ?_) i hi j hj hij (hmem i hi)
    rw [htake _ hperm, htake _ (Perm.refl _), hall _ hperm]
  · intro hsame items' hperm
    have hshown := hmain.mpr (fun i hi j hj hij _ => hsame i hi j hj hij) items' hperm
    rwa [htake _ hperm, htake _ (Perm.refl _)] at hshown

end Filed

end Guardian.Order

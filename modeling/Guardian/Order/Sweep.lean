import Mathlib.Data.List.Nodup

/-!
# Sweeps over a table

A table holds a value for some keys.  A sweep recomputes the values of some items one after the
other, each from the table as it is by then.  Where an item looks only at keys of a lower level, every
sweep settles one more level, in whatever order the items stand.

* `Settled.sweep`: a sweep settles one more level.
* `Settled.eq_of_arises`: what is settled does not depend on how the table came about.
* `fresh_of_sweep_eq`: a sweep that changes nothing leaves nothing to recompute.
* `settled_sweeps`: sweeps that may stop early.
-/

namespace Guardian.Order

open List
variable {I K V : Type*} [DecidableEq K] (key : I → K) (compute : (K → Option V) → I → V)

/-- Recomputes the value of an item. -/
def refresh (T : K → Option V) (i : I) : K → Option V :=
  Function.update T (key i) (some (compute T i))

/-- **A sweep** recomputes the values of some items one after the other. -/
def sweep (is : List I) (T : K → Option V) : K → Option V := is.foldl (refresh key compute) T

/-- **Up to so many sweeps**: they stop after one that leaves the table the same. -/
def sweeps (same : (K → Option V) → (K → Option V) → Bool) (is : List I) :
    ℕ → (K → Option V) → K → Option V
  | 0, T => T
  | n + 1, T =>
    let T' := sweep key compute is T
    if same T T' then T' else sweeps same is n T'

/-- The table holds what recomputing the item would give. -/
def Fresh (T : K → Option V) (i : I) : Prop := T (key i) = some (compute T i)

/-- **The tables that recomputing items may lead to**, from the one without values. -/
inductive Arises (is : List I) : (K → Option V) → Prop
  | empty : Arises is fun _ => none
  | refresh {T : K → Option V} {i : I} (hi : i ∈ is) (h : Arises is T) :
      Arises is (refresh key compute T i)

/-- **The items look only at keys of a lower level.** -/
def Layered (level : K → ℕ) (is : List I) : Prop :=
  ∀ i ∈ is, ∀ T T', Arises key compute is T → Arises key compute is T' →
    (∀ k, level k < level (key i) → T k = T' k) → compute T i = compute T' i

/-- The items below a level are settled. -/
def Settled (level : K → ℕ) (is : List I) (n : ℕ) (T : K → Option V) : Prop :=
  ∀ i ∈ is, level (key i) < n → Fresh key compute T i

variable {key compute}

section Sweeps
variable {same : (K → Option V) → (K → Option V) → Bool} {is : List I} {T : K → Option V}

theorem sweeps_one : sweeps key compute same is 1 T = sweep key compute is T := by
  unfold sweeps
  exact ite_self _

theorem sweeps_succ (h : same T (sweep key compute is T) = false) (n : ℕ) :
    sweeps key compute same is (n + 1) T =
      sweeps key compute same is n (sweep key compute is T) := by
  rw [sweeps, h]
  rfl

/-- The sweeps end with a sweep. -/
theorem exists_sweep {P : (K → Option V) → Prop} (hT : P T)
    (hstep : ∀ T, P T → P (sweep key compute is T)) (n : ℕ) :
    ∃ T', P T' ∧ sweeps key compute same is (n + 1) T = sweep key compute is T' := by
  induction n generalizing T with
  | zero => exact ⟨T, hT, sweeps_one⟩
  | succ n ih =>
    cases hsame : same T (sweep key compute is T) with
    | false =>
      rw [sweeps_succ hsame]
      exact ih (hstep T hT)
    | true =>
      refine ⟨T, hT, ?_⟩
      rw [sweeps, hsame]
      rfl

end Sweeps

variable {T : K → Option V} {is : List I}

theorem Arises.mono {js : List I} (h : ∀ i ∈ is, i ∈ js)
    (hT : Arises key compute is T) : Arises key compute js T := by
  induction hT with
  | empty => exact .empty
  | refresh hi _ ih => exact .refresh (h _ hi) ih

theorem Arises.sweep {ms : List I} (h : ∀ i ∈ ms, i ∈ is)
    (hT : Arises key compute is T) : Arises key compute is (sweep key compute ms T) := by
  induction ms generalizing T with
  | nil => exact hT
  | cons i ms ih =>
    exact ih (fun j hj => h j (mem_cons_of_mem _ hj)) (.refresh (h i mem_cons_self) hT)

/-- A key that is no item's has no value. -/
theorem Arises.none (hT : Arises key compute is T) {k : K} (hk : k ∉ is.map key) : T k = none := by
  induction hT with
  | empty => rfl
  | refresh hi _ ih =>
    have hne : k ≠ key _ := fun heq => hk (heq ▸ mem_map_of_mem hi)
    rw [Order.refresh, Function.update_of_ne hne, ih]

omit [DecidableEq K] in
theorem Settled.mono {level : K → ℕ} {is : List I} {m n : ℕ} (hmn : m ≤ n) {T : K → Option V}
    (h : Settled key compute level is n T) : Settled key compute level is m T :=
  fun i hi hlt => h i hi (by omega)

theorem Layered.perm {level : K → ℕ} {js : List I} (h : Layered key compute level is)
    (hperm : js.Perm is) : Layered key compute level js :=
  fun i hi T T' hT hT' => h i (hperm.mem_iff.mp hi) T T' (hT.mono fun _ => hperm.mem_iff.mp)
    (hT'.mono fun _ => hperm.mem_iff.mp)

/-- A sweep leaves a value for each of its items. -/
theorem isSome_sweep {i : I} (hi : i ∈ is) (T : K → Option V) :
    (sweep key compute is T (key i)).isSome := by
  have hkeep : ∀ (ms : List I) (T : K → Option V), (T (key i)).isSome →
      (sweep key compute ms T (key i)).isSome := by
    intro ms
    induction ms with
    | nil => exact fun _ h => h
    | cons j ms ih =>
      intro T h
      refine ih _ ?_
      by_cases hj : key i = key j
      · rw [Order.refresh, hj, Function.update_self]
        rfl
      · rwa [Order.refresh, Function.update_of_ne hj]
  induction is generalizing T with
  | nil => cases hi
  | cons j is ih =>
    rcases mem_cons.mp hi with rfl | hi
    · refine hkeep is _ ?_
      rw [Order.refresh, Function.update_self]
      rfl
    · exact ih hi _

/-! ### Levels -/

section Layered
variable {level : K → ℕ} {is : List I} (hlayered : Layered key compute level is)
  (hkeys : (is.map key).Nodup) {T : K → Option V} {n : ℕ}

omit [DecidableEq K] in
/-- Two items with one key are one. -/
theorem eq_of_key (hkeys : (is.map key).Nodup) {i j : I} (hi : i ∈ is) (hj : j ∈ is)
    (h : key i = key j) : i = j := inj_on_of_nodup_map hkeys hi hj h

include hlayered hkeys

/-- What recomputing an item does to those that are settled up to its level. -/
theorem fresh_refresh (hT : Arises key compute is T) (hs : Settled key compute level is n T) {i j : I}
    (hi : i ∈ is) (hj : j ∈ is) (hlevel : level (key j) ≤ n) (h : Fresh key compute T j ∨ j = i) :
    Fresh key compute (refresh key compute T i) j := by
  have hlow : ∀ k, level k < n → refresh key compute T i k = T k := by
    intro k hk
    by_cases hki : k = key i
    · subst hki
      rw [refresh, Function.update_self, hs i hi hk]
    · rw [refresh, Function.update_of_ne hki]
  have hsame : compute (refresh key compute T i) j = compute T j :=
    hlayered j hj _ _ (.refresh hi hT) hT fun k hk => hlow k (by omega)
  unfold Fresh
  rw [hsame]
  by_cases hji : key j = key i
  · obtain rfl := eq_of_key hkeys hj hi hji
    rw [refresh, Function.update_self]
  · rcases h with h | rfl
    · rwa [refresh, Function.update_of_ne hji]
    · exact absurd rfl hji

theorem Settled.refresh (hT : Arises key compute is T) (hs : Settled key compute level is n T) {i : I}
    (hi : i ∈ is) : Settled key compute level is n (refresh key compute T i) :=
  fun j hj hlt => fresh_refresh hlayered hkeys hT hs hi hj (by omega) (Or.inl (hs j hj hlt))

/-- **A sweep settles one more level.** -/
theorem Settled.sweep (hT : Arises key compute is T) (hs : Settled key compute level is n T) :
    Settled key compute level is (n + 1) (sweep key compute is T) := by
  suffices hmain : ∀ ms : List I, (∀ i ∈ ms, i ∈ is) → ∀ T, Arises key compute is T →
      Settled key compute level is n T → ∀ j ∈ is, level (key j) ≤ n →
        (Fresh key compute T j ∨ j ∈ ms) → Fresh key compute (Order.sweep key compute ms T) j from
    fun j hj hlt => hmain is (fun _ h => h) T hT hs j hj (by omega) (Or.inr hj)
  intro ms
  induction ms with
  | nil =>
    rintro - T - - j - - (h | h)
    · exact h
    · cases h
  | cons i ms ih =>
    intro hms T hT hs j hj hlevel h
    have hi := hms i mem_cons_self
    refine ih (fun k hk => hms k (mem_cons_of_mem _ hk)) _ (.refresh hi hT)
      (hs.refresh hlayered hkeys hT hi) j hj hlevel ?_
    rcases h with h | h
    · exact Or.inl (fresh_refresh hlayered hkeys hT hs hi hj hlevel (Or.inl h))
    · rcases mem_cons.mp h with rfl | h
      · exact Or.inl (fresh_refresh hlayered hkeys hT hs hi hj hlevel (Or.inr rfl))
      · exact Or.inr h

omit hkeys in
/-- **What is settled does not depend on how the table came about.** -/
theorem Settled.eq_of_arises {T' : K → Option V} (hT : Arises key compute is T)
    (hT' : Arises key compute is T') (hs : Settled key compute level is n T)
    (hs' : Settled key compute level is n T') {k : K} (hk : level k < n) : T k = T' k := by
  induction hl : level k using Nat.strongRecOn generalizing k with
  | ind l ih =>
    by_cases hmem : k ∈ is.map key
    · obtain ⟨i, hi, rfl⟩ := mem_map.mp hmem
      have hsame : compute T i = compute T' i :=
        hlayered i hi T T' hT hT' fun k' hk' => ih (level k') (by omega) (by omega) rfl
      rw [hs i hi hk, hs' i hi hk, hsame]
    · rw [hT.none hmem, hT'.none hmem]

end Layered

/-- **A sweep that changes nothing** leaves nothing to recompute. -/
theorem fresh_of_sweep_eq (hkeys : (is.map key).Nodup)
    (h : sweep key compute is T = T) {i : I} (hi : i ∈ is) : Fresh key compute T i := by
  have hkeep : ∀ (ms : List I) (T : K → Option V) (k : K), k ∉ ms.map key →
      sweep key compute ms T k = T k := by
    intro ms
    induction ms with
    | nil => exact fun _ _ _ => rfl
    | cons j ms ih =>
      intro T k hk
      rw [map_cons, mem_cons, not_or] at hk
      rw [sweep, foldl_cons, ← sweep, ih _ _ hk.2, refresh, Function.update_of_ne hk.1]
  induction is with
  | nil => cases hi
  | cons j is ih =>
    rw [map_cons, nodup_cons] at hkeys
    have hj : Fresh key compute T j := by
      have hvalue := congrFun h (key j)
      rw [sweep, foldl_cons, ← sweep, hkeep _ _ _ hkeys.1, refresh,
        Function.update_self] at hvalue
      exact hvalue.symm
    have hrefresh : refresh key compute T j = T := by
      rw [refresh, ← hj, Function.update_eq_self]
    rcases mem_cons.mp hi with rfl | hi
    · exact hj
    · rw [sweep, foldl_cons, hrefresh, ← sweep] at h
      exact ih hkeys.2 h hi

/-- **Sweeps that may stop early** settle all levels, if a sweep after which they stop does. -/
theorem settled_sweeps {level : K → ℕ} (hlayered : Layered key compute level is)
    (hkeys : (is.map key).Nodup) {same : (K → Option V) → (K → Option V) → Bool} {m N : ℕ}
    (hstop : ∀ T, Arises key compute is T → Settled key compute level is m T →
      same T (sweep key compute is T) → Settled key compute level is N (sweep key compute is T))
    (fuel n : ℕ) (hT : Arises key compute is T)
    (hs : Settled key compute level is n T) (hm : m ≤ n) (hN : N ≤ n + fuel) :
    Settled key compute level is N (sweeps key compute same is fuel T) := by
  induction fuel generalizing n T with
  | zero => exact hs.mono hN
  | succ fuel ih =>
    have hnext := hs.sweep hlayered hkeys hT
    unfold sweeps
    dsimp only
    split_ifs with hsame
    · exact hstop T hT (hs.mono hm) hsame
    · exact ih (n + 1) (hT.sweep fun _ h => h) hnext (by omega) (by omega)

/-- The tables of the sweeps arise. -/
theorem Arises.sweeps {same : (K → Option V) → (K → Option V) → Bool} (fuel : ℕ)
    (hT : Arises key compute is T) :
    Arises key compute is (sweeps key compute same is fuel T) := by
  induction fuel generalizing T with
  | zero => exact hT
  | succ fuel ih =>
    have hnext : Arises key compute is (Order.sweep key compute is T) := hT.sweep fun _ h => h
    unfold Order.sweeps
    dsimp only
    split_ifs
    · exact hnext
    · exact ih hnext

end Guardian.Order

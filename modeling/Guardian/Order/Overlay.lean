import Mathlib.Data.List.Induction

/-!
# Writes over entries

A log of writes, each of which goes over the entries that it hits, and over all that writes change of
them.  Of the writes that hit an entry only the latest one counts.

* `overlay_concat`: one more write.
* `overlay_eq_self`: an entry stands as it was exactly when the latest write says what it shows.
-/

namespace Guardian.Order

open List
variable {W E : Type*}

/-- The latest entry of a log with a property. -/
def latest (p : W → Bool) (log : List W) : Option W := log.reverse.find? p

theorem latest_concat (p : W → Bool) (log : List W) (w : W) :
    latest p (log ++ [w]) = if p w then some w else latest p log := by
  rw [latest, reverse_concat, find?_cons]
  cases p w <;> rfl

theorem latest_eq_none {p : W → Bool} {log : List W} :
    latest p log = none ↔ ∀ w ∈ log, ¬ p w = true := by
  simp [latest]

theorem mem_of_latest {p : W → Bool} {log : List W} {w : W} (h : w ∈ latest p log) :
    w ∈ log ∧ p w = true :=
  ⟨mem_reverse.mp (mem_of_find?_eq_some h), find?_some h⟩

theorem exists_latest {p : W → Bool} {log : List W} {w : W} (hw : w ∈ log) (hp : p w = true) :
    ∃ v, v ∈ latest p log := by
  refine Option.isSome_iff_exists.mp ?_
  rw [latest, find?_isSome]
  exact ⟨w, mem_reverse.mpr hw, hp⟩

theorem latest_map {V : Type*} (p : V → Bool) (f : W → V) (log : List W) :
    latest p (log.map f) = (latest (p ∘ f) log).map f := by
  rw [latest, ← map_reverse, find?_map, latest]

theorem latest_congr {p q : W → Bool} {log : List W} (h : ∀ w ∈ log, p w = q w) :
    latest p log = latest q log := by
  induction log using reverseRecOn with
  | nil => rfl
  | append_singleton log w ih =>
    rw [latest_concat, latest_concat, h w (by simp), ih fun v hv => h v (by simp [hv])]

variable (hits : W → E → Bool) (write : W → E → E)

/-- **An entry under a log of writes**: what the latest one that hits it makes of it. -/
def overlay (log : List W) (e : E) : E :=
  match latest (hits · e) log with
  | some w => write w e
  | none => e

/-- **Every write goes over all that writes change**, and over nothing that says which entries are
hit. -/
structure Overwrites : Prop where
  hits_write : ∀ w v e, hits w (write v e) = hits w e
  write_write : ∀ w v e, write w (write v e) = write w e

variable {hits write}

@[simp] theorem overlay_nil (e : E) : overlay hits write [] e = e := rfl

/-- **One more write.** -/
theorem overlay_concat (h : Overwrites hits write) (log : List W) (w : W) (e : E) :
    overlay hits write (log ++ [w]) e =
      if hits w (overlay hits write log e) then write w (overlay hits write log e)
      else overlay hits write log e := by
  unfold overlay
  rw [latest_concat]
  rcases latest (hits · e) log with _ | v <;> by_cases hw : hits w e = true <;>
    simp [h.hits_write, h.write_write, hw]

/-- What no write changes stays. -/
theorem overlay_keeps {A : Type*} (view : E → A) (h : ∀ w e, view (write w e) = view e)
    (log : List W) (e : E) : view (overlay hits write log e) = view e := by
  unfold overlay
  rcases latest (hits · e) log with _ | w
  · rfl
  · exact h w e

/-- An entry that no write hits stays. -/
theorem overlay_of_not_hits {log : List W} {e : E} (h : ∀ w ∈ log, ¬ hits w e = true) :
    overlay hits write log e = e := by
  unfold overlay
  rw [latest_eq_none.mpr h]

/-- **An entry stands as it was** exactly when the latest write that hits it says what it shows. -/
theorem overlay_eq_self {log : List W} {e : E} :
    overlay hits write log e = e ↔ ∀ w ∈ latest (hits · e) log, write w e = e := by
  unfold overlay
  rcases latest (hits · e) log with _ | w <;> simp

/-- A table stands as it was exactly when this holds of its entries. -/
theorem map_overlay_eq_self {log : List W} {es : List E} :
    es.map (overlay hits write log) = es ↔
      ∀ e ∈ es, ∀ w ∈ latest (hits · e) log, write w e = e := by
  constructor
  · intro h e he
    exact overlay_eq_self.mp (map_inj_left.mp (h.trans (map_id es).symm) e he)
  · intro h
    exact (map_congr_left fun e he => overlay_eq_self.mpr (h e he)).trans (map_id es)

/-- An entry that some write hits is what one of these makes of it. -/
theorem exists_overlay {log : List W} {w : W} {e : E} (hw : w ∈ log) (hhit : hits w e = true) :
    ∃ v ∈ log, hits v e = true ∧ overlay hits write log e = write v e := by
  obtain ⟨v, hv⟩ : ∃ v, v ∈ latest (hits · e) log := exists_latest hw hhit
  obtain ⟨hmem, hp⟩ := mem_of_latest hv
  refine ⟨v, hmem, hp, ?_⟩
  rw [overlay, Option.mem_def.mp hv]

end Guardian.Order

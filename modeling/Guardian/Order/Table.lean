import Mathlib.Data.List.Nodup

/-!
# Tables with a key

The row of a key is the first one that has it.  To amend a table at a key is to write over that row,
or to add one if there is none.  A query that asks for no order gets its rows as they come, and a
dictionary that is filled from rows holds the last row of each key.

* `mem_amend`: the rows of an amended table.
* `rowOf_amend`: an amendment is seen at its key, and nowhere else.
* `mem_iff_rowOf`: where keys are there once, the rows are those of their keys.
* `rowOf_overwrite`: a row that is written over is the row of its key.
* `mem_of_mem_limit`: what a limit keeps is among the rows.
* `lastBy_eq_none_iff`, `of_lastBy`: what a dictionary holds for a key.
-/

namespace Guardian.Order

open List
variable {α K : Type*}

section Keyed
variable [DecidableEq K] (key : α → K)

/-- The row of a key. -/
def rowOf (k : K) (rows : List α) : Option α := rows.find? fun r => key r = k

/-- **Writes over the row of a key**, or adds one. -/
def amend (k : K) (write : Option α → α) : List α → List α
  | [] => [write none]
  | r :: rs => if key r = k then write (some r) :: rs else r :: amend k write rs

variable {key} {k k' : K} {write : Option α → α} {rows : List α} {r : α}

theorem of_rowOf (h : rowOf key k rows = some r) : r ∈ rows ∧ key r = k :=
  ⟨mem_of_find?_eq_some h, by simpa using find?_some h⟩

/-- **The rows of an amended table** are those of the table, and the one that was written. -/
theorem mem_amend {e : α} (h : e ∈ amend key k write rows) :
    e ∈ rows ∨ ∃ r, (∀ s ∈ r, s ∈ rows ∧ key s = k) ∧ e = write r := by
  induction rows with
  | nil =>
    rw [amend, mem_singleton] at h
    exact Or.inr ⟨none, (fun s hs => nomatch hs), h⟩
  | cons r rs ih =>
    rw [amend] at h
    split at h
    · rename_i hr
      rcases mem_cons.mp h with h | h
      · refine Or.inr ⟨some r, fun s hs => ?_, h⟩
        rw [← Option.some.inj hs]
        exact ⟨mem_cons_self, hr⟩
      · exact Or.inl (mem_cons_of_mem _ h)
    · rcases mem_cons.mp h with h | h
      · exact Or.inl (h ▸ mem_cons_self)
      · rcases ih h with h | ⟨r', hr', h⟩
        · exact Or.inl (mem_cons_of_mem _ h)
        · exact Or.inr ⟨r', fun s hs => ⟨mem_cons_of_mem _ (hr' s hs).1, (hr' s hs).2⟩, h⟩

omit [DecidableEq K] in
/-- What goes over a row of a key has the key. -/
theorem key_write_some (hwrite : ∀ r, (∀ s ∈ r, key s = k) → key (write r) = k)
    (hr : key r = k) : key (write (some r)) = k := by
  refine hwrite (some r) fun s hs => ?_
  rw [← Option.some.inj hs]
  exact hr

/-- **An amendment is seen at its key**, and nowhere else. -/
theorem rowOf_amend (hwrite : ∀ r, (∀ s ∈ r, key s = k) → key (write r) = k) :
    rowOf key k' (amend key k write rows) =
      if k' = k then some (write (rowOf key k rows)) else rowOf key k' rows := by
  unfold rowOf
  induction rows with
  | nil =>
    have hnone : key (write none) = k := hwrite none fun s hs => nomatch hs
    by_cases hk : k' = k
    · simp [amend, hk, hnone]
    · simp [amend, hk, hnone, Ne.symm hk]
  | cons r rs ih =>
    by_cases hr : key r = k
    · have hsome : key (write (some r)) = k := key_write_some hwrite hr
      by_cases hk : k' = k
      · simp [amend, hr, hk, hsome]
      · simp [amend, hr, hk, hsome, Ne.symm hk]
    · by_cases hk : k' = k
      · simpa [amend, hr, hk] using ih
      · by_cases hr' : key r = k'
        · simp [amend, hk, hr']
        · simpa [amend, hr, hk, hr'] using ih

/-- An amendment adds its key, if it is not there. -/
theorem keys_amend (hwrite : ∀ r, (∀ s ∈ r, key s = k) → key (write r) = k) :
    (amend key k write rows).map key =
      if k ∈ rows.map key then rows.map key else rows.map key ++ [k] := by
  induction rows with
  | nil =>
    have hnone : key (write none) = k := hwrite none fun s hs => nomatch hs
    simp [amend, hnone]
  | cons r rs ih =>
    by_cases hr : key r = k
    · have hsome : key (write (some r)) = k := key_write_some hwrite hr
      simp [amend, hr, hsome]
    · have hne : ¬ k = key r := fun h => hr h.symm
      rw [amend, if_neg hr, map_cons, ih, map_cons]
      by_cases hmem : k ∈ rs.map key
      · rw [if_pos hmem, if_pos (mem_cons_of_mem _ hmem)]
      · have hnot : k ∉ key r :: rs.map key := by simpa [hne] using hmem
        rw [if_neg hmem, if_neg hnot]
        rfl

/-- An amendment at a key that is not there adds a row. -/
theorem amend_of_notMem (h : k ∉ rows.map key) : amend key k write rows = rows ++ [write none] := by
  induction rows with
  | nil => rfl
  | cons r rs ih =>
    rw [map_cons, mem_cons, not_or] at h
    rw [amend, if_neg (Ne.symm h.1), ih h.2, cons_append]

/-- A key that is there once is there once after an amendment. -/
theorem nodup_amend (hwrite : ∀ r, (∀ s ∈ r, key s = k) → key (write r) = k)
    (h : (rows.map key).Nodup) : ((amend key k write rows).map key).Nodup := by
  rw [keys_amend hwrite]
  split
  · exact h
  · rename_i hnot
    refine Nodup.append h (nodup_singleton k) ?_
    simpa using hnot

/-- **Where keys are there once**, the rows of a table are those of their keys. -/
theorem mem_iff_rowOf (h : (rows.map key).Nodup) : r ∈ rows ↔ rowOf key (key r) rows = some r := by
  refine ⟨fun hr => ?_, fun hr => (of_rowOf hr).1⟩
  obtain ⟨s, hs⟩ : ∃ s, rowOf key (key r) rows = some s := by
    rw [← Option.isSome_iff_exists, rowOf, find?_isSome]
    exact ⟨r, hr, by simp⟩
  obtain ⟨hmem, hkey⟩ := of_rowOf hs
  rw [hs, inj_on_of_nodup_map h hmem hr hkey]

/-- **A row that is written over** is the row of its key. -/
theorem rowOf_overwrite {r' : α} (hkey : key r' = k) (h : rowOf key k rows = some r) :
    rowOf key k (rows.map fun s => if key s = k then r' else s) = some r' := by
  unfold rowOf at h ⊢
  induction rows with
  | nil => cases h
  | cons s rows ih =>
    rw [map_cons]
    by_cases hs : key s = k
    · simp [hs, hkey]
    · rw [find?_cons_of_neg (by simpa using hs)] at h
      rw [if_neg hs, find?_cons_of_neg (by simpa using hs)]
      exact ih h

end Keyed

/-! ### Rows of a query -/

/-- **The order in which rows come**, whatever it is. -/
structure RowOrder (α : Type*) where
  rows : List α → List α
  perm : ∀ l, (rows l).Perm l

namespace RowOrder

/-- Rows come as they are stored. -/
def asStored : RowOrder α := ⟨id, fun _ => .refl _⟩

/-- The first rows, at most `n` of them. -/
def limit (order : RowOrder α) (n : ℕ) (l : List α) : List α := (order.rows l).take n

variable {order : RowOrder α} {l : List α} {a : α}

@[simp] theorem mem_rows : a ∈ order.rows l ↔ a ∈ l := (order.perm l).mem_iff

theorem mem_of_mem_limit {n : ℕ} (h : a ∈ order.limit n l) : a ∈ l :=
  mem_rows.mp (mem_of_mem_take h)

end RowOrder

/-! ### Dictionaries -/

section LastBy
variable [DecidableEq K] (key : α → K)

/-- **What `{row.key: row for row in rows}` holds** for a key. -/
def lastBy (k : K) (rows : List α) : Option α := rows.reverse.find? fun a => key a = k

variable {key} {k : K} {rows : List α} {a : α}

theorem of_lastBy (h : lastBy key k rows = some a) : a ∈ rows ∧ key a = k :=
  ⟨mem_reverse.mp (mem_of_find?_eq_some h), by simpa using find?_some h⟩

theorem lastBy_eq_none_iff : lastBy key k rows = none ↔ ∀ a ∈ rows, key a ≠ k := by
  simp [lastBy]

end LastBy

end Guardian.Order

import Mathlib.Data.List.Nodup

/-!
# Sessions over a shared table

Sessions at read committed share a table that has no unique key.  A session sees the rows that are
committed, and what it has flushed itself; nothing that another one has not committed, and nothing
of its own that is still pending.

* `Apart`: the keys of the rows and of what the open sessions have inserted are all different.
* `apart_begin`, `apart_put`, `apart_insert`, `apart_commit`, `apart_rollback`: an insertion keeps
  them so if nobody has its key; everything else keeps them so.
-/

namespace Guardian.Transition

open List
variable {R M K : Type*}

/-- What a session writes: a row with a new id, or a change of the row with an id. -/
inductive RowWrite (R : Type*)
  | insert (id : ℕ) (row : R)
  | update (id : ℕ) (change : R → R)

namespace RowWrite

/-- What a write does to the rows. -/
def apply (rows : List (ℕ × R)) : RowWrite R → List (ℕ × R)
  | insert id row => rows ++ [(id, row)]
  | update id change => rows.map fun r => if r.1 = id then (r.1, change r.2) else r

/-- The row that a write inserts. -/
def inserted : RowWrite R → Option R
  | insert _ row => some row
  | update _ _ => none

/-- A write that changes a row leaves its key alone. -/
def KeepsKey (key : R → K) : RowWrite R → Prop
  | insert _ _ => True
  | update _ change => ∀ r, key (change r) = key r

end RowWrite

/-- **A session**: what its program remembers, what it has flushed, and what is pending. -/
structure Session (R M : Type*) where
  memory : M
  flushed : List (RowWrite R)
  pending : List (RowWrite R)

/-- **A shared table**: its committed rows by their ids, the sessions that are open, and how many
ids have been drawn. -/
structure Shared (R M : Type*) where
  rows : List (ℕ × R)
  sessions : ℕ → Option (Session R M)
  drawn : ℕ

/-- The session of a program that has done nothing. -/
def Session.opened (memory : M) : Session R M := ⟨memory, [], []⟩

/-- What a session has written. -/
def Session.writes (s : Session R M) : List (RowWrite R) := s.flushed ++ s.pending

namespace Shared

/-- An empty table, and nobody at it. -/
def empty : Shared R M := ⟨[], fun _ => none, 0⟩

variable (db : Shared R M) (t : ℕ) (s : Session R M)

/-- The session of a place. -/
def put (s : Option (Session R M)) : Shared R M :=
  { db with sessions := Function.update db.sessions t s }

/-- The rows that a session sees. -/
def visible : List (ℕ × R) := s.flushed.foldl RowWrite.apply db.rows

/-- `session.add` of a new row, after which the program remembers something else. -/
def insert (memory : M) (row : R) : Shared R M :=
  { db.put t (some { s with memory, pending := s.pending ++ [.insert db.drawn row] }) with
    drawn := db.drawn + 1 }

/-- The assignment to columns of a row. -/
def update (id : ℕ) (change : R → R) : Shared R M :=
  db.put t (some { s with pending := s.pending ++ [.update id change] })

/-- `session.flush`. -/
def flush : Shared R M :=
  db.put t (some { s with flushed := s.flushed ++ s.pending, pending := [] })

/-- `session.commit`, and the end of the session. -/
def commit : Shared R M :=
  { db.put t none with rows := s.pending.foldl RowWrite.apply (db.visible s) }

end Shared

/-! ### Keys -/

variable (key : R → K)

/-- The keys of rows. -/
def keysOf (rows : List (ℕ × R)) : List K := rows.map fun r => key r.2

/-- The keys of the rows that writes insert. -/
def insertedKeys (writes : List (RowWrite R)) : List K :=
  (writes.filterMap RowWrite.inserted).map key

/-- The keys of the rows that a session has inserted. -/
def Session.keys (s : Session R M) : List K := insertedKeys key s.writes

/-- No open session but one has inserted a row with the key. -/
def Shared.Free (db : Shared R M) (t : ℕ) (k : K) : Prop :=
  ∀ t' s, t' ≠ t → db.sessions t' = some s → k ∉ s.keys key

/-- **Apart**: the rows and what the open sessions have inserted have different keys. -/
structure Apart (db : Shared R M) : Prop where
  rows : (keysOf key db.rows).Nodup
  own : ∀ t s, db.sessions t = some s → (s.keys key).Nodup
  committed : ∀ t s, db.sessions t = some s → ∀ k ∈ s.keys key, k ∉ keysOf key db.rows
  others : ∀ t s, db.sessions t = some s → ∀ k ∈ s.keys key, db.Free key t k
  keeps : ∀ t s, db.sessions t = some s → ∀ w ∈ s.writes, w.KeepsKey key

variable {key} {db : Shared R M} {t : ℕ} {s : Session R M}

theorem insertedKeys_append (ws ws' : List (RowWrite R)) :
    insertedKeys key (ws ++ ws') = insertedKeys key ws ++ insertedKeys key ws' := by
  unfold insertedKeys
  rw [filterMap_append, map_append]

/-- A write adds the key of the row that it inserts. -/
theorem keysOf_apply {w : RowWrite R} (h : w.KeepsKey key) (rows : List (ℕ × R)) :
    keysOf key (w.apply rows) = keysOf key rows ++ insertedKeys key [w] := by
  cases w with
  | insert id row => exact map_append
  | update id change =>
    have hkeep : ∀ r : ℕ × R, key (if r.1 = id then (r.1, change r.2) else r).2 = key r.2 := by
      intro r
      split_ifs
      · exact h r.2
      · rfl
    have hmap : keysOf key (RowWrite.apply rows (.update id change)) = keysOf key rows := by
      unfold keysOf RowWrite.apply
      rw [map_map]
      exact map_congr_left fun r _ => hkeep r
    rw [hmap]
    exact (append_nil _).symm

/-- Writes add the keys of the rows that they insert. -/
theorem keysOf_foldl {ws : List (RowWrite R)} (h : ∀ w ∈ ws, w.KeepsKey key)
    (rows : List (ℕ × R)) :
    keysOf key (ws.foldl RowWrite.apply rows) = keysOf key rows ++ insertedKeys key ws := by
  induction ws generalizing rows with
  | nil => exact (append_nil _).symm
  | cons w ws ih =>
    obtain ⟨hw, hws⟩ := forall_mem_cons.mp h
    rw [foldl_cons, ih hws, keysOf_apply hw, append_assoc, ← insertedKeys_append]
    rfl

/-- The keys that a session sees: those of the rows, and those that it has flushed. -/
theorem keysOf_visible (h : ∀ w ∈ s.writes, w.KeepsKey key) :
    keysOf key (db.visible s) = keysOf key db.rows ++ insertedKeys key s.flushed :=
  keysOf_foldl (fun w hw => h w (mem_append_left _ hw)) db.rows

theorem keysOf_commit (h : ∀ w ∈ s.writes, w.KeepsKey key) :
    keysOf key (db.commit t s).rows = keysOf key db.rows ++ s.keys key := by
  have hpending : ∀ w ∈ s.pending, w.KeepsKey key := fun w hw => h w (mem_append_right _ hw)
  rw [Shared.commit, keysOf_foldl hpending, keysOf_visible h, append_assoc,
    ← insertedKeys_append]
  rfl

/-! ### The step lemmas -/

theorem apart_empty : Apart key (Shared.empty : Shared R M) where
  rows := nodup_nil
  own := fun _ _ h => nomatch h
  committed := fun _ _ h => nomatch h
  others := fun _ _ h => nomatch h
  keeps := fun _ _ h => nomatch h

theorem sessions_put_of_ne {t' : ℕ} (h : t' ≠ t) (s : Option (Session R M)) :
    (db.put t s).sessions t' = db.sessions t' := Function.update_of_ne h _ _

theorem sessions_put_self (s : Option (Session R M)) : (db.put t s).sessions t = s :=
  Function.update_self _ _ _

/-- **A session that is put at a place** keeps the keys apart, if what it has inserted is apart from
the rows and from what the others have inserted. -/
theorem apart_put_of (h : Apart key db) (hown : (s.keys key).Nodup)
    (hcommitted : ∀ k ∈ s.keys key, k ∉ keysOf key db.rows)
    (hothers : ∀ k ∈ s.keys key, db.Free key t k) (hkeeps : ∀ w ∈ s.writes, w.KeepsKey key) :
    Apart key (db.put t (some s)) := by
  have hcases : ∀ t' s', (db.put t (some s)).sessions t' = some s' →
      (t' = t ∧ s' = s) ∨ (t' ≠ t ∧ db.sessions t' = some s') := by
    intro t' s' hs
    by_cases ht : t' = t
    · subst ht
      rw [sessions_put_self] at hs
      exact Or.inl ⟨rfl, (Option.some.inj hs).symm⟩
    · rw [sessions_put_of_ne ht] at hs
      exact Or.inr ⟨ht, hs⟩
  refine ⟨h.rows, fun t' s' hs => ?_, fun t' s' hs => ?_, fun t' s' hs k hk t'' s'' hne hs'' => ?_,
    fun t' s' hs => ?_⟩
  · rcases hcases t' s' hs with ⟨-, rfl⟩ | ⟨-, hs⟩
    · exact hown
    · exact h.own t' s' hs
  · rcases hcases t' s' hs with ⟨-, rfl⟩ | ⟨-, hs⟩
    · exact hcommitted
    · exact h.committed t' s' hs
  · rcases hcases t' s' hs with ⟨rfl, rfl⟩ | ⟨ht, hold⟩
    · rw [sessions_put_of_ne hne] at hs''
      exact hothers k hk t'' s'' hne hs''
    · rcases hcases t'' s'' hs'' with ⟨rfl, rfl⟩ | ⟨-, hold''⟩
      · exact fun hmem => hothers k hmem t' s' ht hold hk
      · exact h.others t' s' hold k hk t'' s'' hne hold''
  · rcases hcases t' s' hs with ⟨-, rfl⟩ | ⟨-, hs⟩
    · exact hkeeps
    · exact h.keeps t' s' hs

/-- A session that begins. -/
theorem apart_begin (h : Apart key db) (t : ℕ) (memory : M) :
    Apart key (db.put t (some (Session.opened memory))) :=
  apart_put_of h nodup_nil (fun _ hk => nomatch hk) (fun _ hk => nomatch hk)
    fun _ hw => nomatch hw

/-- **A session that inserts nothing more.** -/
theorem apart_put {s' : Session R M} (h : Apart key db) (hs : db.sessions t = some s)
    (hkeys : s'.keys key = s.keys key) (hkeeps : ∀ w ∈ s'.writes, w.KeepsKey key) :
    Apart key (db.put t (some s')) := by
  apply apart_put_of h _ _ _ hkeeps
  · rw [hkeys]
    exact h.own t s hs
  · rw [hkeys]
    exact h.committed t s hs
  · rw [hkeys]
    exact h.others t s hs

/-- What holds of the writes of a session and of one more. -/
theorem of_mem_writes {P : RowWrite R → Prop} (h : ∀ w ∈ s.writes, P w) {w : RowWrite R} (hw : P w)
    {memory : M} {w' : RowWrite R}
    (hw' : w' ∈ ({ s with memory, pending := s.pending ++ [w] } : Session R M).writes) : P w' := by
  unfold Session.writes at hw'
  rw [← append_assoc] at hw'
  rcases mem_append.mp hw' with hw' | hw'
  · exact h w' hw'
  · rwa [mem_singleton.mp hw']

/-- A session that inserts has the keys that it had, and that of the row. -/
theorem keys_insert (memory : M) (id : ℕ) (row : R) :
    ({ s with memory, pending := s.pending ++ [.insert id row] } : Session R M).keys key =
      s.keys key ++ [key row] := by
  unfold Session.keys Session.writes
  dsimp only
  rw [← append_assoc, insertedKeys_append]
  rfl

/-- **An insertion** keeps the keys apart, if nobody has its key. -/
theorem apart_insert {row : R} (h : Apart key db) (hs : db.sessions t = some s)
    (hcommitted : key row ∉ keysOf key db.rows) (hown : key row ∉ s.keys key)
    (hothers : db.Free key t (key row)) (memory : M) :
    Apart key (db.insert t s memory row) := by
  have hput : Apart key (db.put t (some
      { s with memory, pending := s.pending ++ [.insert db.drawn row] })) := by
    apply apart_put_of h
    · rw [keys_insert]
      refine Nodup.append (h.own t s hs) (nodup_singleton _) ?_
      simpa using hown
    · rw [keys_insert]
      intro k hk
      rcases mem_append.mp hk with hk | hk
      · exact h.committed t s hs k hk
      · rwa [mem_singleton.mp hk]
    · rw [keys_insert]
      intro k hk
      rcases mem_append.mp hk with hk | hk
      · exact h.others t s hs k hk
      · rwa [mem_singleton.mp hk]
    · intro w hw
      have hinsert : (RowWrite.insert db.drawn row).KeepsKey key := trivial
      exact of_mem_writes (h.keeps t s hs) hinsert hw
  exact ⟨hput.rows, hput.own, hput.committed, hput.others, hput.keeps⟩

theorem keys_update (id : ℕ) (change : R → R) :
    ({ s with pending := s.pending ++ [.update id change] } : Session R M).keys key =
      s.keys key := by
  unfold Session.keys Session.writes
  dsimp only
  rw [← append_assoc, insertedKeys_append]
  exact append_nil _

/-- **A change of a row** that leaves its key alone. -/
theorem apart_update (h : Apart key db) (hs : db.sessions t = some s) (id : ℕ) {change : R → R}
    (hkey : ∀ r, key (change r) = key r) : Apart key (db.update t s id change) := by
  apply apart_put h hs
  · exact keys_update id change
  · intro w hw
    have hupdate : (RowWrite.update id change).KeepsKey key := hkey
    exact of_mem_writes (h.keeps t s hs) hupdate hw

theorem writes_flush : ({ s with flushed := s.flushed ++ s.pending, pending := [] } :
    Session R M).writes = s.writes := append_nil _

theorem keys_flush : ({ s with flushed := s.flushed ++ s.pending, pending := [] } :
    Session R M).keys key = s.keys key := by
  unfold Session.keys
  rw [writes_flush]

theorem apart_flush (h : Apart key db) (hs : db.sessions t = some s) :
    Apart key (db.flush t s) := by
  apply apart_put h hs
  · exact keys_flush
  · rw [writes_flush]
    exact h.keeps t s hs

theorem apart_rollback (h : Apart key db) (t : ℕ) : Apart key (db.put t none) := by
  have hcases : ∀ t' s', (db.put t none).sessions t' = some s' → db.sessions t' = some s' := by
    intro t' s' hs
    by_cases ht : t' = t
    · subst ht
      rw [sessions_put_self] at hs
      cases hs
    · rwa [sessions_put_of_ne ht] at hs
  exact ⟨h.rows, fun t' s' hs => h.own t' s' (hcases t' s' hs),
    fun t' s' hs => h.committed t' s' (hcases t' s' hs),
    fun t' s' hs k hk t'' s'' hne hs'' => h.others t' s' (hcases t' s' hs) k hk t'' s'' hne
      (hcases t'' s'' hs''),
    fun t' s' hs => h.keeps t' s' (hcases t' s' hs)⟩

/-- **A commit**: the rows of the session are apart from those that are there. -/
theorem apart_commit (h : Apart key db) (hs : db.sessions t = some s) :
    Apart key (db.commit t s) := by
  have hrows : keysOf key (db.commit t s).rows = keysOf key db.rows ++ s.keys key :=
    keysOf_commit (h.keeps t s hs)
  have hend := apart_rollback h t
  refine ⟨?_, hend.own, fun t' s' hs' k hk hmem => ?_, hend.others, hend.keeps⟩
  · rw [hrows]
    exact Nodup.append h.rows (h.own t s hs) fun k hk hmem => h.committed t s hs k hmem hk
  · rw [hrows] at hmem
    rcases mem_append.mp hmem with hmem | hmem
    · exact hend.committed t' s' hs' k hk hmem
    · have ht : t' ≠ t := by
        rintro rfl
        have hnone : (db.put t' none).sessions t' = none := sessions_put_self none
        exact nomatch hnone.symm.trans hs'
      exact h.others t s hs k hmem t' s' ht ((sessions_put_of_ne ht none).symm.trans hs') hk

end Guardian.Transition

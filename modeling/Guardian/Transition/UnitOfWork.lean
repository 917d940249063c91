import Guardian.Transition.Effect
import Mathlib.Data.List.Basic

/-!
# Units of work

A session over a database collects the writes of a transaction and sends them when it is flushed.  A
statement that fails leaves a transaction in which the server runs nothing more; a flush that fails
also ends what the session had loaded, and every use of it raises until it is rolled back.

* `flush`, `query`, `touch`, `commit`, `scope`: what a session does; `Raise` is what it may raise.
* `Holds`: the database that a session stands for, if it is usable and no write of it is refused.
* `Keeps`: what is done inside a transaction stores nothing, and a session that stands for no
  database stays so.
* `scope_stored_of_lost`, `scope_ok`: a transaction that raises, or whose session stands for no
  database, leaves the database as it was; any other one stores the database that it stands for.
-/

namespace Guardian.Transition

/-- What a session can do: everything; nothing on the server, which has aborted its transaction; or
nothing at all, since a flush has failed. -/
inductive Phase
  | active | aborted | inactive
  deriving DecidableEq

/-- What comes out of an operation instead of a value: the server refuses a statement, the session
waits for its rollback, or the program raises. -/
inductive Raise (E : Type)
  | refused
  | waiting
  | raised (e : E)

/-- **A session** over the databases `D`, to which it writes `W`s: what is committed, what the
transaction has made of it, what has not been flushed.  What is `outside` is not rolled back. -/
structure UnitOfWork (D W X : Type) where
  stored : D
  written : D
  pending : List W
  phase : Phase
  outside : X

variable {D W X E A B : Type}

namespace UnitOfWork

/-- A session that has done nothing. -/
def opened (d : D) (x : X) : UnitOfWork D W X where
  stored := d
  written := d
  pending := []
  phase := .active
  outside := x

/-- `session.rollback`. -/
def rolledBack (s : UnitOfWork D W X) : UnitOfWork D W X := opened s.stored s.outside

/-- What a failed flush leaves: the transaction is rolled back, and so are the objects. -/
def deactivated (s : UnitOfWork D W X) : UnitOfWork D W X :=
  { s with written := s.stored, pending := [], phase := .inactive }

/-- `session.add`, or the assignment to a column of an object of the session. -/
def add (w : W) : Effect (Raise E) (UnitOfWork D W X) Unit :=
  Effect.update fun s => { s with pending := s.pending ++ [w] }

/-- What happens outside the database. -/
def act (f : X → X) : Effect (Raise E) (UnitOfWork D W X) Unit :=
  Effect.update fun s => { s with outside := f s.outside }

/-- `raise`. -/
def raise (e : E) : Effect (Raise E) (UnitOfWork D W X) A := Effect.ofExcept (.error (.raised e))

/-- A statement that reads; the server may refuse it. -/
def query (f : D → Option A) : Effect (Raise E) (UnitOfWork D W X) A := fun s =>
  match s.phase with
  | .active =>
    match f s.written with
    | some a => (.ok a, s)
    | none => (.error .refused, { s with phase := .aborted })
  | _ => (.error .waiting, s)

/-- Reading a column of an object that the session has loaded. -/
def touch : Effect (Raise E) (UnitOfWork D W X) Unit := fun s =>
  if s.phase = .inactive then (.error .waiting, s) else (.ok (), s)

section Flush

variable (apply : W → D → Option D)

/-- **`session.flush`**: nothing where nothing is pending. -/
def flush : Effect (Raise E) (UnitOfWork D W X) Unit := fun s =>
  match s.pending, s.phase with
  | [], _ => (.ok (), s)
  | _ :: _, .active =>
    match s.pending.foldlM (fun d w => apply w d) s.written with
    | some d => (.ok (), { s with written := d, pending := [] })
    | none => (.error .refused, s.deactivated)
  | _ :: _, .aborted => (.error .refused, s.deactivated)
  | _ :: _, .inactive => (.error .waiting, s)

/-- The end of a transaction: the server rolls back one that it has aborted. -/
def finish : Effect (Raise E) (UnitOfWork D W X) Unit := fun s =>
  match s.phase with
  | .active => (.ok (), { s with stored := s.written })
  | .aborted => (.ok (), s.rolledBack)
  | .inactive => (.error .waiting, s)

/-- `session.commit`. -/
def commit : Effect (Raise E) (UnitOfWork D W X) Unit := do
  flush apply
  finish

/-- **A transaction**: commit on success, rollback on error. -/
def scope (m : Effect (Raise E) (UnitOfWork D W X) A) : Effect (Raise E) (UnitOfWork D W X) A :=
  fun s =>
    match (m >>= fun a => commit apply >>= fun _ => pure a) s with
    | (.ok a, s') => (.ok a, s')
    | (.error e, s') => (.error e, s'.rolledBack)

/-! ### What a session stands for -/

/-- **The session stands for a database**: it is usable, and its pending writes make that of what it
has written. -/
structure Holds (d : D) (s : UnitOfWork D W X) : Prop where
  active : s.phase = .active
  writes : s.pending.foldlM (fun d w => apply w d) s.written = some d

/-- The session stands for no database: it is not usable, or one of its writes will be refused. -/
def Hopeless (s : UnitOfWork D W X) : Prop := ∀ d, ¬ Holds apply d s

theorem holds_opened (d : D) (x : X) : Holds apply d (opened d x : UnitOfWork D W X) :=
  ⟨rfl, rfl⟩

variable {s : UnitOfWork D W X} {m : Effect (Raise E) (UnitOfWork D W X) A}
  {f : A → Effect (Raise E) (UnitOfWork D W X) B}

theorem hopeless_of_phase (h : s.phase ≠ .active) : Hopeless apply s :=
  fun _ hd => h hd.active

section Sessions

variable {apply} {d d' : D} {s : UnitOfWork D W X} {w : W}

theorem foldlM_concat (ws : List W) (w : W) (d : D) :
    (ws ++ [w]).foldlM (fun d w => apply w d) d =
      (ws.foldlM (fun d w => apply w d) d).bind (apply w) := by
  rw [List.foldlM_append]
  change (ws.foldlM (fun d w => apply w d) d).bind
    (fun d => (apply w d).bind fun d => some d) = _
  simp

theorem Holds.add (h : Holds apply d s) (hw : apply w d = some d') :
    Holds apply d' { s with pending := s.pending ++ [w] } := by
  refine ⟨h.active, ?_⟩
  rw [foldlM_concat, h.writes, Option.bind_some, hw]

/-- A write that the database will refuse. -/
theorem Holds.add_refused (h : Holds apply d s) (hw : apply w d = none) :
    Hopeless apply { s with pending := s.pending ++ [w] } := by
  intro d' h'
  have hwrites := h'.writes
  rw [foldlM_concat, h.writes, Option.bind_some, hw] at hwrites
  cases hwrites

theorem Hopeless.add (h : Hopeless apply s) (w : W) :
    Hopeless apply { s with pending := s.pending ++ [w] } := by
  intro d' h'
  have hwrites := h'.writes
  rw [foldlM_concat, Option.bind_eq_some_iff] at hwrites
  obtain ⟨d, hd, -⟩ := hwrites
  exact h d ⟨h'.active, hd⟩

theorem Holds.act (h : Holds apply d s) (x : X) : Holds apply d { s with outside := x } :=
  ⟨h.active, h.writes⟩

theorem Holds.flush (h : Holds apply d s) :
    (UnitOfWork.flush apply s : Except (Raise E) Unit × UnitOfWork D W X) =
      (.ok (), { s with written := d, pending := [] }) := by
  obtain ⟨hphase, hwrites⟩ := h
  unfold UnitOfWork.flush
  rcases s with ⟨stored, written, pending, phase, outside⟩
  dsimp only at hphase hwrites ⊢
  subst hphase
  rcases pending with _ | ⟨w, ws⟩
  · cases hwrites
    rfl
  · dsimp only
    rw [hwrites]

theorem holds_flushed (h : Holds apply d s) :
    Holds apply d { s with written := d, pending := [] } :=
  ⟨h.active, rfl⟩

/-- A flush with a write that the database refuses. -/
theorem Holds.flush_refused (h : Holds apply d s) (hw : apply w d = none) :
    (UnitOfWork.flush apply { s with pending := s.pending ++ [w] } :
        Except (Raise E) Unit × UnitOfWork D W X) =
      (.error .refused, s.deactivated) := by
  have hfold : (s.pending ++ [w]).foldlM (fun d w => apply w d) s.written = none := by
    rw [foldlM_concat, h.writes, Option.bind_some, hw]
  unfold UnitOfWork.flush
  rw [h.active]
  rcases hp : s.pending ++ [w] with _ | ⟨v, vs⟩
  · simp at hp
  · rw [hp] at hfold
    dsimp only
    rw [hfold]
    rfl

/-- A statement sees what has been flushed. -/
theorem Holds.query (h : Holds apply d s) {f : D → Option A} {a : A} (hf : f s.written = some a) :
    (UnitOfWork.query f s : Except (Raise E) A × UnitOfWork D W X) = (.ok a, s) := by
  unfold UnitOfWork.query
  rw [h.active, hf]

theorem Holds.query_refused (h : Holds apply d s) {f : D → Option A} (hf : f s.written = none) :
    (UnitOfWork.query f s : Except (Raise E) A × UnitOfWork D W X) =
      (.error .refused, { s with phase := .aborted }) := by
  unfold UnitOfWork.query
  rw [h.active, hf]

theorem Holds.touch (h : Holds apply d s) :
    (UnitOfWork.touch s : Except (Raise E) Unit × UnitOfWork D W X) = (.ok (), s) := by
  unfold UnitOfWork.touch
  rw [h.active]
  rfl

end Sessions

/-! ### Operations that store nothing -/

/-- **An operation inside a transaction**: it stores nothing, and does not make a session usable
that stands for no database. -/
structure Keeps (m : Effect (Raise E) (UnitOfWork D W X) A) : Prop where
  stored : ∀ s, (m s).2.stored = s.stored
  hopeless : ∀ s, Hopeless apply s → Hopeless apply (m s).2

theorem keeps_add (w : W) : Keeps apply (add w : Effect (Raise E) (UnitOfWork D W X) Unit) :=
  ⟨fun _ => rfl, fun _ h => h.add w⟩

theorem keeps_act (f : X → X) : Keeps apply (act f : Effect (Raise E) (UnitOfWork D W X) Unit) :=
  ⟨fun _ => rfl, fun _ h d hd => h d ⟨hd.active, hd.writes⟩⟩

theorem keeps_ofExcept (x : Except (Raise E) A) :
    Keeps apply (Effect.ofExcept x : Effect (Raise E) (UnitOfWork D W X) A) :=
  ⟨fun _ => rfl, fun _ h => h⟩

theorem keeps_raise (e : E) : Keeps apply (raise e : Effect (Raise E) (UnitOfWork D W X) A) :=
  keeps_ofExcept _ _

theorem keeps_pure (a : A) : Keeps apply (pure a : Effect (Raise E) (UnitOfWork D W X) A) :=
  ⟨fun _ => rfl, fun _ h => h⟩

theorem keeps_touch : Keeps apply (touch : Effect (Raise E) (UnitOfWork D W X) Unit) := by
  constructor
  · intro s
    unfold touch
    split_ifs <;> rfl
  · intro s h
    unfold touch
    split_ifs <;> exact h

theorem keeps_query (f : D → Option A) :
    Keeps apply (query f : Effect (Raise E) (UnitOfWork D W X) A) := by
  constructor
  · intro s
    unfold query
    split
    · split <;> rfl
    · rfl
  · intro s h
    unfold query
    split
    · split
      · exact h
      · exact hopeless_of_phase _ fun hp => by cases hp
    · exact h

theorem keeps_flush : Keeps apply (flush apply : Effect (Raise E) (UnitOfWork D W X) Unit) := by
  constructor
  · intro s
    unfold flush
    split
    · rfl
    · split <;> rfl
    · rfl
    · rfl
  · intro s h
    unfold flush
    split
    · exact h
    · split
      · exact absurd ⟨‹_›, ‹_›⟩ (h _)
      · exact hopeless_of_phase _ fun hp => by cases hp
    · exact hopeless_of_phase _ fun hp => by cases hp
    · exact h

theorem keeps_ite {c : Prop} [Decidable c] {m' : Effect (Raise E) (UnitOfWork D W X) A}
    (hm : Keeps apply m) (hm' : Keeps apply m') : Keeps apply (if c then m else m') := by
  split_ifs
  · exact hm
  · exact hm'

variable {apply}

theorem Keeps.bind (hm : Keeps apply m) (hf : ∀ a, Keeps apply (f a)) : Keeps apply (m >>= f) := by
  constructor
  · intro s
    have hms := hm.stored s
    rw [Effect.bind_apply]
    rcases hrun : m s with ⟨e | a, t⟩
    · rw [hrun] at hms
      exact hms
    · rw [hrun] at hms
      exact ((hf a).stored t).trans hms
  · intro s h
    have hms := hm.hopeless s h
    rw [Effect.bind_apply]
    rcases hrun : m s with ⟨e | a, t⟩
    · rw [hrun] at hms
      exact hms
    · rw [hrun] at hms
      exact (hf a).hopeless t hms

theorem Keeps.attempt (hm : Keeps apply m) :
    Keeps apply (Effect.attempt m) :=
  ⟨hm.stored, hm.hopeless⟩

/-! ### Transactions that are lost -/

variable (apply)

/-- **A lost run**: it raises, or leaves a session that stands for no database. -/
def Lost (m : Effect (Raise E) (UnitOfWork D W X) A) (s : UnitOfWork D W X) : Prop :=
  (∃ e, (m s).1 = .error e) ∨ Hopeless apply (m s).2

variable {apply}

theorem Lost.bind (h : Lost apply m s) (hf : ∀ a, Keeps apply (f a)) : Lost apply (m >>= f) s := by
  unfold Lost at h ⊢
  rw [Effect.bind_apply]
  rcases hrun : m s with ⟨e | a, t⟩
  · exact Or.inl ⟨e, rfl⟩
  · rw [hrun] at h
    rcases h with ⟨e, he⟩ | h
    · cases he
    · exact Or.inr ((hf a).hopeless t h)

theorem lost_bind_right {t : UnitOfWork D W X} {a : A}
    (hm : m s = (.ok a, t)) (h : Lost apply (f a) t) : Lost apply (m >>= f) s := by
  unfold Lost at h ⊢
  rw [Effect.bind_ok hm]
  exact h

/-- A session that stands for no database stores nothing when it is committed. -/
theorem stored_commit_of_hopeless (h : Hopeless apply s) :
    (commit apply s : Except (Raise E) Unit × UnitOfWork D W X).2.stored = s.stored := by
  have hkeep := keeps_flush (E := E) (X := X) apply
  have hs := hkeep.stored s
  have hl := hkeep.hopeless s h
  unfold commit
  rw [Effect.bind_apply]
  rcases hrun : (flush apply s : Except (Raise E) Unit × UnitOfWork D W X) with ⟨e | a, t⟩
  · rw [hrun] at hs
    exact hs
  · rw [hrun] at hs hl
    have hpending : t.phase = .active → t.pending = [] := by
      intro hphase
      unfold flush at hrun
      split at hrun
      · cases hrun
        assumption
      · split at hrun
        · cases hrun
          rfl
        · cases hrun
      · cases hrun
      · cases hrun
    change (finish t).2.stored = s.stored
    unfold finish
    split
    · rename_i hphase
      refine absurd ⟨hphase, ?_⟩ (hl t.written)
      rw [hpending hphase]
      rfl
    · exact hs
    · exact hs

/-- **A transaction that is lost** leaves the database as it was. -/
theorem scope_stored_of_lost
    (hm : Keeps apply m) (h : Lost apply m s) : (scope apply m s).2.stored = s.stored := by
  have hms := hm.stored s
  unfold Lost at h
  unfold scope
  rw [Effect.bind_apply]
  rcases hrun : m s with ⟨e | a, t⟩
  · rw [hrun] at hms
    exact hms
  · rw [hrun] at hms h
    rcases h with ⟨e, he⟩ | h
    · cases he
    have hc := stored_commit_of_hopeless (E := E) h
    dsimp only
    rw [Effect.bind_apply]
    rcases hcom : (commit apply t : Except (Raise E) Unit × UnitOfWork D W X) with ⟨e | u, t'⟩
    · rw [hcom] at hc
      exact hc.trans hms
    · rw [hcom] at hc
      exact hc.trans hms

/-! ### Transactions that are kept -/

/-- **A transaction that is kept** stores what its session stands for. -/
theorem scope_ok {t : UnitOfWork D W X} {a : A}
    {d : D} (hm : m s = (.ok a, t)) (h : Holds apply d t) :
    scope apply m s = (.ok a, opened d t.outside) := by
  unfold scope
  rw [Effect.bind_ok hm]
  have hcommit : (commit apply t : Except (Raise E) Unit × UnitOfWork D W X) =
      (.ok (), opened d t.outside) := by
    unfold commit
    rw [Effect.bind_ok h.flush]
    unfold finish opened
    rw [h.active]
  rw [Effect.bind_ok hcommit]
  rfl

end Flush

end UnitOfWork

end Guardian.Transition

import Guardian.Transition.UnitOfWork

/-!
# Plans of computations in a session

The plan of a computation is what it writes, what it notes outside of the database, and how it ends
if the database takes its writes.  Plans are composed as computations are, without a session.

* `Follows`: a computation does what its plan says; one rule for each way to compose them.
* `Operations`: a program that is written over the operations of a session runs in one, `inSession`,
  and has its plan, `inPlan`.
* `scope_ends`: a transaction whose plan is carried out returns its value.
* `scope_follows`: a transaction stores what its plan writes, if the plan ends with a value and the
  database takes every write; otherwise it stores nothing.
-/

namespace Guardian.Transition

open List
variable {D W N E A B : Type}

/-- How a computation ends if the database takes its writes: with a value, by raising, or at a
statement that the server refuses. -/
inductive Answer (E A : Type)
  | value (a : A)
  | raises (e : E)
  | refused

/-- **A plan.** -/
structure Plan (W N E A : Type) where
  writes : List W
  notes : List N
  answer : Answer E A

namespace Plan

def ret (a : A) : Plan W N E A := ⟨[], [], .value a⟩

/-- One plan after the other, unless the first one does not end with a value. -/
def andThen (p : Plan W N E A) (f : A → Plan W N E B) : Plan W N E B :=
  match p.answer with
  | .value a => ⟨p.writes ++ (f a).writes, p.notes ++ (f a).notes, (f a).answer⟩
  | .raises e => ⟨p.writes, p.notes, .raises e⟩
  | .refused => ⟨p.writes, p.notes, .refused⟩

instance : Monad (Plan W N E) where
  pure := ret
  bind := andThen

def write (w : W) : Plan W N E Unit := ⟨[w], [], .value ()⟩

def note (n : N) : Plan W N E Unit := ⟨[], [n], .value ()⟩

def ofAnswer (x : Answer E A) : Plan W N E A := ⟨[], [], x⟩

/-- What is raised is caught; a statement that is refused is not, as the session is lost. -/
def attempt (p : Plan W N E A) : Plan W N E (Except (Raise E) A) :=
  ⟨p.writes, p.notes,
    match p.answer with
    | .value a => .value (.ok a)
    | .raises e => .value (.error (.raised e))
    | .refused => .refused⟩

theorem bind_def (p : Plan W N E A) (f : A → Plan W N E B) : p >>= f = p.andThen f := rfl

variable (apply : W → D → Option D)

/-- What the writes make of a database, if it takes them all. -/
def writeAll (ws : List W) (d : D) : Option D := ws.foldlM (fun d w => apply w d) d

/-- What a plan stores. -/
def stores (p : Plan W N E A) (d : D) : Option D :=
  match p.answer with
  | .value _ => writeAll apply p.writes d
  | _ => none

variable {apply}

theorem writeAll_append (ws vs : List W) (d : D) :
    writeAll apply (ws ++ vs) d = (writeAll apply ws d).bind (writeAll apply vs) := by
  unfold writeAll
  rw [foldlM_append]
  rfl

theorem writeAll_cons (w : W) (ws : List W) (d : D) :
    writeAll apply (w :: ws) d = (apply w d).bind (writeAll apply ws) := by
  unfold writeAll
  rw [foldlM_cons]
  rfl

/-- **What every write keeps** holds of what the writes make of a database. -/
theorem writeAll_invariant {P : D → Prop} {ws : List W} {d d' : D}
    (hstep : ∀ w ∈ ws, ∀ d d', apply w d = some d' → P d → P d')
    (h : writeAll apply ws d = some d') (hd : P d) : P d' := by
  induction ws generalizing d with
  | nil =>
    cases h
    exact hd
  | cons w ws ih =>
    rw [writeAll_cons, Option.bind_eq_some_iff] at h
    obtain ⟨d₁, hw, h⟩ := h
    exact ih (fun v hv => hstep v (mem_cons_of_mem _ hv)) h
      (hstep w mem_cons_self d d₁ hw hd)

variable {p : Plan W N E A} {f : A → Plan W N E B}

theorem answer_bind {a : A} (h : p.answer = .value a) : (p >>= f).answer = (f a).answer := by
  rw [bind_def, andThen, h]

/-- What is not refused is caught. -/
theorem exists_answer_attempt : (∃ x, p.attempt.answer = .value x) ↔ p.answer ≠ .refused := by
  unfold attempt
  rcases p.answer with a | e | _
  · exact ⟨fun _ h => (by cases h), fun _ => ⟨_, rfl⟩⟩
  · exact ⟨fun _ h => (by cases h), fun _ => ⟨_, rfl⟩⟩
  · exact ⟨fun ⟨x, hx⟩ => (by cases hx), fun h => absurd rfl h⟩

theorem notes_bind {a : A} (h : p.answer = .value a) :
    (p >>= f).notes = p.notes ++ (f a).notes := by
  rw [bind_def, andThen, h]

/-- **What two plans store**, one after the other. -/
theorem stores_bind {d d' : D} : (p >>= f).stores apply d = some d' ↔
      ∃ a d₁, p.answer = .value a ∧ writeAll apply p.writes d = some d₁ ∧
        (f a).stores apply d₁ = some d' := by
  rw [bind_def, andThen]
  rcases p.answer with a | e | _
  · constructor
    · intro h
      unfold stores at h
      dsimp only at h
      rcases ha : (f a).answer with b | e | _
      · rw [ha] at h
        dsimp only at h
        rw [writeAll_append, Option.bind_eq_some_iff] at h
        obtain ⟨d₁, h₁, h₂⟩ := h
        refine ⟨a, d₁, rfl, h₁, ?_⟩
        unfold stores
        rw [ha]
        exact h₂
      all_goals
        rw [ha] at h
        cases h
    · rintro ⟨a', d₁, ha', h₁, h₂⟩
      cases ha'
      unfold stores at h₂ ⊢
      dsimp only
      rcases ha : (f a).answer with b | e | _
      · rw [ha] at h₂
        dsimp only
        rw [writeAll_append, h₁]
        exact h₂
      all_goals
        rw [ha] at h₂
        cases h₂
  all_goals
    constructor
    · intro h
      cases h
    · rintro ⟨a, d₁, ha, -⟩
      cases ha

theorem stores_of_value {a : A} (h : p.answer = .value a) (d : D) :
    p.stores apply d = writeAll apply p.writes d := by
  unfold stores
  rw [h]

variable (apply) in
/-- **A plan that is carried out**: it ends with a value, and the database takes its writes. -/
def Ends (p : Plan W N E A) (d : D) (a : A) (d' : D) : Prop :=
  p.answer = .value a ∧ writeAll apply p.writes d = some d'

theorem ends_pure (a : A) (d : D) : Ends apply (pure a : Plan W N E A) d a d := ⟨rfl, rfl⟩

theorem ends_write {w : W} {d d' : D} (h : apply w d = some d') :
    Ends apply (write w : Plan W N E Unit) d () d' :=
  ⟨rfl, by rw [write, writeAll_cons, h]; rfl⟩

theorem ends_ofAnswer {x : Answer E A} {a : A} (h : x = .value a) (d : D) :
    Ends apply (ofAnswer x : Plan W N E A) d a d :=
  ⟨h, rfl⟩

theorem Ends.bind {d d₁ d' : D} {a : A} {b : B}
    (hp : Ends apply p d a d₁) (hf : Ends apply (f a) d₁ b d') : Ends apply (p >>= f) d b d' := by
  refine ⟨(answer_bind hp.1).trans hf.1, ?_⟩
  rw [bind_def, andThen, hp.1]
  dsimp only
  rw [writeAll_append, hp.2]
  exact hf.2

/-- What is caught is carried out, unless the server refuses it. -/
theorem exists_ends_attempt {d d' : D} (h : p.answer ≠ .refused)
    (hw : writeAll apply p.writes d = some d') : ∃ x, Ends apply p.attempt d x d' := by
  obtain ⟨x, hx⟩ := exists_answer_attempt.mpr h
  exact ⟨x, hx, hw⟩

end Plan

namespace UnitOfWork

open Plan

/-- Notes something outside of the database. -/
def note (n : N) : Effect (Raise E) (UnitOfWork D W (List N)) Unit := act (· ++ [n])

/-- A call that uses the session, as it answers. -/
def call (x : Answer E A) : Effect (Raise E) (UnitOfWork D W (List N)) A :=
  match x with
  | .value a => query fun _ => some a
  | .raises e => raise e
  | .refused => query fun _ => none

variable (apply : W → D → Option D)

/-- **A computation does what its plan says**, in a session that stands for a database. -/
structure Follows (m : Effect (Raise E) (UnitOfWork D W (List N)) A) (p : Plan W N E A) : Prop where
  keeps : Keeps apply m
  value : ∀ {s d d' a}, Holds apply d s → writeAll apply p.writes d = some d' →
    p.answer = .value a →
      ∃ t, m s = (.ok a, t) ∧ Holds apply d' t ∧ t.outside = s.outside ++ p.notes
  raises : ∀ {s d d' e}, Holds apply d s → writeAll apply p.writes d = some d' →
    p.answer = .raises e →
      ∃ t, m s = (.error (.raised e), t) ∧ Holds apply d' t ∧ t.outside = s.outside ++ p.notes
  hopeless : ∀ {s d}, Holds apply d s → writeAll apply p.writes d = none ∨ p.answer = .refused →
    Hopeless apply (m s).2

variable {apply}

theorem follows_pure (a : A) :
    Follows apply (pure a : Effect (Raise E) (UnitOfWork D W (List N)) A) (pure a) := by
  refine ⟨keeps_pure _ _, fun h hw ha => ?_, fun _ _ he => (by cases he), fun _ h => ?_⟩
  · cases hw
    cases ha
    exact ⟨_, rfl, h, (append_nil _).symm⟩
  · rcases h with h | h
    · cases h
    · cases h

theorem follows_add (w : W) :
    Follows apply (add w : Effect (Raise E) (UnitOfWork D W (List N)) Unit) (Plan.write w) := by
  have hfold : ∀ d, writeAll apply [w] d = apply w d := fun d => by simp [writeAll]
  refine ⟨keeps_add _ _, fun h hw ha => ?_, fun _ _ he => (by cases he), fun h hno => ?_⟩
  · cases ha
    exact ⟨_, rfl, h.add ((hfold _).symm.trans hw), (append_nil _).symm⟩
  · rcases hno with hno | hno
    · exact h.add_refused ((hfold _).symm.trans hno)
    · cases hno

theorem follows_note (n : N) :
    Follows apply (note n : Effect (Raise E) (UnitOfWork D W (List N)) Unit) (Plan.note n) := by
  refine ⟨keeps_act _ _, fun h hw ha => ?_, fun _ _ he => (by cases he), fun _ hno => ?_⟩
  · cases hw
    cases ha
    exact ⟨_, rfl, h.act _, rfl⟩
  · rcases hno with hno | hno
    · cases hno
    · cases hno

theorem follows_touch :
    Follows apply (touch : Effect (Raise E) (UnitOfWork D W (List N)) Unit) (pure ()) := by
  refine ⟨keeps_touch _, fun h hw ha => ?_, fun _ _ he => (by cases he), fun _ hno => ?_⟩
  · cases hw
    cases ha
    exact ⟨_, h.touch, h, (append_nil _).symm⟩
  · rcases hno with hno | hno
    · cases hno
    · cases hno

theorem follows_flush :
    Follows apply (flush apply : Effect (Raise E) (UnitOfWork D W (List N)) Unit) (pure ()) := by
  refine ⟨keeps_flush _, fun h hw ha => ?_, fun _ _ he => (by cases he), fun _ hno => ?_⟩
  · cases hw
    cases ha
    exact ⟨_, h.flush, holds_flushed h, (append_nil _).symm⟩
  · rcases hno with hno | hno
    · cases hno
    · cases hno

theorem keeps_call (x : Answer E A) :
    Keeps apply (call x : Effect (Raise E) (UnitOfWork D W (List N)) A) := by
  rcases x with a | e | _
  · exact keeps_query apply fun _ => some a
  · exact keeps_raise apply e
  · exact keeps_query apply fun _ => none

theorem follows_call (x : Answer E A) :
    Follows apply (call x : Effect (Raise E) (UnitOfWork D W (List N)) A) (Plan.ofAnswer x) := by
  refine ⟨keeps_call x, fun {s d d' a} h hw ha => ?_, fun {s d d' e} h hw he => ?_,
    fun {s d} h hno => ?_⟩
  · cases hw
    change x = _ at ha
    subst ha
    have hquery : (query (fun _ => some a) s : Except (Raise E) A × _) = (.ok a, s) := h.query rfl
    exact ⟨s, hquery, h, (append_nil _).symm⟩
  · cases hw
    change x = _ at he
    subst he
    exact ⟨_, rfl, h, (append_nil _).symm⟩
  · rcases hno with hno | hno
    · cases hno
    · change x = _ at hno
      subst hno
      have hquery : (query (fun _ => none) s : Except (Raise E) A × _) =
          (.error .refused, { s with phase := .aborted }) := h.query_refused rfl
      change Hopeless apply (query (fun _ => none) s : Except (Raise E) A × _).2
      rw [hquery]
      exact hopeless_of_phase _ fun hp => by cases hp

variable {m : Effect (Raise E) (UnitOfWork D W (List N)) A} {p : Plan W N E A}

/-- **One computation after the other** follows one plan after the other. -/
theorem Follows.bind {f : A → Effect (Raise E) (UnitOfWork D W (List N)) B} {g : A → Plan W N E B}
    (hm : Follows apply m p) (hf : ∀ a, Follows apply (f a) (g a)) :
    Follows apply (m >>= f) (p >>= g) := by
  have hkeeps : Keeps apply (m >>= f) := hm.keeps.bind fun a => (hf a).keeps
  rcases hp : p.answer with a | e | _
  · have hbind : p >>= g = ⟨p.writes ++ (g a).writes, p.notes ++ (g a).notes, (g a).answer⟩ := by
      rw [bind_def, andThen, hp]
    rw [hbind]
    refine ⟨hkeeps, fun h hw ha => ?_, fun h hw he => ?_, fun {s d} h hno => ?_⟩
    · rw [writeAll_append, Option.bind_eq_some_iff] at hw
      obtain ⟨d₁, hw₁, hw₂⟩ := hw
      obtain ⟨t, hrun, ht, hout⟩ := hm.value h hw₁ hp
      obtain ⟨u, hrun', hu, hout'⟩ := (hf a).value ht hw₂ ha
      refine ⟨u, by rw [Effect.bind_ok hrun, hrun'], hu, ?_⟩
      rw [hout', hout, append_assoc]
    · rw [writeAll_append, Option.bind_eq_some_iff] at hw
      obtain ⟨d₁, hw₁, hw₂⟩ := hw
      obtain ⟨t, hrun, ht, hout⟩ := hm.value h hw₁ hp
      obtain ⟨u, hrun', hu, hout'⟩ := (hf a).raises ht hw₂ he
      refine ⟨u, by rw [Effect.bind_ok hrun, hrun'], hu, ?_⟩
      rw [hout', hout, append_assoc]
    · rcases hw₁ : writeAll apply p.writes d with _ | d₁
      · have hlost := hm.hopeless h (Or.inl hw₁)
        rw [Effect.bind_apply]
        rcases hrun : m s with ⟨e | b, t⟩
        · rw [hrun] at hlost
          exact hlost
        · rw [hrun] at hlost
          exact (hf b).keeps.hopeless t hlost
      · obtain ⟨t, hrun, ht, -⟩ := hm.value h hw₁ hp
        rw [Effect.bind_ok hrun]
        refine (hf a).hopeless ht (hno.imp_left fun hw => ?_)
        rw [writeAll_append, hw₁, Option.bind_some] at hw
        exact hw
  · have hbind : p >>= g = ⟨p.writes, p.notes, .raises e⟩ := by
      rw [bind_def, andThen, hp]
    rw [hbind]
    refine ⟨hkeeps, fun _ _ ha => (by cases ha), fun h hw he => ?_, fun {s d} h hno => ?_⟩
    · cases he
      obtain ⟨t, hrun, ht, hout⟩ := hm.raises h hw hp
      exact ⟨t, by rw [Effect.bind_apply, hrun], ht, hout⟩
    · rcases hno with hno | hno
      · have hlost := hm.hopeless h (Or.inl hno)
        rw [Effect.bind_apply]
        rcases hrun : m s with ⟨e' | b, t⟩
        · rw [hrun] at hlost
          exact hlost
        · rw [hrun] at hlost
          exact (hf b).keeps.hopeless t hlost
      · cases hno
  · have hbind : p >>= g = ⟨p.writes, p.notes, .refused⟩ := by
      rw [bind_def, andThen, hp]
    rw [hbind]
    refine ⟨hkeeps, fun _ _ ha => (by cases ha), fun _ _ he => (by cases he), fun {s d} h _ => ?_⟩
    have hlost := hm.hopeless h (Or.inr hp)
    rw [Effect.bind_apply]
    rcases hrun : m s with ⟨e' | b, t⟩
    · rw [hrun] at hlost
      exact hlost
    · rw [hrun] at hlost
      exact (hf b).keeps.hopeless t hlost

theorem Follows.attempt (hm : Follows apply m p) : Follows apply (Effect.attempt m) p.attempt := by
  refine ⟨hm.keeps.attempt, fun {s d d' x} h hw ha => ?_, fun {s d d' e} h hw he => ?_,
    fun {s d} h hno => ?_⟩
  · rcases hp : p.answer with a | e | _
    · obtain ⟨t, hrun, ht, hout⟩ := hm.value h hw hp
      simp only [Plan.attempt, hp] at ha
      cases ha
      exact ⟨t, by rw [Effect.attempt, hrun], ht, hout⟩
    · obtain ⟨t, hrun, ht, hout⟩ := hm.raises h hw hp
      simp only [Plan.attempt, hp] at ha
      cases ha
      exact ⟨t, by rw [Effect.attempt, hrun], ht, hout⟩
    · simp only [Plan.attempt, hp] at ha
      cases ha
  · rcases hp : p.answer with a | e | _
    all_goals
      simp only [Plan.attempt, hp] at he
      cases he
  · refine hm.hopeless h (hno.imp_right fun hno => ?_)
    rcases hp : p.answer with a | e | _
    · simp only [Plan.attempt, hp] at hno
      cases hno
    · simp only [Plan.attempt, hp] at hno
      cases hno
    · rfl

theorem follows_ite {c : Prop} [Decidable c]
    {m' : Effect (Raise E) (UnitOfWork D W (List N)) A} {p' : Plan W N E A}
    (h : Follows apply m p) (h' : Follows apply m' p') :
    Follows apply (if c then m else m') (if c then p else p') := by
  by_cases hc : c
  · rw [if_pos hc, if_pos hc]
    exact h
  · rw [if_neg hc, if_neg hc]
    exact h'

/-- **What a transaction stores** is what its plan stores, or what was there before. -/
theorem scope_follows
    (hm : Follows apply m p) {s : UnitOfWork D W (List N)} {d : D} (h : Holds apply d s) :
    (∀ d', p.stores apply d = some d' →
      (scope apply m s).2 = opened d' (s.outside ++ p.notes)) ∧
    (p.stores apply d = none → (scope apply m s).2.stored = s.stored) := by
  unfold Plan.stores
  constructor
  · intro d' hd'
    rcases hp : p.answer with a | e | _
    · rw [hp] at hd'
      obtain ⟨t, hrun, ht, hout⟩ := hm.value h hd' hp
      rw [scope_ok hrun ht, hout]
    · rw [hp] at hd'
      cases hd'
    · rw [hp] at hd'
      cases hd'
  · intro hnone
    refine scope_stored_of_lost hm.keeps ?_
    rcases hp : p.answer with a | e | _
    · rw [hp] at hnone
      exact Or.inr (hm.hopeless h (Or.inl hnone))
    · rcases hw : writeAll apply p.writes d with _ | d'
      · exact Or.inr (hm.hopeless h (Or.inl hw))
      · obtain ⟨t, hrun, -, -⟩ := hm.raises h hw hp
        exact Or.inl ⟨.raised e, by rw [hrun]⟩
    · exact Or.inr (hm.hopeless h (Or.inr hp))

/-- **A transaction whose plan is carried out** returns its value and stores what it writes. -/
theorem scope_ends (hm : Follows apply m p) {s : UnitOfWork D W (List N)} {d d' : D} {a : A}
    (h : Holds apply d s) (hp : Ends apply p d a d') :
    scope apply m s = (.ok a, opened d' (s.outside ++ p.notes)) := by
  obtain ⟨t, hrun, ht, hout⟩ := hm.value h hp.2 hp.1
  rw [scope_ok hrun ht, hout]

/-- A computation for each entry of a list. -/
theorem follows_forM {B : Type} (l : List B)
    {m : B → Effect (Raise E) (UnitOfWork D W (List N)) PUnit} {p : B → Plan W N E PUnit}
    (h : ∀ b, Follows apply (m b) (p b)) : Follows apply (l.forM m) (l.forM p) := by
  induction l with
  | nil => exact follows_pure _
  | cons b l ih => exact (h b).bind fun _ => ih

variable (apply)

/-- **The operations of a session**, as a program uses them: to write, to note something outside, to
flush, to read what is loaded, to call what uses the session, and to catch what is raised. -/
structure Operations (W N E : Type) (M : Type → Type) where
  add : W → M Unit
  note : N → M Unit
  flush : M Unit
  touch : M Unit
  call : {A : Type} → Answer E A → M A
  attempt : {A : Type} → M A → M (Except (Raise E) A)

/-- The operations, in a session. -/
def inSession : Operations W N E (Effect (Raise E) (UnitOfWork D W (List N))) where
  add := add
  note := note
  flush := flush apply
  touch := touch
  call := call
  attempt := Effect.attempt

/-- The operations, in a plan. -/
def inPlan : Operations W N E (Plan W N E) where
  add := Plan.write
  note := Plan.note
  flush := pure ()
  touch := pure ()
  call := Plan.ofAnswer
  attempt := Plan.attempt

end UnitOfWork

end Guardian.Transition

import Mathlib.Order.WellFounded

/-!
# Computations on a state that may raise

A computation ends with a value or an error, and leaves a state either way: what it has done before
an error is not undone.

* `Ensures`: what a computation ensures, unless the state has entered a set that it cannot leave.
  There is one rule for each way to compose computations.
* `Answers`: what a computation returns, on the same terms.
* `exists_fuel`: a loop whose body decreases a well-founded measure ends.
-/

namespace Guardian.Transition

variable {E S A B R : Type}

/-! ### Computations -/

/-- **A computation** on the states `S`, with errors `E` and values `A`. -/
def Effect (E S A : Type) : Type := S → Except E A × S

namespace Effect

/-- The computation that does nothing but return. -/
def ret (a : A) : Effect E S A := fun s => (.ok a, s)

/-- One computation after the other, unless the first one raises. -/
def andThen (m : Effect E S A) (f : A → Effect E S B) : Effect E S B := fun s =>
  match m s with
  | (.ok a, s') => f a s'
  | (.error e, s') => (.error e, s')

instance : Monad (Effect E S) where
  pure := ret
  bind := andThen

/-- Raises or returns what a pure call raises or returns. -/
def ofExcept (x : Except E A) : Effect E S A := fun s => (x, s)

/-- Reads the state. -/
def read (f : S → A) : Effect E S A := fun s => (.ok (f s), s)

/-- Changes the state. -/
def update (f : S → S) : Effect E S Unit := fun s => (.ok (), f s)

/-- Catches what a computation raises. -/
def attempt (m : Effect E S A) : Effect E S (Except E A) := fun s => (.ok (m s).1, (m s).2)

/-- **A loop**: the body goes on with a new value of its variables or ends the loop.  The fuel
bounds the number of rounds; `out` is raised when it is spent. -/
def loop (out : E) (body : A → Effect E S (A ⊕ R)) : ℕ → A → Effect E S R
  | 0, _ => ofExcept (.error out)
  | n + 1, a => do
    match ← body a with
    | .inl a' => loop out body n a'
    | .inr r => pure r

theorem bind_apply (m : Effect E S A) (f : A → Effect E S B) (s : S) :
    (m >>= f) s = match m s with
      | (.ok a, s') => f a s'
      | (.error e, s') => (.error e, s') := rfl

theorem bind_ok {m : Effect E S A} {f : A → Effect E S B} {s s' : S} {a : A}
    (h : m s = (.ok a, s')) : (m >>= f) s = f a s' := by
  rw [bind_apply, h]

@[simp] theorem ret_bind (a : A) (f : A → Effect E S B) (s : S) :
    ((pure a : Effect E S A) >>= f) s = f a s := rfl

@[simp] theorem read_bind (g : S → A) (f : A → Effect E S B) (s : S) :
    (read g >>= f) s = f (g s) s := rfl

@[simp] theorem update_bind (g : S → S) (f : Unit → Effect E S B) (s : S) :
    (update g >>= f) s = f () (g s) := rfl

theorem bind_congr {m m' : Effect E S A} (f : A → Effect E S B) {s : S} (h : m s = m' s) :
    (m >>= f) s = (m' >>= f) s := by
  rw [bind_apply, bind_apply, h]

theorem bind_ne_error {m : Effect E S A} {f : A → Effect E S B} {s : S} {e : E}
    (hm : (m s).1 ≠ .error e) (hf : ∀ a t, (f a t).1 ≠ .error e) : ((m >>= f) s).1 ≠ .error e := by
  rw [bind_apply]
  rcases hrun : m s with ⟨e' | a, t⟩
  · rw [hrun] at hm
    exact fun he => hm (by rw [Except.error.inj he])
  · exact hf a t

end Effect

open Effect

/-! ### What a computation ensures -/

/-- **A contract** of computations: the errors that they may raise, the states that they cannot
leave, and the states that they keep to otherwise. -/
structure Contract (E S : Type) where
  raises : E → Prop
  escape : S → Prop
  keep : S → Prop

/-- **What a computation ensures.**  It raises errors of the contract only, and does not leave the
states of escape.  If `pre` holds, a run from the states to keep ends in them with a value in `Q`,
or escapes. -/
structure Ensures (C : Contract E S) (pre : Prop) (m : Effect E S A) (Q : A → Prop) : Prop where
  raises : ∀ s e, (m s).1 = .error e → C.raises e
  escape : ∀ s, C.escape s → C.escape (m s).2
  keep : pre → ∀ s, C.keep s →
    C.escape (m s).2 ∨ C.keep (m s).2 ∧ ∀ a, (m s).1 = .ok a → Q a

section Rules

variable {C : Contract E S} {pre pre' : Prop} {m : Effect E S A} {f : A → Effect E S B}
  {Q Q' : A → Prop} {Q₂ : B → Prop}

theorem Ensures.weaken (h : Ensures C pre m Q) (hpre : pre' → pre) (hQ : ∀ a, Q a → Q' a) :
    Ensures C pre' m Q' := by
  refine ⟨h.raises, h.escape, fun hp s hs => ?_⟩
  rcases h.keep (hpre hp) s hs with hu | ⟨hP, ha⟩
  · exact Or.inl hu
  · exact Or.inr ⟨hP, fun a hret => hQ a (ha a hret)⟩

theorem Ensures.mono_pre (h : Ensures C pre m Q) (hpre : pre' → pre) : Ensures C pre' m Q :=
  h.weaken hpre fun _ hQ => hQ

theorem ensures_pure {a : A} (h : pre → Q a) : Ensures C pre (pure a : Effect E S A) Q := by
  refine ⟨(fun _ _ he => nomatch he), fun _ hu => hu, fun hp s hs => Or.inr ⟨hs, fun b hb => ?_⟩⟩
  cases hb
  exact h hp

theorem ensures_ofExcept {x : Except E A} (hx : ∀ e, x = .error e → C.raises e)
    (h : pre → ∀ a, x = .ok a → Q a) : Ensures C pre (ofExcept x : Effect E S A) Q :=
  ⟨fun _ => hx, fun _ hu => hu, fun hp _ hs => Or.inr ⟨hs, h hp⟩⟩

theorem ensures_read {g : S → A} (h : pre → ∀ s, C.keep s → Q (g s)) :
    Ensures C pre (Effect.read g : Effect E S A) Q := by
  refine ⟨(fun _ _ he => nomatch he), fun _ hu => hu, fun hp s hs => Or.inr ⟨hs, fun a ha => ?_⟩⟩
  cases ha
  exact h hp s hs

theorem ensures_update {g : S → S} (hescape : ∀ s, C.escape s → C.escape (g s))
    (hkeep : ∀ s, C.keep s → C.keep (g s)) :
    Ensures C pre (update g : Effect E S Unit) fun _ => True :=
  ⟨(fun _ _ he => nomatch he), hescape, fun _ s hs => Or.inr ⟨hkeep s hs, fun _ _ => trivial⟩⟩

/-- **One computation after the other.**  The second one may use what the first one ensures of its
value, and what held before, as that does not depend on the state. -/
theorem Ensures.bind (hm : Ensures C pre m Q) (hf : ∀ a, Ensures C (pre ∧ Q a) (f a) Q₂) :
    Ensures C pre (m >>= f) Q₂ := by
  refine ⟨fun s => ?_, fun s => ?_, fun hp s => ?_⟩
  · have hraise := hm.raises s
    rw [bind_apply]
    rcases hrun : m s with ⟨e | a, t⟩
    · intro e' he
      rw [hrun] at hraise
      cases he
      exact hraise e rfl
    · exact (hf a).raises t
  · have hescape := hm.escape s
    rw [bind_apply]
    rcases hrun : m s with ⟨e | a, t⟩
    · rw [hrun] at hescape
      exact hescape
    · rw [hrun] at hescape
      exact fun hu => (hf a).escape t (hescape hu)
  · have hkeep := hm.keep hp s
    rw [bind_apply]
    rcases hrun : m s with ⟨e | a, t⟩
    · rw [hrun] at hkeep
      intro hs
      rcases hkeep hs with hu | ⟨ht, -⟩
      · exact Or.inl hu
      · exact Or.inr ⟨ht, fun b hb => by cases hb⟩
    · rw [hrun] at hkeep
      intro hs
      rcases hkeep hs with hu | ⟨ht, hQ⟩
      · exact Or.inl ((hf a).escape t hu)
      · exact (hf a).keep ⟨hp, hQ a rfl⟩ t ht

/-- What has escaped does not come back. -/
theorem escape_bind {s : S} (hm : C.escape (m s).2) (hf : ∀ a, Ensures C pre (f a) Q₂) :
    C.escape ((m >>= f) s).2 := by
  rw [bind_apply]
  rcases hrun : m s with ⟨e | a, t⟩
  · rw [hrun] at hm
    exact hm
  · rw [hrun] at hm
    exact (hf a).escape t hm

/-- **What is caught** is raised no more. -/
theorem Ensures.attempt (hm : Ensures C pre m Q) :
    Ensures C pre (attempt m) fun x => ∀ a, x = .ok a → Q a := by
  refine ⟨(fun _ _ he => nomatch he), hm.escape, fun hp s hs => ?_⟩
  rcases hm.keep hp s hs with hu | ⟨ht, hQ⟩
  · exact Or.inl hu
  · refine Or.inr ⟨ht, fun x hx a ha => ?_⟩
    cases hx
    exact hQ a ha

theorem ensures_ite {c : Prop} [Decidable c] {m₁ m₂ : Effect E S A}
    (h₁ : c → Ensures C pre m₁ Q) (h₂ : ¬ c → Ensures C pre m₂ Q) :
    Ensures C pre (if c then m₁ else m₂) Q := by
  by_cases h : c
  · rw [if_pos h]
    exact h₁ h
  · rw [if_neg h]
    exact h₂ h

/-- **A loop** ensures what its body keeps of the loop variables. -/
theorem ensures_loop {out : E} {body : A → Effect E S (A ⊕ R)} {I : A → Prop} {Qr : R → Prop}
    (hout : C.raises out)
    (hbody : ∀ a, Ensures C (I a) (body a) fun x =>
      (∀ a', x = .inl a' → I a') ∧ ∀ r, x = .inr r → Qr r) :
    ∀ n a, Ensures C (I a) (loop out body n a) Qr := by
  intro n
  induction n with
  | zero =>
    intro a
    refine ensures_ofExcept (fun e he => ?_) fun _ r hr => by cases hr
    rw [← Except.error.inj he]
    exact hout
  | succ n ih =>
    intro a
    refine (hbody a).bind fun x => ?_
    rcases x with a' | r
    · exact (ih a').mono_pre fun h => h.2.1 a' rfl
    · exact ensures_pure fun h => h.2.2 r rfl

end Rules

/-! ### What a computation answers -/

/-- **What a computation answers.**  It does not leave the states of escape.  If `pre` holds, its
run escapes, returns a value in `Q`, or raises one of the errors that are left. -/
structure Answers (escape : S → Prop) (raises : E → Prop) (pre : Prop) (m : Effect E S A)
    (Q : A → Prop) : Prop where
  stays : ∀ s, escape s → escape (m s).2
  answers : pre → ∀ s, escape (m s).2 ∨ (∃ a, (m s).1 = .ok a ∧ Q a) ∨
    ∃ e, (m s).1 = .error e ∧ raises e

section AnswerRules

variable {escape : S → Prop} {raises raises' : E → Prop} {pre pre' : Prop} {m : Effect E S A}
  {f : A → Effect E S B} {Q Q' : A → Prop} {Q₂ : B → Prop}

theorem Answers.weaken (h : Answers escape raises pre m Q) (hpre : pre' → pre)
    (hQ : ∀ a, Q a → Q' a) : Answers escape raises pre' m Q' := by
  refine ⟨h.stays, fun hp s => ?_⟩
  rcases h.answers (hpre hp) s with hu | ⟨a, ha, hq⟩ | he
  · exact Or.inl hu
  · exact Or.inr (Or.inl ⟨a, ha, hQ a hq⟩)
  · exact Or.inr (Or.inr he)

theorem Answers.mono_pre (h : Answers escape raises pre m Q) (hpre : pre' → pre) :
    Answers escape raises pre' m Q := h.weaken hpre fun _ hQ => hQ

/-- What is assumed holds afterwards. -/
theorem Answers.with_pre (h : Answers escape raises pre m Q) :
    Answers escape raises pre m fun a => pre ∧ Q a := by
  refine ⟨h.stays, fun hp s => ?_⟩
  rcases h.answers hp s with hu | ⟨a, ha, hq⟩ | he
  · exact Or.inl hu
  · exact Or.inr (Or.inl ⟨a, ha, hp, hq⟩)
  · exact Or.inr (Or.inr he)

theorem answers_pure {a : A} (h : pre → Q a) :
    Answers escape raises pre (pure a : Effect E S A) Q :=
  ⟨fun _ hu => hu, fun hp _ => Or.inr (Or.inl ⟨a, rfl, h hp⟩)⟩

theorem answers_ofExcept {x : Except E A} (h : pre → ∃ a, x = .ok a ∧ Q a) :
    Answers escape raises pre (ofExcept x : Effect E S A) Q :=
  ⟨fun _ hu => hu, fun hp _ => Or.inr (Or.inl (h hp))⟩

theorem answers_raise {e : E} (h : raises e) :
    Answers escape raises pre (ofExcept (.error e) : Effect E S A) Q :=
  ⟨fun _ hu => hu, fun _ _ => Or.inr (Or.inr ⟨e, rfl, h⟩)⟩

theorem answers_read {g : S → A} :
    Answers escape raises pre (Effect.read g : Effect E S A) fun _ => True :=
  ⟨fun _ hu => hu, fun _ s => Or.inr (Or.inl ⟨g s, rfl, trivial⟩)⟩

theorem answers_update {g : S → S} (hescape : ∀ s, escape s → escape (g s)) :
    Answers escape raises pre (update g : Effect E S Unit) fun _ => True :=
  ⟨hescape, fun _ _ => Or.inr (Or.inl ⟨(), rfl, trivial⟩)⟩

/-- **One computation after the other.** -/
theorem Answers.bind (hm : Answers escape raises pre m Q)
    (hf : ∀ a, Answers escape raises (pre ∧ Q a) (f a) Q₂) :
    Answers escape raises pre (m >>= f) Q₂ := by
  refine ⟨fun s hu => ?_, fun hp s => ?_⟩
  · have hstays := hm.stays s hu
    rw [bind_apply]
    rcases hrun : m s with ⟨e | a, t⟩
    · rwa [hrun] at hstays
    · rw [hrun] at hstays
      exact (hf a).stays t hstays
  · have hanswers := hm.answers hp s
    rw [bind_apply]
    rcases hrun : m s with ⟨e | a, t⟩
    · rw [hrun] at hanswers
      rcases hanswers with hu | ⟨a, ha, -⟩ | ⟨e', he', hraises⟩
      · exact Or.inl hu
      · cases ha
      · cases he'
        exact Or.inr (Or.inr ⟨e, rfl, hraises⟩)
    · rw [hrun] at hanswers
      rcases hanswers with hu | ⟨a', ha, hq⟩ | ⟨e', he', -⟩
      · exact Or.inl ((hf a).stays t hu)
      · cases ha
        exact (hf a).answers ⟨hp, hq⟩ t
      · cases he'

/-- **What is caught** is raised no more. -/
theorem Answers.attempt (hm : Answers escape raises pre m Q) :
    Answers escape raises' pre (attempt m) fun x => ∀ a, x = .ok a → Q a := by
  refine ⟨hm.stays, fun hp s => ?_⟩
  rcases hm.answers hp s with hu | ⟨a, ha, hq⟩ | ⟨e, he, -⟩
  · exact Or.inl hu
  · refine Or.inr (Or.inl ⟨_, rfl, fun a' ha' => ?_⟩)
    cases ha.symm.trans ha'
    exact hq
  · refine Or.inr (Or.inl ⟨_, rfl, fun a' ha' => ?_⟩)
    cases he.symm.trans ha'

theorem answers_ite {c : Prop} [Decidable c] {m₁ m₂ : Effect E S A}
    (h₁ : c → Answers escape raises pre m₁ Q) (h₂ : ¬ c → Answers escape raises pre m₂ Q) :
    Answers escape raises pre (if c then m₁ else m₂) Q := by
  by_cases h : c
  · rw [if_pos h]
    exact h₁ h
  · rw [if_neg h]
    exact h₂ h

/-- **A loop** answers what its body keeps of the loop variables, or spends its fuel. -/
theorem answers_loop {out : E} {body : A → Effect E S (A ⊕ R)} {I : A → Prop} {Qr : R → Prop}
    (hout : raises out)
    (hbody : ∀ a, Answers escape raises (I a) (body a) fun x =>
      (∀ a', x = .inl a' → I a') ∧ ∀ r, x = .inr r → Qr r) :
    ∀ n a, Answers escape raises (I a) (loop out body n a) Qr := by
  intro n
  induction n with
  | zero => exact fun a => answers_raise hout
  | succ n ih =>
    intro a
    refine (hbody a).bind fun x => ?_
    rcases x with a' | r
    · exact (ih a').mono_pre fun h => h.2.1 a' rfl
    · exact answers_pure fun h => h.2.2 r rfl

end AnswerRules

/-! ### Loops that end -/

section Termination

variable {out : E} {body : A → Effect E S (A ⊕ R)}

/-- **A loop ends** when each round that goes on decreases a well-founded measure: from some amount
of fuel on, more fuel changes nothing, and the fuel is not spent. -/
theorem exists_fuel {M : Type*} {r : M → M → Prop} (hr : WellFounded r) (μ : A → M)
    (hdec : ∀ a s a' s', body a s = (.ok (.inl a'), s') → r (μ a') (μ a))
    (hout : ∀ a s, (body a s).1 ≠ .error out) (a : A) (s : S) :
    ∃ n, ∀ k, n ≤ k → loop out body k a s = loop out body n a s ∧
      (loop out body n a s).1 ≠ .error out := by
  induction hμ : μ a using hr.induction generalizing a s with
  | _ _ ih =>
    subst hμ
    rcases hrun : body a s with ⟨e | a' | b, t⟩
    · refine ⟨1, fun k hk => ?_⟩
      obtain ⟨k, rfl⟩ := Nat.exists_eq_add_of_le' hk
      have hstep : ∀ j, loop out body (j + 1) a s = (.error e, t) := by
        intro j
        rw [loop, bind_apply, hrun]
      rw [hstep k, hstep 0]
      refine ⟨rfl, fun he => hout a s ?_⟩
      rw [hrun, Except.error.inj he]
    · obtain ⟨n, hn⟩ := ih (μ a') (hdec a s a' t hrun) a' t rfl
      have hstep : ∀ j, loop out body (j + 1) a s = loop out body j a' t := by
        intro j
        rw [loop, bind_apply, hrun]
      refine ⟨n + 1, fun k hk => ?_⟩
      obtain ⟨k, rfl⟩ := Nat.exists_eq_add_of_le' (Nat.le_of_add_left_le hk)
      rw [hstep k, hstep n]
      exact hn k (by omega)
    · refine ⟨1, fun k hk => ?_⟩
      obtain ⟨k, rfl⟩ := Nat.exists_eq_add_of_le' hk
      have hstep : ∀ j, loop out body (j + 1) a s = (.ok b, t) := by
        intro j
        rw [loop, bind_apply, hrun]
        rfl
      rw [hstep k, hstep 0]
      exact ⟨rfl, fun he => by cases he⟩

end Termination

end Guardian.Transition

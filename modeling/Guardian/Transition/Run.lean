import Mathlib.Data.List.Basic

/-!
# Runs of a transition system

A system is a step function; where it is partial, an event cannot happen in some states.  A run is
a sequence of steps, each of which meets a condition on the state before it and its event.

* `Run.invariant`: what every step of the run preserves holds in every state it reaches.
* `run_of_foldlM`: a list of events that happens is a run; `run_of_guarded` checks the condition at
  each of them.
* `along_imp`, `along_iff`: along the run of a total step function, what the steps keep and how two
  properties of a step agree.
* `split_concat`: what splits a record that has grown by one entry.
* `shuffles`: the orders in which the steps of two sequential parties may come.
-/

namespace Guardian.Transition

open List
variable {S E : Type*}

/-- **The runs** of a step function whose steps meet a condition. -/
inductive Run (step : S → E → Option S) (Ok : S → E → Prop) : S → S → Prop
  | refl (s : S) : Run step Ok s s
  | tail {s t u : S} {e : E} (h : Run step Ok s t) (hok : Ok t e) (hstep : step t e = some u) :
      Run step Ok s u

section Partial
variable {step : S → E → Option S} {Ok Ok' : S → E → Prop}

/-- **The induction rule**: what each step preserves holds in every state a run reaches. -/
theorem Run.invariant {P : S → Prop}
    (hstep : ∀ {s t e}, P s → Ok s e → step s e = some t → P t) {s t : S}
    (h : Run step Ok s t) (hs : P s) : P t := by
  induction h with
  | refl => exact hs
  | tail _ hok he ih => exact hstep ih hok he

theorem Run.trans {s t u : S} (hst : Run step Ok s t) (htu : Run step Ok t u) :
    Run step Ok s u := by
  induction htu with
  | refl => exact hst
  | tail _ hok he ih => exact ih.tail hok he

/-- A run that meets a condition meets what the condition implies. -/
theorem Run.mono (hok : ∀ s e, Ok s e → Ok' s e) {s t : S} (h : Run step Ok s t) :
    Run step Ok' s t := by
  induction h with
  | refl => exact .refl _
  | tail _ he hstep ih => exact ih.tail (hok _ _ he) hstep

/-- Events that happen one after the other are a run, if they meet the condition in any state. -/
theorem run_of_forall_mem {es : List E} (hok : ∀ e ∈ es, ∀ s, Ok s e) {s t : S}
    (h : es.foldlM step s = some t) : Run step Ok s t := by
  induction es generalizing s with
  | nil =>
    cases h
    exact .refl _
  | cons e es ih =>
    rw [foldlM_cons] at h
    rcases he : step s e with _ | u
    · rw [he] at h
      cases h
    · rw [he] at h
      exact Run.trans (.tail (.refl s) (hok e mem_cons_self s) he)
        (ih (fun e he => hok e (mem_cons_of_mem _ he)) h)

/-- **Events that happen one after the other** are a run. -/
theorem run_of_foldlM (hok : ∀ s e, Ok s e) {es : List E} {s t : S}
    (h : es.foldlM step s = some t) : Run step Ok s t :=
  run_of_forall_mem (fun e _ s => hok s e) h

/-- **Events that happen and meet the condition** one after the other are a run. -/
theorem run_of_guarded [∀ s e, Decidable (Ok s e)] (es : List E) {s t : S}
    (h : es.foldlM (fun s e => if Ok s e then step s e else none) s = some t) :
    Run step Ok s t := by
  induction es generalizing s with
  | nil =>
    cases h
    exact .refl _
  | cons e es ih =>
    rw [foldlM_cons] at h
    split_ifs at h with hok
    · rcases he : step s e with _ | u
      · rw [he] at h
        cases h
      · rw [he] at h
        exact Run.trans (.tail (.refl s) hok he) (ih h)
    · cases h

end Partial

/-! ### Along the run of a total step function -/

section Total
variable (step : S → E → S)

/-- **At each step of a run** the state before it and the event are in the relation. -/
def Along (P : S → E → Prop) : S → List E → Prop
  | _, [] => True
  | s, e :: es => P s e ∧ Along P (step s e) es

variable {step} {P Q : S → E → Prop}

theorem along_of_forall (hP : ∀ s e, P s e) (s : S) (es : List E) : Along step P s es := by
  induction es generalizing s with
  | nil => trivial
  | cons e es ih => exact ⟨hP s e, ih _⟩

theorem along_append (s : S) (es fs : List E) :
    Along step P s (es ++ fs) ↔ Along step P s es ∧ Along step P (es.foldl step s) fs := by
  induction es generalizing s with
  | nil => simp [Along]
  | cons e es ih => rw [cons_append, Along, Along, ih, and_assoc, foldl_cons]

/-- **A property that keeps an invariant** gives along a run what it gives of one step. -/
theorem along_imp {I : S → Prop} (himp : ∀ s e, I s → Q s e → P s e)
    (hstep : ∀ s e, I s → Q s e → I (step s e)) {s : S} (hs : I s) {es : List E}
    (h : Along step Q s es) : Along step P s es := by
  induction es generalizing s with
  | nil => trivial
  | cons e es ih => exact ⟨himp s e hs h.1, ih (hstep s e hs h.1) h.2⟩

/-- **Two properties that agree under an invariant**, which the second one keeps, hold along the
same runs. -/
theorem along_iff {I : S → Prop} (hiff : ∀ s e, I s → (P s e ↔ Q s e))
    (hstep : ∀ s e, I s → Q s e → I (step s e)) {s : S} (hs : I s) (es : List E) :
    Along step P s es ↔ Along step Q s es := by
  induction es generalizing s with
  | nil => exact Iff.rfl
  | cons e es ih =>
    rw [Along, Along, hiff s e hs]
    constructor
    · rintro ⟨he, hes⟩
      exact ⟨he, (ih (hstep s e hs he)).mp hes⟩
    · rintro ⟨he, hes⟩
      exact ⟨he, (ih (hstep s e hs he)).mpr hes⟩

end Total

/-! ### Records that grow -/

/-- **A split of a record that grew by one entry**: at the new entry, or at one that was there. -/
theorem split_concat {A : Type*} {record before after : List A} {a new : A}
    (h : record ++ [new] = before ++ a :: after) :
    (before = record ∧ a = new) ∨ ∃ after', record = before ++ a :: after' := by
  rcases eq_nil_or_concat after with rfl | ⟨after', last, rfl⟩
  · obtain ⟨hrecord, hlast⟩ := append_inj' h rfl
    exact Or.inl ⟨hrecord.symm, (head_eq_of_cons_eq hlast).symm⟩
  · rw [concat_eq_append, ← cons_append, ← append_assoc] at h
    obtain ⟨rfl, -⟩ := append_inj' h rfl
    exact Or.inr ⟨after', rfl⟩

/-! ### Interleavings -/

section Shuffles
variable {α : Type*}

/-- **The interleavings** of two lists of steps, each in its own order. -/
def shuffles : List α → List α → List (List α)
  | [], ys => [ys]
  | xs, [] => [xs]
  | x :: xs, y :: ys => (shuffles xs (y :: ys)).map (x :: ·) ++ (shuffles (x :: xs) ys).map (y :: ·)

/-- Two parties of two steps each: one after the other, or one of four overlaps. -/
theorem mem_shuffles_pairs {a b c d : α} {order : List α} :
    order ∈ shuffles [a, b] [c, d] ↔ order = [a, b, c, d] ∨ order = [c, d, a, b] ∨
      order = [a, c, b, d] ∨ order = [a, c, d, b] ∨ order = [c, a, d, b] ∨
      order = [c, a, b, d] := by
  simp only [shuffles, map_cons, map_nil, cons_append, nil_append,
    mem_cons, not_mem_nil, or_false]
  tauto

end Shuffles

end Guardian.Transition

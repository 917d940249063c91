import Guardian.Sast.Exec

/-!
# Control paths

The paths that a body may take, each with the taint that it leaves.  A statement may raise before it
binds anything; a loop may take any number of rounds.
-/

namespace Guardian.Sast

open Python

/-- How a path leaves a body. -/
inductive Exit
  | fell
  | broke
  | continued
  | returned
  | raised
  deriving DecidableEq

/-- **The rounds of a loop**, with the paths of a round. -/
inductive Rounds (step : Env → Exit → Env → Prop) : Env → Exit → Env → Prop
  | done (env : Env) : Rounds step env .fell env
  | again {env q p : Env} {x y : Exit} (hy : y = .fell ∨ y = .continued) (h : step env y q)
      (hrest : Rounds step q x p) : Rounds step env x p
  | leave {env p : Env} {x : Exit} (hx : x = .broke ∨ x = .returned ∨ x = .raised)
      (h : step env x p) : Rounds step env x p

/-- The paths of a loop: a `break` skips the `else` part. -/
def loopPath (step orelse : Env → Exit → Env → Prop) (env : Env) (x : Exit) (p : Env) : Prop :=
  (∃ q, Rounds step env .fell q ∧ orelse q x p) ∨ (x = .fell ∧ Rounds step env .broke p) ∨
    ((x = .returned ∨ x = .raised) ∧ Rounds step env x p)

section Paths
variable (a : Analyzer) (run : List Stmt → Env → Exit → Env → Prop)

/-- The paths of a `try` up to its `finally` part.  An exception may be handled by any handler, or by
none. -/
def tryOutcome (body : List Stmt) (handlers : List Handler) (orelse : List Stmt) (env : Env)
    (x : Exit) (p : Env) : Prop :=
  (∃ q, run body env .fell q ∧ run orelse q x p) ∨
  (∃ q, run body env .raised q ∧ ((x = .raised ∧ p = q) ∨ ∃ h ∈ handlers, run h.body q x p)) ∨
  ((x ≠ .fell ∧ x ≠ .raised) ∧ run body env x p)

/-- The paths of a statement, with the paths of the bodies in it. -/
def stmtPath (s : Stmt) (env : Env) (x : Exit) (p : Env) : Prop :=
  (x = .raised ∧ p = env) ∨
  match s with
  | .assign line targets value => x = .fell ∧ p = bindAll a line (taint a value env) targets env
  | .annAssign line target _ (some value) =>
    x = .fell ∧ p = bind a line (taint a value env) target env
  | .augAssign line target value =>
    x = .fell ∧ p = bind a line ((taint a target env).or (taint a value env)) target env
  | .returnStmt _ => x = .returned ∧ p = env
  | .breakStmt => x = .broke ∧ p = env
  | .continueStmt => x = .continued ∧ p = env
  | .raiseStmt _ => x = .raised ∧ p = env
  | .forStmt line target iter body orelse =>
    loopPath (fun e => run body (bind a line (taint a iter env) target e)) (run orelse) env x p
  | .whileStmt _ body orelse => loopPath (run body) (run orelse) env x p
  | .ifStmt _ body orelse => run body env x p ∨ run orelse env x p
  | .withStmt line items body => run body (bindItems a line items env) x p
  | .tryStmt body handlers orelse finalbody =>
    ∃ y q, tryOutcome run body handlers orelse env y q ∧
      ((x = y ∧ run finalbody q .fell p) ∨ (x ≠ .fell ∧ run finalbody q x p))
  | .annAssign _ _ _ none | .functionDef .. | .classDef .. | .other .. => x = .fell ∧ p = env

end Paths

/-- The paths of statements one after the other. -/
def bodyPath (f : Stmt → Env → Exit → Env → Prop) : List Stmt → Env → Exit → Env → Prop
  | [], env, x, p => x = .fell ∧ p = env
  | s :: ss, env, x, p => (x ≠ .fell ∧ f s env x p) ∨ ∃ q, f s env .fell q ∧ bodyPath f ss q x p

/-- The paths of a body with so many levels of bodies in it. -/
def pathsOf (a : Analyzer) : ℕ → List Stmt → Env → Exit → Env → Prop
  | 0, _, _, _, _ => False
  | n + 1, body, env, x, p => bodyPath (stmtPath a (pathsOf a n)) body env x p

/-- **The control paths of a body**: a path takes an environment to the one that it leaves. -/
def Path (a : Analyzer) (body : List Stmt) (env : Env) (x : Exit) (p : Env) : Prop :=
  ∃ n, pathsOf a n body env x p

section Mono
variable {a : Analyzer} {run run' : List Stmt → Env → Exit → Env → Prop}
  (h : ∀ b env x p, run b env x p → run' b env x p)

theorem Rounds.mono {step step' : Env → Exit → Env → Prop}
    (h : ∀ env x p, step env x p → step' env x p) {env p : Env} {x : Exit}
    (hr : Rounds step env x p) : Rounds step' env x p := by
  induction hr with
  | done env => exact .done env
  | again hy hround _ ih => exact .again hy (h _ _ _ hround) ih
  | leave hx hround => exact .leave hx (h _ _ _ hround)

theorem loopPath_mono {step step' orelse orelse' : Env → Exit → Env → Prop}
    (h : ∀ env x p, step env x p → step' env x p) (ho : ∀ env x p, orelse env x p → orelse' env x p)
    {env p : Env} {x : Exit} (hl : loopPath step orelse env x p) : loopPath step' orelse' env x p := by
  rcases hl with ⟨q, hr, hq⟩ | ⟨hx, hr⟩ | ⟨hx, hr⟩
  · exact Or.inl ⟨q, hr.mono h, ho _ _ _ hq⟩
  · exact Or.inr (Or.inl ⟨hx, hr.mono h⟩)
  · exact Or.inr (Or.inr ⟨hx, hr.mono h⟩)

include h

theorem tryOutcome_mono {body orelse : List Stmt} {handlers : List Handler} {env p : Env} {x : Exit}
    (ht : tryOutcome run body handlers orelse env x p) :
    tryOutcome run' body handlers orelse env x p := by
  rcases ht with ⟨q, hq, hp⟩ | ⟨q, hq, hp⟩ | ⟨hx, hp⟩
  · exact Or.inl ⟨q, h _ _ _ _ hq, h _ _ _ _ hp⟩
  · refine Or.inr (Or.inl ⟨q, h _ _ _ _ hq, hp.imp_right ?_⟩)
    rintro ⟨handler, hmem, hp⟩
    exact ⟨handler, hmem, h _ _ _ _ hp⟩
  · exact Or.inr (Or.inr ⟨hx, h _ _ _ _ hp⟩)

theorem stmtPath_mono {s : Stmt} {env p : Env} {x : Exit} (hs : stmtPath a run s env x p) :
    stmtPath a run' s env x p := by
  refine hs.imp_right fun hs => ?_
  match s with
  | .forStmt .. => exact loopPath_mono (fun _ => h _ _) (h _) hs
  | .whileStmt .. => exact loopPath_mono (h _) (h _) hs
  | .ifStmt .. => exact hs.imp (h _ _ _ _) (h _ _ _ _)
  | .withStmt .. => exact h _ _ _ _ hs
  | .tryStmt .. =>
    obtain ⟨y, q, hq, hp⟩ := hs
    exact ⟨y, q, tryOutcome_mono h hq,
      hp.imp (And.imp_right (h _ _ _ _)) (And.imp_right (h _ _ _ _))⟩
  | .annAssign _ _ _ none | .annAssign _ _ _ (some _) => exact hs
  | .assign .. | .augAssign .. | .returnStmt _ | .functionDef .. | .classDef .. | .raiseStmt _
  | .breakStmt | .continueStmt | .other .. => exact hs

theorem bodyPath_mono {ss : List Stmt} {env p : Env} {x : Exit}
    (hb : bodyPath (stmtPath a run) ss env x p) : bodyPath (stmtPath a run') ss env x p := by
  induction ss generalizing env with
  | nil => exact hb
  | cons s ss ih =>
    rcases hb with ⟨hx, hs⟩ | ⟨q, hs, hq⟩
    · exact Or.inl ⟨hx, stmtPath_mono h hs⟩
    · exact Or.inr ⟨q, stmtPath_mono h hs, ih hq⟩

end Mono

theorem Path.bodyPath {a : Analyzer} {body : List Stmt} {env p : Env} {x : Exit}
    (h : Path a body env x p) : bodyPath (stmtPath a (Path a)) body env x p := by
  obtain ⟨n, hn⟩ := h
  cases n with
  | zero => cases hn
  | succ n => exact bodyPath_mono (fun _ _ _ _ h => ⟨n, h⟩) hn

/-! ### Bounds on paths -/

/-- What is asked of the environment in which a path leaves before the end. -/
abbrev Bound : Type := Exit → Env → Prop

/-- What is below what a bound allows is allowed too. -/
def Bound.Closed (Q : Bound) : Prop := ∀ x env env', Below env' env → Q x env → Q x env'

/-- The path ends below an environment, or leaves within the bound. -/
def Bounded (Q : Bound) (env : Env) (x : Exit) (p : Env) : Prop :=
  (x = .fell → Below p env) ∧ (x ≠ .fell → Q x p)

/-- The bound in a loop, from the environment at its head and the one after it. -/
def Bound.inLoop (Q : Bound) (head after : Env) : Bound
  | .broke, env => Below env after
  | .continued, env => Below env head
  | x, env => Q x env

theorem Bound.Closed.inLoop {Q : Bound} (h : Q.Closed) (head after : Env) :
    (Q.inLoop head after).Closed := by
  intro x env env' hbelow hx
  cases x with
  | broke | continued => exact hbelow.trans hx
  | fell | returned | raised => exact h _ _ _ hbelow hx

section Rounds
variable {Q : Bound} {step : Env → Exit → Env → Prop} {head end' after : Env}
  (hstep : ∀ env x p, Below env head → step env x p → Bounded (Q.inLoop head after) end' x p)
  (hend : Below end' head)

include hstep hend

/-- **The rounds of a loop stay below its head**, if a round does. -/
theorem rounds_bounded {env p : Env} {x : Exit} (h : Rounds step env x p) (henv : Below env head) :
    Bounded (Q.inLoop head after) head x p := by
  induction h with
  | done env => exact ⟨fun _ => henv, fun hne => absurd rfl hne⟩
  | again hy hround _ ih =>
    have hq := hstep _ _ _ henv hround
    refine ih ?_
    rcases hy with rfl | rfl
    · exact (hq.1 rfl).trans hend
    · exact hq.2 (by decide)
  | leave hx hround =>
    have hp := hstep _ _ _ henv hround
    refine ⟨fun heq => ?_, hp.2⟩
    subst heq
    rcases hx with hx | hx | hx <;> cases hx

/-- **A loop stays within its bounds.** -/
theorem loopPath_bounded {orelse : Env → Exit → Env → Prop}
    (horelse : ∀ env x p, Below env head → orelse env x p → Bounded Q after x p) {env p : Env}
    {x : Exit} (h : loopPath step orelse env x p) (henv : Below env head) : Bounded Q after x p := by
  rcases h with ⟨q, hrounds, hlast⟩ | ⟨rfl, hrounds⟩ | ⟨hx, hrounds⟩
  · exact horelse _ _ _ ((rounds_bounded hstep hend hrounds henv).1 rfl) hlast
  · exact ⟨fun _ => (rounds_bounded hstep hend hrounds henv).2 (by decide),
      fun hne => absurd rfl hne⟩
  · have hp := rounds_bounded hstep hend hrounds henv
    rcases hx with rfl | rfl
    all_goals exact ⟨fun heq => Exit.noConfusion heq, fun _ => hp.2 (by decide)⟩

end Rounds

end Guardian.Sast

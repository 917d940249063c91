import Guardian.Sast.Sinks

/-!
# Walking statements

The statements of a body are executed on an environment.  Every call that `ast.walk` meets in a
statement is judged before the statement binds anything; then the bodies in it are executed.
-/

namespace Guardian.Sast

open Python Guardian.Order

/-- `env[name] = taint`. -/
def Env.set (env : Env) (name : Str) (t : Taint) : Env := fun x => if x = name then some t else env x

/-- `env.pop(name, None)`. -/
def Env.pop (env : Env) (name : Str) : Env := fun x => if x = name then none else env x

/-- `env.update(other)`. -/
def Env.update (env other : Env) : Env := fun x => (other x).or (env x)

/-- The names that are tainted nowhere. -/
def Env.empty : Env := fun _ => none

/-- What executing a body gives: the calls that were judged, each with its environment, the taints
that were returned, and the environment at the end. -/
structure Run where
  judged : List (Call × Env)
  returned : List Taint
  env : Env

def Run.start (env : Env) : Run := ⟨[], [], env⟩

/-- A run, and what is executed after it. -/
def Run.then (r : Run) (f : Env → Run) : Run :=
  let s := f r.env
  ⟨r.judged ++ s.judged, r.returned ++ s.returned, s.env⟩

section Exec
variable (a : Analyzer)

mutual

/-- **`_bind`.** -/
def bind (line : ℕ) (t : Option Taint) : Expr → Env → Env
  | .name _ id, env =>
    match t with
    | none => env.pop id
    | some t => env.set id (t.extend (step a line .propagation))
  | .tuple elts, env | .list elts, env => bindAll line t elts env
  | .attribute l value attr, env =>
    match t, dotted a (.attribute l value attr) with
    | some t, some name => env.set name (t.extend (step a line .propagation))
    | _, _ => env
  | _, env => env

def bindAll (line : ℕ) (t : Option Taint) : List Expr → Env → Env
  | [], env => env
  | target :: targets, env => bindAll line t targets (bind line t target env)

end

/-- The bindings of the items of a `with`. -/
def bindItems (line : ℕ) : List WithItem → Env → Env
  | [], env => env
  | item :: items, env =>
    match item.optionalVars with
    | none => bindItems line items env
    | some target =>
      bindItems line items (bind a line (taint a item.contextExpr env) target env)

/-- Statements one after the other. -/
def runAll {S : Type*} (f : S → Env → Run) : List S → Env → Run
  | [], env => .start env
  | s :: ss, env => (f s env).then (runAll f ss)

/-- The effect of a statement, with the execution of the bodies in it. -/
def effect (run : List Stmt → Env → Run) : Stmt → Env → Run
  | .assign line targets value, env =>
    .start (bindAll a line (taint a value env) targets env)
  | .annAssign line target _ (some value), env =>
    .start (bind a line (taint a value env) target env)
  | .augAssign line target value, env =>
    .start (bind a line ((taint a target env).or (taint a value env)) target env)
  | .returnStmt value, env => ⟨[], (value.bind fun e => taint a e env).toList, env⟩
  | .forStmt line target iter body orelse, env =>
    (run body (bind a line (taint a iter env) target env)).then (run orelse)
  | .withStmt line items body, env => run body (bindItems a line items env)
  | .ifStmt _ body orelse, env | .whileStmt _ body orelse, env =>
    let left := run body env
    let right := run orelse env
    ⟨left.judged ++ right.judged, left.returned ++ right.returned,
      (env.update left.env).update right.env⟩
  | .tryStmt body handlers orelse finalbody, env =>
    (((run body env).then (runAll (fun h => run h.body) handlers)).then (run orelse)).then
      (run finalbody)
  | _, env => .start env

/-- The statement is analysed on its own. -/
def Stmt.isDefinition : Stmt → Bool
  | .functionDef .. | .classDef .. => true
  | _ => false

/-- The loop body of `exec_body`. -/
def execStmt (run : List Stmt → Env → Run) (s : Stmt) (env : Env) : Run :=
  if s.isDefinition then .start env
  else
    let r := effect a run s env
    { r with judged := s.calls.map (fun c => (c, env)) ++ r.judged }

/-- **`exec_body`**, with the number of levels that it still goes down. -/
def execBody : ℕ → List Stmt → Env → Run
  | 0, _, env => .start env
  | n + 1, body, env => runAll (execStmt a (execBody n)) body env

/-- The levels of bodies that are executed. -/
def maxLevels : ℕ := 21

/-- `self.exec_body(body, env)`. -/
def exec (body : List Stmt) (env : Env) : Run := execBody a maxLevels body env

end Exec

section Append
variable {S : Type*} {f : S → Env → Run}

@[simp] theorem Run.then_start (r : Run) : r.then .start = r := by
  simp [Run.then, Run.start]

end Append

/-! ### Two executions side by side -/

/-- The relation is kept when logs are appended. -/
structure Appendable (P : List (Call × Env) → List (Call × Env) → Prop) : Prop where
  nil : P [] []
  append : ∀ l l' m m', P l l' → P m m' → P (l ++ m) (l' ++ m')

/-- The relation between environments is kept by what statements bind. -/
structure Respected (a : Analyzer) (R : Env → Env → Prop) : Prop where
  assign : ∀ line targets value env env', R env env' →
    R (bindAll a line (taint a value env) targets env)
      (bindAll a line (taint a value env') targets env')
  bind : ∀ line target value env env', R env env' →
    R (bind a line (taint a value env) target env) (bind a line (taint a value env') target env')
  augAssign : ∀ line target value env env', R env env' →
    R (Sast.bind a line ((taint a target env).or (taint a value env)) target env)
      (Sast.bind a line ((taint a target env').or (taint a value env')) target env')
  items : ∀ line items env env', R env env' →
    R (bindItems a line items env) (bindItems a line items env')
  update : ∀ env env' left left' right right', R env env' → R left left' → R right right' →
    R ((env.update left).update right) ((env'.update left').update right')

theorem respected_eq (a : Analyzer) : Respected a Eq where
  assign _ _ _ _ _ h := by rw [h]
  bind _ _ _ _ _ h := by rw [h]
  augAssign _ _ _ _ _ h := by rw [h]
  items _ _ _ _ h := by rw [h]
  update _ _ _ _ _ _ h hl hr := by rw [h, hl, hr]

/-- The environments at the end of two runs are related, and what they judged is. -/
def Run.Rel (R : Env → Env → Prop) (P : List (Call × Env) → List (Call × Env) → Prop)
    (r r' : Run) : Prop := R r.env r'.env ∧ P r.judged r'.judged

section Rel
variable {a : Analyzer} {R : Env → Env → Prop} {P : List (Call × Env) → List (Call × Env) → Prop}
  (hP : Appendable P)

include hP

theorem Run.Rel.then {r r' : Run} {f f' : Env → Run} (h : Run.Rel R P r r')
    (hf : ∀ env env', R env env' → Run.Rel R P (f env) (f' env')) :
    Run.Rel R P (r.then f) (r'.then f') := by
  have hnext := hf _ _ h.1
  exact ⟨hnext.1, hP.append _ _ _ _ h.2 hnext.2⟩

theorem runAll_rel {S : Type*} {f f' : S → Env → Run}
    (h : ∀ s env env', R env env' → Run.Rel R P (f s env) (f' s env')) (ss : List S) {env env' : Env}
    (henv : R env env') : Run.Rel R P (runAll f ss env) (runAll f' ss env') := by
  induction ss generalizing env env' with
  | nil => exact ⟨henv, hP.nil⟩
  | cons s ss ih => exact (h s _ _ henv).then hP fun _ _ => ih

/-- **The effect of a statement** relates what the executions of its bodies relate. -/
theorem effect_rel (hR : Respected a R) {run run' : List Stmt → Env → Run}
    (h : ∀ b env env', R env env' → Run.Rel R P (run b env) (run' b env')) (s : Stmt)
    {env env' : Env} (henv : R env env') :
    Run.Rel R P (effect a run s env) (effect a run' s env') := by
  match s with
  | .assign .. => exact ⟨hR.assign _ _ _ _ _ henv, hP.nil⟩
  | .annAssign _ _ _ (some _) => exact ⟨hR.bind _ _ _ _ _ henv, hP.nil⟩
  | .augAssign .. => exact ⟨hR.augAssign _ _ _ _ _ henv, hP.nil⟩
  | .forStmt .. => exact (h _ _ _ (hR.bind _ _ _ _ _ henv)).then hP (h _)
  | .withStmt .. => exact h _ _ _ (hR.items _ _ _ _ henv)
  | .ifStmt _ body orelse | .whileStmt _ body orelse =>
    have hl := h body _ _ henv
    have hr := h orelse _ _ henv
    exact ⟨hR.update _ _ _ _ _ _ henv hl.1 hr.1, hP.append _ _ _ _ hl.2 hr.2⟩
  | .tryStmt _ handlers _ _ =>
    have hhandlers : ∀ env env', R env env' →
        Run.Rel R P (runAll (fun h => run h.body) handlers env)
          (runAll (fun h => run' h.body) handlers env') :=
      fun _ _ => runAll_rel hP (fun h' => h h'.body) handlers
    exact (((h _ _ _ henv).then hP hhandlers).then hP (h _)).then hP (h _)
  | .annAssign _ _ _ none | .returnStmt _ | .functionDef .. | .classDef .. | .raiseStmt _
  | .breakStmt | .continueStmt | .other .. => exact ⟨henv, hP.nil⟩

end Rel

end Guardian.Sast

import Guardian.Order.Bucket
import Guardian.Sast.Catalog

/-!
# Taint

A value that derives from untrusted input carries a taint: where it comes from, the steps it took,
and the classes that it was neutralised for.  The taint of an expression is that of the first part
of it that has one.
-/

namespace Guardian.Sast

open Python Guardian.Order

/-- `TraceStep.what`. -/
inductive What
  | source
  | propagation
  | call
  | sink
  deriving DecidableEq

/-- `TraceStep`. -/
structure TraceStep where
  line : ℕ
  code : Str
  what : What
  deriving DecidableEq

/-- `Taint.source_kind`. -/
inductive SourceKind
  | parameter
  | routeParameter
  | request
  | argv
  | stdin
  deriving DecidableEq

/-- `Taint`.  The origin is the parameter, if the source is one. -/
structure Taint where
  sourceKind : SourceKind
  origin : Str := []
  steps : List TraceStep := []
  neutralized : Finset Cwe := ∅
  deriving DecidableEq

/-- `Taint.extend`. -/
def Taint.extend (t : Taint) (step : TraceStep) : Taint :=
  if t.steps.getLast?.any (fun s => s.line = step.line ∧ s.what = step.what) then t
  else { t with steps := (t.steps ++ [step]).take 12 }

/-- `Taint.sanitize`. -/
def Taint.sanitize (t : Taint) (classes : Finset Cwe) : Taint :=
  { t with neutralized := t.neutralized ∪ classes }

@[simp] theorem Taint.neutralized_extend (t : Taint) (step : TraceStep) :
    (t.extend step).neutralized = t.neutralized := by
  unfold Taint.extend
  split_ifs <;> rfl

@[simp] theorem Taint.neutralized_sanitize (t : Taint) (classes : Finset Cwe) :
    (t.sanitize classes).neutralized = t.neutralized ∪ classes := rfl

/-- What a function does with a parameter: it reaches this sink, on this line. -/
structure Hit where
  sink : Sink
  line : ℕ
  code : Str
  deriving DecidableEq

/-- `FunctionSummary`.  The dictionaries are lists of their items. -/
structure FunctionSummary where
  name : Str
  params : List Str
  paramSinks : List (Str × List Hit) := []
  paramReturns : List Str := []
  paramReturnSanitized : List (Str × Finset Cwe) := []
  deriving DecidableEq

/-- `d.get(k)` of a list of items. -/
def get {V : Type*} (d : List (Str × V)) (k : Str) : Option V := (d.find? (·.1 = k)).map Prod.snd

/-- The environment: the tainted names. -/
abbrev Env : Type := Str → Option Taint

/-- **One environment is below another**: what it taints the other taints, and neutralised for no more
classes. -/
def Below (env env' : Env) : Prop :=
  ∀ x t, env x = some t → ∃ t', env' x = some t' ∧ t'.neutralized ⊆ t.neutralized

theorem Below.refl (env : Env) : Below env env := fun _ t h => ⟨t, h, subset_rfl⟩

theorem Below.trans {env env' env'' : Env} (h : Below env env') (h' : Below env' env'') :
    Below env env'' := by
  intro x t ht
  obtain ⟨t', ht', hsub⟩ := h x t ht
  obtain ⟨t'', ht'', hsub'⟩ := h' x t' ht'
  exact ⟨t'', ht'', hsub'.trans hsub⟩

/-- `_Analyzer`, as far as an expression is judged by it. -/
structure Analyzer where
  aliases : Str → Option Str
  code : ℕ → Str
  functions : Finset Str
  summaries : Str → Option FunctionSummary

/-- A taint that is live for all classes. -/
def rawTaint : Taint := { sourceKind := .parameter }

/-- An analyzer that knows no function and no other name for anything. -/
def plainAnalyzer : Analyzer := ⟨fun _ => none, fun _ => [], ∅, fun _ => none⟩

section Analyzer
variable (a : Analyzer)

/-- The parts of a dotted name. -/
def dottedParts : Expr → Option (List Str)
  | .name _ id => some [id]
  | .attribute _ value attr => (dottedParts value).map (· ++ [attr])
  | _ => none

/-- `dotted`. -/
def dotted (e : Expr) : Option Str :=
  (dottedParts e).map fun parts =>
    match parts with
    | [] => []
    | head :: rest => List.intercalate ['.'] ((a.aliases head).getD head :: rest)

/-- `getattr(node, "lineno", 0)`, of the expressions that may be a source. -/
def Expr.line : Expr → ℕ
  | .name line _ | .attribute line _ _ | .call line _ _ _ => line
  | _ => 0

/-- `step`. -/
def step (line : ℕ) (what : What) : TraceStep := ⟨line, a.code line, what⟩

/-- The base of an attribute, as it is compared with the names of requests. -/
def baseName : Expr → Option Str
  | .name _ id => some id
  | e => dotted a e

/-- `_source_taint`, the kind of the source. -/
def sourceKind (e : Expr) : Option SourceKind :=
  match (dotted a e).filter (· ∈ sourceDotted) with
  | some d => some (if "sys." <+: d then .argv else .request)
  | none =>
    match e with
    | .attribute _ value attr =>
      if (baseName a value).any (· ∈ requestObjects) ∧ attr ∈ requestAttributes then some .request
      else none
    | .call _ (.name _ id) _ _ => if id = "input" then some .stdin else none
    | _ => none

/-- **`_source_taint`.** -/
def sourceTaint (e : Expr) : Option Taint :=
  (sourceKind a e).map fun kind =>
    { sourceKind := kind
      steps := [step a e.line .source] }

/-- **`_bind_arguments`.** -/
def bindArguments (s : FunctionSummary) (c : Call) : List (Str × Expr) :=
  s.params.zip c.args ++ c.keywords.filterMap fun kw =>
    (kw.arg.filter fun arg => arg ∈ s.params).map fun arg => (arg, kw.value)

/-- The receiver and the name of a method. -/
def Expr.method : Expr → Option (Expr × Str)
  | .attribute _ value attr => some (value, attr)
  | _ => none

/-- The methods that carry the taint of their arguments. -/
def formatters : List Str := ["format", "join", "format_map"]

section Call
variable (eval : Expr → Option Taint)

/-- `_first`, with the evaluation of the parts. -/
def first (es : List Expr) : Option Taint := es.findSome? eval

/-- **`_call_taint`**, with the evaluation of the parts. -/
def callTaint (c : Call) : Option Taint :=
  let d := dotted a c.func
  match sanitizerFor d with
  | some sanitizer => (first eval c.allArgs).map fun inner =>
      (inner.sanitize sanitizer.neutralizes).extend (step a c.line .propagation)
  | none =>
    if d.any (· ∈ a.functions) then
      match d.bind a.summaries with
      | none => none
      | some summary => (bindArguments summary c).findSome? fun b =>
          if b.1 ∈ summary.paramReturns then (eval b.2).map fun inner =>
            (inner.sanitize ((get summary.paramReturnSanitized b.1).getD ∅)).extend
              (step a c.line .call)
          else none
    else if d.any (· ∈ propagators) then
      (first eval c.allArgs).map fun inner => inner.extend (step a c.line .propagation)
    else
      match c.func.method with
      | none => none
      | some (receiver, attr) =>
        match eval receiver with
        | some inner => some (inner.extend (step a c.line .propagation))
        | none => (first eval c.allArgs).bind fun inner =>
            if attr ∈ formatters then some (inner.extend (step a c.line .propagation)) else none

/-- The rules of `taint_of` for an expression that is no source. -/
def partsTaint (env : Env) : Expr → Option Taint
  | .name _ id => env id
  | .attribute _ value _ => eval value
  | .subscript value slice => first eval [value, slice]
  | .call line func args keywords => callTaint a eval ⟨line, func, args, keywords⟩
  | .binOp left right => first eval [left, right]
  | .joinedStr values => first eval values
  | .formattedValue value _ => eval value
  | .list elts | .tuple elts | .set elts => first eval elts
  | .dict items => first eval (items.map Item.value)
  | .boolOp values => first eval values
  | .ifExp _ body orelse => first eval [body, orelse]
  | .starred value | .await value | .unaryOp value => eval value
  | .compare .. | .constant _ | .other _ => none

end Call

/-- **`taint_of`**, with the number of levels that it still goes down. -/
def taintOf : ℕ → Expr → Env → Option Taint
  | 0, _, _ => none
  | n + 1, e, env => (sourceTaint a e).or (partsTaint a (fun part => taintOf n part env) env e)

/-- The levels of an expression that are looked at. -/
def maxDepth : ℕ := 25

/-- `self.taint_of(node, env)`. -/
def taint (e : Expr) (env : Env) : Option Taint := taintOf a maxDepth e env

end Analyzer

end Guardian.Sast

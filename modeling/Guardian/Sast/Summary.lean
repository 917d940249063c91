import Guardian.Order.Best
import Guardian.Order.Sweep
import Guardian.Sast.Exec
import Mathlib.Data.Prod.Lex

/-!
# Summaries

What a function does with its parameters is summarised: which of them reach a sink, and which are
returned, neutralised for what.  The functions of a file are summarised one after the other, each with
the summaries that there are by then, in up to four passes.  With the last summaries the file is
reported on.
-/

namespace Guardian.Sast

open Python Findings Guardian.Order

/-- `_parameters`. -/
def parameters (f : Function) : List Str :=
  f.names.filter fun n => n ∉ ["self".toList, "cls".toList]

/-- What is called, or the expression itself. -/
def Expr.callee : Expr → Expr
  | .call _ func _ _ => func
  | e => e

/-- **`_is_route_handler`.** -/
def isRouteHandler (f : Function) : Bool :=
  f.decorators.any fun d => d.callee.method.any fun m => m.2 ∈ routeDecoratorAttrs

/-- `d[k] &= v`, or `d[k] = v` if there is none. -/
def intersectAt (k : Str) (v : Finset Cwe) : List (Str × Finset Cwe) → List (Str × Finset Cwe)
  | [] => [(k, v)]
  | b :: bs => if b.1 = k then (k, b.2 ∩ v) :: bs else b :: intersectAt k v bs

/-- `FunctionSummary.record_return`. -/
def FunctionSummary.recordReturn (s : FunctionSummary) (t : Taint) : FunctionSummary :=
  { s with
    paramReturns := if t.origin ∈ s.paramReturns then s.paramReturns else s.paramReturns ++ [t.origin]
    paramReturnSanitized := intersectAt t.origin t.neutralized s.paramReturnSanitized }

section Summarize
variable (a : Analyzer)

def recorded (l : List (Call × Env)) : List Record := l.flatMap fun p => checkCall a p.1 p.2

def parameterEnv (f : Function) : Env := fun x =>
  if x ∈ parameters f then some { sourceKind := .parameter, origin := x } else none

/-- **The summary of a function**, with the summaries that there are. -/
def summarize (f : Function) : FunctionSummary :=
  let r := exec a f.body (parameterEnv f)
  let hits := (recorded a r.judged).filter fun r => r.taint.origin ≠ []
  (r.returned.filter fun t => t.origin ≠ []).foldl FunctionSummary.recordReturn
    { name := f.name
      params := parameters f
      paramSinks := buckets (hits.map fun r => (r.taint.origin, ⟨r.sink, r.line, r.code⟩)) }

end Summarize

/-- What `_summary_shape` keeps of a summary. -/
structure Shape where
  returns : List Str
  sinks : List (Str × ℕ)
  sanitized : List (Str × Finset Cwe)
  deriving DecidableEq

/-- `_summary_shape`, of one summary. -/
def FunctionSummary.shape (s : FunctionSummary) : Shape where
  returns := sortBy id s.paramReturns
  sinks := sortBy Prod.fst (s.paramSinks.map fun p => (p.1, p.2.length))
  sanitized := sortBy Prod.fst s.paramReturnSanitized

/-- A file, with its import aliases and its lines. -/
structure File where
  aliases : Str → Option Str
  code : ℕ → Str
  body : List Stmt

/-- The summaries of some functions. -/
abbrev Summaries : Type := Str → Option FunctionSummary

section File
variable (F : File)

/-- The definitions of functions that `ast.walk` meets. -/
def File.definitions : List Function :=
  (Order.Tree.node [] (Stmt.trees F.body)).walk.filterMap Found.definition?

/-- `self.functions.setdefault(node.name, node)`. -/
def setdefault (fs : List Function) (f : Function) : List Function :=
  if f.name ∈ fs.map Function.name then fs else fs ++ [f]

/-- `self.functions`. -/
def File.functions : List Function := F.definitions.foldl setdefault []

/-- The analyzer, with the summaries that there are. -/
def File.analyzer (T : Summaries) : Analyzer where
  aliases := F.aliases
  code := F.code
  functions := (F.functions.map Function.name).toFinset
  summaries := T

@[simp] theorem summaries_analyzer (T : Summaries) : (F.analyzer T).summaries = T := rfl

/-- The summary that a function gets. -/
def File.compute (T : Summaries) (f : Function) : FunctionSummary := summarize (F.analyzer T) f

/-- `_summary_shape(self.summaries) == before`: the keys are the names of the functions. -/
def File.sameShape (T T' : Summaries) : Bool :=
  F.functions.all fun f =>
    decide ((T f.name).map FunctionSummary.shape = (T' f.name).map FunctionSummary.shape)

def File.pass (T : Summaries) : Summaries := sweep Function.name F.compute F.functions T

/-- `_MAX_FIXPOINT_PASSES`. -/
def maxFixpointPasses : ℕ := 4

/-- **`build_summaries`.** -/
def File.summaries : Summaries :=
  sweeps Function.name F.compute F.sameShape F.functions maxFixpointPasses fun _ => none

end File

/-! ### The report -/

/-- `TaintFinding`.  All findings of a file have its path. -/
structure Finding where
  sink : Sink
  line : ℕ
  code : Str
  sourceKind : SourceKind
  trace : List TraceStep
  confidence : Confidence
  severity : Severity
  interprocedural : Bool
  deriving DecidableEq

/-- `_lower`. -/
def lower (s : Severity) : Severity := Severity.order.getD (s.rank - 1) .info

/-- The rank of a confidence in `_better`. -/
def Confidence.rank : Confidence → ℕ
  | .medium => 1
  | .high => 2

section Report
variable (a : Analyzer)

/-- The finding that `_record` or `_record_interprocedural` appends. -/
def Record.finding (r : Record) : Finding :=
  if r.interprocedural then
    { sink := r.sink
      line := r.line
      code := r.code
      sourceKind := r.taint.sourceKind
      trace := r.taint.steps ++ [step a r.callLine .call, ⟨r.line, r.code, .sink⟩]
      confidence := .medium
      severity := lower r.sink.severity
      interprocedural := true }
  else
    let confidence : Confidence :=
      if r.taint.sourceKind ∈ [SourceKind.routeParameter, .argv] ∧ r.confidence = .high then .medium
      else r.confidence
    { sink := r.sink
      line := r.line
      code := r.code
      sourceKind := r.taint.sourceKind
      trace := r.taint.steps ++ [step a r.callLine .sink]
      confidence := confidence
      severity := if confidence = .high then r.sink.severity else lower r.sink.severity
      interprocedural := false }

/-- The parameters of a route handler are tainted. -/
def handlerEnv (f : Function) : Env := fun x =>
  if isRouteHandler f ∧ x ∈ parameters f then
    some { sourceKind := .routeParameter, origin := x, steps := [step a f.line .source] }
  else none

end Report

/-- `TaintFinding.key`, in the order in which findings are sorted. -/
def Finding.key (f : Finding) : ℕ ×ₗ Str := toLex (f.line, f.sink.id)

/-- The order of `_better`. -/
def Finding.rank (f : Finding) : ℕ ×ₗ ℕ := toLex (f.confidence.rank, f.severity.rank)

/-- `_MAX_FINDINGS_PER_FILE`. -/
def maxFindingsPerFile : ℕ := 200

section File
variable (F : File)

/-- The statements of the module outside its definitions. -/
def File.moduleBody : List Stmt := F.body.filter fun s => !s.isDefinition

/-- `self.findings`, with some summaries. -/
def File.findings (T : Summaries) : List Finding :=
  let a := F.analyzer T
  ((F.functions.flatMap fun f => recorded a (exec a f.body (handlerEnv a f)).judged) ++
    recorded a (exec a F.moduleBody .empty).judged).map (Record.finding a)

/-- **`report`.** -/
def File.report : List Finding :=
  (sortBy Finding.key (best Finding.key Finding.rank (F.findings F.summaries))).take maxFindingsPerFile

end File

end Guardian.Sast

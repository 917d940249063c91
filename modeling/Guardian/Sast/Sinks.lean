import Guardian.Sast.Taint

/-!
# Sinks

A call is held against every sink.  What a sink acts on is probed for taint; so are the arguments
that a local function hands on to a sink.
-/

namespace Guardian.Sast

open Python Findings Guardian.Order List

/-- The confidence of a report. -/
inductive Confidence
  | medium
  | high
  deriving DecidableEq

/-- `_kwarg`. -/
def kwarg (c : Call) (name : Str) : Option Expr :=
  (c.keywords.find? (·.arg = some name)).map Keyword.value

/-- The value of a constant. -/
def Expr.const : Expr → Option Const
  | .constant value => some value
  | _ => none

/-- **`_match_sink`.** -/
def matchSink (a : Analyzer) (c : Call) (sink : Sink) : Option Confidence :=
  let confidence : Option Confidence :=
    if (dotted a c.func).any (fun d => d ≠ [] ∧ d ∈ sink.dotted) then some .high
    else if c.func.method.any (·.2 ∈ sink.methods) then some .medium
    else none
  confidence.bind fun confidence =>
    match sink.requiresKwarg with
    | some (name, expected) =>
      if ((kwarg c name).bind Expr.const) = some expected then some confidence else none
    | none =>
      if sink.id = "taint-subprocess-argv" ∧
          (kwarg c "shell").bind Expr.const = some (.bool true) then none
      else some confidence

/-- `isinstance(node, ast.Dict | ast.List | ast.Tuple)`. -/
def Expr.isCollection : Expr → Bool
  | .dict _ | .list _ | .tuple _ => true
  | _ => false

/-- The parts of an item of a query, with the parts of a nested query. -/
def itemParts (nested : Expr → List Expr) : Item → List Expr
  | .spread value => [value]
  | .pair key value =>
    match key.const with
    | some (.str s) =>
      if "$" <+: s then [value] else if value.isCollection then nested value else []
    | _ => [key, value]

/-- **`_nosql_query_parts`**, with the number of levels that it still goes down. -/
def nosqlQueryParts : ℕ → Expr → List Expr
  | 0, _ => []
  | n + 1, .dict items => items.flatMap (itemParts (nosqlQueryParts n))
  | n + 1, .list elts | n + 1, .tuple elts => elts.flatMap (nosqlQueryParts n)
  | _ + 1, e => [e]

/-- **`_dangerous_exprs`.** -/
def dangerousExprs (c : Call) (sink : Sink) : List Expr :=
  if sink.id = "taint-nosql" then
    (if sink.positions = [] then [0] else sink.positions).flatMap fun i =>
      (c.args[i]?.toList).flatMap (nosqlQueryParts 7)
  else if sink.id = "taint-subprocess-argv" then
    match c.args with
    | [] => []
    | .list elts :: _ | .tuple elts :: _ => elts.take 1
    | e :: _ => [e]
  else
    (if sink.positions = [] then c.args else sink.positions.flatMap fun i => c.args[i]?.toList) ++
      sink.keywords.flatMap fun name => (kwarg c name).toList

/-- The arguments of `_record` and `_record_interprocedural`. -/
structure Record where
  sink : Sink
  line : ℕ
  code : Str
  callLine : ℕ
  taint : Taint
  confidence : Confidence
  interprocedural : Bool
  deriving DecidableEq

section CheckCall
variable (a : Analyzer)

/-- The taint is there, and live for the class. -/
def live (env : Env) (cwe : Cwe) (e : Expr) : Option Taint :=
  (taint a e env).filter fun t => cwe ∉ t.neutralized

/-- What a call does to a sink itself. -/
def directRecords (c : Call) (env : Env) : List Record :=
  sinks.filterMap fun sink => (matchSink a c sink).bind fun confidence =>
    ((dangerousExprs c sink).findSome? (live a env sink.cwe)).map fun t =>
      { sink := sink
        line := c.line
        code := a.code c.line
        callLine := c.line
        taint := t
        confidence := confidence
        interprocedural := false }

/-- `self.summaries.get(dotted) if dotted else None`. -/
def callee (c : Call) : Option FunctionSummary :=
  ((dotted a c.func).filter (· ≠ [])).bind a.summaries

/-- What a call does to the sinks of a local function. -/
def interproceduralRecords (c : Call) (env : Env) : List Record :=
  (callee a c).toList.flatMap fun summary =>
    (bindArguments summary c).flatMap fun b =>
      ((get summary.paramSinks b.1).getD []).filterMap fun hit =>
        (live a env hit.sink.cwe b.2).map fun t =>
          { sink := hit.sink
            line := hit.line
            code := hit.code
            callLine := c.line
            taint := t
            confidence := .medium
            interprocedural := true }

/-- **`check_call`**: what it records. -/
def checkCall (c : Call) (env : Env) : List Record :=
  directRecords a c env ++ interproceduralRecords a c env

/-! ### Probes -/

/-- What `check_call` looks at: an expression that would reach a sink on a line. -/
structure Probe where
  sink : Sink
  line : ℕ
  expr : Expr

/-- The probes of a call. -/
def probes (c : Call) : List Probe :=
  (sinks.filter fun sink => (matchSink a c sink).isSome).flatMap (fun sink =>
    (dangerousExprs c sink).map fun e => ⟨sink, c.line, e⟩) ++
  (callee a c).toList.flatMap fun summary => (bindArguments summary c).flatMap fun b =>
    ((get summary.paramSinks b.1).getD []).map fun hit => ⟨hit.sink, hit.line, b.2⟩

/-- **The reports** of a call: the sinks, and the lines they are on. -/
def reports (c : Call) (env : Env) : List (Sink × ℕ) :=
  (checkCall a c env).map fun r => (r.sink, r.line)

variable {a}

theorem mem_direct {c : Call} {env : Env} {s : Sink} {line : ℕ} :
    (s, line) ∈ (directRecords a c env).map (fun r => (r.sink, r.line)) ↔
      s ∈ sinks ∧ (matchSink a c s).isSome ∧ line = c.line ∧
        ∃ e ∈ dangerousExprs c s, (live a env s.cwe e).isSome := by
  simp only [directRecords, mem_map, mem_filterMap, Option.bind_eq_some_iff,
    Option.map_eq_some_iff]
  constructor
  · rintro ⟨r, ⟨sink, hsink, confidence, hmatch, t, ht, rfl⟩, heq⟩
    rw [Prod.mk.injEq] at heq
    obtain ⟨rfl, rfl⟩ := heq
    obtain ⟨e, he, hlive⟩ := exists_of_findSome?_eq_some ht
    exact ⟨hsink, by simp [hmatch], rfl, e, he, by simp [hlive]⟩
  · rintro ⟨hsink, hmatch, rfl, e, he, hlive⟩
    obtain ⟨confidence, hconfidence⟩ := Option.isSome_iff_exists.mp hmatch
    have hfound : ((dangerousExprs c s).findSome? (live a env s.cwe)).isSome := by
      rw [findSome?_isSome_iff]
      exact ⟨e, he, hlive⟩
    obtain ⟨t, ht⟩ := Option.isSome_iff_exists.mp hfound
    exact ⟨_, ⟨s, hsink, confidence, hconfidence, t, ht, rfl⟩, rfl⟩

theorem mem_interprocedural {c : Call} {env : Env} {s : Sink} {line : ℕ} :
    (s, line) ∈ (interproceduralRecords a c env).map (fun r => (r.sink, r.line)) ↔
      ∃ summary ∈ (callee a c).toList, ∃ b ∈ bindArguments summary c,
        ∃ hit ∈ (get summary.paramSinks b.1).getD [], hit.sink = s ∧ hit.line = line ∧
          (live a env s.cwe b.2).isSome := by
  simp only [interproceduralRecords, mem_map, mem_flatMap, mem_filterMap,
    Option.map_eq_some_iff]
  constructor
  · rintro ⟨r, ⟨summary, hsummary, b, hb, hit, hhit, t, ht, rfl⟩, heq⟩
    rw [Prod.mk.injEq] at heq
    obtain ⟨rfl, rfl⟩ := heq
    exact ⟨summary, hsummary, b, hb, hit, hhit, rfl, rfl, by simp [ht]⟩
  · rintro ⟨summary, hsummary, b, hb, hit, hhit, rfl, rfl, hlive⟩
    obtain ⟨t, ht⟩ := Option.isSome_iff_exists.mp hlive
    exact ⟨_, ⟨summary, hsummary, b, hb, hit, hhit, t, ht, rfl⟩, rfl⟩

/-- **A report is a probe that fires.** -/
theorem mem_reports {c : Call} {env : Env} {s : Sink} {line : ℕ} :
    (s, line) ∈ reports a c env ↔
      ∃ p ∈ probes a c, p.sink = s ∧ p.line = line ∧ (live a env s.cwe p.expr).isSome := by
  rw [reports, checkCall, map_append, mem_append, mem_direct, mem_interprocedural]
  simp only [probes, mem_append, mem_flatMap, mem_map, mem_filter]
  constructor
  · rintro (⟨hsink, hmatch, rfl, e, he, hlive⟩ | ⟨summary, hsummary, b, hb, hit, hhit, hs, hl, hlive⟩)
    · exact ⟨_, Or.inl ⟨s, ⟨hsink, hmatch⟩, e, he, rfl⟩, rfl, rfl, hlive⟩
    · exact ⟨_, Or.inr ⟨summary, hsummary, b, hb, hit, hhit, rfl⟩, hs, hl, hlive⟩
  · rintro ⟨p, ⟨sink, ⟨hsink, hmatch⟩, e, he, rfl⟩ | ⟨summary, hsummary, b, hb, hit, hhit, rfl⟩,
      hs, hl, hlive⟩
    · obtain rfl : sink = s := hs
      exact Or.inl ⟨hsink, hmatch, hl.symm, e, he, hlive⟩
    · exact Or.inr ⟨summary, hsummary, b, hb, hit, hhit, hs, hl, hlive⟩

end CheckCall

end Guardian.Sast

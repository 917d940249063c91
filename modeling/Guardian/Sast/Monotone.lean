import Guardian.Sast.Sinks
import Mathlib.Data.Finset.Lattice.Lemmas

/-!
# Is the evaluation monotone?

An expression has leaves, the names and sources whose taint it may take over, in the order in which
they are asked.  The first one that is tainted decides.  So an operand that becomes tainted, and is
neutralised, may hide another one.  `reports_monotone_iff` says when more taint hides nothing.
-/

namespace Guardian.Sast

open Python List

/-- A name or, without one, a source; and the classes that it is neutralised for on its way up. -/
structure Leaf where
  name : Option Str
  classes : Finset Cwe

/-- The leaf, neutralised for more classes. -/
def Leaf.under (classes : Finset Cwe) (l : Leaf) : Leaf := { l with classes := l.classes ∪ classes }

/-- What the leaf is neutralised for in the end, if it is tainted. -/
def Leaf.value (env : Env) (l : Leaf) : Option (Finset Cwe) :=
  match l.name with
  | none => some l.classes
  | some x => (env x).map fun t => t.neutralized ∪ l.classes

section Leaves
variable (a : Analyzer)

/-- The leaves of a call, with the leaves of its parts. -/
def callLeaves (leaves : Expr → List Leaf) (c : Call) : List Leaf :=
  let d := dotted a c.func
  match sanitizerFor d with
  | some sanitizer => (c.allArgs.flatMap leaves).map (Leaf.under sanitizer.neutralizes)
  | none =>
    if d.any (· ∈ a.functions) then
      match d.bind a.summaries with
      | none => []
      | some summary => (bindArguments summary c).flatMap fun b =>
          if b.1 ∈ summary.paramReturns then
            (leaves b.2).map (Leaf.under ((get summary.paramReturnSanitized b.1).getD ∅))
          else []
    else if d.any (· ∈ propagators) then c.allArgs.flatMap leaves
    else
      match c.func.method with
      | none => []
      | some (receiver, attr) =>
        leaves receiver ++ if attr ∈ formatters then c.allArgs.flatMap leaves else []

/-- The leaves of an expression that is no source, with the leaves of its parts. -/
def partsLeaves (leaves : Expr → List Leaf) : Expr → List Leaf
  | .name _ id => [⟨some id, ∅⟩]
  | .attribute _ value _ => leaves value
  | .subscript value slice => [value, slice].flatMap leaves
  | .call line func args keywords => callLeaves a leaves ⟨line, func, args, keywords⟩
  | .binOp left right => [left, right].flatMap leaves
  | .joinedStr values => values.flatMap leaves
  | .formattedValue value _ => leaves value
  | .list elts | .tuple elts | .set elts => elts.flatMap leaves
  | .dict items => (items.map Item.value).flatMap leaves
  | .boolOp values => values.flatMap leaves
  | .ifExp _ body orelse => [body, orelse].flatMap leaves
  | .starred value | .await value | .unaryOp value => leaves value
  | .compare .. | .constant _ | .other _ => []

/-- **The leaves** of an expression, down to some level. -/
def leavesOf : ℕ → Expr → List Leaf
  | 0, _ => []
  | n + 1, e =>
    if (sourceKind a e).isSome then [⟨none, ∅⟩] else partsLeaves a (leavesOf n) e

end Leaves

/-! ### The first tainted leaf decides -/

theorem findSome?_under (env : Env) (classes : Finset Cwe) (ls : List Leaf) :
    (ls.map (Leaf.under classes)).findSome? (Leaf.value env) =
      (ls.findSome? (Leaf.value env)).map (· ∪ classes) := by
  induction ls with
  | nil => rfl
  | cons l ls ih =>
    have hvalue : (l.under classes).value env = (l.value env).map (· ∪ classes) := by
      unfold Leaf.value Leaf.under
      cases l.name with
      | none => rfl
      | some x =>
        simp only [Option.map_map]
        refine congrArg (fun f => (env x).map f) (funext fun t => ?_)
        exact (Finset.union_assoc _ _ _).symm
    rw [map_cons, findSome?_cons, findSome?_cons, hvalue]
    cases l.value env with
    | none => exact ih
    | some N => rfl

section Decides
variable {a : Analyzer} {eval : Expr → Option Taint} {leaves : Expr → List Leaf} {env : Env}
  (h : ∀ e, (eval e).map Taint.neutralized = (leaves e).findSome? (Leaf.value env))

include h

theorem neutralized_first (es : List Expr) :
    (first eval es).map Taint.neutralized = (es.flatMap leaves).findSome? (Leaf.value env) := by
  induction es with
  | nil => rfl
  | cons e es ih =>
    have he := h e
    rw [first, findSome?_cons, flatMap_cons, findSome?_append, ← he, ← ih]
    cases eval e <;> rfl

theorem neutralized_bound (b : List (Str × Expr)) (P : Str → Prop) [DecidablePred P]
    (classes : Str → Finset Cwe) (f : Taint → Taint) (classesOf : Str → Taint → Taint)
    (hf : ∀ t, (f t).neutralized = t.neutralized)
    (hc : ∀ x t, (classesOf x t).neutralized = t.neutralized ∪ classes x) :
    (b.findSome? fun b => if P b.1 then (eval b.2).map fun t => f (classesOf b.1 t) else none).map
        Taint.neutralized =
      (b.flatMap fun b => if P b.1 then (leaves b.2).map (Leaf.under (classes b.1)) else []).findSome?
        (Leaf.value env) := by
  induction b with
  | nil => rfl
  | cons b bs ih =>
    have hb := h b.2
    rw [findSome?_cons, flatMap_cons, findSome?_append, ← ih]
    split_ifs
    · rw [findSome?_under, ← hb]
      cases eval b.2 <;> simp [hf, hc]
    · rfl

/-- The leaves of a call decide. -/
theorem neutralized_callTaint (c : Call) :
    (callTaint a eval c).map Taint.neutralized =
      (callLeaves a leaves c).findSome? (Leaf.value env) := by
  have hargs := neutralized_first h c.allArgs
  unfold callTaint callLeaves
  dsimp only
  cases sanitizerFor (dotted a c.func) with
  | some sanitizer =>
    dsimp only
    rw [findSome?_under, ← hargs]
    cases first eval c.allArgs <;> simp
  | none =>
    dsimp only
    split_ifs with hlocal hpropagates
    · cases (dotted a c.func).bind a.summaries with
      | none => rfl
      | some summary =>
        exact neutralized_bound h (bindArguments summary c) (· ∈ summary.paramReturns)
          (fun x => (get summary.paramReturnSanitized x).getD ∅) (·.extend (step a c.line .call))
          (fun x t => t.sanitize ((get summary.paramReturnSanitized x).getD ∅))
          (fun t => t.neutralized_extend _) fun _ _ => rfl
    · rw [← hargs]
      cases first eval c.allArgs <;> simp
    · cases c.func.method with
      | none => rfl
      | some method =>
        obtain ⟨receiver, attr⟩ := method
        have hreceiver := h receiver
        dsimp only
        rw [findSome?_append, ← hreceiver]
        cases eval receiver with
        | some t => simp
        | none =>
          split_ifs
          · rw [← hargs]
            cases first eval c.allArgs <;> simp
          · cases first eval c.allArgs <;> simp

theorem neutralized_partsTaint (e : Expr) :
    (partsTaint a eval env e).map Taint.neutralized =
      (partsLeaves a leaves e).findSome? (Leaf.value env) := by
  match e with
  | .name _ id =>
    have hname : Leaf.value env ⟨some id, ∅⟩ = (env id).map Taint.neutralized := by
      simp only [Leaf.value, Finset.union_empty]
    simp only [partsTaint, partsLeaves, findSome?_cons, findSome?_nil, hname]
    cases env id <;> rfl
  | .call .. => exact neutralized_callTaint h _
  | .attribute .. | .formattedValue .. | .starred _ | .await _ | .unaryOp _ => exact h _
  | .compare .. | .constant _ | .other _ => rfl
  | .subscript .. | .binOp .. | .ifExp .. => exact neutralized_first h _
  | .joinedStr _ | .list _ | .tuple _ | .set _ | .dict _ | .boolOp _ => exact neutralized_first h _

end Decides

variable {a : Analyzer}

/-- **The first tainted leaf decides.** -/
theorem neutralized_taintOf (n : ℕ) (e : Expr) (env : Env) :
    (taintOf a n e env).map Taint.neutralized =
      (leavesOf a n e).findSome? (Leaf.value env) := by
  induction n generalizing e with
  | zero => rfl
  | succ n ih =>
    have hparts := neutralized_partsTaint (a := a) (fun e => ih e) e
    unfold taintOf leavesOf sourceTaint
    cases hkind : sourceKind a e with
    | some kind => rfl
    | none => simpa using hparts

/-! ### The reports of a call -/

def leaves (a : Analyzer) (e : Expr) : List Leaf := leavesOf a maxDepth e

theorem live_isSome_iff {env : Env} {cwe : Cwe} {e : Expr} :
    (live a env cwe e).isSome ↔
      ∃ N, (leaves a e).findSome? (Leaf.value env) = some N ∧ cwe ∉ N := by
  have hdecides := neutralized_taintOf (a := a) maxDepth e env
  rw [leaves, ← hdecides, live, taint]
  cases taintOf a maxDepth e env with
  | none => simp
  | some t => simp [Option.filter_some]

/-- **More taint hides nothing**: whatever a call reports, it still reports when names become tainted,
or lose classes that they were neutralised for. -/
def Monotone (a : Analyzer) (c : Call) : Prop :=
  ∀ env env', Below env env' → ∀ r ∈ reports a c env, r ∈ reports a c env'

/-- The leaf may decide: it is live, and neither a source nor its own name is asked before. -/
def MayDecide (cwe : Cwe) (ls pre : List Leaf) (l : Leaf) : Prop :=
  (∃ post, ls = pre ++ l :: post) ∧ cwe ∉ l.classes ∧ ∀ m ∈ pre, m.name ≠ none ∧ m.name ≠ l.name

/-- **A settled call**: where a leaf of a probe may decide, a probe for the same report asks that
leaf, or a source, before all others. -/
def Settled (a : Analyzer) (c : Call) : Prop :=
  ∀ p ∈ probes a c, ∀ pre l, MayDecide p.sink.cwe (leaves a p.expr) pre l →
    ∃ q ∈ probes a c, q.sink = p.sink ∧ q.line = p.line ∧
      ∃ m, (leaves a q.expr).head? = some m ∧ (m.name = none ∨ m.name = l.name) ∧
        p.sink.cwe ∉ m.classes

/-- The environment in which one leaf is tainted only. -/
def onlyTainted (l : Leaf) : Env := fun x => if some x = l.name then some rawTaint else none

/-- The environment in which all other names are tainted too, but neutralised for a class. -/
def othersNeutralized (cwe : Cwe) (l : Leaf) : Env := fun x =>
  some (if some x = l.name then rawTaint else { rawTaint with neutralized := {cwe} })

theorem below_othersNeutralized (cwe : Cwe) (l : Leaf) :
    Below (onlyTainted l) (othersNeutralized cwe l) := by
  intro x t ht
  unfold onlyTainted at ht
  split_ifs at ht with hx
  obtain rfl := Option.some.inj ht
  exact ⟨rawTaint, by simp [othersNeutralized, hx], subset_rfl⟩

theorem value_othersNeutralized (cwe : Cwe) (l m : Leaf) :
    ∃ N, m.value (othersNeutralized cwe l) = some N ∧ m.classes ⊆ N ∧
      (cwe ∉ N → m.name = none ∨ m.name = l.name) := by
  unfold Leaf.value
  cases hname : m.name with
  | none => exact ⟨m.classes, rfl, subset_rfl, fun _ => Or.inl rfl⟩
  | some x =>
    refine ⟨_, rfl, Finset.subset_union_right, fun hout => Or.inr ?_⟩
    by_contra hx
    rw [if_neg hx] at hout
    exact hout (Finset.mem_union_left _ (Finset.mem_singleton_self _))

/-- In a monotone call the leaf that may decide is asked before all others. -/
theorem Monotone.settled {c : Call} (h : Monotone a c) : Settled a c := by
  rintro p hp pre l ⟨⟨post, hsplit⟩, hclass, hpre⟩
  have hnone : ∀ m ∈ pre, m.value (onlyTainted l) = none := by
    intro m hm
    obtain ⟨hname, hne⟩ := hpre m hm
    obtain ⟨x, hx⟩ := Option.ne_none_iff_exists'.mp hname
    have hx' : ¬ some x = l.name := fun heq => hne (hx.trans heq)
    simp [Leaf.value, onlyTainted, hx, hx']
  have hvalue : l.value (onlyTainted l) = some l.classes := by
    unfold Leaf.value
    cases hname : l.name with
    | none => rfl
    | some x => simp [onlyTainted, hname, rawTaint]
  have hfires : (live a (onlyTainted l) p.sink.cwe p.expr).isSome := by
    refine live_isSome_iff.mpr ⟨l.classes, ?_, hclass⟩
    rw [hsplit, findSome?_append, findSome?_eq_none_iff.mpr hnone, findSome?_cons,
      hvalue]
    rfl
  have hreport := h _ _ (below_othersNeutralized p.sink.cwe l) _
    (mem_reports.mpr ⟨p, hp, rfl, rfl, hfires⟩)
  obtain ⟨q, hq, hsink, hline, hlive⟩ := mem_reports.mp hreport
  obtain ⟨N, hN, hout⟩ := live_isSome_iff.mp hlive
  refine ⟨q, hq, hsink, hline, ?_⟩
  cases hls : leaves a q.expr with
  | nil =>
    rw [hls] at hN
    cases hN
  | cons m ms =>
    obtain ⟨N', hvalue', hsub, hname⟩ := value_othersNeutralized p.sink.cwe l m
    rw [hls, findSome?_cons, hvalue'] at hN
    obtain rfl := Option.some.inj hN
    exact ⟨m, rfl, hname hout, fun hmem => hout (hsub hmem)⟩

/-- In a settled call a report stays when there is more taint. -/
theorem Settled.monotone {c : Call} (h : Settled a c) : Monotone a c := by
  rintro env env' hbelow ⟨s, line⟩ hr
  obtain ⟨p, hp, rfl, rfl, hlive⟩ := mem_reports.mp hr
  obtain ⟨N, hN, hout⟩ := live_isSome_iff.mp hlive
  obtain ⟨pre, l, post, hsplit, hvalue, hpre⟩ := findSome?_eq_some_iff.mp hN
  -- what the leaf is neutralised for on its way up is part of what it is neutralised for
  have hclass : p.sink.cwe ∉ l.classes ∧
      ∀ x, l.name = some x → ∃ t, env x = some t ∧ p.sink.cwe ∉ t.neutralized := by
    unfold Leaf.value at hvalue
    cases hname : l.name with
    | none =>
      rw [hname] at hvalue
      obtain rfl := Option.some.inj hvalue
      exact ⟨hout, fun x hx => by cases hx⟩
    | some x =>
      rw [hname] at hvalue
      obtain ⟨t, ht, rfl⟩ := Option.map_eq_some_iff.mp hvalue
      rw [Finset.mem_union, not_or] at hout
      refine ⟨hout.2, fun y hy => ?_⟩
      obtain rfl := Option.some.inj hy
      exact ⟨t, ht, hout.1⟩
  have hbefore : ∀ m ∈ pre, m.name ≠ none ∧ m.name ≠ l.name := by
    intro m hm
    have hnone := hpre m hm
    unfold Leaf.value at hnone
    cases hname : m.name with
    | none =>
      rw [hname] at hnone
      cases hnone
    | some x =>
      rw [hname, Option.map_eq_none_iff] at hnone
      refine ⟨by simp, fun heq => ?_⟩
      obtain ⟨t, ht, -⟩ := hclass.2 x heq.symm
      rw [hnone] at ht
      cases ht
  obtain ⟨q, hq, hsink, hline, m, hhead, hname, hm⟩ :=
    h p hp pre l ⟨⟨post, hsplit⟩, hclass.1, hbefore⟩
  refine mem_reports.mpr ⟨q, hq, hsink, hline, live_isSome_iff.mpr ?_⟩
  obtain ⟨ms, hms⟩ := head?_eq_some_iff.mp hhead
  have hfirst : ∀ N', m.value env' = some N' →
      (leaves a q.expr).findSome? (Leaf.value env') = some N' := by
    intro N' hN'
    rw [hms, findSome?_cons, hN']
  rcases hname with hnone | hsame
  · exact ⟨m.classes, hfirst _ (by rw [Leaf.value, hnone]), hm⟩
  · cases hl : l.name with
    | none =>
      rw [hl] at hsame
      exact ⟨m.classes, hfirst _ (by rw [Leaf.value, hsame]), hm⟩
    | some x =>
      obtain ⟨t, ht, hlive⟩ := hclass.2 x hl
      obtain ⟨t', ht', hsub⟩ := hbelow x t ht
      rw [hl] at hsame
      refine ⟨t'.neutralized ∪ m.classes, hfirst _ (by rw [Leaf.value, hsame]; simp [ht']), ?_⟩
      rw [Finset.mem_union, not_or]
      exact ⟨fun hmem => hlive (hsub hmem), hm⟩

/-- **The evaluation of a call is monotone exactly when the call is settled.** -/
theorem reports_monotone_iff (a : Analyzer) (c : Call) : Monotone a c ↔ Settled a c :=
  ⟨Monotone.settled, Settled.monotone⟩

/-- `os.system(prefix + command)`. -/
def concatenation : Call where
  line := 4
  func := .attribute 4 (.name 4 "os") "system"
  args := [.binOp (.name 4 "prefix") (.name 4 "command")]
  keywords := []

/-- **More taint hides a report**: the command is untrusted, and is not reported any more once the
prefix is a quoted value. -/
theorem concatenation_not_monotone : ¬ Monotone plainAnalyzer concatenation := by
  intro h
  have hbelow := below_othersNeutralized .commandInjection ⟨some "command", ∅⟩
  have hreport : (reports plainAnalyzer concatenation
      (onlyTainted ⟨some "command", ∅⟩)).map (fun r => (r.1.id, r.2)) =
        [("taint-shell-command".toList, 4)] := by decide
  have hhidden : reports plainAnalyzer concatenation
      (othersNeutralized .commandInjection ⟨some "command", ∅⟩) = [] := by decide
  obtain ⟨r, hr, -⟩ := mem_map.mp (hreport ▸ mem_singleton_self _)
  have hstill := h _ _ hbelow r hr
  rw [hhidden] at hstill
  cases hstill

end Guardian.Sast

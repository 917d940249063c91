import Guardian.Sast.Judged
import Guardian.Sast.Summary

/-!
# What a function looks at

The summary of a function depends on the summaries of the functions that it calls only.
-/

namespace Guardian.Sast

open Python Guardian.Order List

/-- **The tables agree on what is called**: for every call, they have the same summary. -/
def AgreeOn (a : Analyzer) (T : Summaries) (cs : List Call) : Prop :=
  ∀ c ∈ cs, ∀ d, dotted a c.func = some d → a.summaries d = T d

theorem AgreeOn.mono {a : Analyzer} {T : Summaries} {cs cs' : List Call} (h : AgreeOn a T cs)
    (hsub : cs' ⊆ cs) : AgreeOn a T cs' := fun c hc => h c (hsub hc)

/-! ### The calls in the parts of an expression -/

theorem mem_calls_node {ts : List (Order.Tree Found)} {t : Order.Tree Found} (ht : t ∈ ts)
    (fs : List Found) {c : Call} (hc : c ∈ t.walk.filterMap Found.call?) :
    c ∈ (Order.Tree.node fs ts).walk.filterMap Found.call? := by
  obtain ⟨found, hfound, hcall⟩ := mem_filterMap.mp hc
  refine mem_filterMap.mpr ⟨found, (walk_perm fs ts).mem_iff.mpr ?_, hcall⟩
  exact mem_append_right _ (mem_flatMap.mpr ⟨t, ht, hfound⟩)

theorem tree_mem_trees {e : Expr} {es : List Expr} (h : e ∈ es) : e.tree ∈ Expr.trees es := by
  induction es with
  | nil => cases h
  | cons e' es ih =>
    rcases mem_cons.mp h with rfl | h
    · exact mem_cons_self
    · exact mem_cons_of_mem _ (ih h)

theorem calls_keyword {k : Keyword} {ks : List Keyword} (h : k ∈ ks) {c : Call}
    (hc : c ∈ k.value.calls) :
    ∃ t ∈ Keyword.trees ks, c ∈ t.walk.filterMap Found.call? := by
  induction ks with
  | nil => cases h
  | cons k' ks ih =>
    rcases mem_cons.mp h with rfl | h
    · obtain ⟨arg, value⟩ := k
      exact ⟨_, mem_cons_self, mem_calls_node mem_cons_self [] hc⟩
    · obtain ⟨t, ht, hmem⟩ := ih h
      exact ⟨t, mem_cons_of_mem _ ht, hmem⟩

theorem tree_mem_itemTrees {e : Expr} {is : List Item} (h : e ∈ is.map Item.value) :
    e.tree ∈ Item.valueTrees is := by
  induction is with
  | nil => cases h
  | cons i is ih =>
    rw [map_cons] at h
    rcases mem_cons.mp h with rfl | h
    · cases i <;> exact mem_cons_self
    · exact mem_cons_of_mem _ (ih h)

theorem tree_mem_keyTrees {key value : Expr} {is : List Item} (h : Item.pair key value ∈ is) :
    key.tree ∈ Item.keyTrees is := by
  induction is with
  | nil => cases h
  | cons i is ih =>
    rcases mem_cons.mp h with rfl | h
    · exact mem_append_left _ mem_cons_self
    · exact mem_append_right _ (ih h)

theorem calls_arg {c : Call} {e : Expr} (h : e ∈ c.allArgs) : e.calls ⊆ c.expr.calls := by
  intro c' hc'
  rcases mem_append.mp h with h | h
  · exact mem_calls_node (mem_cons_of_mem _ (mem_append_left _ (tree_mem_trees h))) _ hc'
  · obtain ⟨k, hk, rfl⟩ := mem_map.mp h
    obtain ⟨t, ht, hmem⟩ := calls_keyword hk hc'
    exact mem_calls_node (mem_cons_of_mem _ (mem_append_right _ ht)) _ hmem

theorem calls_func (c : Call) : c.func.calls ⊆ c.expr.calls :=
  fun _ hc' => mem_calls_node mem_cons_self _ hc'

theorem mem_calls_self (c : Call) : c ∈ c.expr.calls := by
  refine mem_filterMap.mpr ⟨.call c, (walk_perm _ _).mem_iff.mpr ?_, rfl⟩
  exact mem_append_left _ mem_cons_self

/-! ### Expressions -/

section Expressions
variable {a : Analyzer} {T : Summaries}

/-- The analyzer with other summaries. -/
def Analyzer.with (a : Analyzer) (T : Summaries) : Analyzer := { a with summaries := T }

theorem first_congr {eval eval' : Expr → Option Taint} {es : List Expr}
    (h : ∀ e ∈ es, eval e = eval' e) : first eval es = first eval' es := by
  induction es with
  | nil => rfl
  | cons e es ih =>
    rw [first, first, findSome?_cons, findSome?_cons, h e mem_cons_self]
    cases eval' e with
    | none => exact ih fun e he => h e (mem_cons_of_mem _ he)
    | some t => rfl

theorem bound_mem_allArgs {s : FunctionSummary} {c : Call} {b : Str × Expr}
    (h : b ∈ bindArguments s c) : b.2 ∈ c.allArgs := by
  rcases mem_append.mp h with h | h
  · exact mem_append_left _ (of_mem_zip h).2
  · obtain ⟨kw, hkw, hb⟩ := mem_filterMap.mp h
    obtain ⟨arg, -, rfl⟩ := Option.map_eq_some_iff.mp hb
    exact mem_append_right _ (mem_map_of_mem hkw)

theorem callTaint_with {eval : Expr → Option Taint} {c : Call}
    (h : ∀ d, dotted a c.func = some d → a.summaries d = T d) :
    callTaint a eval c = callTaint (a.with T) eval c := by
  have hsummary : (dotted a c.func).bind a.summaries =
      (dotted (a.with T) c.func).bind (a.with T).summaries := by
    have hd : dotted (a.with T) c.func = dotted a c.func := rfl
    rw [hd]
    cases hdot : dotted a c.func with
    | none => rfl
    | some d => exact h d hdot
  unfold callTaint
  dsimp only
  rw [hsummary]
  rfl

theorem callTaint_congr {eval eval' : Expr → Option Taint} {c : Call}
    (hargs : ∀ e ∈ c.allArgs, eval e = eval' e)
    (hself : ∀ p, c.func.method = some p → eval p.1 = eval' p.1) :
    callTaint a eval c = callTaint a eval' c := by
  unfold callTaint
  dsimp only
  rw [first_congr hargs]
  cases sanitizerFor (dotted a c.func) with
  | some sanitizer => rfl
  | none =>
    dsimp only
    split_ifs with hlocal hpropagates
    · cases (dotted a c.func).bind a.summaries with
      | none => rfl
      | some summary =>
        have hbound : ∀ b ∈ bindArguments summary c, eval b.2 = eval' b.2 :=
          fun b hb => hargs b.2 (bound_mem_allArgs hb)
        dsimp only
        revert hbound
        generalize bindArguments summary c = bs
        intro hbound
        induction bs with
        | nil => rfl
        | cons b bs ih =>
          rw [findSome?_cons, findSome?_cons, hbound b mem_cons_self,
            ih fun b' hb' => hbound b' (mem_cons_of_mem _ hb')]
    · rfl
    · cases hmethod : c.func.method with
      | none => rfl
      | some method =>
        obtain ⟨receiver, attr⟩ := method
        dsimp only
        rw [hself _ hmethod]

/-- The parts of an expression decide. -/
theorem partsTaint_congr {eval eval' : Expr → Option Taint} {env : Env} {e : Expr}
    (h : ∀ e', e'.calls ⊆ e.calls → eval e' = eval' e') :
    partsTaint a eval env e = partsTaint a eval' env e := by
  match e with
  | .name .. | .compare .. | .constant _ | .other _ => rfl
  | .attribute .. | .formattedValue .. | .starred _ | .await _ | .unaryOp _ =>
    exact h _ fun _ hc => mem_calls_node mem_cons_self _ hc
  | .subscript value slice | .binOp value slice =>
    refine first_congr fun e' he' => h e' fun _ hc => mem_calls_node ?_ _ hc
    rcases mem_cons.mp he' with rfl | he'
    · exact mem_cons_self
    · obtain rfl := mem_singleton.mp he'
      exact mem_cons_of_mem _ mem_cons_self
  | .ifExp test body orelse =>
    refine first_congr fun e' he' => h e' fun _ hc => mem_calls_node ?_ _ hc
    rcases mem_cons.mp he' with rfl | he'
    · exact mem_cons_of_mem _ mem_cons_self
    · obtain rfl := mem_singleton.mp he'
      exact mem_cons_of_mem _ (mem_cons_of_mem _ mem_cons_self)
  | .list elts | .tuple elts | .set elts | .joinedStr elts | .boolOp elts =>
    exact first_congr fun e' he' => h e' fun _ hc => mem_calls_node (tree_mem_trees he') _ hc
  | .dict items =>
    exact first_congr fun e' he' => h e' fun _ hc =>
      mem_calls_node (mem_append_right _ (tree_mem_itemTrees he')) _ hc
  | .call line func args keywords =>
    refine callTaint_congr (fun e' he' => h e' (calls_arg he')) fun p hp => h p.1 ?_
    match func with
    | .attribute l value attr =>
      obtain rfl := Option.some.inj hp
      exact fun _ hc => calls_func ⟨line, _, args, keywords⟩ (mem_calls_node mem_cons_self _ hc)

/-- **The summaries of what is called** in an expression decide. -/
theorem taintOf_with (n : ℕ) {e : Expr} {env : Env} (h : AgreeOn a T e.calls) :
    taintOf a n e env = taintOf (a.with T) n e env := by
  induction n generalizing e with
  | zero => rfl
  | succ n ih =>
    unfold taintOf
    have hsource : sourceTaint (a.with T) e = sourceTaint a e := rfl
    have hparts : partsTaint a (fun part => taintOf a n part env) env e =
        partsTaint a (fun part => taintOf (a.with T) n part env) env e :=
      partsTaint_congr fun e' he' => ih (h.mono he')
    rw [hsource, hparts]
    congr 1
    match e with
    | .call line func args keywords =>
      exact callTaint_with fun d => h _ (mem_calls_self ⟨line, func, args, keywords⟩) d
    | .name .. | .attribute .. | .subscript .. | .binOp .. | .joinedStr _ | .formattedValue ..
    | .list _ | .tuple _ | .set _ | .dict _ | .boolOp _ | .ifExp .. | .starred _ | .await _
    | .unaryOp _ | .compare .. | .constant _ | .other _ => rfl

theorem taint_with {e : Expr} {env : Env} (h : AgreeOn a T e.calls) :
    taint a e env = taint (a.with T) e env := taintOf_with maxDepth h

/-! ### Calls -/

/-- The parts of a query are parts of it. -/
theorem calls_nosqlQueryParts (n : ℕ) {e e' : Expr} (h : e' ∈ nosqlQueryParts n e) :
    e'.calls ⊆ e.calls := by
  induction n generalizing e with
  | zero => cases h
  | succ n ih =>
    match e with
    | .list elts | .tuple elts =>
      obtain ⟨elt, helt, h⟩ := mem_flatMap.mp h
      exact fun _ hc => mem_calls_node (tree_mem_trees helt) _ (ih h hc)
    | .dict items =>
      obtain ⟨item, hitem, h⟩ := mem_flatMap.mp h
      have hvalue : item.value.calls ⊆ (Expr.dict items).calls := fun _ hc =>
        mem_calls_node (mem_append_right _ (tree_mem_itemTrees (mem_map_of_mem hitem))) _ hc
      match item with
      | .spread value =>
        obtain rfl := mem_singleton.mp h
        exact hvalue
      | .pair key value =>
        have hkey : key.calls ⊆ (Expr.dict items).calls := fun _ hc =>
          mem_calls_node (mem_append_left _ (tree_mem_keyTrees hitem)) _ hc
        unfold itemParts at h
        dsimp only at h
        split at h
        · split_ifs at h
          · obtain rfl := mem_singleton.mp h
            exact hvalue
          · exact fun _ hc => hvalue (ih h hc)
          · cases h
        · rcases mem_cons.mp h with rfl | h
          · exact hkey
          · obtain rfl := mem_singleton.mp h
            exact hvalue
    | .name .. | .attribute .. | .subscript .. | .call .. | .binOp .. | .joinedStr _
    | .formattedValue .. | .set _ | .boolOp _ | .ifExp .. | .starred _ | .await _ | .unaryOp _
    | .compare .. | .constant _ | .other _ =>
      obtain rfl := mem_singleton.mp h
      exact fun _ hc => hc

theorem kwarg_mem {c : Call} {name : Str} {e : Expr} (h : kwarg c name = some e) : e ∈ c.allArgs := by
  obtain ⟨kw, hkw, rfl⟩ := Option.map_eq_some_iff.mp h
  exact mem_append_right _ (mem_map_of_mem (mem_of_find?_eq_some hkw))

/-- What a sink acts on is part of the call. -/
theorem calls_dangerousExprs {c : Call} {sink : Sink} {e : Expr} (h : e ∈ dangerousExprs c sink) :
    e.calls ⊆ c.expr.calls := by
  have hat : ∀ {i : ℕ} {e : Expr}, e ∈ c.args[i]?.toList → e ∈ c.allArgs := by
    intro i e he
    exact mem_append_left _ (mem_of_getElem? (Option.mem_toList.mp he))
  unfold dangerousExprs at h
  by_cases hnosql : sink.id = "taint-nosql"
  · rw [if_pos hnosql] at h
    obtain ⟨i, -, h⟩ := mem_flatMap.mp h
    obtain ⟨arg, harg, h⟩ := mem_flatMap.mp h
    exact fun _ hc => calls_arg (hat harg) (calls_nosqlQueryParts 7 h hc)
  rw [if_neg hnosql] at h
  by_cases hargv : sink.id = "taint-subprocess-argv"
  · rw [if_pos hargv] at h
    have hfirst : ∀ {arg : Expr} {elts rest : List Expr}, c.args = arg :: rest → e ∈ elts.take 1 →
        (∀ e' ∈ elts, e'.calls ⊆ arg.calls) → e.calls ⊆ c.expr.calls := by
      intro arg elts rest hargs he hsub _ hc
      have harg : arg ∈ c.allArgs := mem_append_left _ (hargs ▸ mem_cons_self)
      exact calls_arg harg (hsub e (mem_of_mem_take he) hc)
    split at h
    · cases h
    · next elts rest hargs =>
      exact hfirst hargs h fun e' he' _ hc => mem_calls_node (tree_mem_trees he') _ hc
    · next elts rest hargs =>
      exact hfirst hargs h fun e' he' _ hc => mem_calls_node (tree_mem_trees he') _ hc
    · next arg rest _ _ hargs =>
      obtain rfl := mem_singleton.mp h
      exact calls_arg (mem_append_left _ (hargs ▸ mem_cons_self))
  · rw [if_neg hargv] at h
    rcases mem_append.mp h with h | h
    · split_ifs at h
      · exact calls_arg (mem_append_left _ h)
      · obtain ⟨i, -, h⟩ := mem_flatMap.mp h
        exact calls_arg (hat h)
    · obtain ⟨name, -, h⟩ := mem_flatMap.mp h
      exact calls_arg (kwarg_mem (Option.mem_toList.mp h))

theorem live_with {e : Expr} {env : Env} {cwe : Cwe} (h : AgreeOn a T e.calls) :
    live a env cwe e = live (a.with T) env cwe e := by
  rw [live, live, taint_with h]

/-- **The summaries of what is called** in a call, and of the call itself, decide what it records. -/
theorem checkCall_with {c : Call} {env : Env} (h : AgreeOn a T c.expr.calls) :
    checkCall a c env = checkCall (a.with T) c env := by
  have hcallee : callee a c = callee (a.with T) c := by
    have hd : dotted (a.with T) c.func = dotted a c.func := rfl
    unfold callee
    rw [hd]
    cases hdot : dotted a c.func with
    | none => rfl
    | some d =>
      rw [Option.filter_some]
      split_ifs
      · exact h c (mem_calls_self c) d hdot
      · rfl
  have hdirect : directRecords a c env = directRecords (a.with T) c env := by
    refine filterMap_congr fun sink _ => ?_
    have hfind : (dangerousExprs c sink).findSome? (live a env sink.cwe) =
        (dangerousExprs c sink).findSome? (live (a.with T) env sink.cwe) :=
      first_congr fun e he => live_with (h.mono (calls_dangerousExprs he))
    rw [hfind]
    rfl
  have hinter : interproceduralRecords a c env = interproceduralRecords (a.with T) c env := by
    unfold interproceduralRecords
    rw [← hcallee]
    refine flatMap_congr fun summary _ => flatMap_congr fun b hb => ?_
    refine filterMap_congr fun hit _ => ?_
    rw [live_with (h.mono (calls_arg (bound_mem_allArgs hb)))]
  rw [checkCall, checkCall, hdirect, hinter]

/-! ### Statements -/

mutual

theorem bind_with (line : ℕ) (t : Option Taint) (target : Expr) (env : Env) :
    bind (a.with T) line t target env = bind a line t target env := by
  match target with
  | .tuple elts | .list elts =>
    unfold bind
    exact bindAll_with line t elts env
  | .name .. | .attribute .. | .subscript .. | .call .. | .binOp .. | .joinedStr _
  | .formattedValue .. | .set _ | .dict _ | .boolOp _ | .ifExp .. | .starred _ | .await _
  | .unaryOp _ | .compare .. | .constant _ | .other _ => rfl

theorem bindAll_with (line : ℕ) (t : Option Taint) (targets : List Expr) (env : Env) :
    bindAll (a.with T) line t targets env = bindAll a line t targets env := by
  match targets with
  | [] => rfl
  | target :: targets =>
    unfold bindAll
    rw [bind_with line t target env]
    exact bindAll_with line t targets _

end

theorem bindItems_with (line : ℕ) (items : List WithItem) (env : Env)
    (h : AgreeOn a T (items.flatMap WithItem.calls)) :
    bindItems (a.with T) line items env = bindItems a line items env := by
  induction items generalizing env with
  | nil => rfl
  | cons item items ih =>
    rw [flatMap_cons] at h
    have hrest := fun env => ih env (h.mono (subset_append_right _ _))
    unfold bindItems
    cases item.optionalVars with
    | none => exact hrest env
    | some target =>
      have hvalue : AgreeOn a T item.contextExpr.calls :=
        h.mono fun _ hc => mem_append_left _ (mem_append_left _ hc)
      dsimp only
      rw [bind_with, taint_with hvalue]
      exact hrest _

theorem nestedCalls_subset (s : Stmt) : s.nestedCalls ⊆ s.calls :=
  fun _ hc => (calls_perm s).mem_iff.mpr (mem_append_right _ hc)

theorem ownCalls_subset (s : Stmt) : s.ownCalls ⊆ s.calls :=
  fun _ hc => (calls_perm s).mem_iff.mpr (mem_append_left _ hc)

theorem AgreeOn.body {b : List Stmt} {s : Stmt} (h : AgreeOn a T s.calls) (hb : b ⊆ s.nested) :
    AgreeOn a T (b.flatMap Stmt.calls) := by
  refine h.mono fun c hc => nestedCalls_subset s ?_
  obtain ⟨t, ht, hc⟩ := mem_flatMap.mp hc
  exact mem_flatMap.mpr ⟨t, hb ht, hc⟩

theorem runAll_congr {S : Type*} {f g : S → Env → Run} {ss : List S}
    (h : ∀ s ∈ ss, ∀ env, f s env = g s env) (env : Env) : runAll f ss env = runAll g ss env := by
  induction ss generalizing env with
  | nil => rfl
  | cons s ss ih =>
    rw [runAll, runAll, h s mem_cons_self]
    exact congrArg _ (funext (ih fun s hs => h s (mem_cons_of_mem _ hs)))

theorem calls_subset {s : Stmt} {ss : List Stmt} (h : s ∈ ss) : s.calls ⊆ ss.flatMap Stmt.calls :=
  fun _ hc => mem_flatMap.mpr ⟨s, h, hc⟩

section Effect
variable {run run' : List Stmt → Env → Run}
  (hrun : ∀ b env, AgreeOn a T (b.flatMap Stmt.calls) → run' b env = run b env)

include hrun

theorem runAll_with {hs : List Handler}
    (h : AgreeOn a T ((hs.flatMap Handler.body).flatMap Stmt.calls)) (env : Env) :
    runAll (fun h => run' h.body) hs env = runAll (fun h => run h.body) hs env := by
  refine runAll_congr (fun handler hmem env => hrun _ env (h.mono ?_)) env
  intro c hc
  obtain ⟨s, hs, hc⟩ := mem_flatMap.mp hc
  exact calls_subset (mem_flatMap.mpr ⟨handler, hmem, hs⟩) hc

/-- **The summaries of what is called** in a statement decide its effect. -/
theorem effect_with {s : Stmt} (h : AgreeOn a T s.calls) (env : Env) :
    effect (a.with T) run' s env = effect a run s env := by
  have hpart : ∀ {ts : List (Order.Tree Found)} {e : Expr}, s.tree = .node [] ts → e.tree ∈ ts →
      taint (a.with T) e env = taint a e env := by
    intro ts e hs he
    refine (taint_with (h.mono fun c hc => ?_)).symm
    rw [Stmt.calls, hs]
    exact mem_calls_node he _ hc
  cases s with
  | assign line targets value =>
    have hvalue := hpart (e := value) rfl (mem_append_right _ mem_cons_self)
    simp only [effect, hvalue, bindAll_with]
  | annAssign line target annotation value =>
    cases value with
    | none => simp only [effect]
    | some value =>
      have hvalue := hpart (e := value) rfl
        (mem_cons_of_mem _ (mem_cons_of_mem _ mem_cons_self))
      simp only [effect, hvalue, bind_with]
  | augAssign line target value =>
    have htarget := hpart (e := target) rfl mem_cons_self
    have hvalue := hpart (e := value) rfl (mem_cons_of_mem _ mem_cons_self)
    simp only [effect, htarget, hvalue, bind_with]
  | returnStmt value =>
    cases value with
    | none => simp only [effect, Option.bind_none]
    | some value =>
      have hvalue := hpart (e := value) rfl mem_cons_self
      simp only [effect, Option.bind_some, hvalue]
  | forStmt line target iter body orelse =>
    have hiter := hpart (e := iter) rfl (mem_cons_of_mem _ mem_cons_self)
    have hbody := fun env => hrun body env (h.body (subset_append_left _ _))
    have horelse := fun env => hrun orelse env (h.body (subset_append_right _ _))
    simp only [effect, hiter, bind_with, hbody, funext horelse]
  | withStmt line items body =>
    have hitems := bindItems_with line items env (h.mono (ownCalls_subset (.withStmt line items body)))
    have hbody := fun env => hrun body env (h.body fun _ ht => ht)
    simp only [effect, hitems, hbody]
  | ifStmt test body orelse | whileStmt test body orelse =>
    have hbody := hrun body env (h.body (subset_append_left _ _))
    have horelse := hrun orelse env (h.body (subset_append_right _ _))
    simp only [effect, hbody, horelse]
  | tryStmt body handlers orelse finalbody =>
    have hbody := hrun body env (h.body (subset_append_left _ _))
    have hhandlers : ∀ env, runAll (fun h => run' h.body) handlers env =
        runAll (fun h => run h.body) handlers env :=
      runAll_with hrun (h.body fun _ ht => mem_append_right _ (mem_append_left _ ht))
    have horelse := fun env => hrun orelse env (h.body fun _ ht =>
      mem_append_right _ (mem_append_right _ (mem_append_left _ ht)))
    have hfinal := fun env => hrun finalbody env (h.body fun _ ht =>
      mem_append_right _ (mem_append_right _ (mem_append_right _ ht)))
    simp only [effect, hbody, funext hhandlers, funext horelse, funext hfinal]
  | functionDef | classDef | raiseStmt | breakStmt | continueStmt | other => simp only [effect]

theorem execStmt_with {s : Stmt} (h : AgreeOn a T s.calls) (env : Env) :
    execStmt (a.with T) run' s env = execStmt a run s env := by
  rw [execStmt, execStmt, effect_with hrun h]

end Effect

theorem execBody_with (n : ℕ) {b : List Stmt} (h : AgreeOn a T (b.flatMap Stmt.calls)) (env : Env) :
    execBody (a.with T) n b env = execBody a n b env := by
  induction n generalizing b env with
  | zero => rfl
  | succ n ih =>
    exact runAll_congr (fun s hs env => execStmt_with (fun b env hb => ih hb env)
      (h.mono (calls_subset hs)) env) env

end Expressions

/-! ### Summaries -/

/-- The calls of a function, with the calls in them. -/
def Function.calls (f : Function) : List Call :=
  (f.body.flatMap Stmt.calls).flatMap fun c => c.expr.calls

/-- **A function looks at the summaries of what it calls only.** -/
theorem summarize_congr {a : Analyzer} {T : Summaries} {f : Function} (h : AgreeOn a T f.calls) :
    summarize (a.with T) f = summarize a f := by
  have hbody : AgreeOn a T (f.body.flatMap Stmt.calls) :=
    h.mono fun c hc => mem_flatMap.mpr ⟨c, hc, mem_calls_self c⟩
  have hrun := execBody_with maxLevels hbody (parameterEnv f)
  have hrecorded : recorded (a.with T) (exec a f.body (parameterEnv f)).judged =
      recorded a (exec a f.body (parameterEnv f)).judged := by
    refine flatMap_congr fun p hp => (checkCall_with (h.mono fun c hc => ?_)).symm
    exact mem_flatMap.mpr ⟨p.1, mem_judged_execBody maxLevels _ _ p hp, hc⟩
  unfold summarize
  rw [exec, hrun, ← exec]
  dsimp only
  rw [hrecorded]

/-- **Functions that call functions of a lower level** look at lower levels only. -/
theorem layered_of_calls {F : File} {level : Str → ℕ}
    (h : ∀ f ∈ F.functions, ∀ c ∈ f.calls, ∀ d, dotted (F.analyzer fun _ => none) c.func = some d →
      d ∈ F.functions.map Function.name → level d < level f.name) :
    Layered Function.name F.compute level F.functions := by
  intro f hf T T' hT hT' hlow
  refine (summarize_congr (a := F.analyzer T) (T := T') fun c hc d hd => ?_).symm
  by_cases hmem : d ∈ F.functions.map Function.name
  · exact hlow d (h f hf c hc d hd hmem)
  · exact (hT.none hmem).trans (hT'.none hmem).symm

end Guardian.Sast

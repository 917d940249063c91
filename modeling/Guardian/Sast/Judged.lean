import Guardian.Sast.Exec

/-!
# Which environment judges a call?

A call should be judged once, in the environment that holds where it stands.  A statement with
bodies is walked as a whole before its bodies are executed, so the calls in them are judged too
early as well.  `judgedOnce_iff` says when none is.
-/

namespace Guardian.Sast

open Python Guardian.Order List

section Points
variable (a : Analyzer)

/-- The calls in the items of a `with`, where they stand: after the items before them are bound. -/
def itemPoints (line : ℕ) : List WithItem → Env → List (Call × Env)
  | [], _ => []
  | item :: items, env =>
    item.calls.map (fun c => (c, env)) ++ itemPoints line items (bindItems a line [item] env)

/-- The calls in the types of handlers, where they stand: after the body, and the handlers before. -/
def handlerPoints (run : List Stmt → Env → Run) : List Handler → Env → List (Call × Env)
  | [], _ => []
  | h :: hs, env =>
    h.calls.map (fun c => (c, env)) ++ handlerPoints run hs (run h.body env).env

/-- The calls in the expressions of a statement, where they stand. -/
def ownPoints (run : List Stmt → Env → Run) : Stmt → Env → List (Call × Env)
  | .withStmt line items _, env => itemPoints a line items env
  | .tryStmt body handlers _ _, env => handlerPoints run handlers (run body env).env
  | s, env => s.ownCalls.map fun c => (c, env)

/-- The execution of a statement that judges a call where it stands. -/
def pointStmt (run : List Stmt → Env → Run) (s : Stmt) (env : Env) : Run :=
  if s.isDefinition then .start env
  else
    let r := effect a run s env
    { r with judged := ownPoints a run s env ++ r.judged }

/-- **The execution that judges every call where it stands**, and nowhere else. -/
def execPoint : ℕ → List Stmt → Env → Run
  | 0, _, env => .start env
  | n + 1, body, env => runAll (pointStmt a (execPoint n)) body env

/-- **A sink call**: there is something to probe. -/
def IsSink (c : Call) : Prop := probes a c ≠ []

instance (c : Call) : Decidable (IsSink a c) := by
  unfold IsSink
  exact decidable_of_iff (¬ (probes a c).isEmpty) (by simp)

def onSinks (l : List (Call × Env)) : List (Call × Env) := l.filter fun p => IsSink a p.1

/-- **Every sink call of the statement is judged once**, in the environment that holds where it
stands. -/
def JudgedOnce (s : Stmt) (env : Env) : Prop :=
  (onSinks a (exec a [s] env).judged).Perm (onSinks a (execPoint a maxLevels [s] env).judged)

/-- **No sink call is in the way**: none stands in a body of the statement, and the environment is
the one before the statement where the sink calls in its head stand. -/
def HeadOnly (s : Stmt) (env : Env) : Prop :=
  (∀ c ∈ s.nestedCalls, ¬ IsSink a c) ∧
    ∀ p ∈ ownPoints a (execBody a 20) s env, IsSink a p.1 → p.2 = env

end Points

/-! ### The calls of a run -/

section Calls
variable {a : Analyzer} {run : List Stmt → Env → Run}

theorem mem_judged_runAll {S : Type*} {f : S → Env → Run} {ss : List S} {env : Env}
    {p : Call × Env} (h : p ∈ (runAll f ss env).judged) :
    ∃ s ∈ ss, ∃ env', p ∈ (f s env').judged := by
  induction ss generalizing env with
  | nil => cases h
  | cons s ss ih =>
    rcases mem_append.mp h with hs | hss
    · exact ⟨s, mem_cons_self, env, hs⟩
    · obtain ⟨t, ht, env', hp⟩ := ih hss
      exact ⟨t, mem_cons_of_mem _ ht, env', hp⟩

theorem mem_judged_effect (h : ∀ b env, ∀ p ∈ (run b env).judged, p.1 ∈ b.flatMap Stmt.calls)
    {s : Stmt} {env : Env} {p : Call × Env} (hp : p ∈ (effect a run s env).judged) :
    p.1 ∈ s.nestedCalls := by
  match s with
  | .forStmt .. | .ifStmt .. | .whileStmt .. =>
    rw [Stmt.nestedCalls, Stmt.nested, flatMap_append, mem_append]
    exact (mem_append.mp hp).imp (h _ _ p) (h _ _ p)
  | .withStmt .. => exact h _ _ p hp
  | .tryStmt body handlers orelse finalbody =>
    rw [Stmt.nestedCalls, Stmt.nested]
    simp only [flatMap_append, mem_append]
    rcases mem_append.mp hp with hp | hp
    · rcases mem_append.mp hp with hp | hp
      · rcases mem_append.mp hp with hp | hp
        · exact Or.inl (h _ _ p hp)
        · obtain ⟨handler, hmem, env', hjudged⟩ := mem_judged_runAll hp
          obtain ⟨t, ht, hcall⟩ := mem_flatMap.mp (h _ _ p hjudged)
          exact Or.inr (Or.inl (mem_flatMap.mpr
            ⟨t, mem_flatMap.mpr ⟨handler, hmem, ht⟩, hcall⟩))
      · exact Or.inr (Or.inr (Or.inl (h _ _ p hp)))
    · exact Or.inr (Or.inr (Or.inr (h _ _ p hp)))
  | .annAssign _ _ _ none | .annAssign _ _ _ (some _) => cases hp
  | .assign .. | .augAssign .. | .returnStmt _ | .functionDef .. | .classDef .. | .raiseStmt _
  | .breakStmt | .continueStmt | .other .. => cases hp

theorem map_fst_itemPoints (line : ℕ) (items : List WithItem) (env : Env) :
    (itemPoints a line items env).map Prod.fst = items.flatMap WithItem.calls := by
  induction items generalizing env with
  | nil => rfl
  | cons i items ih => simp [itemPoints, ih, Function.comp_def]

theorem map_fst_handlerPoints (hs : List Handler) (env : Env) :
    (handlerPoints run hs env).map Prod.fst = hs.flatMap Handler.calls := by
  induction hs generalizing env with
  | nil => rfl
  | cons h hs ih => simp [handlerPoints, ih, Function.comp_def]

theorem map_fst_ownPoints (s : Stmt) (env : Env) :
    (ownPoints a run s env).map Prod.fst = s.ownCalls := by
  unfold ownPoints
  split
  · exact map_fst_itemPoints _ _ _
  · exact map_fst_handlerPoints _ _
  · simp [Function.comp_def]

/-- A run that judges calls of each statement and those of its effect judges calls of its body. -/
theorem mem_calls_of_judged (h : ∀ b env, ∀ p ∈ (run b env).judged, p.1 ∈ b.flatMap Stmt.calls)
    {f : Stmt → Env → Run}
    (hf : ∀ s env, ∀ p ∈ (f s env).judged, p.1 ∈ s.calls ∨ p ∈ (effect a run s env).judged)
    {b : List Stmt} {env : Env} : ∀ p ∈ (runAll f b env).judged, p.1 ∈ b.flatMap Stmt.calls := by
  intro p hp
  obtain ⟨s, hs, env', hjudged⟩ := mem_judged_runAll hp
  refine mem_flatMap.mpr ⟨s, hs, (hf s env' p hjudged).elim id fun hnested => ?_⟩
  exact (calls_perm s).mem_iff.mpr (mem_append_right _ (mem_judged_effect h hnested))

theorem mem_judged_execBody (n : ℕ) (b : List Stmt) (env : Env) :
    ∀ p ∈ (execBody a n b env).judged, p.1 ∈ b.flatMap Stmt.calls := by
  induction n generalizing b env with
  | zero =>
    intro p hp
    cases hp
  | succ n ih =>
    refine mem_calls_of_judged (a := a) ih fun s env p hp => ?_
    unfold execStmt at hp
    split_ifs at hp
    · cases hp
    · refine (mem_append.mp hp).imp_left fun hown => ?_
      obtain ⟨c, hc, rfl⟩ := mem_map.mp hown
      exact hc

theorem mem_judged_execPoint (n : ℕ) (b : List Stmt) (env : Env) :
    ∀ p ∈ (execPoint a n b env).judged, p.1 ∈ b.flatMap Stmt.calls := by
  induction n generalizing b env with
  | zero =>
    intro p hp
    cases hp
  | succ n ih =>
    refine mem_calls_of_judged (a := a) ih fun s env p hp => ?_
    unfold pointStmt at hp
    split_ifs at hp
    · cases hp
    · refine (mem_append.mp hp).imp_left fun hown => ?_
      have hcall := mem_map_of_mem (f := Prod.fst) hown
      rw [map_fst_ownPoints] at hcall
      exact (calls_perm s).mem_iff.mpr (mem_append_left _ hcall)

end Calls

/-! ### Counting judgements -/

section Count
variable (a : Analyzer)

/-- The number of judgements of sink calls. -/
def sinkCount (l : List (Call × Env)) : ℕ := (l.map Prod.fst).countP (IsSink a ·)

variable {a}

theorem length_onSinks (l : List (Call × Env)) : (onSinks a l).length = sinkCount a l := by
  rw [onSinks, sinkCount, ← countP_eq_length_filter, countP_map]
  rfl

theorem sinkCount_append (l m : List (Call × Env)) :
    sinkCount a (l ++ m) = sinkCount a l + sinkCount a m := by
  simp [sinkCount]

theorem sinkCount_calls (s : Stmt) (env : Env) :
    sinkCount a (s.calls.map fun c => (c, env)) =
      s.ownCalls.countP (IsSink a ·) + s.nestedCalls.countP (IsSink a ·) := by
  have hmap : (s.calls.map fun c => (c, env)).map Prod.fst = s.calls := by simp [Function.comp_def]
  rw [sinkCount, hmap, (calls_perm s).countP_eq, countP_append]

theorem sinkCount_ownPoints (run : List Stmt → Env → Run) (s : Stmt) (env : Env) :
    sinkCount a (ownPoints a run s env) = s.ownCalls.countP (IsSink a ·) := by
  rw [sinkCount, map_fst_ownPoints]

/-- There are no more judgements of sink calls on the one side. -/
def FewerSinks (a : Analyzer) (l m : List (Call × Env)) : Prop := sinkCount a l ≤ sinkCount a m

theorem appendable_fewerSinks (a : Analyzer) : Appendable (FewerSinks a) where
  nil := le_rfl
  append l l' m m' hl hm := by
    unfold FewerSinks at hl hm ⊢
    rw [sinkCount_append, sinkCount_append]
    omega

/-- **No call is judged less often** than it should be. -/
theorem execPoint_rel (n : ℕ) (b : List Stmt) (env : Env) :
    Run.Rel Eq (FewerSinks a) (execPoint a n b env) (execBody a n b env) := by
  induction n generalizing b env with
  | zero => exact ⟨rfl, le_rfl⟩
  | succ n ih =>
    refine runAll_rel (R := Eq) (appendable_fewerSinks a) ?_ b rfl
    rintro s env _ rfl
    have hbodies : ∀ b env env', env = env' →
        Run.Rel Eq (FewerSinks a) (execPoint a n b env) (execBody a n b env') := by
      rintro b env _ rfl
      exact ih b env
    obtain ⟨henv, hcount⟩ := effect_rel (appendable_fewerSinks a) (respected_eq a) hbodies s
      (Eq.refl env)
    unfold pointStmt execStmt
    split_ifs
    · exact ⟨rfl, le_rfl⟩
    · refine ⟨henv, ?_⟩
      have hown := sinkCount_ownPoints (a := a) (execPoint a n) s env
      have hcalls := sinkCount_calls (a := a) s env
      refine (appendable_fewerSinks a).append _ _ _ _ ?_ hcount
      unfold FewerSinks
      omega

theorem onSinks_eq_nil {l : List (Call × Env)} (h : ∀ p ∈ l, ¬ IsSink a p.1) : onSinks a l = [] :=
  filter_eq_nil_iff.mpr fun p hp => by simpa using h p hp

theorem ownPoints_congr {run run' : List Stmt → Env → Run}
    (h : ∀ b env, (run b env).env = (run' b env).env) (s : Stmt) (env : Env) :
    ownPoints a run s env = ownPoints a run' s env := by
  have hhandlers : ∀ (hs : List Handler) env,
      handlerPoints run hs env = handlerPoints run' hs env := by
    intro hs
    induction hs with
    | nil => exact fun _ => rfl
    | cons h' hs ih =>
      intro env
      rw [handlerPoints, handlerPoints, h h'.body env, ih]
  unfold ownPoints
  split
  · rfl
  · rw [h, hhandlers]
  · rfl

/-! ### One statement -/

theorem exec_singleton (s : Stmt) (env : Env) :
    exec a [s] env = execStmt a (execBody a 20) s env :=
  Run.then_start (execStmt a (execBody a 20) s env)

theorem execPoint_singleton (s : Stmt) (env : Env) :
    execPoint a maxLevels [s] env = pointStmt a (execPoint a 20) s env :=
  Run.then_start (pointStmt a (execPoint a 20) s env)

theorem judged_exec {s : Stmt} (hs : s.isDefinition = false) (env : Env) :
    (exec a [s] env).judged =
      s.calls.map (fun c => (c, env)) ++ (effect a (execBody a 20) s env).judged := by
  rw [exec_singleton, execStmt, if_neg (by simp [hs])]

theorem judged_point {s : Stmt} (hs : s.isDefinition = false) (env : Env) :
    (execPoint a maxLevels [s] env).judged =
      ownPoints a (execBody a 20) s env ++ (effect a (execPoint a 20) s env).judged := by
  have henv : ∀ b e, (execPoint a 20 b e).env = (execBody a 20 b e).env :=
    fun b e => (execPoint_rel 20 b e).1
  rw [execPoint_singleton, pointStmt, if_neg (by simp [hs]), ownPoints_congr henv]

theorem judgedOnce_definition {s : Stmt} (hs : s.isDefinition = true) (env : Env) :
    JudgedOnce a s env ∧ HeadOnly a s env := by
  refine ⟨?_, ?_⟩
  · rw [JudgedOnce, exec_singleton, execPoint_singleton, execStmt, pointStmt, if_pos hs, if_pos hs]
  · have hnested : s.nested = [] := by cases s <;> first | rfl | cases hs
    have hpoints : ownPoints a (execBody a 20) s env = s.ownCalls.map fun c => (c, env) := by
      cases s <;> first | rfl | cases hs
    refine ⟨by simp [Stmt.nestedCalls, hnested], fun p hp _ => ?_⟩
    rw [hpoints] at hp
    obtain ⟨c, -, rfl⟩ := mem_map.mp hp
    rfl

/-- **A statement judges every sink call once**, where it stands, exactly when no sink call stands in
one of its bodies, or behind a binding in its head. -/
theorem judgedOnce_iff (a : Analyzer) (s : Stmt) (env : Env) :
    JudgedOnce a s env ↔ HeadOnly a s env := by
  cases hs : s.isDefinition with
  | true => exact iff_of_true (judgedOnce_definition hs env).1 (judgedOnce_definition hs env).2
  | false =>
    have hbodies : (∀ c ∈ s.nestedCalls, ¬ IsSink a c) →
        onSinks a (effect a (execBody a 20) s env).judged = [] ∧
          onSinks a (effect a (execPoint a 20) s env).judged = [] := fun h =>
      ⟨onSinks_eq_nil fun p hp => h _ (mem_judged_effect (mem_judged_execBody 20) hp),
        onSinks_eq_nil fun p hp => h _ (mem_judged_effect (mem_judged_execPoint 20) hp)⟩
    have hown : (ownPoints a (execBody a 20) s env).map Prod.fst = s.ownCalls :=
      map_fst_ownPoints s env
    unfold JudgedOnce HeadOnly
    rw [judged_exec hs, judged_point hs]
    constructor
    · intro hperm
      -- the walk judges the calls in the bodies once more than the bodies should
      have hlen := hperm.length_eq
      rw [length_onSinks, length_onSinks, sinkCount_append, sinkCount_append, sinkCount_calls,
        sinkCount_ownPoints] at hlen
      have hrel : Run.Rel Eq (FewerSinks a) (effect a (execPoint a 20) s env)
          (effect a (execBody a 20) s env) :=
        effect_rel (appendable_fewerSinks a) (respected_eq a)
          (fun b env _ h => h ▸ execPoint_rel 20 b env) s rfl
      have hle : sinkCount a (effect a (execPoint a 20) s env).judged ≤
          sinkCount a (effect a (execBody a 20) s env).judged := hrel.2
      have hnone : ∀ c ∈ s.nestedCalls, ¬ IsSink a c := by
        have hzero : s.nestedCalls.countP (IsSink a ·) = 0 := by omega
        intro c hc
        simpa using countP_eq_zero.mp hzero c hc
      refine ⟨hnone, fun p hp hsink => ?_⟩
      rw [onSinks, onSinks, filter_append, filter_append] at hperm
      have hmem := hperm.mem_iff.mpr (mem_append_left _
        (mem_filter.mpr ⟨hp, decide_eq_true hsink⟩))
      have hbody := (hbodies hnone).1
      unfold onSinks at hbody
      rw [hbody, append_nil] at hmem
      obtain ⟨c, -, rfl⟩ := mem_map.mp (mem_filter.mp hmem).1
      rfl
    · rintro ⟨hnone, hpoint⟩
      obtain ⟨hbody, hbody'⟩ := hbodies hnone
      have hhead : onSinks a (ownPoints a (execBody a 20) s env) =
          onSinks a (s.ownCalls.map fun c => (c, env)) := by
        rw [← hown, map_map, onSinks, onSinks, filter_map]
        conv_lhs => rw [← map_id (List.filter _ _)]
        refine map_congr_left fun p hp => ?_
        obtain ⟨hp, hsink⟩ := mem_filter.mp hp
        exact Prod.ext rfl (hpoint p hp (of_decide_eq_true hsink))
      have hwalk : (onSinks a (s.calls.map fun c => (c, env))).Perm
          (onSinks a ((s.ownCalls ++ s.nestedCalls).map fun c => (c, env))) :=
        ((calls_perm s).map _).filter _
      have hrest : onSinks a (s.nestedCalls.map fun c => (c, env)) = [] :=
        onSinks_eq_nil fun p hp => by
          obtain ⟨c, hc, rfl⟩ := mem_map.mp hp
          exact hnone c hc
      unfold onSinks at hbody hbody' hhead hwalk hrest ⊢
      rw [filter_append, filter_append, hbody, hbody', hhead, append_nil,
        append_nil]
      rwa [map_append, filter_append, hrest, append_nil] at hwalk

end Count

/-- `if flag: command = "ls"; os.system(command)`. -/
def overwrittenInBody : Stmt :=
  .ifStmt (.name 3 "flag")
    [.assign 4 [.name 4 "command"] (.constant (.str "ls")),
     .other [.call 5 (.attribute 5 (.name 5 "os") "system")
      [.name 5 "command"] []] []]
    []

/-- The environment in which the command is untrusted. -/
def untrustedCommand : Env := Env.empty.set "command" rawTaint

/-- The reports of some judgements. -/
def reportsOf (a : Analyzer) (l : List (Call × Env)) : List (Str × ℕ) :=
  l.flatMap fun p => (reports a p.1 p.2).map fun r => (r.1.id, r.2)

/-- **A call is judged twice**, and reported for what was overwritten before it. -/
theorem overwrittenInBody_judged_twice :
    ¬ JudgedOnce plainAnalyzer overwrittenInBody untrustedCommand ∧
    reportsOf plainAnalyzer (exec plainAnalyzer [overwrittenInBody] untrustedCommand).judged =
      [("taint-shell-command".toList, 5)] ∧
    reportsOf plainAnalyzer
      (execPoint plainAnalyzer maxLevels [overwrittenInBody] untrustedCommand).judged = [] := by
  refine ⟨fun h => ?_, by decide, by decide⟩
  have hlen := h.length_eq
  have htwice : (onSinks plainAnalyzer (exec plainAnalyzer [overwrittenInBody]
      untrustedCommand).judged).length = 2 := by decide
  have honce : (onSinks plainAnalyzer (execPoint plainAnalyzer maxLevels [overwrittenInBody]
      untrustedCommand).judged).length = 1 := by decide
  omega

end Guardian.Sast

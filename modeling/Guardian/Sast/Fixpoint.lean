import Guardian.Sast.Mentions

/-!
# Are the summaries a fixpoint?

Summaries are recomputed in up to four passes, and the passes stop when no summary has changed its
shape.  Where functions look only at functions of a lower level, every pass settles one more level,
in whatever order they are defined.  `summaries_fixpoint` says when four passes are enough.
-/

namespace Guardian.Sast

open Python Guardian.Order List

/-- **The files differ in the order of their functions**, if at all. -/
structure Reordered (F G : File) : Prop where
  aliases : G.aliases = F.aliases
  code : G.code = F.code
  definitions : G.definitions.Perm F.definitions
  moduleBody : G.moduleBody = F.moduleBody

/-- **No pass is deceived**, in whatever order the functions are defined: a pass that leaves the shape
of all summaries leaves the summaries. -/
def File.Faithful (F : File) : Prop :=
  ∀ G, Reordered F G → ∀ T, Arises Function.name G.compute G.functions T →
    G.sameShape T (G.pass T) → G.pass T = T

section Functions
variable {F G : File}

theorem foldl_setdefault (fs gs : List Function) (h : ((gs ++ fs).map Function.name).Nodup) :
    fs.foldl setdefault gs = gs ++ fs := by
  induction fs generalizing gs with
  | nil => rw [foldl_nil, append_nil]
  | cons f fs ih =>
    have hnew : f.name ∉ gs.map Function.name := by
      rw [map_append, map_cons] at h
      intro hmem
      exact (nodup_append.mp h).2.2 _ hmem _ mem_cons_self rfl
    rw [foldl_cons, setdefault, if_neg hnew, ih, append_assoc]
    · rfl
    · rwa [append_assoc]

theorem functions_eq (h : (F.definitions.map Function.name).Nodup) : F.functions = F.definitions :=
  foldl_setdefault F.definitions [] h

variable (hnames : (F.definitions.map Function.name).Nodup)

include hnames

theorem Reordered.functions (h : Reordered F G) : G.functions.Perm F.functions := by
  rw [functions_eq hnames, functions_eq ((h.definitions.map _).nodup_iff.mpr hnames)]
  exact h.definitions

theorem Reordered.analyzer (h : Reordered F G) : G.analyzer = F.analyzer := by
  funext T
  have hfunctions : (G.functions.map Function.name).toFinset =
      (F.functions.map Function.name).toFinset :=
    toFinset_eq_of_perm _ _ ((h.functions hnames).map _)
  unfold File.analyzer
  rw [h.aliases, h.code, hfunctions]

theorem Reordered.compute (h : Reordered F G) : G.compute = F.compute := by
  funext T f
  rw [File.compute, File.compute, h.analyzer hnames]

/-! ### What the report does not depend on -/

theorem Reordered.findings (h : Reordered F G) (T : Summaries) :
    (G.findings T).Perm (F.findings T) := by
  unfold File.findings
  rw [h.analyzer hnames, h.moduleBody]
  exact (((h.functions hnames).flatMap_right _).append_right _).map _

/-- What the report says of a finding, but for how the taint came there. -/
def Finding.face (f : Finding) : (ℕ ×ₗ Str) × (ℕ ×ₗ ℕ) := (f.key, f.rank)

omit hnames in
theorem map_face_report (F : File) :
    F.report.map Finding.face =
      (sortBy Prod.fst ((best Finding.key Finding.rank (F.findings F.summaries)).map
        Finding.face)).take maxFindingsPerFile := by
  rw [File.report, map_take, sortBy, sortBy]
  refine congrArg (List.take _) (map_insertionSort _ _ _ _ fun f _ g _ => ?_)
  rfl

/-- **The report** does not depend on the order, but for how the taint came there; and not at all, if
there are no ties. -/
theorem Reordered.report (h : Reordered F G) (hsummaries : G.summaries = F.summaries) :
    G.report.map Finding.face = F.report.map Finding.face ∧
      (NoTies Finding.key Finding.rank (F.findings F.summaries) → G.report = F.report) := by
  have hperm : (G.findings G.summaries).Perm (F.findings F.summaries) := by
    rw [hsummaries]
    exact h.findings hnames F.summaries
  refine ⟨?_, fun hties => ?_⟩
  · rw [map_face_report, map_face_report]
    have hinj : KeyInj Prod.fst ((best Finding.key Finding.rank (G.findings G.summaries)).map
        Finding.face) := by
      have hnodup : ((best Finding.key Finding.rank (G.findings G.summaries)).map
          Finding.key).Nodup := nodup_map_best _
      intro p hp q hq heq
      obtain ⟨f, hf, rfl⟩ := mem_map.mp hp
      obtain ⟨g, hg, rfl⟩ := mem_map.mp hq
      rw [inj_on_of_nodup_map hnodup hf hg heq]
    exact congrArg (List.take _) (sortBy_perm_eq hinj (map_best_perm hperm))
  · have hbest := best_perm hperm.symm hties
    have hinj : KeyInj Finding.key (best Finding.key Finding.rank (F.findings F.summaries)) :=
      fun f hf g hg => inj_on_of_nodup_map (nodup_map_best _) hf hg
    exact congrArg (List.take _) (sortBy_perm_eq hinj hbest).symm

end Functions

/-! ### Passes -/

section Passes
variable {F : File} {level : Str → ℕ} (hnames : (F.functions.map Function.name).Nodup)
  (hlayered : Layered Function.name F.compute level F.functions) {N : ℕ}

theorem sameShape_first {f : Function} (hf : f ∈ F.functions) :
    F.sameShape (fun _ => none) (F.pass fun _ => none) = false := by
  have hsome : (sweep Function.name F.compute F.functions (fun _ => none) f.name).isSome = true :=
    isSome_sweep hf _
  obtain ⟨s, hs⟩ := Option.isSome_iff_exists.mp hsome
  unfold File.sameShape
  rw [all_eq_false]
  refine ⟨f, hf, ?_⟩
  rw [File.pass, hs]
  simp

include hnames hlayered

/-- **The passes settle their levels**, if they do not stop too early after the first one. -/
theorem settled_summaries (hN : N ≤ maxFixpointPasses)
    (hstop : ∀ T, Arises Function.name F.compute F.functions T →
      Order.Settled Function.name F.compute level F.functions 1 T → F.sameShape T (F.pass T) →
        Order.Settled Function.name F.compute level F.functions N (F.pass T)) :
    Order.Settled Function.name F.compute level F.functions N F.summaries := by
  by_cases hsome : ∃ f, f ∈ F.functions
  · obtain ⟨f, hf⟩ := hsome
    have hfirst : F.summaries =
        sweeps Function.name F.compute F.sameShape F.functions 3 (F.pass fun _ => none) := by
      have hne := sameShape_first hf
      unfold File.pass at hne ⊢
      rw [File.summaries, maxFixpointPasses, sweeps_succ hne]
    have harises : Arises Function.name F.compute F.functions (F.pass fun _ => none) :=
      Arises.empty.sweep fun _ h => h
    have hone : Order.Settled Function.name F.compute level F.functions 1 (F.pass fun _ => none) :=
      Order.Settled.sweep (n := 0) hlayered hnames .empty fun f _ hlt => absurd hlt (by omega)
    rw [hfirst]
    refine settled_sweeps hlayered hnames hstop 3 1 harises hone le_rfl ?_
    unfold maxFixpointPasses at hN
    omega
  · exact fun f hf => absurd ⟨f, hf⟩ hsome

end Passes

theorem Reordered.refl (F : File) : Reordered F F := ⟨rfl, rfl, Perm.refl _, rfl⟩

/-- **The passes are enough**: the functions stand on two levels; or on four, and no pass is
deceived. -/
def File.Enough (F : File) (level : Str → ℕ) : Prop :=
  (∀ f ∈ F.functions, level f.name < 2) ∨
    ((∀ f ∈ F.functions, level f.name < maxFixpointPasses) ∧ F.Faithful)

section Enough
variable {F : File} {level : Str → ℕ} (hnames : (F.definitions.map Function.name).Nodup)
  (hlayered : Layered Function.name F.compute level F.functions) (henough : F.Enough level)

include hnames hlayered henough

theorem settled_reordered {G : File} (h : Reordered F G) :
    Order.Settled Function.name F.compute level F.functions maxFixpointPasses G.summaries := by
  have hperm := h.functions hnames
  have hnames' : (G.functions.map Function.name).Nodup := by
    rw [(hperm.map _).nodup_iff, functions_eq hnames]
    exact hnames
  have hlayered' : Layered Function.name G.compute level G.functions := by
    rw [h.compute hnames]
    exact hlayered.perm hperm
  suffices hsettled : ∀ f ∈ G.functions, Fresh Function.name G.compute G.summaries f by
    rw [h.compute hnames] at hsettled
    exact fun f hf _ => hsettled f (hperm.mem_iff.mpr hf)
  rcases henough with hlevel | ⟨hlevel, hfaithful⟩
  · have hsettled := settled_summaries (N := 2) hnames' hlayered' (by decide) fun T hT hs _ =>
      hs.sweep hlayered' hnames' hT
    exact fun f hf => hsettled f hf (hlevel f (hperm.mem_iff.mp hf))
  · have hsettled := settled_summaries (N := maxFixpointPasses) hnames' hlayered' le_rfl
      fun T hT _ hsame f hf _ => by
        have hkept := hfaithful G h T hT hsame
        rw [hkept]
        exact fresh_of_sweep_eq hnames' hkept hf
    exact fun f hf => hsettled f hf (hlevel f (hperm.mem_iff.mp hf))

end Enough

/-! ### Chains -/

/-- `callee(x)`. -/
def handOn (line : ℕ) (callee : Str) : Call := ⟨line, .name line callee, [.name line ['x']], []⟩

/-- `os.system(x)`. -/
def runShell (line : ℕ) : Call :=
  ⟨line, .attribute line (.name line "os") "system", [.name line ['x']], []⟩

/-- `def name(x): …`, with one call in it. -/
def oneCall (line : ℕ) (name : Str) (c : Call) : Function :=
  ⟨line, name, [['x']], [.other [c.expr] []], []⟩

def Function.stmt (f : Function) : Stmt := .functionDef f.line f.name [] f.names f.body f.decorators []

def fileOf (fs : List Function) : File := ⟨fun _ => none, fun _ => [], fs.map Function.stmt⟩

/-- The summary of a function that hands its argument on to some sinks. -/
def passesOn (name : Str) (hits : List Hit) : FunctionSummary where
  name := name
  params := [['x']]
  paramSinks := buckets (hits.map fun h => (['x'], h))

theorem get_buckets (k : Str) (hits : List Hit) :
    (get (buckets (hits.map fun h => (k, h))) k).getD [] = hits := by
  by_cases h : hits = []
  · subst h
    rfl
  · rw [buckets_single k h]
    simp [get]

theorem length_catalog :
    (∀ sink ∈ sinks, ∀ d ∈ sink.dotted, d.length ≠ 1) ∧ ∀ d ∈ sourceDotted, d.length ≠ 1 := by
  simp only [sinks, sourceDotted, forall_mem_cons]
  and_intros <;> decide

section Evaluate
variable {a : Analyzer} (haliases : a.aliases = fun _ => none)

include haliases

theorem dotted_name (line : ℕ) (id : Str) : dotted a (.name line id) = some id := by
  simp [dotted, dottedParts, haliases]

theorem dotted_runShell (line : ℕ) : dotted a (runShell line).func = some "os.system".toList := by
  simp [runShell, dotted, dottedParts, haliases, intercalate]

theorem taint_argument (line l : ℕ) (name : Str) (c : Call) :
    taint a (.name l ['x']) (parameterEnv (oneCall line name c)) =
      some { sourceKind := .parameter, origin := ['x'] } := by
  have hsource : sourceTaint a (.name l ['x']) = none := by
    have hout : ¬ ['x'] ∈ sourceDotted := fun hmem => length_catalog.2 _ hmem rfl
    unfold sourceTaint sourceKind
    rw [dotted_name haliases, Option.filter_some, if_neg (by simpa using hout)]
    rfl
  have henv : parameterEnv (oneCall line name c) ['x'] =
      some { sourceKind := .parameter, origin := ['x'] } := by
    have hparameters : [['x']].filter (fun n => n ∉ ["self".toList, "cls".toList]) = [['x']] := by
      decide
    unfold parameterEnv parameters oneCall
    rw [hparameters, if_pos mem_cons_self]
  rw [taint, maxDepth, taintOf, hsource, Option.none_or]
  exact henv

theorem directRecords_handOn {l : ℕ} {callee : Str} (h : ∀ sink ∈ sinks, callee ∉ sink.dotted)
    (env : Env) : directRecords a (handOn l callee) env = [] := by
  refine filterMap_eq_nil_iff.mpr fun sink hsink => ?_
  have hmatch : matchSink a (handOn l callee) sink = none := by
    have hdotted : dotted a (handOn l callee).func = some callee := dotted_name haliases l callee
    have hfree : ¬ Option.any (fun d => decide (d ≠ [] ∧ d ∈ sink.dotted)) (some callee) := by
      rw [Option.any_some, decide_eq_true_eq]
      exact fun hd => h sink hsink hd.2
    unfold matchSink
    rw [hdotted]
    dsimp only
    have hmethod : (handOn l callee).func.method = none := rfl
    rw [if_neg hfree, hmethod, Option.any_none, if_neg Bool.false_ne_true]
    rfl
  rw [hmatch]
  rfl

omit haliases in
theorem judged_oneCall (line : ℕ) (name : Str) (c : Call) (env : Env)
    (hcalls : c.expr.calls = [c]) :
    exec a (oneCall line name c).body env = ⟨[(c, env)], [], env⟩ := by
  have hwalk : (Stmt.other [c.expr] []).calls = [c] := by
    have hperm := perm_callsIn (Expr.trees [c.expr] ++ Stmt.trees [])
    have hone : callsIn (Expr.trees [c.expr] ++ Stmt.trees []) = [c] := by
      rw [← hcalls]
      exact flatMap_singleton _ _
    rw [hone] at hperm
    exact perm_singleton.mp hperm
  unfold oneCall
  rw [exec_singleton, execStmt, if_neg (by simp [Stmt.isDefinition]), hwalk]
  rfl

/-- **A function that hands its argument on** to another one has its hits. -/
theorem summarize_handOn (line l : ℕ) (name : Str) {callee : Str} (hne : callee ≠ [])
    (hfree : ∀ sink ∈ sinks, callee ∉ sink.dotted) {hits : List Hit}
    (hsummary : (a.summaries callee = none ∧ hits = []) ∨
      a.summaries callee = some (passesOn callee hits)) :
    summarize a (oneCall line name (handOn l callee)) = passesOn name hits := by
  have hcallee : Sast.callee a (handOn l callee) = a.summaries callee := by
    have hdotted : dotted a (handOn l callee).func = some callee := dotted_name haliases l callee
    rw [Sast.callee, hdotted, Option.filter_some, if_pos (by simpa using hne), Option.bind_some]
  have hrecords : ((checkCall a (handOn l callee) (parameterEnv (oneCall line name
      (handOn l callee)))).filter fun r => r.taint.origin ≠ []).map
        (fun r => (r.taint.origin, Hit.mk r.sink r.line r.code)) = hits.map fun h => (['x'], h) := by
    rw [checkCall, directRecords_handOn haliases hfree, nil_append, interproceduralRecords,
      hcallee]
    rcases hsummary with ⟨hnone, rfl⟩ | hsome
    · rw [hnone]
      rfl
    · have hbound : bindArguments (passesOn callee hits) (handOn l callee) =
          [(['x'], .name l ['x'])] := rfl
      have hlive : ∀ cwe, live a (parameterEnv (oneCall line name (handOn l callee))) cwe
          (.name l ['x']) = some { sourceKind := .parameter, origin := ['x'] } := by
        intro cwe
        rw [live, taint_argument haliases, Option.filter_some]
        simp
      rw [hsome, Option.toList_some, flatMap_singleton, hbound, flatMap_singleton]
      dsimp only
      rw [passesOn, get_buckets]
      simp only [hlive, Option.map_some]
      rw [filterMap_eq_map', filter_eq_self.mpr (by simp), map_map]
      rfl
  unfold summarize
  rw [judged_oneCall line name (handOn l callee) _ rfl]
  dsimp only
  rw [recorded, flatMap_singleton, hrecords]
  rfl

end Evaluate

/-- `a` calls `b`, that calls `c`, and so on; `e` runs a shell command. -/
def chain : List Function :=
  [oneCall 1 ['a'] (handOn 2 ['b']), oneCall 3 ['b'] (handOn 4 ['c']),
    oneCall 5 ['c'] (handOn 6 ['d']), oneCall 7 ['d'] (handOn 8 ['e']),
    oneCall 9 ['e'] (runShell 10)]

/-- The chain with the callers first. -/
def callerFirst : File := fileOf chain

/-- The chain with the callees first. -/
def calleeFirst : File := fileOf chain.reverse

theorem names_chain : (callerFirst.definitions.map Function.name).Nodup := by
  have hnodup : [['a'], ['b'], ['c'], ['d'], ['e']].Nodup := by decide
  exact hnodup

theorem reordered_chain : Reordered callerFirst calleeFirst :=
  ⟨rfl, rfl, reverse_perm chain, rfl⟩

theorem functions_callerFirst : callerFirst.functions = chain := functions_eq names_chain

theorem functions_calleeFirst : calleeFirst.functions = chain.reverse :=
  functions_eq ((reverse_perm (chain.map Function.name)).nodup_iff.mpr names_chain)

def systemHits : List Hit :=
  (get (callerFirst.compute (fun _ => none) (oneCall 9 ['e'] (runShell 10))).paramSinks ['x']).getD []

theorem compute_last_none :
    callerFirst.compute (fun _ => none) (oneCall 9 ['e'] (runShell 10)) = passesOn ['e'] systemHits ∧
      systemHits ≠ [] := by
  refine ⟨?_, ?_⟩ <;> decide

/-- **The table of a chain**: every function has the hits that have reached it. -/
def IsChain (T : Summaries) (hits : Str → List Hit) : Prop :=
  T "os.system" = none ∧
    ∀ n, (T n = none ∧ hits n = []) ∨ T n = some (passesOn n (hits n))

section Tables
variable {T : Summaries} {hits : Str → List Hit} (h : IsChain T hits)

include h

theorem IsChain.refresh {f : Function} (hname : f.name.length = 1) {found : List Hit}
    (hvalue : callerFirst.compute T f = passesOn f.name found) :
    IsChain (refresh Function.name callerFirst.compute T f) (Function.update hits f.name found) := by
  have hne : "os.system" ≠ f.name := by
    intro heq
    rw [← heq] at hname
    revert hname
    decide
  refine ⟨?_, fun n => ?_⟩
  · rw [Order.refresh, Function.update_of_ne hne, h.1]
  · by_cases hn : n = f.name
    · subst hn
      rw [Order.refresh, hvalue, Function.update_self, Function.update_self]
      exact Or.inr rfl
    · rw [Order.refresh, Function.update_of_ne hn, Function.update_of_ne hn]
      exact h.2 n

theorem IsChain.refresh_handOn (line l : ℕ) (name callee : Str) (hname : name.length = 1)
    (hcallee : callee.length = 1) :
    IsChain (Order.refresh Function.name callerFirst.compute T (oneCall line name (handOn l callee)))
      (Function.update hits name (hits callee)) := by
  refine h.refresh (f := oneCall line name (handOn l callee)) hname ?_
  exact summarize_handOn (a := callerFirst.analyzer T) rfl line l name (by rintro rfl; cases hcallee)
    (fun sink hsink hd => length_catalog.1 sink hsink callee hd hcallee) (h.2 callee)

theorem IsChain.refresh_last :
    IsChain (Order.refresh Function.name callerFirst.compute T (oneCall 9 ['e'] (runShell 10)))
      (Function.update hits ['e'] systemHits) := by
  refine h.refresh (f := oneCall 9 ['e'] (runShell 10)) rfl (Eq.trans ?_ compute_last_none.1)
  refine summarize_congr (a := callerFirst.analyzer fun _ => none) (T := T) ?_
  intro c hc d hd
  obtain rfl := mem_singleton.mp hc
  rw [dotted_runShell rfl] at hd
  obtain rfl := Option.some.inj hd
  exact h.1.symm

theorem IsChain.pass_callerFirst :
    ∃ hits', IsChain (callerFirst.pass T) hits' ∧ hits' ['a'] = hits ['b'] ∧ hits' ['b'] = hits ['c'] ∧
      hits' ['c'] = hits ['d'] ∧ hits' ['d'] = hits ['e'] ∧ hits' ['e'] = systemHits := by
  have ha := h.refresh_handOn 1 2 ['a'] ['b'] rfl rfl
  have hb := ha.refresh_handOn 3 4 ['b'] ['c'] rfl rfl
  have hc := hb.refresh_handOn 5 6 ['c'] ['d'] rfl rfl
  have hd := hc.refresh_handOn 7 8 ['d'] ['e'] rfl rfl
  have hpass : callerFirst.pass T = sweep Function.name callerFirst.compute chain T := by
    rw [File.pass, functions_callerFirst]
  rw [hpass]
  exact ⟨_, hd.refresh_last, by simp [Function.update]⟩

theorem IsChain.pass_calleeFirst :
    ∃ hits', IsChain (calleeFirst.pass T) hits' ∧ hits' ['a'] = systemHits := by
  have hd := h.refresh_last.refresh_handOn 7 8 ['d'] ['e'] rfl rfl
  have hc := hd.refresh_handOn 5 6 ['c'] ['d'] rfl rfl
  have hb := hc.refresh_handOn 3 4 ['b'] ['c'] rfl rfl
  have ha := hb.refresh_handOn 1 2 ['a'] ['b'] rfl rfl
  have hpass : calleeFirst.pass T = sweep Function.name callerFirst.compute chain.reverse T := by
    rw [File.pass, functions_calleeFirst, reordered_chain.compute names_chain]
  rw [hpass]
  exact ⟨_, ha, by simp [Function.update]⟩

end Tables

theorem sameShape_of_hits {T T' : Summaries} {hits hits' : Str → List Hit} (h : IsChain T hits)
    (h' : IsChain T' hits') {f : Function} (hf : f ∈ callerFirst.functions) (hnone : hits f.name = [])
    (hsome : hits' f.name ≠ []) : callerFirst.sameShape T T' = false := by
  unfold File.sameShape
  rw [all_eq_false]
  refine ⟨f, hf, ?_⟩
  have hafter : T' f.name = some (passesOn f.name (hits' f.name)) :=
    (h'.2 f.name).resolve_left fun hn => hsome hn.2
  have hshape : (passesOn f.name []).shape ≠ (passesOn f.name (hits' f.name)).shape := by
    intro heq
    have hsinks := congrArg (fun s => s.sinks.length) heq
    simp only [FunctionSummary.shape, length_sortBy, length_map, passesOn,
      buckets_single _ hsome] at hsinks
    cases hsinks
  rw [hafter, decide_eq_true_eq]
  rcases h.2 f.name with ⟨hn, -⟩ | hn
  · rw [hn]
    simp
  · rw [hn, hnone]
    simpa using hshape

theorem isChain_empty : IsChain (fun _ => none) fun _ => [] := ⟨rfl, fun _ => Or.inl ⟨rfl, rfl⟩⟩

theorem callerFirst_hits :
    ∃ hits, IsChain callerFirst.summaries hits ∧ hits ['a'] = [] ∧ hits ['b'] = systemHits := by
  have hmem : ∀ f ∈ chain, f ∈ callerFirst.functions := by
    rw [functions_callerFirst]
    exact fun f hf => hf
  have hne := compute_last_none.2
  obtain ⟨h1, hT1, a1, b1, c1, d1, e1⟩ := isChain_empty.pass_callerFirst
  obtain ⟨h2, hT2, a2, b2, c2, d2, e2⟩ := hT1.pass_callerFirst
  obtain ⟨h3, hT3, a3, b3, c3, d3, e3⟩ := hT2.pass_callerFirst
  obtain ⟨h4, hT4, a4, b4, c4, d4, e4⟩ := hT3.pass_callerFirst
  have s1 := sameShape_of_hits isChain_empty hT1 (f := oneCall 9 ['e'] (runShell 10))
    (hmem _ (by simp [chain])) rfl (by rw [oneCall, e1]; exact hne)
  have s2 := sameShape_of_hits hT1 hT2 (f := oneCall 7 ['d'] (handOn 8 ['e']))
    (hmem _ (by simp [chain])) d1 (by rw [oneCall, d2, e1]; exact hne)
  have s3 := sameShape_of_hits hT2 hT3 (f := oneCall 5 ['c'] (handOn 6 ['d']))
    (hmem _ (by simp [chain])) (c2.trans d1) (by rw [oneCall, c3, d2, e1]; exact hne)
  refine ⟨h4, ?_, by rw [a4, b3, c2, d1], by rw [b4, c3, d2, e1]⟩
  unfold File.pass at s1 s2 s3 hT4
  rw [File.summaries, maxFixpointPasses, sweeps_succ s1, sweeps_succ s2, sweeps_succ s3, sweeps_one]
  exact hT4

theorem calleeFirst_hits :
    ∃ hits, IsChain calleeFirst.summaries hits ∧ hits ['a'] = systemHits := by
  obtain ⟨T, ⟨hits, hT⟩, hsummaries⟩ : ∃ T, (∃ hits, IsChain T hits) ∧
      sweeps Function.name calleeFirst.compute calleeFirst.sameShape calleeFirst.functions 4
        (fun _ => none) = sweep Function.name calleeFirst.compute calleeFirst.functions T :=
    exists_sweep ⟨_, isChain_empty⟩ (fun T ⟨hits, hT⟩ => (hT.pass_calleeFirst).imp fun _ h => h.1) 3
  rw [File.summaries, maxFixpointPasses, hsummaries]
  exact hT.pass_calleeFirst

/-! ### The fixpoint -/

section Fixpoint
variable {F : File} {level : Str → ℕ} (hnames : (F.definitions.map Function.name).Nodup)
  (hlayered : Layered Function.name F.compute level F.functions) (henough : F.Enough level)

include hnames hlayered henough

end Fixpoint

/-- `a` calls `e`, that runs a shell command. -/
def shortChain : List Function := [oneCall 1 ['a'] (handOn 2 ['e']), oneCall 9 ['e'] (runShell 10)]

end Guardian.Sast

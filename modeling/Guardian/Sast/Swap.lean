import Guardian.Sast.Join
import Guardian.Sast.Judged
import Guardian.Sast.Monotone

/-!
# Swapping the arms of an `if`

What is reported does not depend on the trace of a taint.  So two environments with the same taints,
up to their traces, lead to the same reports.  `exec_join` says when the arms of an `if` may be
swapped.
-/

namespace Guardian.Sast

open Python List

def Taint.face (t : Taint) : Taint := { t with steps := [] }

@[simp] theorem Taint.face_extend (t : Taint) (s : TraceStep) : (t.extend s).face = t.face := by
  unfold Taint.extend
  split_ifs <;> rfl

@[simp] theorem Taint.face_sanitize (t : Taint) (classes : Finset Cwe) :
    (t.sanitize classes).face = t.face.sanitize classes := rfl

@[simp] theorem Taint.face_face (t : Taint) : t.face.face = t.face := rfl

/-- **The same taints**, up to their traces. -/
def Same (env env' : Env) : Prop := ∀ x, (env x).map Taint.face = (env' x).map Taint.face

def Record.face (r : Record) : Record := { r with taint := r.taint.face }

section Face
variable {a : Analyzer}

theorem map_face_first (eval : Expr → Option Taint) (es : List Expr) :
    (first eval es).map Taint.face = first (fun e => (eval e).map Taint.face) es := by
  induction es with
  | nil => rfl
  | cons e es ih =>
    rw [first, first, findSome?_cons, findSome?_cons]
    cases eval e with
    | none => exact ih
    | some t => rfl

/-- The trace of the parts does not matter for a call. -/
theorem map_face_callTaint (eval : Expr → Option Taint) (c : Call) :
    (callTaint a eval c).map Taint.face =
      (callTaint a (fun e => (eval e).map Taint.face) c).map Taint.face := by
  unfold callTaint
  dsimp only
  rw [← map_face_first]
  cases sanitizerFor (dotted a c.func) with
  | some sanitizer => cases first eval c.allArgs <;> simp
  | none =>
    dsimp only
    split_ifs
    · cases (dotted a c.func).bind a.summaries with
      | none => rfl
      | some summary =>
        dsimp only
        induction bindArguments summary c with
        | nil => rfl
        | cons b bs ih =>
          rw [findSome?_cons, findSome?_cons]
          split_ifs
          · cases eval b.2 with
            | none => exact ih
            | some t => simp
          · exact ih
    · cases first eval c.allArgs <;> simp
    · cases c.func.method with
      | none => rfl
      | some method =>
        obtain ⟨receiver, attr⟩ := method
        dsimp only
        cases eval receiver with
        | some t => simp
        | none =>
          cases first eval c.allArgs with
          | none => rfl
          | some t =>
            simp only [Option.map_none, Option.map_some, Option.bind_some]
            split_ifs <;> simp

theorem map_face_partsTaint (eval : Expr → Option Taint) (env : Env) (e : Expr) :
    (partsTaint a eval env e).map Taint.face =
      (partsTaint a (fun e => (eval e).map Taint.face) (fun x => (env x).map Taint.face) e).map
        Taint.face := by
  have hidem : ∀ o : Option Taint, o.map Taint.face = (o.map Taint.face).map Taint.face := by
    intro o
    cases o <;> rfl
  have hfirst : ∀ es, (first eval es).map Taint.face =
      (first (fun e => (eval e).map Taint.face) es).map Taint.face := by
    intro es
    rw [← map_face_first, ← hidem]
  match e with
  | .call .. => exact map_face_callTaint _ _
  | .name .. | .attribute .. | .formattedValue .. | .starred _ | .await _ | .unaryOp _ =>
    exact hidem _
  | .compare .. | .constant _ | .other _ => rfl
  | .subscript .. | .binOp .. | .ifExp .. => exact hfirst _
  | .joinedStr _ | .list _ | .tuple _ | .set _ | .dict _ | .boolOp _ => exact hfirst _

variable {env env' : Env} (h : Same env env')

include h

/-- **The trace of the names does not matter** for an expression. -/
theorem map_face_taintOf (n : ℕ) (e : Expr) :
    (taintOf a n e env).map Taint.face = (taintOf a n e env').map Taint.face := by
  induction n generalizing e with
  | zero => rfl
  | succ n ih =>
    have heval : (fun e => (taintOf a n e env).map Taint.face) =
        fun e => (taintOf a n e env').map Taint.face := funext ih
    have henv : (fun x => (env x).map Taint.face) = fun x => (env' x).map Taint.face := funext h
    unfold taintOf
    cases sourceTaint a e with
    | some t => rfl
    | none =>
      rw [Option.none_or, Option.none_or, map_face_partsTaint, heval, henv, ← map_face_partsTaint]

theorem map_face_live (cwe : Cwe) (e : Expr) :
    (live a env cwe e).map Taint.face = (live a env' cwe e).map Taint.face := by
  have htaint := map_face_taintOf (a := a) h maxDepth e
  unfold live taint
  cases ht : taintOf a maxDepth e env with
  | none =>
    rw [ht, Option.map_none, eq_comm, Option.map_eq_none_iff] at htaint
    rw [htaint]
  | some t =>
    rw [ht, Option.map_some, eq_comm, Option.map_eq_some_iff] at htaint
    obtain ⟨t', ht', hface⟩ := htaint
    have hclasses : t'.face.neutralized = t.face.neutralized := by rw [hface]
    change t'.neutralized = t.neutralized at hclasses
    rw [ht', Option.filter_some, Option.filter_some, hclasses]
    split_ifs
    · rw [Option.map_some, Option.map_some, hface]
    · rfl

theorem map_face_directRecords (c : Call) :
    (directRecords a c env).map Record.face = (directRecords a c env').map Record.face := by
  unfold directRecords
  rw [map_filterMap, map_filterMap]
  refine filterMap_congr fun sink _ => ?_
  cases matchSink a c sink with
  | none => rfl
  | some confidence =>
    have hfound : ∀ es : List Expr, (es.findSome? (live a env sink.cwe)).map Taint.face =
        (es.findSome? (live a env' sink.cwe)).map Taint.face := by
      intro es
      have hone : (fun e => (live a env sink.cwe e).map Taint.face) =
          fun e => (live a env' sink.cwe e).map Taint.face := funext (map_face_live h sink.cwe)
      have h1 := map_face_first (live a env sink.cwe) es
      have h2 := map_face_first (live a env' sink.cwe) es
      rw [hone, ← h2] at h1
      exact h1
    have hface := hfound (dangerousExprs c sink)
    rw [Option.bind_some, Option.bind_some, Option.map_map, Option.map_map]
    revert hface
    cases (dangerousExprs c sink).findSome? (live a env sink.cwe) <;>
      cases (dangerousExprs c sink).findSome? (live a env' sink.cwe) <;>
      simp [Record.face]

theorem map_face_interproceduralRecords (c : Call) :
    (interproceduralRecords a c env).map Record.face =
      (interproceduralRecords a c env').map Record.face := by
  unfold interproceduralRecords
  rw [map_flatMap, map_flatMap]
  refine flatMap_congr fun summary _ => ?_
  rw [map_flatMap, map_flatMap]
  refine flatMap_congr fun b _ => ?_
  rw [map_filterMap, map_filterMap]
  refine filterMap_congr fun hit _ => ?_
  have hface := map_face_live (a := a) h hit.sink.cwe b.2
  revert hface
  cases live a env hit.sink.cwe b.2 <;> cases live a env' hit.sink.cwe b.2 <;> simp [Record.face]

theorem map_face_checkCall (c : Call) :
    (checkCall a c env).map Record.face = (checkCall a c env').map Record.face := by
  rw [checkCall, checkCall, map_append, map_append, map_face_directRecords h,
    map_face_interproceduralRecords h]

end Face

/-! ### Statements -/

section Statements
variable {a : Analyzer}

theorem Same.set {env env' : Env} (h : Same env env') {t t' : Taint} (ht : t.face = t'.face)
    (x : Str) : Same (env.set x t) (env'.set x t') := by
  intro y
  unfold Env.set
  split_ifs
  · rw [Option.map_some, Option.map_some, ht]
  · exact h y

theorem Same.pop {env env' : Env} (h : Same env env') (x : Str) : Same (env.pop x) (env'.pop x) := by
  intro y
  unfold Env.pop
  split_ifs
  · rfl
  · exact h y

section Bind
variable (line : ℕ) {t t' : Option Taint}

mutual

theorem same_bind (ht : t.map Taint.face = t'.map Taint.face) (target : Expr) {env env' : Env}
    (h : Same env env') :
    Same (bind a line t target env) (bind a line t' target env') := by
  match target with
  | .name _ id =>
    unfold bind
    cases t with
    | none =>
      obtain rfl : t' = none := by simpa [eq_comm] using ht
      exact h.pop id
    | some t =>
      obtain ⟨u, rfl, hu⟩ := Option.map_eq_some_iff.mp ht.symm
      exact h.set (by simp [hu]) id
  | .tuple elts | .list elts =>
    unfold bind
    exact same_bindAll ht elts h
  | .attribute l value attr =>
    unfold bind
    cases t with
    | none =>
      obtain rfl : t' = none := by simpa [eq_comm] using ht
      exact h
    | some t =>
      obtain ⟨u, rfl, hu⟩ := Option.map_eq_some_iff.mp ht.symm
      cases dotted a (.attribute l value attr) with
      | none => exact h
      | some name => exact h.set (by simp [hu]) name
  | .subscript .. | .call .. | .binOp .. | .joinedStr _ | .formattedValue .. | .set _ | .dict _
  | .boolOp _ | .ifExp .. | .starred _ | .await _ | .unaryOp _ | .compare .. | .constant _
  | .other _ => exact h

theorem same_bindAll (ht : t.map Taint.face = t'.map Taint.face) (targets : List Expr)
    {env env' : Env} (h : Same env env') :
    Same (bindAll a line t targets env) (bindAll a line t' targets env') := by
  match targets with
  | [] => exact h
  | target :: targets =>
    unfold bindAll
    exact same_bindAll ht targets (same_bind ht target h)

end

end Bind

theorem same_bindItems (line : ℕ) (items : List WithItem) {env env' : Env} (h : Same env env') :
    Same (bindItems a line items env) (bindItems a line items env') := by
  induction items generalizing env env' with
  | nil => exact h
  | cons item items ih =>
    unfold bindItems
    cases item.optionalVars with
    | none => exact ih h
    | some target =>
      exact ih (same_bind line (map_face_taintOf h maxDepth item.contextExpr) target h)

/-- **The traces of the names do not matter** for what statements bind. -/
theorem respected_same (a : Analyzer) : Respected a Same where
  assign line targets value _ _ h := same_bindAll line (map_face_taintOf h maxDepth value) targets h
  bind line target value _ _ h := same_bind line (map_face_taintOf h maxDepth value) target h
  augAssign line target value _ _ h := by
    refine same_bind line ?_ target h
    rw [Option.map_or, Option.map_or]
    exact congrArg₂ Option.or (map_face_taintOf h maxDepth target) (map_face_taintOf h maxDepth value)
  items line items _ _ h := same_bindItems line items h
  update env env' left left' right right' h hl hr x := by
    unfold Env.update
    rw [Option.map_or, Option.map_or, Option.map_or, Option.map_or, h x, hl x, hr x]

/-- What some judgements record, but for the traces. -/
def recordsOf (a : Analyzer) (l : List (Call × Env)) : List Record :=
  l.flatMap fun p => (checkCall a p.1 p.2).map Record.face

/-- The same is recorded, in some order. -/
def SameRecords (a : Analyzer) (l l' : List (Call × Env)) : Prop :=
  (recordsOf a l).Perm (recordsOf a l')

theorem appendable_sameRecords (a : Analyzer) : Appendable (SameRecords a) where
  nil := .nil
  append l l' m m' hl hm := by
    unfold SameRecords recordsOf
    rw [flatMap_append, flatMap_append]
    exact hl.append hm

theorem sameRecords_calls {env env' : Env} (h : Same env env') {cs cs' : List Call}
    (hcs : cs.Perm cs') :
    SameRecords a (cs.map fun c => (c, env)) (cs'.map fun c => (c, env')) := by
  have hperm : (cs.flatMap fun c => (checkCall a c env).map Record.face).Perm
      (cs'.flatMap fun c => (checkCall a c env).map Record.face) := hcs.flatMap_right _
  unfold SameRecords recordsOf
  rw [flatMap_map, flatMap_map]
  refine hperm.trans (Perm.of_eq ?_)
  exact flatMap_congr fun c _ => map_face_checkCall h c

theorem execStmt_same {run run' : List Stmt → Env → Run}
    (hrun : ∀ b env env', Same env env' → Run.Rel Same (SameRecords a) (run b env) (run' b env'))
    (s : Stmt) {env env' : Env} (h : Same env env') :
    Run.Rel Same (SameRecords a) (execStmt a run s env) (execStmt a run' s env') := by
  have hP := appendable_sameRecords a
  obtain ⟨henv, hrecords⟩ := effect_rel hP (respected_same a) hrun s h
  unfold execStmt
  split_ifs
  · exact ⟨h, hP.nil⟩
  · exact ⟨henv, hP.append _ _ _ _ (sameRecords_calls h (Perm.refl _)) hrecords⟩

theorem execBody_same (n : ℕ) (b : List Stmt) {env env' : Env} (h : Same env env') :
    Run.Rel Same (SameRecords a) (execBody a n b env) (execBody a n b env') := by
  induction n generalizing b env env' with
  | zero => exact ⟨h, Perm.refl _⟩
  | succ n ih =>
    exact runAll_rel (appendable_sameRecords a)
      (fun s _ _ h => execStmt_same (fun b _ _ h => ih b h) s h) b h

end Statements

/-! ### The arms of an `if` -/

/-- **The arms agree**: a name that is tainted after both has the same taint, up to its trace. -/
def ArmsAgree (left right : Env) : Prop :=
  ∀ x t t', left x = some t → right x = some t' → t.face = t'.face

/-- **The arms may be swapped** exactly when they agree. -/
theorem same_update_iff (env left right : Env) :
    Same ((env.update left).update right) ((env.update right).update left) ↔ ArmsAgree left right := by
  constructor
  · intro h x t t' ht ht'
    have hx := h x
    simp only [Env.update, ht, ht', Option.some_or, Option.map_some, Option.some.injEq] at hx
    exact hx.symm
  · intro h x
    unfold Env.update
    cases hleft : left x with
    | none => cases right x <;> rfl
    | some t =>
      cases hright : right x with
      | none => rfl
      | some t' =>
        rw [Option.some_or, Option.some_or, Option.map_some, Option.map_some, h x t t' hleft hright]

section Swap
variable {a : Analyzer}

theorem calls_swap (test : Expr) (body orelse : List Stmt) :
    (Stmt.ifStmt test body orelse).calls.Perm (Stmt.ifStmt test orelse body).calls := by
  have hnested : (Stmt.ifStmt test body orelse).nestedCalls.Perm
      (Stmt.ifStmt test orelse body).nestedCalls := perm_append_comm.flatMap_right _
  exact (calls_perm _).trans
    ((hnested.append_left _).trans (calls_perm (.ifStmt test orelse body)).symm)

/-- **Arms that agree may be swapped**: an `if`, and what follows it, record the same, and taint the
same names. -/
theorem execBody_swap (n : ℕ) (test : Expr) (body orelse rest : List Stmt) {env : Env}
    (h : ArmsAgree (execBody a n body env).env (execBody a n orelse env).env) :
    Run.Rel Same (SameRecords a) (execBody a (n + 1) (.ifStmt test body orelse :: rest) env)
      (execBody a (n + 1) (.ifStmt test orelse body :: rest) env) := by
  have hP := appendable_sameRecords a
  refine Run.Rel.then hP ?_ fun _ _ => execBody_same (n + 1) rest
  refine ⟨(same_update_iff env _ _).mpr h, ?_⟩
  refine hP.append _ _ _ _ (sameRecords_calls (fun _ => rfl) (calls_swap test body orelse)) ?_
  exact perm_append_comm.flatMap_right _

/-! ### Arms that are joined -/

theorem Below.set {env env' : Env} (h : Below env' env) {t t' : Taint}
    (ht : t.neutralized ⊆ t'.neutralized) (x : Str) : Below (env'.set x t') (env.set x t) := by
  intro y u hu
  unfold Env.set at hu ⊢
  split_ifs at hu ⊢ with hy
  · obtain rfl := Option.some.inj hu
    exact ⟨t, rfl, ht⟩
  · exact h y u hu

theorem Below.pop {env env' env'' : Env} (h : Below env' env) (x : Str)
    (hrest : ∀ y, y ≠ x → env'' y = env y) : Below (env'.pop x) env'' := by
  intro y u hu
  unfold Env.pop at hu
  split_ifs at hu with hy
  rw [hrest y hy]
  exact h y u hu

theorem Leaf.value_of_below {env env' : Env} (h : Below env' env) {l : Leaf} {N' : Finset Cwe}
    (hN' : l.value env' = some N') : ∃ N, l.value env = some N ∧ N ⊆ N' := by
  obtain ⟨name, classes⟩ := l
  cases name with
  | none => exact ⟨classes, rfl, (Option.some.inj hN').subset⟩
  | some x =>
    obtain ⟨t', ht', rfl⟩ := Option.map_eq_some_iff.mp hN'
    obtain ⟨t, ht, hsub⟩ := h x t' ht'
    exact ⟨t.neutralized ∪ classes, by simp [Leaf.value, ht], Finset.union_subset_union_left hsub⟩

theorem taint_of_below {env env' : Env} (h : Below env' env) {e : Expr}
    (he : (leaves a e).length ≤ 1) {t' : Taint} (ht' : taint a e env' = some t') :
    ∃ t, taint a e env = some t ∧ t.neutralized ⊆ t'.neutralized := by
  have hlow := neutralized_taintOf (a := a) maxDepth e env'
  have hhigh := neutralized_taintOf (a := a) maxDepth e env
  unfold taint at ht' ⊢
  rw [ht', Option.map_some] at hlow
  unfold leaves at he
  match hls : leavesOf a maxDepth e with
  | [] =>
    rw [hls] at hlow
    cases hlow
  | [leaf] =>
    rw [hls, findSome?_singleton] at hlow hhigh
    obtain ⟨N, hN, hsub⟩ := Leaf.value_of_below h hlow.symm
    rw [hN, Option.map_eq_some_iff] at hhigh
    obtain ⟨t, ht, rfl⟩ := hhigh
    exact ⟨t, ht, hsub⟩
  | _ :: _ :: _ =>
    rw [hls] at he
    simp at he

/-- **An assignment to a name keeps the order**, if the value has one leaf. -/
theorem keepsOrder_name (line l : ℕ) (id : Str) (value : Expr)
    (hvalue : (leaves a value).length ≤ 1) (env : Env) :
    KeepsOrder (fun e => bindAll a line (taint a value e) [.name l id] e) env := by
  intro env' h
  simp only [bindAll, bind]
  cases hlow : taint a value env' with
  | none =>
    refine h.pop id fun y hy => ?_
    cases taint a value env with
    | none => simp [Env.pop, hy]
    | some t => simp [Env.set, hy]
  | some t' =>
    obtain ⟨t, ht, hsub⟩ := taint_of_below h hvalue hlow
    rw [ht]
    exact h.set (by simpa using hsub) id

end Swap

theorem ArmsAgree.yields {left right : Env} (h : ArmsAgree left right) : Yields left right := by
  intro x t t' ht ht'
  have hface := congrArg Taint.neutralized (h x t t' ht ht')
  exact hface.symm.subset

theorem armsAgree_set {env : Env} {x : Str} {t t' : Taint} (h : t.face = t'.face) :
    ArmsAgree (env.set x t) (env.set x t') := by
  intro y u u' hu hu'
  unfold Env.set at hu hu'
  split_ifs at hu hu' with hy
  · obtain rfl := Option.some.inj hu
    obtain rfl := Option.some.inj hu'
    exact h
  · rw [hu] at hu'
    obtain rfl := Option.some.inj hu'
    rfl

/-- **When the environment after a statement is a join**: a run whose steps lose nothing ends above
the ends of all its control paths, and arms that agree may be swapped.  What this asks of the arms of
an `if` is exact: the first one is joined if the second one yields to it, and the order in which they
are taken does not matter if they agree. -/
theorem exec_join (a : Analyzer) :
    (∀ n body env, Safe a n body env (fun _ _ => True) → ∀ p, Path a body env .fell p →
      Below p (execBody a n body env).env) ∧
    (∀ n test body orelse rest env,
      ArmsAgree (execBody a n body env).env (execBody a n orelse env).env →
        SameRecords a (execBody a (n + 1) (.ifStmt test body orelse :: rest) env).judged
          (execBody a (n + 1) (.ifStmt test orelse body :: rest) env).judged) ∧
    (∀ n test body orelse env,
      (Below (execBody a n body env).env (execBody a (n + 1) [.ifStmt test body orelse] env).env ↔
        Yields (execBody a n body env).env (execBody a n orelse env).env) ∧
      (Same (execBody a (n + 1) [.ifStmt test body orelse] env).env
          (execBody a (n + 1) [.ifStmt test orelse body] env).env ↔
        ArmsAgree (execBody a n body env).env (execBody a n orelse env).env)) := by
  refine ⟨fun n body env hsafe p hp => ?_, fun n test body orelse rest env h => ?_,
    fun n test body orelse env => ⟨below_update_iff env _ _, same_update_iff env _ _⟩⟩
  · exact (path_bounded n (fun _ _ _ _ _ => trivial) hsafe (Below.refl env) hp).1 rfl
  · exact (execBody_swap n test body orelse rest h).2

/-- `command = argument`. -/
def takenOver : List Stmt := [.assign 4 [.name 4 "command"] (.name 4 "argument")]

/-- `command = str(argument)`. -/
def converted : List Stmt :=
  [.assign 6 [.name 6 "command"]
    (.call 6 (.name 6 "str") [.name 6 "argument"] [])]

/-- `os.system(command)`. -/
def runsCommand : List Stmt :=
  [.other [.call 7 (.attribute 7 (.name 7 "os") "system")
    [.name 7 "command"] []] []]

/-- The environment in which the argument is untrusted. -/
def untrustedArgument : Env := Env.empty.set "argument" rawTaint

theorem armsAgree_conversion :
    ArmsAgree (execBody plainAnalyzer 20 takenOver untrustedArgument).env
      (execBody plainAnalyzer 20 converted untrustedArgument).env := by
  have hleft : taint plainAnalyzer (.name 4 "argument") untrustedArgument = some rawTaint := by
    decide
  have hright : taint plainAnalyzer
      (.call 6 (.name 6 "str") [.name 6 "argument"] []) untrustedArgument =
        some (rawTaint.extend (step plainAnalyzer 6 .propagation)) := by
    decide
  change ArmsAgree (bindAll _ 4 (taint _ _ _) _ _) (bindAll _ 6 (taint _ _ _) _ _)
  rw [hleft, hright]
  exact armsAgree_set (by simp)

/-- An arm that takes a value over and one that converts it are joined, and may be swapped. -/
theorem exec_join_conversion :
    (∀ p, Path plainAnalyzer [.ifStmt (.name 3 "flag") takenOver converted] untrustedArgument
        .fell p →
      Below p (exec plainAnalyzer [.ifStmt (.name 3 "flag") takenOver converted]
        untrustedArgument).env) ∧
    SameRecords plainAnalyzer
      (exec plainAnalyzer (.ifStmt (.name 3 "flag") takenOver converted :: runsCommand)
        untrustedArgument).judged
      (exec plainAnalyzer (.ifStmt (.name 3 "flag") converted takenOver :: runsCommand)
        untrustedArgument).judged := by
  refine ⟨(exec_join plainAnalyzer).1 maxLevels _ _ ?_,
    (exec_join plainAnalyzer).2.1 20 _ _ _ _ _ armsAgree_conversion⟩
  have hleft := keepsOrder_name (a := plainAnalyzer) 4 4 "command"
    (.name 4 "argument") (by decide) untrustedArgument
  have hright := keepsOrder_name (a := plainAnalyzer) 6 6 "command"
    (.call 6 (.name 6 "str") [.name 6 "argument"] []) (by decide)
    untrustedArgument
  exact ⟨⟨trivial, ⟨⟨trivial, hleft⟩, trivial⟩, ⟨⟨trivial, hright⟩, trivial⟩,
    armsAgree_conversion.yields⟩, trivial⟩

/-- `command = shlex.quote(command)`. -/
def quoted : List Stmt :=
  [.assign 6 [.name 6 "command"]
    (.call 6 (.attribute 6 (.name 6 "shlex") "quote")
      [.name 6 "command"] [])]

/-- `pass`. -/
def passes : List Stmt := [.other [] []]

/-- **An arm that quotes the command hides the other one**: there is a path on which the command is
live, and the report depends on which of the arms comes first. -/
theorem quotedArm_not_joined :
    (∃ p, Path plainAnalyzer [.ifStmt (.name 3 "flag") passes quoted] untrustedCommand .fell p ∧
      ¬ Below p (exec plainAnalyzer [.ifStmt (.name 3 "flag") passes quoted]
        untrustedCommand).env) ∧
    ¬ SameRecords plainAnalyzer
      (exec plainAnalyzer (.ifStmt (.name 3 "flag") passes quoted :: runsCommand)
        untrustedCommand).judged
      (exec plainAnalyzer (.ifStmt (.name 3 "flag") quoted passes :: runsCommand)
        untrustedCommand).judged := by
  refine ⟨⟨untrustedCommand, ⟨2, ?_⟩, fun h => ?_⟩, fun h => ?_⟩
  · exact Or.inr ⟨untrustedCommand, Or.inr (Or.inl (Or.inr ⟨untrustedCommand, Or.inr ⟨rfl, rfl⟩,
      rfl, rfl⟩)), rfl, rfl⟩
  · have hafter : ((exec plainAnalyzer [.ifStmt (.name 3 "flag") passes quoted]
        untrustedCommand).env "command").any (Cwe.commandInjection ∈ ·.neutralized) := by
      decide
    obtain ⟨t, ht, hsub⟩ := h "command" rawTaint rfl
    rw [ht, Option.any_some, decide_eq_true_eq] at hafter
    simpa [rawTaint] using hsub hafter
  · have hlen := h.length_eq
    have hfirst : (recordsOf plainAnalyzer (exec plainAnalyzer
        (.ifStmt (.name 3 "flag") passes quoted :: runsCommand) untrustedCommand).judged).length
          = 0 := by decide
    have hsecond : (recordsOf plainAnalyzer (exec plainAnalyzer
        (.ifStmt (.name 3 "flag") quoted passes :: runsCommand) untrustedCommand).judged).length
          = 1 := by decide
    omega

end Guardian.Sast

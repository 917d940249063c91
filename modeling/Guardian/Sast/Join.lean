import Guardian.Sast.Paths

/-!
# Is the environment after a statement a join?

The environment after a statement should taint what is tainted at the end of some path, neutralised
only for what every path neutralises.  The second arm of an `if` overwrites what the first one left,
and the parts of a loop or a `try` are executed one after the other.
-/

namespace Guardian.Sast

open Python

/-- **The second arm yields to the first**: it has neutralised no name for more classes. -/
def Yields (left right : Env) : Prop :=
  ∀ x t t', left x = some t → right x = some t' → t'.neutralized ⊆ t.neutralized

theorem below_update_right (env right : Env) : Below right (env.update right) := by
  intro x t ht
  exact ⟨t, by simp [Env.update, ht], subset_rfl⟩

/-- **The first arm is joined** exactly when the second one yields to it. -/
theorem below_update_iff (env left right : Env) :
    Below left ((env.update left).update right) ↔ Yields left right := by
  constructor
  · intro h x t t' ht ht'
    obtain ⟨u, hu, hsub⟩ := h x t ht
    simp only [Env.update, ht', Option.some_or, Option.some.injEq] at hu
    rwa [hu]
  · intro h x t ht
    cases hright : right x with
    | none => exact ⟨t, by simp [Env.update, hright, ht], subset_rfl⟩
    | some t' => exact ⟨t', by simp [Env.update, hright], h x t t' ht hright⟩

/-- **A step keeps the order** of the environments below the one that it starts from. -/
def KeepsOrder (f : Env → Env) (env : Env) : Prop :=
  ∀ env', Below env' env → Below (f env') (f env)

section Safe
variable (a : Analyzer) (run : List Stmt → Env → Run)
  (safe : List Stmt → Env → Bound → Prop)

/-- The environments at the start of some handlers. -/
def handlerStarts : List Handler → Env → List Env
  | [], _ => []
  | h :: hs, env => env :: handlerStarts hs (run h.body env).env

/-- The handlers lose nothing up to the `finally` part. -/
def safeHandlers (last : Env) (Q : Bound) : List Handler → Env → Prop
  | [], _ => True
  | h :: hs, env => safe h.body env Q ∧ Below (run h.body env).env last ∧
      safeHandlers last Q hs (run h.body env).env

/-- The bound in the parts of a `try` before its `finally` part. -/
def Bound.inTry (last : Env) : Bound := fun _ env => Below env last

/-- The bound in the body of a `try`: an exception is handled by any handler. -/
def Bound.inBody (starts : List Env) (last : Env) : Bound
  | .raised, env => Below env last ∧ ∀ start ∈ starts, Below env start
  | _, env => Below env last

/-- **The steps of a statement lose nothing**, with what that means for the bodies in it. -/
def safeStmt (path : List Stmt → Env → Exit → Env → Prop) (s : Stmt) (env : Env) (Q : Bound) :
    Prop :=
  Q .raised env ∧
  match s with
  | .assign line targets value =>
    KeepsOrder (fun e => bindAll a line (taint a value e) targets e) env
  | .annAssign line target _ (some value) =>
    KeepsOrder (fun e => bind a line (taint a value e) target e) env
  | .augAssign line target value =>
    KeepsOrder (fun e => bind a line ((taint a target e).or (taint a value e)) target e) env
  | .returnStmt _ => Q .returned env
  | .breakStmt => Q .broke env
  | .continueStmt => Q .continued env
  | .forStmt line target iter body orelse =>
    let enter := fun e e' => bind a line (taint a iter e) target e'
    let head := (run body (enter env env)).env
    let after := (run orelse head).env
    Below env head ∧
      (∀ e e', Below e env → Below e' head → Below (enter e e') (enter env head)) ∧
      safe body (enter env head) (Q.inLoop head after) ∧
      Below (run body (enter env head)).env head ∧ safe orelse head Q
  | .whileStmt _ body orelse =>
    let head := env.update (run body env).env
    let after := head.update (run orelse env).env
    Below env head ∧ safe body head (Q.inLoop head after) ∧ Below (run body head).env head ∧
      safe orelse head Q ∧ Below (run orelse head).env after
  | .ifStmt _ body orelse =>
    safe body env Q ∧ safe orelse env Q ∧ Yields (run body env).env (run orelse env).env
  | .withStmt line items body =>
    KeepsOrder (bindItems a line items) env ∧ safe body (bindItems a line items env) Q
  | .tryStmt body handlers orelse finalbody =>
    let tried := (run body env).env
    let handled := (runAll (fun h => run h.body) handlers tried).env
    let last := (run orelse handled).env
    safe body env (Bound.inBody (handlerStarts run handlers tried) last) ∧
      safeHandlers run safe last (Bound.inTry last) handlers tried ∧
      Below tried handled ∧ safe orelse handled (Bound.inTry last) ∧ safe finalbody last Q ∧
      ∀ x e q, x ≠ .fell → Below e env → tryOutcome path body handlers orelse e x q →
        Q x (run finalbody last).env
  | .annAssign _ _ _ none | .raiseStmt _ | .functionDef .. | .classDef .. | .other .. => True

end Safe

/-- Statements one after the other, each of which loses nothing. -/
def safeBody (exec : Stmt → Env → Run) (safe : Stmt → Env → Bound → Prop) :
    List Stmt → Env → Bound → Prop
  | [], _, _ => True
  | s :: ss, env, Q => safe s env Q ∧ safeBody exec safe ss (exec s env).env Q

/-- **A run whose steps lose nothing**, with the number of levels that it still goes down. -/
def Safe (a : Analyzer) : ℕ → List Stmt → Env → Bound → Prop
  | 0, body, _, _ => body = []
  | n + 1, body, env, Q =>
    safeBody (execStmt a (execBody a n)) (safeStmt a (execBody a n) (Safe a n) (Path a)) body env Q

/-! ### Paths stay below the run -/

section Bounded
variable {a : Analyzer} {run : List Stmt → Env → Run} {safe : List Stmt → Env → Bound → Prop}
  {path : List Stmt → Env → Exit → Env → Prop}
  (hrun : ∀ body env Q, Q.Closed → safe body env Q → ∀ env' x p, Below env' env →
    path body env' x p → Bounded Q (run body env).env x p)

theorem inTry_closed (last : Env) : (Bound.inTry last).Closed :=
  fun _ _ _ hbelow h => hbelow.trans h

theorem inBody_closed (starts : List Env) (last : Env) : (Bound.inBody starts last).Closed := by
  intro x env env' hbelow h
  cases x with
  | raised => exact ⟨hbelow.trans h.1, fun start hstart => hbelow.trans (h.2 start hstart)⟩
  | fell | broke | continued | returned => exact hbelow.trans h

theorem exists_start {last : Env} {Q : Bound} {handlers : List Handler} {env : Env} {h : Handler}
    (hsafe : safeHandlers run safe last Q handlers env) (hmem : h ∈ handlers) :
    ∃ start ∈ handlerStarts run handlers env, safe h.body start Q ∧
      Below (run h.body start).env last := by
  induction handlers generalizing env with
  | nil => cases hmem
  | cons h' hs ih =>
    obtain ⟨hsafe', hlast, hrest⟩ := hsafe
    rcases List.mem_cons.mp hmem with rfl | hmem
    · exact ⟨env, List.mem_cons_self, hsafe', hlast⟩
    · obtain ⟨start, hstart, hh⟩ := ih hrest hmem
      exact ⟨start, List.mem_cons_of_mem _ hstart, hh⟩

include hrun

/-- What a `try` leaves to its `finally` part is below where that starts. -/
theorem tryOutcome_below {body orelse : List Stmt} {handlers : List Handler} {env tried handled : Env}
    {last : Env} (htried : (run body env).env = tried) (hlast : (run orelse handled).env = last)
    (hbody : safe body env (Bound.inBody (handlerStarts run handlers tried) last))
    (hhandlers : safeHandlers run safe last (Bound.inTry last) handlers tried)
    (hbelow : Below tried handled) (horelse : safe orelse handled (Bound.inTry last)) {env' q : Env}
    {y : Exit} (henv : Below env' env) (h : tryOutcome path body handlers orelse env' y q) :
    Below q last := by
  have hinner := fun x p => hrun body env _ (inBody_closed _ _) hbody env' x p henv
  have hend : ∀ {start} {b : List Stmt} {e : Env}, safe b start (Bound.inTry last) →
      Below (run b start).env last → Below e start → path b e y q → Below q last := by
    intro start b e hsafe hb he hp
    have hbounded := hrun b start _ (inTry_closed last) hsafe e y q he hp
    by_cases hy : y = .fell
    · exact (hbounded.1 hy).trans hb
    · exact hbounded.2 hy
  rcases h with ⟨r, hr, hq⟩ | ⟨r, hr, hq⟩ | ⟨⟨hfell, hraised⟩, hq⟩
  · have hr' := (hinner _ _ hr).1 rfl
    rw [htried] at hr'
    exact hend horelse (hlast ▸ Below.refl _) (hr'.trans hbelow) hq
  · obtain ⟨hlow, hstarts⟩ := (hinner _ _ hr).2 (by decide)
    rcases hq with ⟨-, rfl⟩ | ⟨handler, hmem, hq⟩
    · exact hlow
    · obtain ⟨start, hstart, hsafe, hb⟩ := exists_start hhandlers hmem
      exact hend hsafe hb (hstarts start hstart) hq
  · have hq' := (hinner _ _ hq).2 hfell
    cases y with
    | fell => exact absurd rfl hfell
    | raised => exact absurd rfl hraised
    | broke | continued | returned => exact hq'

/-- **A statement whose steps lose nothing** ends above its paths. -/
theorem stmtPath_bounded {s : Stmt} {env : Env} {Q : Bound} (hQ : Q.Closed)
    (hsafe : safeStmt a run safe path s env Q) {env' p : Env} {x : Exit} (henv : Below env' env)
    (hp : stmtPath a path s env' x p) : Bounded Q (execStmt a run s env).env x p := by
  obtain ⟨hraised, hsafe⟩ := hsafe
  rcases hp with ⟨rfl, rfl⟩ | hp
  · exact ⟨fun h => Exit.noConfusion h, fun _ => hQ _ _ _ henv hraised⟩
  have hfell : ∀ {env'' : Env}, x = .fell ∧ p = env' → Below env env'' → Bounded Q env'' x p := by
    rintro env'' ⟨rfl, rfl⟩ h
    exact ⟨fun _ => henv.trans h, fun h => absurd rfl h⟩
  have hkeeps : ∀ {f : Env → Env}, KeepsOrder f env → x = .fell ∧ p = f env' →
      Bounded Q (f env) x p := by
    rintro f hf ⟨rfl, rfl⟩
    exact ⟨fun _ => hf env' henv, fun h => absurd rfl h⟩
  have hleaves : ∀ {y : Exit} {env'' : Env}, y ≠ .fell → Q y env → x = y ∧ p = env' →
      Bounded Q env'' x p := by
    rintro y env'' hy hQy ⟨rfl, rfl⟩
    exact ⟨fun h => absurd h hy, fun _ => hQ _ _ _ henv hQy⟩
  match s with
  | .assign line targets value =>
    exact hkeeps (f := fun e => bindAll a line (taint a value e) targets e) hsafe hp
  | .annAssign line target _ (some value) =>
    exact hkeeps (f := fun e => bind a line (taint a value e) target e) hsafe hp
  | .augAssign line target value =>
    exact hkeeps (f := fun e => bind a line ((taint a target e).or (taint a value e)) target e)
      hsafe hp
  | .returnStmt _ => exact hleaves (by decide) hsafe hp
  | .breakStmt => exact hleaves (by decide) hsafe hp
  | .continueStmt => exact hleaves (by decide) hsafe hp
  | .raiseStmt _ => exact hleaves (by decide) hraised hp
  | .annAssign _ _ _ none | .functionDef .. | .classDef .. | .other .. =>
    exact hfell hp (Below.refl env)
  | .forStmt line target iter body orelse =>
    obtain ⟨hhead, henter, hbody, hround, horelse⟩ := hsafe
    refine loopPath_bounded (fun e y q he hq => ?_) hround (fun e y q he hq => ?_) hp
      (henv.trans hhead)
    · exact hrun _ _ _ (hQ.inLoop _ _) hbody _ _ _ (henter env' e henv he) hq
    · exact hrun _ _ _ hQ horelse _ _ _ he hq
  | .whileStmt _ body orelse =>
    obtain ⟨hhead, hbody, hround, horelse, hafter⟩ := hsafe
    refine loopPath_bounded (fun e y q he hq => ?_) hround (fun e y q he hq => ?_) hp
      (henv.trans hhead)
    · exact hrun _ _ _ (hQ.inLoop _ _) hbody _ _ _ he hq
    · have hlast := hrun _ _ _ hQ horelse _ _ _ he hq
      exact ⟨fun h => (hlast.1 h).trans hafter, hlast.2⟩
  | .ifStmt _ body orelse =>
    obtain ⟨hbody, horelse, hyields⟩ := hsafe
    rcases hp with hp | hp
    · have hleft := hrun _ _ _ hQ hbody _ _ _ henv hp
      exact ⟨fun h => (hleft.1 h).trans ((below_update_iff env _ _).mpr hyields), hleft.2⟩
    · have hright := hrun _ _ _ hQ horelse _ _ _ henv hp
      exact ⟨fun h => (hright.1 h).trans (below_update_right _ _), hright.2⟩
  | .withStmt .. => exact hrun _ _ _ hQ hsafe.2 _ _ _ (hsafe.1 env' henv) hp
  | .tryStmt body handlers orelse finalbody =>
    obtain ⟨hbody, hhandlers, hbelow, horelse, hfinal, hexits⟩ := hsafe
    obtain ⟨y, q, hq, hp⟩ := hp
    have hlast := tryOutcome_below hrun rfl rfl hbody hhandlers hbelow horelse henv hq
    rcases hp with ⟨rfl, hp⟩ | ⟨hx, hp⟩
    · have hend := (hrun _ _ _ hQ hfinal _ _ _ hlast hp).1 rfl
      exact ⟨fun _ => hend, fun hx => hQ _ _ _ hend (hexits x env' q hx henv hq)⟩
    · exact ⟨fun h => absurd h hx, (hrun _ _ _ hQ hfinal _ _ _ hlast hp).2⟩

end Bounded

/-- **A run whose steps lose nothing** ends above the paths from all environments below its own. -/
theorem path_bounded {a : Analyzer} (n : ℕ) {body : List Stmt} {env : Env} {Q : Bound} (hQ : Q.Closed)
    (hsafe : Safe a n body env Q) {env' p : Env} {x : Exit} (henv : Below env' env)
    (hp : Path a body env' x p) : Bounded Q (execBody a n body env).env x p := by
  induction n generalizing body env Q env' x p with
  | zero =>
    obtain rfl : body = [] := hsafe
    obtain ⟨rfl, rfl⟩ := hp.bodyPath
    exact ⟨fun _ => henv, fun h => absurd rfl h⟩
  | succ n ih =>
    have hbody := hp.bodyPath
    clear hp
    unfold execBody
    unfold Safe at hsafe
    induction body generalizing env env' with
    | nil =>
      obtain ⟨rfl, rfl⟩ := hbody
      exact ⟨fun _ => henv, fun h => absurd rfl h⟩
    | cons s ss ihss =>
      obtain ⟨hs, hss⟩ := hsafe
      have hstmt : ∀ {y q}, stmtPath a (Path a) s env' y q →
          Bounded Q (execStmt a (execBody a n) s env).env y q := by
        intro y q hp
        refine stmtPath_bounded ?_ hQ hs henv hp
        exact fun _ _ _ hQ hsafe _ _ _ => ih hQ hsafe
      rcases hbody with ⟨hx, hpath⟩ | ⟨q, hpath, hrest⟩
      · exact ⟨fun h => absurd h hx, (hstmt hpath).2⟩
      · exact ihss ((hstmt hpath).1 rfl) hrest hss

end Guardian.Sast

import Guardian.Transition.Run
import Guardian.Transition.Sessions
import Guardian.Triage.Record

/-!
# The writers of findings

Scans, tool dispatches and the matching of service versions file findings in sessions of their own.
A scan looks an issue up among the rows that it loaded when it began and those that it has filed
since; the matching asks the table; a tool dispatch files what it has found.  `one_row_of_run` gives
the runs in which an issue has one row.
-/

namespace Guardian.Triage.Writers

open Python Findings Transition List

/-! ### Writers -/

/-- The asset that a tool dispatch binds its findings to, and the scan as which it is recorded. -/
structure ToolTarget where
  tenantId : ℕ
  customerId : ℕ
  scanId : ℕ
  engineRunId : ℕ
  assetId : ℕ
  exposure : Str
  criticality : Str

/-- What the binders pass to `to_finding`. -/
def ToolTarget.context (target : ToolTarget) : Context where
  tenantId := target.tenantId
  customerId := target.customerId
  scanId := target.scanId
  engineRunId := target.engineRunId
  assetId := target.assetId
  exposure := target.exposure
  assetCriticality := target.criticality
  businessImpact := target.criticality
  source := "automated"

/-- What writes findings. -/
inductive Writer
  | scan (ctx : Context)
  | tool
  | service

/-- What a writer remembers: who it is, and which rows a scan knows, by their fingerprints. -/
structure Memory where
  writer : Writer
  known : Option (List (Str × ℕ))

/-- **The table of findings**, and the sessions of the writers. -/
abbrev Table := Shared Finding Memory

/-- A tenant, an asset and a fingerprint. -/
abbrev Issue := ℕ × ℕ × Str

/-- The issue that a row represents. -/
def issue (row : Finding) : Issue := (row.tenantId, row.assetId, row.fingerprint)

/-- The rows that a scan loads.  Of two rows with a fingerprint the dictionary keeps the last. -/
def knownRows (ctx : Context) (rows : List (ℕ × Finding)) : List (Str × ℕ) :=
  (rows.reverse.filter fun r => r.2.tenantId = ctx.tenantId ∧ r.2.assetId = ctx.assetId).map
    fun r => (r.2.fingerprint, r.1)

/-- What happens in a session. -/
inductive Act
  | start (writer : Writer)
  | load
  | observe (raw : RawFinding) (engineRunId : ℕ) (source : Str)
  | bind (raw : RawFinding) (target : ToolTarget)
  | matchService (raw : RawFinding) (target : ServiceTarget)
  | flush
  | commit
  | rollback

variable (digest : Json → Str)

def issueOf (raw : RawFinding) (ctx : Context) : Issue :=
  (ctx.tenantId, ctx.assetId, raw.fingerprint digest)

theorem issue_toFinding (raw : RawFinding) (ctx : Context) :
    issue (toFinding digest raw ctx) = issueOf digest raw ctx := rfl

theorem issue_mergeSighting (existing fresh : Finding) :
    issue (mergeSighting existing fresh) = issue existing := rfl

theorem issue_refreshMatch (existing : Finding) (raw : RawFinding) (target : ServiceTarget) :
    issue (refreshMatch existing raw target) = issue existing := rfl

/-- What `run_scan` does with a raw finding. -/
def observe (db : Table) (t : ℕ) (s : Session Finding Memory) (ctx : Context)
    (known : List (Str × ℕ)) (raw : RawFinding) : Table :=
  let finding := toFinding digest raw ctx
  match known.find? fun r => r.1 = finding.fingerprint with
  | none =>
    db.insert t s { s.memory with known := some ((finding.fingerprint, db.drawn) :: known) } finding
  | some (_, id) => db.update t s id fun prior => mergeSighting prior finding

/-- What `_bind_and_derive_findings_strict` and the other binders do with a raw finding. -/
def bind (db : Table) (t : ℕ) (s : Session Finding Memory) (raw : RawFinding)
    (target : ToolTarget) : Table :=
  db.insert t s s.memory (toFinding digest raw target.context)

/-- The row that the query of the service matching returns. -/
def matched (db : Table) (s : Session Finding Memory) (k : Issue) : Option (ℕ × Finding) :=
  (db.visible s).find? fun r => issue r.2 = k

/-- `_persist` of the service matching. -/
def persist (db : Table) (t : ℕ) (s : Session Finding Memory) (raw : RawFinding)
    (target : ServiceTarget) : Table :=
  match matched db s (issueOf digest raw target.context) with
  | some (id, _) => db.update t s id fun existing => refreshMatch existing raw target
  | none => db.insert t s s.memory (toFinding digest raw target.context)

/-- What happens in an open session. -/
def act (db : Table) (t : ℕ) (s : Session Finding Memory) : Act → Option Table
  | .start _ => none
  | .load =>
    match s.memory with
    | ⟨.scan ctx, none⟩ =>
      some (db.put t (some
        { s with memory := ⟨.scan ctx, some (knownRows ctx (db.visible s))⟩ }))
    | _ => none
  | .observe raw engineRunId source =>
    match s.memory with
    | ⟨.scan ctx, some known⟩ =>
      some (observe digest db t s { ctx with engineRunId, source } known raw)
    | _ => none
  | .bind raw target =>
    match s.memory.writer with
    | .tool => some (bind digest db t s raw target)
    | _ => none
  | .matchService raw target =>
    match s.memory.writer with
    | .service => some (persist digest db t s raw target)
    | _ => none
  | .flush => some (db.flush t s)
  | .commit => some (db.commit t s)
  | .rollback => some (db.put t none)

/-- **One step** of the writers: what happens in the session of a place. -/
def step (db : Table) (e : ℕ × Act) : Option Table :=
  match db.sessions e.1, e.2 with
  | some s, a => act digest db e.1 s a
  | none, .start writer => some (db.put e.1 (some (Session.opened ⟨writer, none⟩)))
  | none, _ => none

/-! ### What a step keeps -/

/-- **What a writer files as a new row is new**, as far as it does not check that itself.  A scan
has looked among the rows that it loaded and those that it has filed; the matching among those that
are committed and those that it has flushed; a tool nowhere. -/
def New (db : Table) (e : ℕ × Act) : Prop :=
  ∀ s, db.sessions e.1 = some s →
    match e.2 with
    | .observe raw _ _ =>
      ∀ ctx known, s.memory = ⟨.scan ctx, some known⟩ →
        raw.fingerprint digest ∉ known.map Prod.fst →
          issueOf digest raw ctx ∉ keysOf issue db.rows ∧
            db.Free issue e.1 (issueOf digest raw ctx)
    | .bind raw target =>
      issueOf digest raw target.context ∉ keysOf issue db.rows ∧
        issueOf digest raw target.context ∉ s.keys issue ∧
          db.Free issue e.1 (issueOf digest raw target.context)
    | .matchService raw target =>
      matched db s (issueOf digest raw target.context) = none →
        issueOf digest raw target.context ∉ insertedKeys issue s.pending ∧
          db.Free issue e.1 (issueOf digest raw target.context)
    | _ => True

/-- **A scan knows what it has filed.** -/
def Knows (s : Session Finding Memory) : Prop :=
  ∀ ctx, s.memory.writer = .scan ctx → ∀ k ∈ s.keys issue,
    ∃ known, s.memory.known = some known ∧ ∃ fingerprint ∈ known.map Prod.fst,
      k = (ctx.tenantId, ctx.assetId, fingerprint)

/-- **The invariant of the writers.** -/
structure Keyed (db : Table) : Prop where
  apart : Apart issue db
  knows : ∀ t s, db.sessions t = some s → Knows s

variable {digest} {db db' : Table} {t : ℕ} {s : Session Finding Memory}

theorem knows_put (h : ∀ t s, db.sessions t = some s → Knows s)
    {s : Option (Session Finding Memory)} (hs : ∀ s' ∈ s, Knows s') (t' : ℕ)
    (s' : Session Finding Memory) (hs' : (db.put t s).sessions t' = some s') : Knows s' := by
  by_cases ht : t' = t
  · subst ht
    rw [sessions_put_self] at hs'
    exact hs s' hs'
  · rw [sessions_put_of_ne ht] at hs'
    exact h t' s' hs'

theorem knows_of_keys {s' : Session Finding Memory} (h : Knows s) (hmemory : s'.memory = s.memory)
    (hkeys : s'.keys issue = s.keys issue) : Knows s' := by
  intro ctx hwriter k hk
  rw [hmemory] at hwriter ⊢
  rw [hkeys] at hk
  exact h ctx hwriter k hk

theorem knows_of_ne (h : ∀ ctx, s.memory.writer ≠ .scan ctx) : Knows s :=
  fun ctx hwriter => absurd hwriter (h ctx)

theorem keyed_update (h : Keyed db) (hs : db.sessions t = some s) (id : ℕ)
    {change : Finding → Finding} (hchange : ∀ r, issue (change r) = issue r) :
    Keyed (db.update t s id change) := by
  refine ⟨apart_update h.apart hs id hchange, knows_put h.knows ?_⟩
  intro s' hs'
  rw [← Option.some.inj hs']
  exact knows_of_keys (h.knows t s hs) rfl (keys_update id change)

variable {ctx : Context}

/-- **A row that is new**, and that its writer knows afterwards. -/
theorem keyed_insert (h : Keyed db) (hs : db.sessions t = some s) {raw : RawFinding}
    (hrows : issueOf digest raw ctx ∉ keysOf issue db.rows)
    (hown : issueOf digest raw ctx ∉ s.keys issue)
    (hfree : db.Free issue t (issueOf digest raw ctx)) {memory : Memory}
    (hknows : ∀ row, Knows
      { s with memory, pending := s.pending ++ [.insert row (toFinding digest raw ctx)] }) :
    Keyed (db.insert t s memory (toFinding digest raw ctx)) := by
  have hissue := issue_toFinding digest raw ctx
  rw [← hissue] at hrows hown hfree
  refine ⟨apart_insert h.apart hs hrows hown hfree memory, knows_put h.knows ?_⟩
  intro s' hs'
  rw [← Option.some.inj hs']
  exact hknows db.drawn

theorem knows_insert (h : Knows s) {known : List (Str × ℕ)}
    (hmemory : s.memory = ⟨.scan ctx, some known⟩) (raw : RawFinding) (engineRunId : ℕ)
    (source : Str) (id id' : ℕ) :
    Knows { s with
      memory := { s.memory with known := some ((raw.fingerprint digest, id) :: known) }
      pending := s.pending ++
        [.insert id' (toFinding digest raw { ctx with engineRunId, source })] } := by
  intro ctx' hwriter' k hk
  have hwriter : s.memory.writer = .scan ctx := by rw [hmemory]
  have hctx : ctx' = ctx := Writer.scan.inj (hwriter'.symm.trans hwriter)
  subst hctx
  rw [keys_insert] at hk
  refine ⟨_, rfl, ?_⟩
  rcases mem_append.mp hk with hk | hk
  · obtain ⟨known', hknown', fingerprint, hmem, heq⟩ := h ctx' hwriter k hk
    rw [hmemory] at hknown'
    cases hknown'
    exact ⟨fingerprint, mem_cons_of_mem _ hmem, heq⟩
  · exact ⟨raw.fingerprint digest, mem_cons_self, mem_singleton.mp hk⟩

/-- **A sighting by a scan.** -/
theorem keyed_observe (h : Keyed db) (hs : db.sessions t = some s)
    {known : List (Str × ℕ)} (hmemory : s.memory = ⟨.scan ctx, some known⟩) {raw : RawFinding}
    (engineRunId : ℕ) (source : Str)
    (hnew : raw.fingerprint digest ∉ known.map Prod.fst →
      issueOf digest raw ctx ∉ keysOf issue db.rows ∧ db.Free issue t (issueOf digest raw ctx)) :
    Keyed (observe digest db t s { ctx with engineRunId, source } known raw) := by
  unfold observe
  dsimp only
  split
  · rename_i hfind
    have hunknown : raw.fingerprint digest ∉ known.map Prod.fst := by
      rintro hmem
      obtain ⟨r, hr, hkey⟩ := mem_map.mp hmem
      exact find?_eq_none.mp hfind r hr (decide_eq_true hkey)
    obtain ⟨hrows, hfree⟩ := hnew hunknown
    have hrows : issueOf digest raw { ctx with engineRunId, source } ∉ keysOf issue db.rows := hrows
    have hown : issueOf digest raw ctx ∉ s.keys issue := by
      intro hmem
      have hwriter : s.memory.writer = .scan ctx := by rw [hmemory]
      obtain ⟨known', hknown', fingerprint, hfingerprint, heq⟩ := h.knows t s hs ctx hwriter _ hmem
      rw [hmemory] at hknown'
      cases hknown'
      have hsame : raw.fingerprint digest = fingerprint := congrArg (fun k => k.2.2) heq
      exact hunknown (hsame ▸ hfingerprint)
    exact keyed_insert h hs hrows hown hfree fun id =>
      knows_insert (h.knows t s hs) hmemory raw engineRunId source db.drawn id
  · exact keyed_update h hs _ fun r => issue_mergeSighting r _

theorem keyed_bind (h : Keyed db) (hs : db.sessions t = some s) (hwriter : s.memory.writer = .tool)
    {raw : RawFinding} {target : ToolTarget}
    (hrows : issueOf digest raw target.context ∉ keysOf issue db.rows)
    (hown : issueOf digest raw target.context ∉ s.keys issue)
    (hfree : db.Free issue t (issueOf digest raw target.context)) :
    Keyed (bind digest db t s raw target) :=
  keyed_insert h hs hrows hown hfree fun _ =>
    knows_of_ne fun _ hscan => nomatch hwriter.symm.trans hscan

/-- **A match of a service version**: what the query does not return is neither committed nor
flushed. -/
theorem keyed_persist (h : Keyed db) (hs : db.sessions t = some s)
    (hwriter : s.memory.writer = .service) {raw : RawFinding} {target : ServiceTarget}
    (hnew : matched db s (issueOf digest raw target.context) = none →
      issueOf digest raw target.context ∉ insertedKeys issue s.pending ∧
        db.Free issue t (issueOf digest raw target.context)) :
    Keyed (persist digest db t s raw target) := by
  unfold persist
  split
  · exact keyed_update h hs _ fun r => issue_refreshMatch r raw target
  · rename_i hmatched
    obtain ⟨hpending, hfree⟩ := hnew hmatched
    have hvisible : issueOf digest raw target.context ∉ keysOf issue (db.visible s) := by
      intro hmem
      obtain ⟨r, hr, hkey⟩ := mem_map.mp hmem
      exact find?_eq_none.mp hmatched r hr (decide_eq_true hkey)
    rw [keysOf_visible (h.apart.keeps t s hs), mem_append, not_or] at hvisible
    have hown : issueOf digest raw target.context ∉ s.keys issue := by
      unfold Session.keys Session.writes
      rw [insertedKeys_append, mem_append, not_or]
      exact ⟨hvisible.2, hpending⟩
    exact keyed_insert h hs hvisible.1 hown hfree fun _ =>
      knows_of_ne fun _ hscan => nomatch hwriter.symm.trans hscan

/-- **A scan loads the rows**: before it has loaded them it has filed none. -/
theorem keyed_load (h : Keyed db) (hs : db.sessions t = some s)
    (hmemory : s.memory = ⟨.scan ctx, none⟩) (known : Option (List (Str × ℕ))) :
    Keyed (db.put t (some { s with memory := ⟨.scan ctx, known⟩ })) := by
  refine ⟨apart_put h.apart hs rfl (h.apart.keeps t s hs), knows_put h.knows ?_⟩
  intro s' hs' ctx' hwriter k hk
  cases hs'
  have hscan : s.memory.writer = .scan ctx := by rw [hmemory]
  obtain ⟨known', hknown, -⟩ := h.knows t s hs ctx hscan k hk
  rw [hmemory] at hknown
  cases hknown

/-- **The step lemma.** -/
theorem keyed_step {e : ℕ × Act} (h : Keyed db) (hnew : New digest db e)
    (hstep : step digest db e = some db') : Keyed db' := by
  obtain ⟨t, a⟩ := e
  unfold step at hstep
  dsimp only at hstep
  rcases hs : db.sessions t with _ | s
  · rw [hs] at hstep
    cases a with
    | start writer =>
      cases hstep
      refine ⟨apart_begin h.apart t _, knows_put h.knows ?_⟩
      intro s' hs' ctx _ k hk
      cases hs'
      exact nomatch hk
    | _ => cases hstep
  · rw [hs] at hstep
    have hnew := hnew s hs
    cases a with
    | start writer => cases hstep
    | load =>
      simp only [act] at hstep
      split at hstep
      · rename_i ctx hmemory
        cases hstep
        exact keyed_load h hs hmemory _
      · cases hstep
    | observe raw engineRunId source =>
      simp only [act] at hstep
      split at hstep
      · rename_i ctx known hmemory
        cases hstep
        exact keyed_observe h hs hmemory engineRunId source (hnew ctx known hmemory)
      · cases hstep
    | bind raw target =>
      simp only [act] at hstep
      split at hstep
      · rename_i hwriter
        cases hstep
        obtain ⟨hrows, hown, hfree⟩ := hnew
        exact keyed_bind h hs hwriter hrows hown hfree
      · cases hstep
    | matchService raw target =>
      simp only [act] at hstep
      split at hstep
      · rename_i hwriter
        cases hstep
        exact keyed_persist h hs hwriter hnew
      · cases hstep
    | flush =>
      cases hstep
      refine ⟨apart_flush h.apart hs, knows_put h.knows ?_⟩
      intro s' hs'
      cases hs'
      exact knows_of_keys (h.knows t s hs) rfl keys_flush
    | commit =>
      cases hstep
      exact ⟨apart_commit h.apart hs, knows_put h.knows fun _ hs' => nomatch hs'⟩
    | rollback =>
      cases hstep
      exact ⟨apart_rollback h.apart t, knows_put h.knows fun _ hs' => nomatch hs'⟩

theorem keyed_empty : Keyed Shared.empty := ⟨apart_empty, fun _ _ h => nomatch h⟩

/-! ### Runs -/

/-- **An issue has one row at most** in every state of a run in which what each writer files as a
new row is new. -/
theorem one_row_of_run (h : Run (step digest) (New digest) Shared.empty db) :
    (keysOf issue db.rows).Nodup := by
  have hkeyed : Keyed db := h.invariant (fun hs hok he => keyed_step hs hok he) keyed_empty
  exact hkeyed.apart.rows

theorem mem_knownRows {rows : List (ℕ × Finding)} {fingerprint : Str} :
    fingerprint ∈ (knownRows ctx rows).map Prod.fst ↔
      (ctx.tenantId, ctx.assetId, fingerprint) ∈ keysOf issue rows := by
  simp only [knownRows, keysOf, issue, mem_map, mem_filter, mem_reverse,
    decide_eq_true_eq, Prod.mk.injEq]
  constructor
  · rintro ⟨_, ⟨r, ⟨hr, htenant, hasset⟩, rfl⟩, rfl⟩
    exact ⟨r, hr, htenant, hasset, rfl⟩
  · rintro ⟨r, hr, htenant, hasset, rfl⟩
    exact ⟨_, ⟨r, ⟨hr, htenant, hasset⟩, rfl⟩, rfl⟩

/-- **A scan that is alone** and knows all rows of its asset. -/
structure Alone (db : Table) (t : ℕ) (ctx : Context) : Prop where
  closed : ∀ t', t' ≠ t → db.sessions t' = none
  scan : ∃ s known, db.sessions t = some s ∧ s.memory = ⟨.scan ctx, some known⟩ ∧
    ∀ fingerprint, (ctx.tenantId, ctx.assetId, fingerprint) ∈ keysOf issue db.rows →
      fingerprint ∈ known.map Prod.fst

theorem new_of_alone (h : Alone db t ctx) (raw : RawFinding) (engineRunId : ℕ)
    (source : Str) : New digest db (t, .observe raw engineRunId source) := by
  intro s hs ctx' known hmemory hunknown
  obtain ⟨s', known', hs', hmemory', hall⟩ := h.scan
  have hsame : s = s' := Option.some.inj (hs.symm.trans hs')
  subst hsame
  rw [hmemory'] at hmemory
  cases hmemory
  refine ⟨fun hmem => hunknown (hall _ hmem), fun t' s' ht hs' => ?_⟩
  rw [h.closed t' ht] at hs'
  cases hs'

theorem alone_of_put (hclosed : ∀ t', t' ≠ t → db.sessions t' = none)
    {known : List (Str × ℕ)} (hrows : db'.rows = db.rows)
    (hsessions : db'.sessions = (db.put t (some s)).sessions)
    (hmemory : s.memory = ⟨.scan ctx, some known⟩)
    (hknown : ∀ fingerprint, (ctx.tenantId, ctx.assetId, fingerprint) ∈ keysOf issue db.rows →
      fingerprint ∈ known.map Prod.fst) : Alone db' t ctx := by
  refine ⟨fun t' ht => ?_, s, known, ?_, hmemory, ?_⟩
  · rw [hsessions, sessions_put_of_ne ht, hclosed t' ht]
  · rw [hsessions, sessions_put_self]
  · rwa [hrows]

variable (digest) in
/-- **A sighting of a scan that is alone.** -/
theorem alone_observe (h : Alone db t ctx) (raw : RawFinding) (engineRunId : ℕ) (source : Str) :
    ∃ db', step digest db (t, .observe raw engineRunId source) = some db' ∧ Alone db' t ctx := by
  obtain ⟨s, known, hs, hmemory, hall⟩ := h.scan
  refine ⟨observe digest db t s { ctx with engineRunId, source } known raw, ?_, ?_⟩
  · unfold step
    simp only [hs, act, hmemory]
  · unfold observe
    dsimp only
    split
    · have hscan : s.memory.writer = .scan ctx := by rw [hmemory]
      exact alone_of_put h.closed rfl rfl (congrArg₂ Memory.mk hscan rfl)
        fun fingerprint hmem => mem_cons_of_mem _ (hall fingerprint hmem)
    · exact alone_of_put h.closed rfl rfl hmemory hall

def sightingActs (t : ℕ) (sightings : List (RawFinding × ℕ × Str)) : List (ℕ × Act) :=
  sightings.map fun r => (t, .observe r.1 r.2.1 r.2.2)

variable (digest) in
theorem run_sightingActs {ctx : Context} (h : Alone db t ctx)
    (sightings : List (RawFinding × ℕ × Str)) :
    ∃ db', (sightingActs t sightings).foldlM (step digest) db = some db' ∧
      Run (step digest) (New digest) db db' ∧ Alone db' t ctx := by
  induction sightings generalizing db with
  | nil => exact ⟨db, rfl, .refl db, h⟩
  | cons r rs ih =>
    obtain ⟨mid, hstep, halone⟩ := alone_observe digest h r.1 r.2.1 r.2.2
    obtain ⟨db', hfold, hrun, hend⟩ := ih halone
    have hfirst : Run (step digest) (New digest) db mid :=
      .tail (.refl db) (new_of_alone h r.1 r.2.1 r.2.2) hstep
    refine ⟨db', ?_, hfirst.trans hrun, hend⟩
    rw [sightingActs, map_cons, foldlM_cons, hstep]
    exact hfold

/-- What a scan does, if nothing fails. -/
def scanActs (t : ℕ) (ctx : Context) (sightings : List (RawFinding × ℕ × Str)) : List (ℕ × Act) :=
  (t, .start (.scan ctx)) :: (t, .load) :: sightingActs t sightings ++ [(t, .commit)]

variable (digest) in
/-- **A scan that is alone** files what is new. -/
theorem run_scanActs (hclosed : ∀ t, db.sessions t = none) (t : ℕ) (ctx : Context)
    (sightings : List (RawFinding × ℕ × Str)) :
    ∃ db', (scanActs t ctx sightings).foldlM (step digest) db = some db' ∧
      Run (step digest) (New digest) db db' ∧ ∀ t, db'.sessions t = none := by
  let begun := db.put t (some (Session.opened ⟨.scan ctx, none⟩))
  let loaded := begun.put t (some (Session.opened ⟨.scan ctx, some (knownRows ctx db.rows)⟩))
  have hstart : step digest db (t, .start (.scan ctx)) = some begun := by
    unfold step
    simp only [hclosed t, begun]
  have hload : step digest begun (t, .load) = some loaded := by
    unfold step
    simp only [begun, sessions_put_self]
    rfl
  have halone : Alone loaded t ctx :=
    alone_of_put (fun t' ht => (sessions_put_of_ne ht _).trans (hclosed t')) rfl rfl rfl
      fun _ hmem => mem_knownRows.mpr hmem
  obtain ⟨done, hfold, hrun, hend⟩ := run_sightingActs digest halone sightings
  obtain ⟨s, known, hs, -, -⟩ := hend.scan
  have hcommit : step digest done (t, .commit) = some (done.commit t s) := by
    unfold step
    simp only [hs, act]
  have hfirst : Run (step digest) (New digest) db loaded :=
    .tail (.tail (.refl db) (fun _ _ => trivial) hstart) (fun _ _ => trivial) hload
  refine ⟨done.commit t s, ?_, (hfirst.trans hrun).tail (fun _ _ => trivial) hcommit, fun t' => ?_⟩
  · simp only [scanActs, cons_append, foldlM_cons, hstart, hload, foldlM_append,
      hfold, hcommit, Option.bind_eq_bind, Option.bind_some, foldlM_nil]
    rfl
  · by_cases ht : t' = t
    · subst ht
      exact sessions_put_self none
    · exact (sessions_put_of_ne ht none).trans (hend.closed t' ht)

def injectionDigest : Json → Str :=
  fun _ => "0d3f668512d7f9565b80950f1f675a2700f4537219f7bafe270c37dbc226fc86"

def scanned (scanId : ℕ) : List (ℕ × Act) :=
  scanActs 0 (scanOf scanId) [(injection, scanId, "automated")]

theorem rescanned : ∃ db, Run (step injectionDigest) (New injectionDigest) Shared.empty db ∧
    db.rows.map (fun r => r.2.scanId) = [2] ∧ (keysOf issue db.rows).Nodup := by
  have hempty : ∀ t, (Shared.empty : Table).sessions t = none := fun _ => rfl
  obtain ⟨db₁, hfold₁, hrun₁, hclosed₁⟩ := run_scanActs injectionDigest hempty 0 (scanOf 1)
    [(injection, 1, "automated")]
  obtain ⟨db₂, hfold₂, hrun₂, -⟩ := run_scanActs injectionDigest hclosed₁ 0 (scanOf 2)
    [(injection, 2, "automated")]
  have hrun := hrun₁.trans hrun₂
  have hrows : (((scanned 1 ++ scanned 2).foldlM (step injectionDigest) Shared.empty).map
      fun db => db.rows.map fun r => r.2.scanId) = some [2] := by rfl
  rw [foldlM_append, scanned, hfold₁] at hrows
  simp only [Option.bind_eq_bind, Option.bind_some, scanned, hfold₂, Option.map_some,
    Option.some.injEq] at hrows
  exact ⟨db₂, hrun, hrows, one_row_of_run hrun⟩

/-! ### A tool that is dispatched again -/

/-- What the DNS posture tool reports of a domain without an SPF record. -/
def spfMissing : RawFinding where
  engine := "dns_posture"
  title := "SPF record missing"
  category := "misconfig"
  description := ("No SPF record was observed, so senders cannot be validated. " ++
    "(domain example.test).").toList
  baseSeverity := .medium
  confidence := "high"
  cweId := some "CWE-290"
  owaspRef := none
  cveIds := []
  signals := ⟨none, none, false, none, false⟩
  location := [("endpoint", .str "example.test"),
    ("rule", .str "dns-spf-missing")]
  evidence := []
  references := []

def spfDigest : Json → Str :=
  fun _ => "3dd27a6b5f2a31822a53d193c07b53e3da57c701418fd162127ebf25dc800e95"

/-- A dispatch of the tool for the domain. -/
def dispatched (scanId : ℕ) : List (ℕ × Act) :=
  [(0, .start .tool), (0, .bind spfMissing
    { tenantId := 1
      customerId := 1
      scanId
      engineRunId := scanId
      assetId := 1
      exposure := "external"
      criticality := "medium" }), (0, .commit)]

/-- **A tool that is dispatched again** files its findings again. -/
theorem dispatched_twice : ¬ ∀ db, Run (step spfDigest) (fun _ _ => True) Shared.empty db →
    (keysOf issue db.rows).Nodup := by
  intro h
  have hkeys : (((dispatched 1 ++ dispatched 2).foldlM (step spfDigest) Shared.empty).map
      fun db => keysOf issue db.rows) =
        some (replicate 2 (1, 1, (spfDigest .null).take 32)) := by rfl
  rcases hfold : (dispatched 1 ++ dispatched 2).foldlM (step spfDigest) Shared.empty with _ | db
  · rw [hfold] at hkeys
    cases hkeys
  · rw [hfold, Option.map_some, Option.some.injEq] at hkeys
    have hnodup := h db (run_of_foldlM (fun _ _ => trivial) hfold)
    rw [hkeys] at hnodup
    exact absurd hnodup (by decide)

end Guardian.Triage.Writers

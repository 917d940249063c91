import Guardian.Intel.Feed
import Guardian.Transition.Run

/-!
# The watermark of a feed

A run of a feed is carried out if the database takes all that it writes: the rows of the advisories,
the record of the run and the state of the feed are one transaction.  Then the row of the feed says
how its calls ended.  What the database refuses takes the count of the failure down with it.
`recorded_of_accepted` is what the row says where it refuses nothing.
-/

namespace Guardian.Intel

open Python Guardian.Order Transition List
open Transition.UnitOfWork

variable (R : Runtime)

section Accepted

variable {R} {w : Call}

/-! ### What the database makes of it -/

/-- **Rows of advisories are taken** if their ids are new, and each of them once. -/
theorem writeAll_advisories {ws : List Write} (db : Database)
    (hstorable : ∀ write, w.storable write = true) (hadv : ∀ write ∈ ws, OfAdvisories write)
    (honce : (ws.filterMap insertedId).Nodup)
    (hnew : ∀ id ∈ ws.filterMap insertedId, id ∉ idsOf db.advisories) :
    ∃ d, Plan.writeAll (apply w) ws db = some d ∧ d.states = db.states := by
  induction ws generalizing db with
  | nil => exact ⟨db, rfl, rfl⟩
  | cons write ws ih =>
    rw [Plan.writeAll_cons]
    have hrest : ∀ v ∈ ws, OfAdvisories v := fun v hv => hadv v (mem_cons_of_mem _ hv)
    cases write with
    | insertAdvisory row =>
      have hids : (Write.insertAdvisory row :: ws).filterMap insertedId =
          row.externalId :: ws.filterMap insertedId := rfl
      rw [hids] at honce hnew
      have hrow : row.externalId ∉ idsOf db.advisories := hnew _ mem_cons_self
      have happly : apply w (.insertAdvisory row) db =
          some { db with advisories := db.advisories ++ [row] } := by
        rw [apply, if_pos (hstorable _)]
        exact if_neg hrow
      rw [happly, Option.bind_some]
      refine ih _ hrest (nodup_cons.mp honce).2 fun id hid hmem => ?_
      rw [idsOf, map_append, mem_append] at hmem
      rcases hmem with hmem | hmem
      · exact hnew id (mem_cons_of_mem _ hid) hmem
      · rw [mem_singleton.mp hmem] at hid
        exact (nodup_cons.mp honce).1 hid
    | updateAdvisory row =>
      have happly : apply w (.updateAdvisory row) db = some { db with
          advisories := db.advisories.map fun v =>
            if v.externalId = row.externalId then row else v } := by
        rw [apply, if_pos (hstorable _)]
      rw [happly, Option.bind_some]
      refine ih _ hrest honce fun id hid hmem => hnew id hid ?_
      obtain ⟨v, hv, rfl⟩ := mem_map.mp hmem
      obtain ⟨u, hu, rfl⟩ := mem_map.mp hv
      split_ifs with hkey
      · exact mem_map.mpr ⟨u, hu, hkey⟩
      · exact mem_map.mpr ⟨u, hu, rfl⟩
    | insertState state => exact absurd (hadv _ mem_cons_self) fun h => h
    | updateState state => exact absurd (hadv _ mem_cons_self) fun h => h
    | insertSync sync => exact absurd (hadv _ mem_cons_self) fun h => h
    | updateSync sync => exact absurd (hadv _ mem_cons_self) fun h => h

theorem stateOf_updateState {db : Database} (state : FeedState) {old : FeedState} {source : Str}
    (hstorable : ∀ write, w.storable write = true) (hsource : state.source = source)
    (h : db.stateOf source = some old) :
    ∃ d, apply w (.updateState state) db = some d ∧ d.stateOf source = some state ∧
      d.syncs = db.syncs ∧ d.advisories = db.advisories := by
  have happly : apply w (.updateState state) db = some { db with
      states := db.states.map fun s => if s.source = state.source then state else s } := by
    rw [apply, if_pos (hstorable _)]
  refine ⟨_, happly, ?_, rfl, rfl⟩
  unfold Database.stateOf at h ⊢
  rw [hsource]
  exact rowOf_overwrite hsource h

theorem stateOf_of_states {d db : Database} {source : Str} {state : FeedState}
    (hstates : d.states = db.states) (h : db.stateOf source = some state) :
    d.stateOf source = some state := by
  rw [Database.stateOf, hstates]
  exact h

theorem stateOf_updateSync (db : Database) (sync : FeedSync)
    (hstorable : ∀ write, w.storable write = true) :
    ∃ d, apply w (.updateSync sync) db = some d ∧ d.states = db.states := by
  have happly : apply w (.updateSync sync) db = some { db with
      syncs := db.syncs.map fun s =>
        if s.source = sync.source ∧ s.cursor = sync.cursor then sync else s } := by
    rw [apply, if_pos (hstorable _)]
  exact ⟨_, happly, rfl⟩

variable (w) in
/-- **The database refuses nothing of a run**: the lookups are answered, no constraint that is not a
key fails, the window of the run has not been started before, and no id that is new to the table is
ingested twice. -/
structure Accepted (source : Str) (db : Database) : Prop where
  looked : w.getState = .value ()
  answered : ∀ i, w.ingest i ≠ .refused
  storable : ∀ write, w.storable write = true
  started : ¬ db.HasSync source (db.window source w.now).1
  once : ∀ records, w.fetch (db.window source w.now).1 (db.window source w.now).2 = .ok records →
    (((ingested w 0 records).map (·.externalId)).filter (· ∉ idsOf db.advisories)).Nodup

/-- **What a run leaves in the row of its feed**, by how it ended. -/
def Leaves (window : ℤ × ℤ) (before after : FeedState) : Result → Prop
  | .completed .. => after.watermark = some window.2 ∧ after.consecutiveFailures = 0
  | .failed .. =>
    after.watermark = before.watermark ∧
      after.consecutiveFailures = before.consecutiveFailures + 1

theorem source_loaded (db : Database) (source : Str) : (db.loaded source).source = source := by
  unfold Database.loaded
  rcases h : db.stateOf source with _ | state
  · rfl
  · exact (of_rowOf h).2

theorem ends_getState {source : Str} {db : Database} (h : Accepted w source db) :
    ∃ d, Plan.Ends (apply w) (getState w inPlan source db) db (db.loaded source) d ∧
      d.stateOf source = some (db.loaded source) ∧ d.syncs = db.syncs ∧
      d.advisories = db.advisories := by
  have hcall : Plan.Ends (apply w) (inPlan.call w.getState : Plan Write Unit Str Unit) db () db :=
    Plan.ends_ofAnswer h.looked db
  unfold getState Database.loaded
  rcases hstate : db.stateOf source with _ | state
  · have hnone : source ∉ db.states.map (·.source) := by
      intro hmem
      obtain ⟨s, hs, hsource⟩ := mem_map.mp hmem
      exact find?_eq_none.mp hstate s hs (by simpa using hsource)
    have happly : apply w (.insertState (freshState source)) db =
        some { db with states := db.states ++ [freshState source] } := by
      rw [apply, if_pos (h.storable _)]
      exact if_neg hnone
    refine ⟨_, hcall.bind ((Plan.ends_write happly).bind (Plan.ends_pure _ _)), ?_, rfl, rfl⟩
    unfold Database.stateOf rowOf at hstate ⊢
    rw [find?_append, hstate]
    simp [freshState]
  · exact ⟨db, hcall.bind (Plan.ends_pure _ _), hstate, rfl, rfl⟩

/-- The record of the run and the row of the feed are taken, and the row is what was written. -/
theorem ends_record {source : Str} {d : Database} {old : FeedState} {window : ℤ × ℤ}
    (sync : FeedSync) (state : FeedState) (outcome : Result)
    (hstorable : ∀ write, w.storable write = true) (h : d.stateOf source = some old)
    (hsource : state.source = source) (hleaves : Leaves window old state outcome) :
    ∃ result d' after, Plan.Ends (N := Unit) (E := Str) (apply w)
        (do inPlan.add (.updateSync sync); inPlan.add (.updateState state); return outcome) d
        result d' ∧ d'.stateOf source = some after ∧ Leaves window old after result := by
  obtain ⟨d₁, h₁, hstates⟩ := stateOf_updateSync (w := w) d sync hstorable
  obtain ⟨d₂, h₂, hafter, -, -⟩ := stateOf_updateState (w := w) state hstorable hsource
    (stateOf_of_states hstates h)
  exact ⟨outcome, d₂, state,
    (Plan.ends_write h₁).bind ((Plan.ends_write h₂).bind (Plan.ends_pure _ _)), hafter, hleaves⟩

/-- **What follows the start of a window** is carried out, whatever the feed sends. -/
theorem ends_syncWindow {source : Str} {db d : Database} {state : FeedState} (sync : FeedSync)
    (h : Accepted w source db) (hsource : state.source = source)
    (hstate : d.stateOf source = some state) (hadvisories : d.advisories = db.advisories) :
    ∃ result d' after, Plan.Ends (apply w)
        (syncWindow R w inPlan state sync (db.window source w.now) db.advisories) d result d' ∧
      d'.stateOf source = some after ∧
      Leaves (db.window source w.now) state after result := by
  unfold syncWindow
  rcases hfetch : w.fetch (db.window source w.now).1 (db.window source w.now).2 with e | records
  · exact ends_record _ _ _ h.storable hstate (by exact hsource) (by exact ⟨rfl, rfl⟩)
  obtain ⟨hadv, hinserted, hanswer⟩ :=
    writes_upsertFrom (R := R) (w := w) 0 (⟨db.advisories, []⟩, ⟨0, 0⟩) records
  -- the records are taken before the outcome is written
  obtain ⟨d₁, hwrites, hstates⟩ := writeAll_advisories d h.storable hadv
    (by rw [hinserted]; exact h.once records hfetch)
    (by
      rw [hinserted, hadvisories]
      intro id hid
      simpa using (mem_filter.mp hid).2)
  have hstate₁ := stateOf_of_states hstates hstate
  obtain ⟨x, hx⟩ := Plan.exists_ends_attempt (hanswer h.answered) hwrites
  rcases x with e | counts
  all_goals
    refine Exists.imp (fun result => Exists.imp fun d' => Exists.imp fun after =>
      And.imp_left hx.bind) ?_
    exact ends_record _ _ _ h.storable hstate₁ (by exact hsource) (by exact ⟨rfl, rfl⟩)

/-- **A run that the database accepts** is carried out to its end, and leaves in the row of the feed
what it ended with. -/
theorem ends_program {source : Str} {db : Database} (h : Accepted w source db) :
    ∃ result d after, Plan.Ends (apply w) (planSource R w source db) db result d ∧
      d.stateOf source = some after ∧
      Leaves (db.window source w.now) (db.loaded source) after result := by
  obtain ⟨d₀, hload, hstate, hsyncs, hadvisories⟩ := ends_getState h
  let sync : FeedSync := ⟨source, (db.window source w.now).1, .running, w.now, none, 0, 0, none⟩
  let state := { db.loaded source with lastAttemptAt := some w.now }
  let opened : Database := { d₀ with syncs := d₀.syncs ++ [sync] }
  have hfree : ¬ d₀.HasSync source (db.window source w.now).1 := by
    unfold Database.HasSync
    rw [hsyncs]
    exact h.started
  have hinsert : apply w (.insertSync sync) d₀ = some opened := by
    rw [apply, if_pos (h.storable _)]
    exact if_neg hfree
  have hstate₀ : opened.stateOf source = some (db.loaded source) := hstate
  obtain ⟨d₁, hattempt, hstate₁, -, hadvisories₁⟩ := stateOf_updateState state h.storable
    (source_loaded db source) hstate₀
  have hsource : state.source = source := source_loaded db source
  obtain ⟨result, d, after, hends, hafter, hleaves⟩ :=
    ends_syncWindow (R := R) sync h hsource hstate₁ (hadvisories₁.trans hadvisories)
  refine ⟨result, d, after, hload.bind ((Plan.ends_write hinsert).bind
    ((Plan.ends_pure () _).bind ((Plan.ends_write hattempt).bind hends))), hafter, ?_⟩
  cases result <;> exact hleaves

/-- **A run that the database accepts** returns how it ended, and stores it. -/
theorem runSource_accepted {source : Str} {db : Database} (h : Accepted w source db) :
    ∃ result after, (runSource R w source db).1 = .ok result ∧
      (runSource R w source db).2.stored.stateOf source = some after ∧
      Leaves (db.window source w.now) (db.loaded source) after result := by
  obtain ⟨result, d, after, hends, hafter, hleaves⟩ := ends_program (R := R) h
  have hrun := scope_ends (follows_program (R := R) (w := w) source db)
    (holds_opened (apply w) db []) hends
  refine ⟨result, after, ?_, ?_, hleaves⟩
  · rw [runSource, hrun]
  · rw [runSource, hrun]
    exact hafter

end Accepted

/-! ### One run after the other -/

/-- How a call ended: a window of the feed is stored, or the run has failed. -/
inductive Outcome
  | success (since untilTime : ℤ)
  | failure
  deriving DecidableEq

/-- **A feed**: the database, and how the calls ended so far, the last one first. -/
structure History where
  db : Database
  outcomes : List Outcome

/-- How a call ends.  A run that does not complete has failed, whether it returns that or raises. -/
def outcome (w : Call) (source : Str) (db : Database) : Outcome :=
  match (runSource R w source db).1 with
  | .ok (.completed ..) => .success (db.window source w.now).1 (db.window source w.now).2
  | _ => .failure

/-- A call of `run_source` for the feed. -/
def step (source : Str) (feed : History) (w : Call) : Option History :=
  some ⟨(runSource R w source feed.db).2.stored, outcome R w source feed.db :: feed.outcomes⟩

/-- The windows that were stored. -/
def windows (outcomes : List Outcome) : List (ℤ × ℤ) :=
  outcomes.filterMap fun
    | .success since untilTime => some (since, untilTime)
    | .failure => none

/-- The failures since the last success. -/
def failuresSince (outcomes : List Outcome) : ℕ := (outcomes.takeWhile (· = .failure)).length

/-- **The row of a feed says how its calls ended**: the watermark is the end of the window that was
stored last, no instant from the start of the first one to the watermark is left out, and the
counter is that of the failures since. -/
structure Recorded (source : Str) (feed : History) : Prop where
  row : feed.outcomes ≠ [] → (feed.db.stateOf source).isSome
  watermark : (feed.db.loaded source).watermark = (windows feed.outcomes).head?.map (·.2)
  covered : ∀ first ∈ (windows feed.outcomes).getLast?,
    ∀ mark ∈ (feed.db.loaded source).watermark, ∀ t, first.1 ≤ t → t ≤ mark →
      ∃ x ∈ windows feed.outcomes, x.1 ≤ t ∧ t ≤ x.2
  failures : (feed.db.loaded source).consecutiveFailures = failuresSince feed.outcomes

variable {R} {source : Str} {feed : History}

/-- A call that the database accepts. -/
def Accepts (source : Str) (feed : History) (w : Call) : Prop := Accepted w source feed.db

theorem covered_cons {ws : List (ℤ × ℤ)} {since untilTime : ℤ}
    (hsince : ∀ x ∈ ws.head?, since ≤ x.2)
    (hcovered : ∀ first ∈ ws.getLast?, ∀ last ∈ ws.head?, ∀ t, first.1 ≤ t → t ≤ last.2 →
      ∃ x ∈ ws, x.1 ≤ t ∧ t ≤ x.2) {first : ℤ × ℤ}
    (hfirst : first ∈ ((since, untilTime) :: ws).getLast?) {t : ℤ} (hstart : first.1 ≤ t)
    (hend : t ≤ untilTime) : ∃ x ∈ (since, untilTime) :: ws, x.1 ≤ t ∧ t ≤ x.2 := by
  rcases ws with _ | ⟨last, ws⟩
  · cases hfirst
    exact ⟨_, mem_cons_self, hstart, hend⟩
  by_cases hlast : t ≤ last.2
  · obtain ⟨x, hx, ht⟩ := hcovered first hfirst last rfl t hstart hlast
    exact ⟨x, mem_cons_of_mem _ hx, ht⟩
  · have hle := hsince last rfl
    exact ⟨_, mem_cons_self, by dsimp only; omega, hend⟩

/-- **A call that the database accepts** keeps the row of the feed. -/
theorem recorded_step {w : Call} {next : History} (h : Recorded source feed)
    (hok : Accepts source feed w) (hstep : step R source feed w = some next) :
    Recorded source next := by
  cases hstep
  obtain ⟨result, after, hreturn, hafter, hleaves⟩ := runSource_accepted (R := R) hok
  have hloaded : Database.loaded (runSource R w source feed.db).2.stored source = after := by
    rw [Database.loaded, hafter]
    rfl
  have hrow : ((runSource R w source feed.db).2.stored.stateOf source).isSome := by
    rw [hafter]
    rfl
  rcases result with ⟨seen, created, updated⟩ | ⟨error, failures⟩
  · obtain ⟨hmark, hcount⟩ := hleaves
    have houtcome : outcome R w source feed.db =
        .success (feed.db.window source w.now).1 (feed.db.window source w.now).2 := by
      rw [outcome, hreturn]
    refine ⟨fun _ => hrow, ?_, ?_, ?_⟩
    · rw [hloaded, hmark, houtcome]
      rfl
    · rw [hloaded, hmark, houtcome]
      intro first hfirst mark hin t hstart hend
      cases hin
      refine covered_cons (fun x hx => ?_) (fun first hfirst last hlast => ?_) hfirst hstart hend
      · have hold : (feed.db.loaded source).watermark = some x.2 := by
          rw [h.watermark, show (windows feed.outcomes).head? = some x from hx]
          rfl
        have hpos : 0 ≤ overlap := by decide
        rw [Database.window, windowFor, hold]
        dsimp only
        omega
      · refine h.covered first hfirst last.2 ?_
        rw [h.watermark, show (windows feed.outcomes).head? = some last from hlast]
        rfl
    · rw [hloaded, hcount, houtcome]
      rfl
  · obtain ⟨hmark, hcount⟩ := hleaves
    have houtcome : outcome R w source feed.db = .failure := by
      rw [outcome, hreturn]
    refine ⟨fun _ => hrow, ?_, ?_, ?_⟩
    · rw [hloaded, hmark, houtcome]
      exact h.watermark
    · rw [hloaded, hmark, houtcome]
      exact h.covered
    · rw [hloaded, hcount, houtcome, h.failures]
      rfl

/-- **A feed that has not been synced**: it has no row. -/
def unsynced (db : Database) : History := ⟨db, []⟩

theorem recorded_unsynced {db : Database} (h : db.stateOf source = none) :
    Recorded source (unsynced db) := by
  have hloaded : (unsynced db).db.loaded source = freshState source := by
    rw [Database.loaded]
    exact congrArg (·.getD (freshState source)) h
  refine ⟨fun hne => absurd rfl hne, ?_, fun _ hfirst => (by cases hfirst), ?_⟩
  · rw [hloaded]
    rfl
  · rw [hloaded]
    rfl

/-- **In every run of calls that the database accepts** the row of the feed says how they ended. -/
theorem recorded_of_accepted {db : Database} (h : db.stateOf source = none)
    (hrun : Run (step R source) (Accepts source) (unsynced db) feed) : Recorded source feed :=
  hrun.invariant (fun hrec hok hstep => recorded_step hrec hok hstep) (recorded_unsynced h)

/-- A vulnerability as a feed sends it. -/
def sampleVuln : NormalizedVuln :=
  ⟨"CVE-2024-1", "nvd", [], [], [], none, none, none, [], [], [], none, none⟩

/-- A feed that answers at an instant with that record, or cannot be reached. -/
def callAt (now : ℤ) (reached : Bool) : Call where
  now := now
  fetch := fun _ _ => if reached then .ok [sampleVuln] else .error "FeedError: 503"
  finished := now
  getState := .value ()
  ingest := fun _ => .value ()
  databaseError := []
  storable := fun _ => true

/-- The tables before the first sync. -/
def noRows : Database := ⟨[], [], []⟩

/-- What calls one after the other make of a feed that has not been synced. -/
def called (source : Str) (calls : List Call) : History :=
  calls.foldl (fun feed w => ⟨(runSource .ascii w source feed.db).2.stored,
    outcome .ascii w source feed.db :: feed.outcomes⟩) (unsynced noRows)

theorem run_called (source : Str) (calls : List Call) :
    Run (step .ascii source) (fun _ _ => True) (unsynced noRows) (called source calls) := by
  have hfold : ∀ feed, calls.foldlM (step .ascii source) feed =
      some (calls.foldl (fun feed w => ⟨(runSource .ascii w source feed.db).2.stored,
        outcome .ascii w source feed.db :: feed.outcomes⟩) feed) := by
    induction calls with
    | nil => exact fun _ => rfl
    | cons w calls ih => exact fun _ => ih _
  exact run_of_foldlM (fun _ _ => trivial) (hfold _)

/-- The database accepts such a call if its window has not been started before. -/
theorem accepts_callAt {now : ℤ} {reached : Bool}
    (hstarted : ¬ feed.db.HasSync "nvd" (feed.db.window "nvd" now).1) :
    Accepts "nvd" feed (callAt now reached) := by
  refine ⟨rfl, fun _ h => (by cases h), fun _ => rfl, hstarted, fun records hfetch => ?_⟩
  cases reached with
  | true =>
    cases hfetch
    exact (nodup_singleton _).filter _
  | false => cases hfetch

/-- A failure before the first sync, two syncs that bring the same record, and a failure a day
later. -/
def sampleCalls : List Call :=
  [callAt 0 false, callAt 1 true, callAt 86400000000 true, callAt 86400000001 false]

/-- Each of these calls starts a window of its own. -/
theorem recorded_after_success : Recorded "nvd" (called "nvd" sampleCalls) := by
  have hfirst : Run (step .ascii "nvd") (Accepts "nvd") (unsynced noRows)
      (called "nvd" (sampleCalls.take 2)) :=
    .tail (.tail (.refl _) (accepts_callAt (by decide)) rfl)
      (accepts_callAt (by decide)) rfl
  have hthird : Accepts "nvd" (called "nvd" (sampleCalls.take 2))
      (callAt 86400000000 true) := accepts_callAt (by decide)
  have hfourth : Accepts "nvd" (called "nvd" (sampleCalls.take 3))
      (callAt 86400000001 false) := accepts_callAt (by decide)
  exact recorded_of_accepted rfl (.tail (.tail hfirst hthird rfl) hfourth rfl)

/-- **The second failure after a success is not counted**: its window has the start of the first
one's, and the database refuses it. -/
theorem second_failure_lost : ¬ ∀ feed,
    Run (step .ascii "nvd") (fun _ _ => True) (unsynced noRows) feed →
      Recorded "nvd" feed := by
  intro h
  have hrec := h _ (run_called "nvd"
    [callAt 0 true, callAt 1 false, callAt 2 false])
  have hfailures := hrec.failures
  revert hfailures
  decide

end Guardian.Intel

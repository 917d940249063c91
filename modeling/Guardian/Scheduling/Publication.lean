import Guardian.Scheduling.Sweep
import Guardian.Transition.Run

/-!
# Runs that are published before they are committed

A sweep publishes the message of a run in the transaction that inserts its row.  A worker that looks
before the commit finds no row, and its message is gone; recovery sends scans again, and no
discovery runs.  `kept_of_committed_first` gives the runs in which no message is lost.
-/

namespace Guardian.Scheduling

open Python Transition Guardian.Order List
open Transition.UnitOfWork

/-! ### A dispatch -/

/-- **A dispatch publishes before its row is stored**: when its message is with the broker, the
database has still what it had. -/
theorem published_before_stored {w : World} {db : Database} {schedule : Schedule} {now : ℤ}
    {s : UnitOfWork Database Write (List Entry)} (h : Holds (apply w) db s) {task : Str} {row : Row}
    (hq : Enqueues w db schedule task row) :
    Verdict.entry schedule now (.queued task row) ∈ (dispatch w schedule now s).2.outside ∧
      (dispatch w schedule now s).2.stored = s.stored := by
  refine ⟨?_, keeps_dispatch.stored s⟩
  have hfate := fate_dispatch schedule now h
  rw [show verdict w db schedule = .queued task row from hq] at hfate
  rcases hrun : dispatch w schedule now s with ⟨r, t⟩
  rw [hrun] at hfate
  obtain ⟨-, -, hout⟩ := hfate
  change _ ∈ t.outside
  rw [hout]
  exact mem_append_right _ (mem_singleton_self _)

namespace Publication

/-! ### Sweeps, broker and workers -/

/-- What a row stands for. -/
inductive Kind
  | scan | discovery
  deriving DecidableEq

/-- `running` is a claim; that of a scan is committed with the end of the scan, and until then the
others read `queued`. -/
inductive RunState
  | queued | running | ended
  deriving DecidableEq

/-- A row of `scans` or `discovery_runs`. -/
structure Run where
  kind : Kind
  state : RunState
  deriving DecidableEq

/-- **The rows** that are committed, the rows that the transaction of a sweep has inserted, the
messages that are with the broker, and the runs that a worker has claimed. -/
structure State where
  rows : ℕ → Option Run
  inserted : ℕ → Option (ℕ × Kind)
  messages : List ℕ
  claimed : ℕ → Bool

/-- What happens.  A sweep inserts a run and publishes it, or fails to publish it; it commits, or
rolls back.  A worker looks for the run of a message; it dies, raises, or ends the run.  The broker
delivers a message again, and recovery sends one again for a scan that is queued. -/
inductive Event
  | publish (sweep run : ℕ) (kind : Kind)
  | publishFails (sweep run : ℕ) (kind : Kind)
  | commit (sweep : ℕ)
  | rollback (sweep : ℕ)
  | look (run : ℕ)
  | die (run : ℕ)
  | raise (run : ℕ)
  | finish (run : ℕ)
  | redeliver (run : ℕ)
  | recover (run : ℕ)

namespace State

variable (s : State)

def Unused (r : ℕ) : Prop := s.rows r = none ∧ s.inserted r = none

instance (r : ℕ) : Decidable (s.Unused r) := by
  unfold Unused
  infer_instance

/-- A sweep inserts a row, which others do not see. -/
def insert (t r : ℕ) (kind : Kind) : State :=
  { s with inserted := Function.update s.inserted r (some (t, kind)) }

/-- The rows of a sweep become visible, all of them queued. -/
def commit (t : ℕ) : State :=
  { s with
    rows := fun r =>
      match s.inserted r with
      | some (t', kind) => if t' = t then some ⟨kind, .queued⟩ else s.rows r
      | none => s.rows r
    inserted := fun r => if (s.inserted r).map Prod.fst = some t then none else s.inserted r }

/-- The rows of a sweep are gone. -/
def rollback (t : ℕ) : State :=
  { s with
    inserted := fun r => if (s.inserted r).map Prod.fst = some t then none else s.inserted r }

def put (r : ℕ) (kind : Kind) (state : RunState) : State :=
  { s with rows := Function.update s.rows r (some ⟨kind, state⟩) }

/-- **What a worker does with a message**: `run_scan` claims a scan that is queued, `run_discovery`
takes up any run, and both return when there is no row; the message is used up. -/
def look (r : ℕ) : State :=
  let s := { s with messages := s.messages.erase r }
  match s.rows r with
  | none => s
  | some ⟨.scan, .queued⟩ =>
    { s.put r .scan .running with claimed := Function.update s.claimed r true }
  | some ⟨.scan, _⟩ => s
  | some ⟨.discovery, _⟩ =>
    { s.put r .discovery .running with claimed := Function.update s.claimed r true }

/-- **One step.** -/
def step : Event → Option State
  | .publish t r kind =>
    if s.Unused r then some { s.insert t r kind with messages := s.messages ++ [r] } else none
  | .publishFails t r kind => if s.Unused r then some (s.insert t r kind) else none
  | .commit t => some (s.commit t)
  | .rollback t => some (s.rollback t)
  | .look r => if r ∈ s.messages then some (s.look r) else none
  | .die r =>
    -- the broker takes back what a lost worker has not acknowledged
    match s.rows r with
    | some ⟨.scan, .running⟩ => some { s.put r .scan .queued with messages := s.messages ++ [r] }
    | some ⟨.discovery, .running⟩ => some { s with messages := s.messages ++ [r] }
    | _ => none
  | .raise r =>
    -- the claim of a scan is rolled back, and its message is acknowledged
    match s.rows r with
    | some ⟨.scan, .running⟩ => some (s.put r .scan .queued)
    | some ⟨.discovery, .running⟩ => some s
    | _ => none
  | .finish r =>
    match s.rows r with
    | some ⟨kind, .running⟩ => some (s.put r kind .ended)
    | _ => none
  | .redeliver r => some { s with messages := s.messages ++ [r] }
  | .recover r =>
    if s.rows r = some ⟨.scan, .queued⟩ then some { s with messages := s.messages ++ [r] } else none

end State

/-- Nothing has happened. -/
def State.initial : State where
  rows := fun _ => none
  inserted := fun _ => none
  messages := []
  claimed := fun _ => false

/-- **No run is dropped**: what is committed as queued was claimed by a worker that found its row,
or its message is pending. -/
def Kept (s : State) : Prop :=
  ∀ r kind, s.rows r = some ⟨kind, .queued⟩ → s.claimed r = true ∨ r ∈ s.messages

/-- **A worker looks for committed rows only**, and every row that is inserted is published. -/
def CommittedFirst (s : State) : Event → Prop
  | .look r => s.inserted r = none
  | .publishFails _ _ _ => False
  | _ => True

instance (s : State) (e : Event) : Decidable (CommittedFirst s e) := by
  unfold CommittedFirst
  split <;> infer_instance

/-! ### What every step keeps -/

/-- **The invariant**: the message of a row that is inserted is pending, and what is running was
claimed. -/
structure Inv (s : State) : Prop where
  kept : Kept s
  pending : ∀ r, s.inserted r ≠ none → r ∈ s.messages
  running : ∀ r kind, s.rows r = some ⟨kind, .running⟩ → s.claimed r = true

theorem inv_initial : Inv State.initial :=
  ⟨fun _ _ h => (by cases h), fun _ h => absurd rfl h, fun _ _ h => (by cases h)⟩

section Steps

variable {s : State} {r t : ℕ} {kind : Kind}

theorem inv_send (h : Inv s) (r : ℕ) : Inv { s with messages := s.messages ++ [r] } :=
  ⟨fun k kind hk => (h.kept k kind hk).imp_right fun hm => mem_append_left _ hm,
    fun k hk => mem_append_left _ (h.pending k hk), h.running⟩

theorem inv_publish (h : Inv s) : Inv { s.insert t r kind with messages := s.messages ++ [r] } := by
  refine ⟨(inv_send h r).kept, fun k hk => ?_, h.running⟩
  by_cases hkr : k = r
  · rw [hkr]
    exact mem_append_right _ (mem_singleton_self r)
  · change Function.update s.inserted r _ k ≠ none at hk
    rw [Function.update_of_ne hkr] at hk
    exact mem_append_left _ (h.pending k hk)

theorem inserted_of_ended {k : ℕ}
    (h : (if (s.inserted k).map Prod.fst = some t then none else s.inserted k) ≠ none) :
    s.inserted k ≠ none := by
  split_ifs at h with ht
  · exact absurd rfl h
  · exact h

theorem inv_rollback (h : Inv s) : Inv (s.rollback t) :=
  ⟨h.kept, fun k hk => h.pending k (inserted_of_ended hk), h.running⟩

theorem inv_commit (h : Inv s) : Inv (s.commit t) := by
  have hrows : ∀ k run, (s.commit t).rows k = some run →
      s.rows k = some run ∨ run.state = .queued ∧ s.inserted k ≠ none := by
    intro k run hk
    unfold State.commit at hk
    dsimp only at hk
    split at hk
    · rename_i t' kind hins
      split_ifs at hk with ht
      · cases hk
        exact Or.inr ⟨rfl, by rw [hins]; exact fun h => by cases h⟩
      · exact Or.inl hk
    · exact Or.inl hk
  refine ⟨fun k kind hk => ?_, fun k hk => h.pending k (inserted_of_ended hk), fun k kind hk => ?_⟩
  · rcases hrows k _ hk with hk | ⟨-, hk⟩
    · exact h.kept k kind hk
    · exact Or.inr (h.pending k hk)
  · rcases hrows k _ hk with hk | ⟨hk, -⟩
    · exact h.running k kind hk
    · cases hk

theorem inv_put (h : Inv s) (hclaimed : s.claimed r = true) (state : RunState) :
    Inv (s.put r kind state) := by
  have hrows : ∀ k run, (s.put r kind state).rows k = some run → k ≠ r → s.rows k = some run := by
    intro k run hk hkr
    change Function.update s.rows r _ k = some run at hk
    rwa [Function.update_of_ne hkr] at hk
  refine ⟨fun k kind' hk => ?_, h.pending, fun k kind' hk => ?_⟩
  · by_cases hkr : k = r
    · rw [hkr]
      exact Or.inl hclaimed
    · exact h.kept k kind' (hrows k _ hk hkr)
  · by_cases hkr : k = r
    · rw [hkr]
      exact hclaimed
    · exact h.running k kind' (hrows k _ hk hkr)

theorem inv_claim (h : Inv s) :
    Inv { s with claimed := Function.update s.claimed r true } := by
  have hclaimed : ∀ k, s.claimed k = true → Function.update s.claimed r true k = true := by
    intro k hk
    by_cases hkr : k = r
    · rw [hkr, Function.update_self]
    · rw [Function.update_of_ne hkr, hk]
  exact ⟨fun k kind hk => (h.kept k kind hk).imp_left (hclaimed k), h.pending,
    fun k kind hk => hclaimed k (h.running k kind hk)⟩

/-- **A look at a row that no sweep has open** drops nothing: the row is not there at all, or it is
claimed, or it is no longer queued. -/
theorem inv_look (h : Inv s) (hins : s.inserted r = none) : Inv (s.look r) := by
  have herase : ∀ k, k ≠ r → k ∈ s.messages → k ∈ s.messages.erase r := fun k hk hm =>
    (mem_erase_of_ne hk).mpr hm
  have hpending : ∀ k, s.inserted k ≠ none → k ∈ s.messages.erase r := by
    intro k hk
    have hkr : k ≠ r := fun he => hk (he ▸ hins)
    exact herase k hkr (h.pending k hk)
  have hothers : (∀ kind, s.rows r ≠ some ⟨kind, .queued⟩) →
      Inv { s with messages := s.messages.erase r } := by
    intro hrow
    refine ⟨fun k kind hk => ?_, hpending, h.running⟩
    have hkr : k ≠ r := fun he => hrow kind (he ▸ hk)
    exact (h.kept k kind hk).imp_right (herase k hkr)
  have hclaims : ∀ kind, Inv { { s with messages := s.messages.erase r }.put r kind .running with
      claimed := Function.update s.claimed r true } := by
    intro kind
    have hput : Inv { s.put r kind .running with claimed := Function.update s.claimed r true } :=
      inv_put (inv_claim (r := r) h) (Function.update_self ..) _
    refine ⟨fun k kind' hk => ?_, hpending, hput.running⟩
    have hkr : k ≠ r := by
      rintro rfl
      change Function.update s.rows k _ k = _ at hk
      rw [Function.update_self] at hk
      cases hk
    exact (hput.kept k kind' hk).imp_right (herase k hkr)
  unfold State.look
  dsimp only
  split
  · rename_i hrow
    exact hothers fun kind hk => by rw [hrow] at hk; cases hk
  · exact hclaims .scan
  · rename_i state hstate hrow
    refine hothers fun kind hk => ?_
    rw [hrow] at hk
    cases hk
    exact hstate rfl
  · exact hclaims .discovery

/-- **What one step keeps.** -/
theorem inv_step {s' : State} {e : Event} (h : Inv s) (hok : CommittedFirst s e)
    (hstep : s.step e = some s') : Inv s' := by
  rcases e with ⟨t, r, kind⟩ | ⟨t, r, kind⟩ | t | t | r | r | r | r | r | r
  · simp only [State.step] at hstep
    split_ifs at hstep
    cases hstep
    exact inv_publish h
  · exact hok.elim
  · cases hstep
    exact inv_commit h
  · cases hstep
    exact inv_rollback h
  · simp only [State.step] at hstep
    split_ifs at hstep
    cases hstep
    exact inv_look h hok
  · simp only [State.step] at hstep
    split at hstep
    · rename_i hrow
      cases hstep
      exact inv_send (inv_put h (h.running r .scan hrow) _) r
    · cases hstep
      exact inv_send h r
    · cases hstep
  · simp only [State.step] at hstep
    split at hstep
    · rename_i hrow
      cases hstep
      exact inv_put h (h.running r .scan hrow) _
    · cases hstep
      exact h
    · cases hstep
  · simp only [State.step] at hstep
    split at hstep
    · rename_i kind hrow
      cases hstep
      exact inv_put h (h.running r kind hrow) _
    · cases hstep
  · cases hstep
    exact inv_send h r
  · simp only [State.step] at hstep
    split_ifs at hstep
    cases hstep
    exact inv_send h r

end Steps

/-- **Workers that look for committed rows only** drop no run, in every state of a run. -/
theorem kept_of_committed_first {s : State}
    (hrun : Transition.Run State.step CommittedFirst State.initial s) : Kept s :=
  (hrun.invariant inv_step inv_initial).kept

/-- A discovery run is published, and its message is delivered before the sweep commits. -/
def early : List Event := [.publish 1 7 .discovery, .look 7, .commit 1]

/-- **A worker that looks too early** loses the run: it is queued, no worker has claimed it, and no
message is left. -/
theorem looked_too_early :
    ∃ s, Transition.Run State.step (fun _ _ => True) State.initial s ∧
      s.rows 7 = some ⟨.discovery, .queued⟩ ∧ s.messages = [] ∧ ¬ Kept s := by
  refine ⟨_, run_of_foldlM (fun _ _ => trivial)
    (rfl : early.foldlM State.step State.initial = some _), rfl, rfl, fun h => ?_⟩
  rcases h 7 .discovery rfl with hclaimed | hmessage
  · cases hclaimed
  · cases hmessage

/-- A worker that looks after the commit claims the run. -/
theorem kept_of_committed_first_sample :
    ∃ s, [Event.publish 1 7 .discovery, .commit 1, .look 7].foldlM State.step State.initial =
        some s ∧
      Kept s := by
  exact ⟨_, rfl, kept_of_committed_first
    (run_of_guarded [Event.publish 1 7 .discovery, .commit 1, .look 7] rfl)⟩

end Publication

end Guardian.Scheduling

import Guardian.Scans.RunScan
import Guardian.Transition.Run

/-!
# The claim of a scan

Messages for a scan may be delivered any number of times, to any number of workers.  A worker claims
the scan by a conditional update from `queued` to `running`, in the transaction that it commits when
the scan has ended; until then the row is locked, and the others still read `queued`.  A worker that
dies takes its transaction with it.  No scan passes the claim twice (`once_of_run`).
-/

namespace Guardian.Scans

open Transition List

/-- What happens to a scan: it becomes queued, an execution passes its claim, or it ends. -/
inductive Mark
  | queued | passed | ended
  deriving DecidableEq

/-- **The workers on their scans**: the committed status of each, the execution whose transaction
holds its row, the scan that each execution was given, the messages of the broker, and what has
happened to each scan. -/
structure Workers where
  status : ℕ → Option ScanStatus
  holder : ℕ → Option ℕ
  given : ℕ → Option ℕ
  messages : List ℕ
  marks : ℕ → List Mark

/-- What happens.  A scan is created and published; anyone publishes a message for a scan; recovery
sends again what it has found queued and not visible; a message is delivered, and stays until it is
acknowledged; an execution finds no scan, finds a scan without its asset, claims its scan, ends, or
dies. -/
inductive Event
  | create (scan : ℕ)
  | send (scan : ℕ)
  | recover (candidates : List ℕ) (visible : Option (List ℕ))
  | deliver (execution scan : ℕ)
  | acknowledge (scan : ℕ)
  | notFound (execution : ℕ)
  | assetMissing (execution : ℕ)
  | claim (execution : ℕ)
  | finish (execution : ℕ) (status : ScanStatus)
  | crash (execution : ℕ)

namespace Workers

variable (s : Workers)

/-- Writes the committed status of a scan. -/
def commit (k : ℕ) (status : ScanStatus) (mark : Mark) : Workers :=
  { s with
    status := Function.update s.status k (some status)
    holder := Function.update s.holder k none
    marks := Function.update s.marks k (s.marks k ++ [mark]) }

def leave (e : ℕ) : Workers := { s with given := Function.update s.given e none }

/-- The execution holds the row of its scan. -/
def hold (k e : ℕ) : Workers :=
  { s with
    holder := Function.update s.holder k (some e)
    marks := Function.update s.marks k (s.marks k ++ [.passed]) }

/-- The execution lets go of the row of its scan, which is queued again. -/
def release (k : ℕ) : Workers :=
  { s with
    holder := Function.update s.holder k none
    marks := Function.update s.marks k (s.marks k ++ [.queued]) }

/-- What `sweep_stranded_scans` sends again: it reads the committed rows, and nothing if it cannot
read the broker. -/
def stranded (candidates : List ℕ) : Option (List ℕ) → List ℕ
  | none => []
  | some visible => candidates.filter fun k => s.status k = some .queued ∧ k ∉ visible

/-- **One step.**  A write of a row waits until no other transaction holds it. -/
def step : Event → Option Workers
  | .create k =>
    if s.status k = none then
      some { s.commit k .queued .queued with messages := s.messages ++ [k] }
    else none
  | .send k => some { s with messages := s.messages ++ [k] }
  | .recover candidates visible =>
    some { s with messages := s.messages ++ s.stranded candidates visible }
  | .deliver e k =>
    if k ∈ s.messages ∧ s.given e = none then
      some { s with given := Function.update s.given e (some k) }
    else none
  | .acknowledge k => some { s with messages := s.messages.erase k }
  | .notFound e =>
    match s.given e with
    | none => none
    | some k => if s.status k = none then some (s.leave e) else none
  | .assetMissing e =>
    match s.given e with
    | none => none
    | some k =>
      if s.status k ≠ none ∧ s.holder k = none then some ((s.commit k .failed .ended).leave e)
      else none
  | .claim e =>
    match s.given e with
    | none => none
    | some k =>
      if s.status k ≠ none ∧ s.holder k = none then
        if s.status k = some .queued then some (s.hold k e) else some (s.leave e)
      else none
  | .finish e status =>
    match s.given e with
    | none => none
    | some k =>
      if s.holder k = some e ∧ status.Terminal then some ((s.commit k status .ended).leave e)
      else none
  | .crash e =>
    match s.given e with
    | none => none
    | some k => if s.holder k = some e then some ((s.release k).leave e) else some (s.leave e)

end Workers

/-- Nothing has happened. -/
def Workers.initial : Workers where
  status := fun _ => none
  holder := fun _ => none
  given := fun _ => none
  messages := []
  marks := fun _ => []

/-- **A scan is claimed at most once** each time it becomes queued, and never after it has ended; it
is executed by the holder of its row only, while its committed status is `queued`. -/
structure Once (s : Workers) : Prop where
  passed : ∀ k before after, s.marks k = before ++ .passed :: after →
    before.getLast? = some .queued ∧ .ended ∉ before
  held : ∀ k e, s.holder k = some e → s.status k = some .queued
  ended : ∀ k status, s.status k = some status → status.Terminal → s.holder k = none

/-- Where a scan stands, and what has happened to it. -/
inductive Stands : Option ScanStatus → Option ℕ → List Mark → Prop
  | absent : Stands none none []
  | queued (before : List Mark) (h : .ended ∉ before) :
      Stands (some .queued) none (before ++ [.queued])
  | claimed (before : List Mark) (e : ℕ) (h : .ended ∉ before) :
      Stands (some .queued) (some e) (before ++ [.passed])
  | ended (status : ScanStatus) (marks : List Mark) (h : status.Terminal) :
      Stands (some status) none marks

/-- Each pass comes right after the scan became queued, and none after it has ended. -/
def Sound (marks : List Mark) : Prop :=
  ∀ before after, marks = before ++ .passed :: after →
    before.getLast? = some .queued ∧ .ended ∉ before

theorem Sound.concat {marks : List Mark} (h : Sound marks) {mark : Mark}
    (hmark : mark = .passed → marks.getLast? = some .queued ∧ .ended ∉ marks) :
    Sound (marks ++ [mark]) := by
  intro before after hsplit
  rcases split_concat hsplit with ⟨rfl, rfl⟩ | ⟨after', hmarks⟩
  · exact hmark rfl
  · exact h before after' hmarks

/-- **The invariant**, scan by scan. -/
def Inv (s : Workers) : Prop :=
  ∀ k, Stands (s.status k) (s.holder k) (s.marks k) ∧ Sound (s.marks k)

theorem inv_initial : Inv Workers.initial :=
  fun _ => ⟨.absent, fun before after h => by cases before <;> cases h⟩

section Steps

variable {s : Workers} {k e : ℕ}

theorem inv_commit (h : Inv s) {status : ScanStatus} {mark : Mark} (hmark : mark ≠ .passed)
    (hstands : Stands (some status) none (s.marks k ++ [mark])) : Inv (s.commit k status mark) := by
  intro j
  by_cases hj : j = k
  · subst hj
    simp only [Workers.commit, Function.update_self]
    exact ⟨hstands, (h j).2.concat fun hp => absurd hp hmark⟩
  · simp only [Workers.commit, Function.update_of_ne hj]
    exact h j

theorem inv_hold (h : Inv s) (hqueued : s.status k = some .queued) (hfree : s.holder k = none) :
    Inv (s.hold k e) := by
  intro j
  by_cases hj : j = k
  · subst hj
    obtain ⟨hstands, hsound⟩ := h j
    simp only [Workers.hold, Function.update_self]
    rw [hqueued] at hstands ⊢
    rw [hfree] at hstands
    generalize s.marks j = marks at hstands hsound ⊢
    rcases hstands with _ | ⟨before, hbefore⟩ | _ | ⟨_, _, hterminal⟩
    · have hended : Mark.ended ∉ before ++ [.queued] := by
        simp only [mem_append, mem_singleton, reduceCtorEq, or_false]
        exact hbefore
      exact ⟨.claimed _ e hended, hsound.concat fun _ => ⟨getLast?_concat, hended⟩⟩
    · exact absurd rfl hterminal.1
  · simp only [Workers.hold, Function.update_of_ne hj]
    exact h j

theorem inv_release (h : Inv s) (hheld : s.holder k = some e) : Inv (s.release k) := by
  intro j
  by_cases hj : j = k
  · subst hj
    obtain ⟨hstands, hsound⟩ := h j
    simp only [Workers.release, Function.update_self]
    rw [hheld] at hstands
    generalize s.marks j = marks at hstands hsound ⊢
    generalize s.status j = status at hstands ⊢
    rcases hstands with _ | _ | ⟨before, _, hbefore⟩
    have hended : Mark.ended ∉ before ++ [.passed] := by
      simp only [mem_append, mem_singleton, reduceCtorEq, or_false]
      exact hbefore
    exact ⟨.queued _ hended, hsound.concat fun hp => by cases hp⟩
  · simp only [Workers.release, Function.update_of_ne hj]
    exact h j

/-- **What an event writes** to the rows of the scans. -/
inductive Workers.Writes (s : Workers) : Event → Workers → Prop
  | created {k : ℕ} (h : s.status k = none) : Writes s (.create k) (s.commit k .queued .queued)
  | held {e k : ℕ} (hqueued : s.status k = some .queued) (hfree : s.holder k = none) :
      Writes s (.claim e) (s.hold k e)
  | ended {event : Event} {k : ℕ} {status : ScanStatus} (hevent : ∀ j, event ≠ .create j)
      (hrow : s.status k ≠ none ∨ s.holder k ≠ none) (h : status.Terminal) :
      Writes s event (s.commit k status .ended)
  | released {e k : ℕ} (h : s.holder k = some e) : Writes s (.crash e) (s.release k)
  | kept {event : Event} (hevent : ∀ j, event ≠ .create j) : Writes s event s

/-- **One step**, but for the messages and for what executions were given. -/
theorem step_cases {s' : Workers} {event : Event} (hstep : s.step event = some s') :
    ∃ t, s.Writes event t ∧ s'.status = t.status ∧ s'.holder = t.holder ∧ s'.marks = t.marks := by
  rcases event with k | k | ⟨candidates, visible⟩ | ⟨e, k⟩ | k | e | e | e | ⟨e, status⟩ | e
  · simp only [Workers.step] at hstep
    split_ifs at hstep with hnone
    cases hstep
    exact ⟨_, .created hnone, rfl, rfl, rfl⟩
  · cases hstep
    exact ⟨s, .kept fun _ => nofun, rfl, rfl, rfl⟩
  · cases hstep
    exact ⟨s, .kept fun _ => nofun, rfl, rfl, rfl⟩
  · simp only [Workers.step] at hstep
    split_ifs at hstep
    cases hstep
    exact ⟨s, .kept fun _ => nofun, rfl, rfl, rfl⟩
  · cases hstep
    exact ⟨s, .kept fun _ => nofun, rfl, rfl, rfl⟩
  -- the others are steps of an execution that was given a scan
  all_goals
    simp only [Workers.step] at hstep
    split at hstep
    · cases hstep
  · split_ifs at hstep
    cases hstep
    exact ⟨s, .kept fun _ => nofun, rfl, rfl, rfl⟩
  · split_ifs at hstep with hrow
    cases hstep
    exact ⟨_, .ended (fun _ => nofun) (.inl hrow.1) (by decide), rfl, rfl, rfl⟩
  · split_ifs at hstep with hrow hqueued
    · cases hstep
      exact ⟨_, .held hqueued hrow.2, rfl, rfl, rfl⟩
    · cases hstep
      exact ⟨s, .kept fun _ => nofun, rfl, rfl, rfl⟩
  · split_ifs at hstep with hheld
    cases hstep
    have hholder := hheld.1.trans_ne (Option.some_ne_none e)
    exact ⟨_, .ended (fun _ => nofun) (.inr hholder) hheld.2, rfl, rfl, rfl⟩
  · split_ifs at hstep with hheld
    · cases hstep
      exact ⟨_, .released hheld, rfl, rfl, rfl⟩
    · cases hstep
      exact ⟨s, .kept fun _ => nofun, rfl, rfl, rfl⟩

/-- **What one step keeps.** -/
theorem inv_step {s' : Workers} {event : Event} (h : Inv s) (hstep : s.step event = some s') :
    Inv s' := by
  obtain ⟨t, hwrites, hstatus, hholder, hmarks⟩ := step_cases hstep
  suffices ht : Inv t by
    intro k
    rw [hstatus, hholder, hmarks]
    exact ht k
  cases hwrites with
  | @created k hnone =>
    have hstands := (h k).1
    rw [hnone] at hstands
    have hempty : s.marks k = [] := by
      generalize s.marks k = marks at hstands ⊢
      generalize s.holder k = holder at hstands
      cases hstands
      rfl
    refine inv_commit h (by decide) ?_
    rw [hempty]
    exact .queued [] not_mem_nil
  | held hqueued hfree => exact inv_hold h hqueued hfree
  | ended _ _ hterminal => exact inv_commit h (by decide) (.ended _ _ hterminal)
  | released hheld => exact inv_release h hheld
  | kept => exact h

end Steps

/-- **The claim of a scan**, in every state that the workers reach. -/
theorem once_of_run {s : Workers} (hrun : Run Workers.step (fun _ _ => True) Workers.initial s) :
    Once s := by
  have hinv : Inv s := hrun.invariant (fun h _ hstep => inv_step h hstep) inv_initial
  refine ⟨fun k => (hinv k).2, fun k e he => ?_, fun k status hstatus hterminal => ?_⟩
  · have hstands := (hinv k).1
    rw [he] at hstands
    generalize s.marks k = marks at hstands
    generalize s.status k = status at hstands ⊢
    cases hstands
    rfl
  · have hstands := (hinv k).1
    rw [hstatus] at hstands
    generalize s.marks k = marks at hstands
    generalize s.holder k = holder at hstands ⊢
    cases hstands with
    | queued => rfl
    | claimed => exact absurd rfl hterminal.1
    | ended => rfl

/-- Two workers are given one scan: the first one dies, the second one ends it. -/
def handedOver : List Event :=
  [.create 7, .send 7, .deliver 1 7, .deliver 2 7, .claim 1, .crash 1, .claim 2,
    .finish 2 .completed]

theorem once_of_run_sample :
    ∃ s, handedOver.foldlM Workers.step Workers.initial = some s ∧
      s.marks 7 = [.queued, .passed, .queued, .passed, .ended] ∧ Once s := by
  refine ⟨_, rfl, rfl, ?_⟩
  exact once_of_run (run_of_foldlM (fun _ _ => trivial)
    (rfl : handedOver.foldlM Workers.step Workers.initial = some _))

end Guardian.Scans

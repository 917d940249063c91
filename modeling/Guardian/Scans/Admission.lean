import Guardian.Scans.RunScan
import Guardian.Transition.Run

/-!
# The admission of scans

A request for a scan counts the tenant's scans that are queued or running, is admitted if there are
fewer than the limit, inserts its scan and commits.  A count sees what is committed; nothing keeps
another request from counting before the commit.  `bounded_of_reserved` gives the runs that keep to
the limit.
-/

namespace Guardian.Scans

open Python Transition List

namespace Admission

/-! ### The decision -/

/-- `quota.Decision`. -/
structure Decision where
  allowed : Bool
  reason : Str
  retryAfter : ℕ
  deriving DecidableEq

/-- **`admit_scan`**: whether one more scan may be queued. -/
def admitScan (active : ℕ) (limit : ℤ) : Decision :=
  if limit ≤ 0 then ⟨false, "scan admission is disabled for this tenant", 0⟩
  else if limit ≤ active then
    ⟨false, active.repr.toList ++
      " scans are already queued or running and this tenant's limit is " ++
      limit.repr.toList ++
      "; wait for one to finish, or ask for the limit to be raised", 60⟩
  else ⟨true, [], 0⟩

/-! ### The requests of a tenant -/

def Active (status : ScanStatus) : Prop := status = .queued ∨ status = .running

instance (status : ScanStatus) : Decidable (Active status) := by
  unfold Active
  infer_instance

/-- **The scans of a tenant**, as they are committed, and its requests: the ones that are admitted,
and the ones that have inserted their scan and not committed it. -/
structure State where
  scans : List ScanStatus
  admitted : List ℕ
  inserted : List ℕ
  deriving DecidableEq

def State.active (s : State) : ℕ := s.scans.countP fun status => Active status

def State.pending (s : State) : ℕ := s.admitted.length + s.inserted.length

/-- What happens: a request counts and decides, inserts its scan, commits it, or gives up; a scan
goes on. -/
inductive Event
  | count (request : ℕ)
  | insert (request : ℕ)
  | commit (request : ℕ)
  | giveUp (request : ℕ)
  | advance (scan : ℕ) (status : ScanStatus)

variable (limit : ℤ)

/-- **One step of `create_scan`**, or of a worker.  A scan does not become queued again. -/
def step (s : State) : Event → Option State
  | .count r =>
    if (admitScan s.active limit).allowed then some { s with admitted := r :: s.admitted }
    else some s
  | .insert r =>
    if r ∈ s.admitted then
      some { s with admitted := s.admitted.erase r, inserted := r :: s.inserted }
    else none
  | .commit r =>
    if r ∈ s.inserted then
      some { s with inserted := s.inserted.erase r, scans := s.scans ++ [.queued] }
    else none
  | .giveUp r => some { s with admitted := s.admitted.erase r, inserted := s.inserted.erase r }
  | .advance i status =>
    if ∃ h : i < s.scans.length, Active s.scans[i] then
      some { s with scans := s.scans.set i status }
    else none

/-- **The limit is kept.**  A limit below zero admits as few scans as zero does. -/
def Bounded (s : State) : Prop := s.active ≤ limit.toNat

instance (s : State) : Decidable (Bounded limit s) := by
  unfold Bounded
  infer_instance

/-- **A request is admitted only while there is room for it** besides the scans and the requests
that are admitted and have not committed. -/
def Reserved (s : State) : Event → Prop
  | .count _ => (admitScan s.active limit).allowed = true → (s.active + s.pending : ℤ) < limit
  | _ => True

instance (s : State) (e : Event) : Decidable (Reserved limit s e) := by
  unfold Reserved
  split <;> infer_instance

variable {limit} {s t : State}

/-- **The invariant**: the active and the pending scans are within the limit. -/
def Inv (limit : ℤ) (s : State) : Prop := s.active + s.pending ≤ limit.toNat

theorem active_set {i : ℕ} (status : ScanStatus)
    (h : ∃ h : i < s.scans.length, Active s.scans[i]) :
    (s.scans.set i status).countP (fun status => Active status) ≤ s.active := by
  obtain ⟨hi, hactive⟩ := h
  unfold State.active
  have hpos : 0 < s.scans.countP fun status => Active status :=
    countP_pos_iff.mpr ⟨_, getElem_mem hi, by simpa using hactive⟩
  rw [countP_set hi]
  simp only [decide_eq_true_eq, hactive, if_true]
  split_ifs <;> omega

/-- **What one step keeps.** -/
theorem inv_step {e : Event} (h : Inv limit s) (hok : Reserved limit s e)
    (hstep : step limit s e = some t) : Inv limit t := by
  unfold Inv State.pending at *
  rcases e with r | r | r | r | ⟨i, status⟩
  · simp only [step] at hstep
    split_ifs at hstep with hallowed
    · cases hstep
      have hroom := hok hallowed
      change s.active + ((r :: s.admitted).length + s.inserted.length) ≤ _
      unfold State.pending at hroom
      rw [length_cons]
      omega
    · cases hstep
      exact h
  · simp only [step] at hstep
    split_ifs at hstep with hmem
    cases hstep
    change s.active + ((s.admitted.erase r).length + (r :: s.inserted).length) ≤ _
    have hpos := length_pos_of_mem hmem
    rw [length_erase_of_mem hmem, length_cons]
    omega
  · simp only [step] at hstep
    split_ifs at hstep with hmem
    cases hstep
    have hactive : (s.scans ++ [ScanStatus.queued]).countP (fun status => Active status) =
        s.active + 1 := by
      rw [countP_append]
      rfl
    change (s.scans ++ [ScanStatus.queued]).countP _ +
      (s.admitted.length + (s.inserted.erase r).length) ≤ _
    have hpos := length_pos_of_mem hmem
    rw [hactive, length_erase_of_mem hmem]
    omega
  · cases hstep
    change s.active + ((s.admitted.erase r).length + (s.inserted.erase r).length) ≤ _
    have hadmitted := length_erase_le (l := s.admitted) (a := r)
    have hinserted := length_erase_le (l := s.inserted) (a := r)
    omega
  · simp only [step] at hstep
    split_ifs at hstep with hactive
    cases hstep
    change (s.scans.set i status).countP _ + (s.admitted.length + s.inserted.length) ≤ _
    have hle := active_set status hactive
    omega

theorem Inv.bounded (h : Inv limit s) : Bounded limit s := (Nat.le_add_right _ _).trans h

/-- **Requests that leave room for each other** keep the limit, in every state of a run. -/
theorem bounded_of_reserved (hrun : Run (step limit) (Reserved limit) ⟨[], [], []⟩ s) :
    Bounded limit s := by
  have hinv : Inv limit s := hrun.invariant (fun h hok hstep => inv_step h hok hstep)
    (Nat.zero_le _)
  exact hinv.bounded

/-- Two requests of a tenant that may have one scan: both count before either commits. -/
def bothCount : List Event :=
  [.count 1, .count 2, .insert 1, .insert 2, .commit 1, .commit 2]

/-- **Two requests that count before either has committed** exceed the limit. -/
theorem counted_twice :
    ∃ s, Run (step 1) (fun _ _ => True) ⟨[], [], []⟩ s ∧ s.active = 2 ∧ ¬ Bounded 1 s := by
  have hrun : bothCount.foldlM (step 1) ⟨[], [], []⟩ = some ⟨[.queued, .queued], [], []⟩ := by
    decide
  exact ⟨_, run_of_foldlM (fun _ _ => trivial) hrun, by decide, by decide⟩

/-- One request after the other: the second one is refused. -/
theorem bounded_of_reserved_sample : Bounded 1 ⟨[.queued], [], []⟩ :=
  bounded_of_reserved (run_of_guarded [.count 1, .insert 1, .commit 1, .count 2] (by decide))

end Admission

end Guardian.Scans

import Guardian.Findings.Scoring

/-!
# Remediation items

The statuses of an item, the moves between them, and the day by which it has to be done.
-/

namespace Guardian.Remediation

open Python Findings

/-! ### Statuses -/

/-- `STATUSES`. -/
inductive Status
  | isOpen
  | inProgress
  | fixed
  | verified
  | reopened
  | riskAccepted
  | wontFix
  deriving DecidableEq

namespace Status

/-- The text of a status. -/
def text : Status → Str
  | isOpen => "open"
  | inProgress => "in_progress"
  | fixed => "fixed"
  | verified => "verified"
  | reopened => "reopened"
  | riskAccepted => "risk_accepted"
  | wontFix => "wont_fix"

/-- The statuses in the order of `STATUSES`. -/
def all : List Status := [isOpen, inProgress, fixed, verified, reopened, riskAccepted, wontFix]

/-- The status with a text, if there is one. -/
def ofText (s : Str) : Option Status := all.find? fun status => status.text = s

theorem text_ofText {s : Str} {status : Status} (h : ofText s = some status) : status.text = s := by
  simpa using List.find?_some h

end Status

/-- `HUMAN_SETTABLE`. -/
def humanSettable : List Status := [.isOpen, .inProgress, .fixed, .riskAccepted, .wontFix]

/-- `NEEDS_JUSTIFICATION`. -/
def needsJustification : List Status := [.riskAccepted, .wontFix]

/-- `InvalidTransition`, one case for each message. -/
inductive InvalidTransition
  | unknown (target : Str)
  | byHand (target : Status)
  | unjustified (target : Status)
  | closed
  deriving DecidableEq

/-- The message, for the `repr` of a text. -/
def InvalidTransition.message (repr : Str → Str) : InvalidTransition → Str
  | unknown target => repr target ++ " is not a remediation status"
  | byHand target => repr target.text ++
      (" is set by a verifying scan, not by hand: a fix is verified when the " ++
        "engine that found the issue ran again, completed cleanly, and did not report it").toList
  | unjustified target => repr target.text ++ " requires a justification"
  | closed => "a verified item is closed; if the issue is back, a scan reopens it"

section Transition
variable (R : Runtime)

/-- **`validate_transition`**, with the status that the target names. -/
def validateTransition (current : Status) (target : Str) (byScan : Bool) (justification : Str) :
    Except InvalidTransition Status :=
  match Status.ofText target with
  | none => .error (.unknown target)
  | some next =>
    if current = next then .ok next
    else if (next = .verified ∨ next = .reopened) ∧ byScan = false then .error (.byHand next)
    else if next ∈ needsJustification ∧ strip R justification = [] then .error (.unjustified next)
    else if current = .verified ∧ next ∈ humanSettable ∧ next ≠ .isOpen then .error .closed
    else .ok next

variable {R} {current next : Status} {target justification : Str} {byScan : Bool}

theorem ofText_of_validateTransition
    (h : validateTransition R current target byScan justification = .ok next) :
    Status.ofText target = some next := by
  unfold validateTransition at h
  split at h
  · cases h
  · next status hstatus =>
    split_ifs at h
    · rw [hstatus, Except.ok.inj h]
    · rw [hstatus, Except.ok.inj h]

/-- **No person sets what a scan sets.** -/
theorem eq_of_byHand (h : validateTransition R current target false justification = .ok next)
    (hnext : next = .verified ∨ next = .reopened) : next = current := by
  have hof := ofText_of_validateTransition h
  unfold validateTransition at h
  rw [hof] at h
  dsimp only at h
  split_ifs at h with hsame hhand
  · exact hsame.symm
  · exact absurd ⟨hnext, rfl⟩ hhand

/-- **A person takes a verified item** to the status open, or leaves it. -/
theorem of_verified (h : validateTransition R .verified target false justification = .ok next) :
    next = .verified ∨ next = .isOpen := by
  have hof := ofText_of_validateTransition h
  unfold validateTransition at h
  rw [hof] at h
  dsimp only at h
  split_ifs at h with hsame hhand hreason hclosed
  · exact Or.inl hsame.symm
  · cases next with
    | isOpen => exact Or.inr rfl
    | verified => exact Or.inl rfl
    | reopened => exact absurd ⟨Or.inr rfl, rfl⟩ hhand
    | _ => exact absurd ⟨rfl, by decide, by decide⟩ hclosed

theorem validateTransition_byScan (current : Status)
    (hnext : next = .verified ∨ next = .reopened) :
    validateTransition R current next.text true [] = .ok next := by
  have hof : Status.ofText next.text = some next := by
    rcases hnext with rfl | rfl <;> decide
  unfold validateTransition
  rw [hof]
  rcases hnext with rfl | rfl <;> cases current <;> rfl

end Transition

/-! ### Days -/

/-- `SLA_DAYS`. -/
def slaDays : Severity → ℕ
  | .critical => 7
  | .high => 30
  | .medium => 90
  | .low => 180
  | .info => 365

/-- `round(n / 2)`: a half goes to the even neighbour. -/
def roundHalf (n : ℕ) : ℕ := if n % 4 = 3 then n / 2 + 1 else n / 2

/-- **`due_at`**, in seconds. -/
def dueAt (R : Runtime) (severity : Severity) (exposure : Str) (openedAt : ℕ) : ℕ :=
  let days := slaDays severity
  let days := if lower R exposure = "public" then roundHalf days else days
  openedAt + max 1 days * 86400

/-- A row of `remediation_items`. -/
structure RemediationItem where
  id : ℕ
  tenantId : ℕ
  customerId : ℕ
  findingId : ℕ
  status : Status
  assigneeId : Option ℕ
  dueAt : Option ℕ
  justification : Option Str
  verifiedByScanId : Option ℕ
  deriving DecidableEq

end Guardian.Remediation

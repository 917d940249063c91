import Guardian.Transition.Run
import Guardian.Triage.Record

/-!
# The history of a finding

Reconciliations, manual verifications and triage decisions move the status of one finding, each with
code of its own, and each records what it did.  The record tells the run (`history_consistent`).
-/

namespace Guardian.Triage

open Python Findings Transition

/-! ### Verdicts -/

/-- The text of a verdict. -/
def verdictText : Findings.Verdict → Str
  | .stillPresent => "still_present"
  | .resolved => "resolved"
  | .notChecked => "not_checked"
  | .inconclusive => "inconclusive"

/-- A row of `finding_verifications`. -/
structure FindingVerification where
  scanId : Option ℕ
  verdict : Str
  method : Str
  engine : Option Str
  rationale : Str
  checkedAt : ℕ
  actorId : Option ℕ

/-- **A finding and its history**: its row, its events and its verifications. -/
structure History where
  finding : Finding
  events : List FindingEvent
  verifications : List FindingVerification

/-- Records a verification, and its verdict on the row. -/
def History.verified (record : FindingVerification) (h : History) : History :=
  { h with
    finding := { h.finding with
      lastVerifiedAt := some record.checkedAt
      verificationVerdict := some record.verdict }
    verifications := h.verifications ++ [record] }

/-- Moves the status, and records the event. -/
def History.moved (status : FindingStatus) (note : Str) (h : History) : History :=
  { h with
    finding := { h.finding with status }
    events := h.events ++ [⟨none, h.finding.status, status, note⟩] }

def History.reopened (h : History) : History :=
  { h with finding := { h.finding with reopenedCount := h.finding.reopenedCount + 1 } }

/-- What a verdict of one of the two writers does to the status. -/
def History.conclude (verdict : Str) (resolvedNote reopenedNote : Str) (h : History) : History :=
  if verdict = verdictText .resolved ∧ h.finding.status.isOpenStatus then
    h.moved .resolved resolvedNote
  else if verdict = verdictText .stillPresent ∧ h.finding.status = .resolved then
    (h.moved .isOpen reopenedNote).reopened
  else h

/-- What a scan says of the finding: whether it reported it, and the run of the engine that would
have. -/
structure Check where
  scanId : ℕ
  reported : Bool
  run : Option EngineRun
  engine : Option Str
  rationale : Str
  now : ℕ

/-- `_verdict_for`. -/
def Check.verdict (check : Check) : Findings.Verdict :=
  if check.reported then .stillPresent else engineOutcome check.run

/-- The verification that a scan records. -/
def Check.record (check : Check) : FindingVerification where
  scanId := some check.scanId
  verdict := verdictText check.verdict
  method := "rescan"
  engine := check.engine
  rationale := check.rationale
  checkedAt := check.now
  actorId := none

/-- The note of a finding that came back. -/
def Check.regression (check : Check) (reopenedCount : ℕ) : Str :=
  ("regression: " ++ check.rationale ++ " (reopened " ++ decimal reopenedCount ++
    "x)").take 1000

/-- **`_apply`.** -/
def apply (check : Check) (h : History) : History :=
  let h := h.verified check.record
  if check.verdict = .notChecked ∨ check.verdict = .inconclusive then h
  else
    h.conclude (verdictText check.verdict) (check.rationale.take 1000)
      (check.regression (h.finding.reopenedCount + 1))

/-- **`record_manual_verification`.** -/
def recordManualVerification (verdict rationale : Str) (actorId : Option ℕ) (now : ℕ) (h : History) :
    History :=
  (h.verified
    { scanId := none
      verdict
      method := "manual"
      engine := none
      rationale := rationale.take 2000
      checkedAt := now
      actorId }).conclude verdict (rationale.take 1000) (rationale.take 1000)

/-! ### Runs -/

/-- What happens to a finding. -/
inductive Change
  | reconcile (check : Check)
  | verify (verdict rationale : Str) (actorId : Option ℕ) (now : ℕ)
  | triage (body : FindingTriage) (reviewer : ℕ)

variable (R : Runtime)

/-- **One change.** -/
def History.change (h : History) : Change → History
  | .reconcile check => apply check h
  | .verify verdict rationale actorId now =>
    recordManualVerification verdict rationale actorId now h
  | .triage body reviewer =>
    match triageFinding R body reviewer h.finding with
    | none => h
    | some (finding, event) => { h with finding, events := h.events ++ event.toList }

/-- The verdict that a change comes with. -/
def Change.verdict : Change → Option Str
  | .reconcile check => some (verdictText check.verdict)
  | .verify verdict _ _ _ => some verdict
  | .triage _ _ => none

/-- The change is a triage decision. -/
def Change.isTriage : Change → Bool
  | .triage _ _ => true
  | _ => false

/-- The change reopens a resolved finding, and is no triage decision. -/
def reopens (h : History) (c : Change) : Bool :=
  !c.isTriage && decide (h.finding.status = .resolved ∧ (h.change R c).finding.status = .isOpen)

/-- The number of changes of a run that reopen the finding. -/
def reopenings : History → List Change → ℕ
  | _, [] => 0
  | h, c :: cs => (reopens R h c).toNat + reopenings (h.change R c) cs

/-- The status after some events, if each of them starts where the one before has ended. -/
def replay : FindingStatus → List FindingEvent → Option FindingStatus
  | status, [] => some status
  | status, e :: es => if e.fromStatus = status then replay e.toStatus es else none

/-- **A move of the status, and nothing else, adds one event**, which tells it. -/
def Told (h h' : History) : Prop :=
  (h'.finding.status = h.finding.status ∧ h'.events = h.events) ∨
    (h'.finding.status ≠ h.finding.status ∧ ∃ e, h'.events = h.events ++ [e] ∧
      e.fromStatus = h.finding.status ∧ e.toStatus = h'.finding.status)

/-- **What each change keeps**: a verdict that is no evidence does not move the status, a scan does
not move it from a decision of a reviewer, and a move of the status, and nothing else, adds one
event, which tells it. -/
structure Tells (h : History) (c : Change) : Prop where
  uncertain : c.verdict = some (verdictText .notChecked) ∨
    c.verdict = some (verdictText .inconclusive) →
    (h.change R c).finding.status = h.finding.status
  decided : ∀ check, c = .reconcile check →
    h.finding.status = .falsePositive ∨ h.finding.status = .acceptedRisk →
    (h.change R c).finding.status = h.finding.status
  told : Told h (h.change R c)

variable {R}

/-! ### What a verdict does -/

theorem conclude_uncertain {verdict : Str} (h : verdict = verdictText .notChecked ∨
    verdict = verdictText .inconclusive) (r n : Str) (s : History) :
    s.conclude verdict r n = s := by
  unfold History.conclude
  rcases h with rfl | rfl <;>
    rw [if_neg fun h => absurd h.1 (by decide), if_neg fun h => absurd h.1 (by decide)]

theorem conclude_decided {s : History} (h : s.finding.status = .falsePositive ∨
    s.finding.status = .acceptedRisk) (verdict r n : Str) : s.conclude verdict r n = s := by
  have hopen : s.finding.status.isOpenStatus ≠ true := by
    rcases h with h | h <;> rw [h] <;> decide
  have hresolved : s.finding.status ≠ .resolved := by
    rcases h with h | h <;> rw [h] <;> decide
  unfold History.conclude
  rw [if_neg fun hc => hopen hc.2, if_neg fun hc => hresolved hc.2]

/-- **What a verdict does**: it tells what it moves, and counts what it reopens. -/
theorem conclude_told (verdict r n : Str) (s : History) :
    Told s (s.conclude verdict r n) ∧ (s.conclude verdict r n).finding.reopenedCount =
      s.finding.reopenedCount + (decide (s.finding.status = .resolved ∧
        (s.conclude verdict r n).finding.status = .isOpen)).toNat := by
  unfold History.conclude
  split_ifs with hresolved hpresent
  · have hne : s.finding.status ≠ .resolved := by
      intro heq
      rw [heq] at hresolved
      exact absurd hresolved.2 (by decide)
    refine ⟨Or.inr ⟨Ne.symm hne, _, rfl, rfl, rfl⟩, ?_⟩
    simp [History.moved, hne]
  · refine ⟨Or.inr ⟨?_, _, rfl, rfl, rfl⟩, ?_⟩
    · rw [hpresent.2]
      exact fun h => nomatch h
    · simp [History.moved, History.reopened, hpresent.2]
  · refine ⟨Or.inl ⟨rfl, rfl⟩, ?_⟩
    by_cases heq : s.finding.status = .resolved <;> simp [heq]

/-! ### What a triage decision does -/

theorem status_overrideSeverity (severity : Option Severity) (f : Finding) :
    (overrideSeverity severity f).status = f.status ∧
      (overrideSeverity severity f).reopenedCount = f.reopenedCount := by
  unfold overrideSeverity
  cases severity with
  | none => exact ⟨rfl, rfl⟩
  | some new =>
    dsimp only
    split_ifs <;> exact ⟨rfl, rfl⟩

/-- **What a triage decision does**: it tells the move of the status, and counts nothing. -/
theorem applyTriage_told (body : FindingTriage) (reviewer : ℕ) (f : Finding) :
    (((applyTriage body reviewer f).1.status = f.status ∧ (applyTriage body reviewer f).2 = none) ∨
      ((applyTriage body reviewer f).1.status ≠ f.status ∧ ∃ e,
        (applyTriage body reviewer f).2 = some e ∧ e.fromStatus = f.status ∧
          e.toStatus = (applyTriage body reviewer f).1.status)) ∧
      (applyTriage body reviewer f).1.reopenedCount = f.reopenedCount := by
  have hover := status_overrideSeverity body.severityOverride
    (moveStatus body.status body.note reviewer f).1
  rw [applyTriage]
  dsimp only
  rw [hover.1, hover.2]
  unfold moveStatus
  cases body.status with
  | none => exact ⟨Or.inl ⟨rfl, rfl⟩, rfl⟩
  | some new =>
    dsimp only
    split_ifs with hne
    · exact ⟨Or.inr ⟨hne, _, rfl, rfl, rfl⟩, rfl⟩
    · exact ⟨Or.inl ⟨rfl, rfl⟩, rfl⟩

/-! ### What a change does -/

theorem apply_eq (check : Check) (h : History) :
    apply check h = (h.verified check.record).conclude (verdictText check.verdict)
      (check.rationale.take 1000) (check.regression (h.finding.reopenedCount + 1)) := by
  unfold apply
  dsimp only
  split_ifs with huncertain
  · refine (conclude_uncertain ?_ _ _ _).symm
    rcases huncertain with heq | heq
    · exact Or.inl (by rw [heq])
    · exact Or.inr (by rw [heq])
  · rfl

/-- **The step rule**: a change tells what it moves, and counts what it reopens. -/
theorem change_told (h : History) (c : Change) :
    Told h (h.change R c) ∧ (h.change R c).finding.reopenedCount =
      h.finding.reopenedCount + (reopens R h c).toNat := by
  cases c with
  | reconcile check =>
    rw [reopens, History.change, apply_eq]
    exact conclude_told ..
  | verify verdict rationale actorId now => exact conclude_told ..
  | triage body reviewer =>
    have hcount : (reopens R h (.triage body reviewer)).toNat = 0 := rfl
    rw [hcount, Nat.add_zero]
    unfold History.change triageFinding
    dsimp only
    split_ifs
    · exact ⟨Or.inl ⟨rfl, rfl⟩, rfl⟩
    · obtain ⟨htold, hsame⟩ := applyTriage_told body reviewer h.finding
      refine ⟨?_, hsame⟩
      rcases htold with ⟨hstatus, hnone⟩ | ⟨hne, e, hsome, hfrom, hto⟩
      · exact Or.inl ⟨hstatus, by simp [hnone]⟩
      · exact Or.inr ⟨hne, e, by simp [hsome], hfrom, hto⟩

theorem change_tells (h : History) (c : Change) : Tells R h c := by
  refine ⟨?_, ?_, (change_told h c).1⟩
  · intro huncertain
    cases c with
    | reconcile check =>
      rw [History.change, apply_eq, conclude_uncertain]
      · rfl
      · exact huncertain.imp Option.some.inj Option.some.inj
    | verify verdict rationale actorId now =>
      rw [History.change, recordManualVerification, conclude_uncertain]
      · rfl
      · exact huncertain.imp Option.some.inj Option.some.inj
    | triage body reviewer => exact absurd huncertain (by simp [Change.verdict])
  · rintro check rfl hdecided
    rw [History.change, apply_eq, conclude_decided]
    · rfl
    · exact hdecided

/-- **The events of a run** tell its statuses, and the counter its reopenings. -/
theorem history_consistent (h : History) (cs : List Change) :
    Along (History.change R) (Tells R) h cs ∧
      ∃ added, (cs.foldl (History.change R) h).events = h.events ++ added ∧
        replay h.finding.status added = some (cs.foldl (History.change R) h).finding.status ∧
        (cs.foldl (History.change R) h).finding.reopenedCount =
          h.finding.reopenedCount + reopenings R h cs := by
  refine ⟨along_of_forall change_tells h cs, ?_⟩
  induction cs generalizing h with
  | nil => exact ⟨[], (List.append_nil _).symm, rfl, rfl⟩
  | cons c cs ih =>
    obtain ⟨added, hevents, hreplay, hcount⟩ := ih (h.change R c)
    obtain ⟨htold, hone⟩ := change_told (R := R) h c
    rw [List.foldl_cons, hevents, hcount, hone]
    rcases htold with ⟨hstatus, hsame⟩ | ⟨-, e, hadd, hfrom, hto⟩
    · refine ⟨added, by rw [hsame], hstatus ▸ hreplay, ?_⟩
      rw [reopenings, Nat.add_assoc]
    · refine ⟨e :: added, by rw [hadd, List.append_assoc, List.singleton_append], ?_, ?_⟩
      · rw [replay, if_pos hfrom, hto, hreplay]
      · rw [reopenings, Nat.add_assoc]

end Guardian.Triage

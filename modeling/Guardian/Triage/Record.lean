import Guardian.Findings.Lifecycle
import Guardian.Findings.Scoring
import Guardian.Python.Json

/-!
# The rows of findings

Three writers share the rows of `findings`: a scan that inserts what its engines report or merges it
into the row that is known, the matching of service versions, which refreshes a row on its own, and
the triage by a reviewer.
-/

namespace Guardian.Triage

open Python Findings List

/-! ### Rows -/

/-- What a scan observes of a finding: the fields in `_OBSERVED_FIELDS`. -/
structure Observed where
  title : Str
  description : Str
  category : Str
  cweId : Option Str
  owaspRef : Option Str
  cveIds : List Str
  signals : Signals
  severity : Severity
  riskScore : ℕ
  riskRationale : List Str
  confidence : Str
  location : Json.Dict
  evidence : Json.Dict
  secretCorrelationId : Option Str
  references : Json.Dict

/-- A row of `findings`. -/
structure Finding where
  tenantId : ℕ
  customerId : ℕ
  assetId : ℕ
  scanId : ℕ
  engineRunId : ℕ
  fingerprint : Str
  seen : Observed
  status : FindingStatus
  source : Str
  reviewedBy : Option ℕ
  lastVerifiedAt : Option ℕ
  verificationVerdict : Option Str
  reopenedCount : ℕ

/-- `RawFinding`. -/
structure RawFinding where
  engine : Str
  title : Str
  category : Str
  description : Str
  baseSeverity : Severity
  confidence : Str
  cweId : Option Str
  owaspRef : Option Str
  cveIds : List Str
  signals : Signals
  location : Json.Dict
  evidence : Json.Dict
  references : Json.Dict

/-- Where a sighting belongs, and what the score takes from there. -/
structure Context where
  tenantId : ℕ
  customerId : ℕ
  scanId : ℕ
  engineRunId : ℕ
  assetId : ℕ
  exposure : Str
  assetCriticality : Str
  businessImpact : Str
  source : Str

/-! ### Fingerprints -/

/-- The value counts as true. -/
def truthy : Json → Bool
  | .null => false
  | .bool b => b
  | .number text => text.any fun c => decide (c ∈ "123456789".toList)
  | .str s => !s.isEmpty
  | .list items => !items.isEmpty
  | .dict entries => !entries.isEmpty

/-- `a or b`. -/
def orElse (a b : Json) : Json := if truthy a then a else b

/-- **`RawFinding.fingerprint`**, for the digest of the text of a JSON value. -/
def RawFinding.fingerprint (digest : Json → Str) (raw : RawFinding) : Str :=
  let get := fun key => (Json.get raw.location key).getD .null
  let key := Json.dict
    [("engine", .str raw.engine), ("category", .str raw.category),
      ("title", .str raw.title),
      ("path",
        orElse (orElse (get "path") (get "endpoint")) (get "resource")),
      ("rule", orElse (get "rule") ((raw.cweId.map .str).getD .null))]
  (digest key).take 32

/-! ### Scans -/

/-- What a sighting is scored with. -/
def scoreInputs (raw : RawFinding) (ctx : Context) : ScoreInputs where
  baseSeverity := raw.baseSeverity
  signals := raw.signals
  exposure := ctx.exposure
  assetCriticality := ctx.assetCriticality
  businessImpact := ctx.businessImpact

/-- The key under which the identity of a secret travels inside the evidence. -/
def secretKey : Str := "secret_id_hmac"

/-- **`to_finding`.** -/
def toFinding (digest : Json → Str) (raw : RawFinding) (ctx : Context) : Finding :=
  let risk := assess (scoreInputs raw ctx)
  let secret := (Json.get raw.evidence secretKey).bind Json.text
  { tenantId := ctx.tenantId
    customerId := ctx.customerId
    assetId := ctx.assetId
    scanId := ctx.scanId
    engineRunId := ctx.engineRunId
    fingerprint := raw.fingerprint digest
    seen :=
      { title := raw.title
        description := raw.description
        category := raw.category
        cweId := raw.cweId
        owaspRef := raw.owaspRef
        cveIds := raw.cveIds
        signals := raw.signals
        severity := risk.severity
        riskScore := risk.score
        riskRationale := risk.rationale
        confidence := raw.confidence
        location := raw.location
        evidence := Json.pop raw.evidence secretKey
        secretCorrelationId := if secret = some [] then none else secret
        references := raw.references }
    status := .isOpen
    source := ctx.source
    reviewedBy := none
    lastVerifiedAt := none
    verificationVerdict := none
    reopenedCount := 0 }

/-- **`merge_sighting`.** -/
def mergeSighting (existing fresh : Finding) : Finding :=
  { existing with seen := fresh.seen, scanId := fresh.scanId, engineRunId := fresh.engineRunId }

/-! ### Service versions -/

/-- The asset that a service belongs to, and the scan as which the matching is recorded. -/
structure ServiceTarget where
  tenantId : ℕ
  customerId : ℕ
  scanId : ℕ
  engineRunId : ℕ
  assetId : ℕ
  exposure : Option Str

/-- What `_persist` of the service matching passes to `to_finding`. -/
def ServiceTarget.context (target : ServiceTarget) : Context where
  tenantId := target.tenantId
  customerId := target.customerId
  scanId := target.scanId
  engineRunId := target.engineRunId
  assetId := target.assetId
  exposure := match target.exposure with
    | some (c :: cs) => c :: cs
    | _ => "unknown"
  assetCriticality := "high"
  businessImpact := "medium"
  source := "automated"

/-- What `_persist` of the service matching writes over a row that is there. -/
def refreshMatch (existing : Finding) (raw : RawFinding) (target : ServiceTarget) : Finding :=
  { existing with
    seen := { existing.seen with signals := raw.signals, evidence := raw.evidence }
    scanId := target.scanId
    engineRunId := target.engineRunId }

/-! ### Triage -/

/-- `FindingTriage`.  Its patterns admit the statuses and severities that there are, so that
`validate_transition` refuses none. -/
structure FindingTriage where
  status : Option FindingStatus
  severityOverride : Option Severity
  note : Str

/-- `NOTE_REQUIRED_STATUSES`. -/
def noteRequiredStatuses : List FindingStatus := [.falsePositive, .acceptedRisk, .resolved]

/-- `triage_requires_note`. -/
def triageRequiresNote (body : FindingTriage) : Bool :=
  body.severityOverride.isSome ||
    (body.status.map fun s => decide (s ∈ noteRequiredStatuses)).getD false

/-- A `FindingEvent`: the statuses before and after, the note, and the reviewer if there is one. -/
structure FindingEvent where
  actorId : Option ℕ
  fromStatus : FindingStatus
  toStatus : FindingStatus
  note : Str

/-- The status that `_apply_triage` sets, and the event if it is another one. -/
def moveStatus (status : Option FindingStatus) (note : Str) (reviewer : ℕ) (f : Finding) :
    Finding × Option FindingEvent :=
  match status with
  | some new =>
    if new ≠ f.status then ({ f with status := new }, some ⟨some reviewer, f.status, new, note⟩)
    else (f, none)
  | none => (f, none)

/-- The severity that `_apply_triage` sets. -/
def overrideSeverity (severity : Option Severity) (f : Finding) : Finding :=
  match severity with
  | some new =>
    if new ≠ f.seen.severity then
      { f with seen := { f.seen with severity := new }, source := "manual" }
    else f
  | none => f

/-- **`_apply_triage`**: the row, and the event if there is one. -/
def applyTriage (body : FindingTriage) (reviewer : ℕ) (f : Finding) :
    Finding × Option FindingEvent :=
  let (moved, event) := moveStatus body.status body.note reviewer f
  ({ overrideSeverity body.severityOverride moved with reviewedBy := some reviewer }, event)

theorem seen_moveStatus (status : Option FindingStatus) (note : Str) (reviewer : ℕ) (f : Finding) :
    (moveStatus status note reviewer f).1.seen = f.seen := by
  unfold moveStatus
  cases status with
  | none => rfl
  | some new =>
    dsimp only
    split_ifs <;> rfl

theorem seen_overrideSeverity (severity : Option Severity) (f : Finding) :
    (overrideSeverity severity f).seen =
      { f.seen with severity := severity.getD f.seen.severity } := by
  unfold overrideSeverity
  cases severity with
  | none => rfl
  | some new =>
    dsimp only
    split_ifs with h
    · rfl
    · rw [not_not] at h
      rw [Option.getD_some, h]

theorem seen_applyTriage (body : FindingTriage) (reviewer : ℕ) (f : Finding) :
    (applyTriage body reviewer f).1.seen =
      { f.seen with severity := body.severityOverride.getD f.seen.severity } := by
  rw [applyTriage]
  dsimp only
  rw [seen_overrideSeverity, seen_moveStatus]

variable (R : Runtime)

/-- **`triage_finding`**: nothing, when a note is required and missing. -/
def triageFinding (body : FindingTriage) (reviewer : ℕ) (f : Finding) :
    Option (Finding × Option FindingEvent) :=
  if triageRequiresNote body ∧ strip R body.note = [] then none
  else some (applyTriage body reviewer f)

/-! ### Runs -/

/-- **A row and what has happened to it**: the severity that was last set by an override, and what
the row was last scored with. -/
structure Traced where
  row : Finding
  override : Option Severity
  scored : ScoreInputs

/-- What happens to the rows.  A lookup that several rows answer returns the picked one. -/
inductive Event
  | sighting (raw : RawFinding) (ctx : Context) (pick : ℕ)
  | serviceMatch (raw : RawFinding) (target : ServiceTarget) (pick : ℕ)
  | triage (place : ℕ) (body : FindingTriage) (reviewer : ℕ)

/-- The row carries the fingerprint on the asset. -/
def Traced.answers (tenantId assetId : ℕ) (fingerprint : Str) (t : Traced) : Bool :=
  decide (t.row.tenantId = tenantId ∧ t.row.assetId = assetId ∧ t.row.fingerprint = fingerprint)

/-- The place of the row that a lookup returns. -/
def lookup (tenantId assetId : ℕ) (fingerprint : Str) (pick : ℕ) (rows : List Traced) :
    Option ℕ :=
  if (rows[pick]?.map (Traced.answers tenantId assetId fingerprint)).getD false then some pick
  else rows.findIdx? (Traced.answers tenantId assetId fingerprint)

variable (digest : Json → Str)

/-- The row that an event finds. -/
def Event.found (rows : List Traced) : Event → Option ℕ
  | .sighting raw ctx pick => lookup ctx.tenantId ctx.assetId (raw.fingerprint digest) pick rows
  | .serviceMatch raw target pick =>
    lookup target.tenantId target.assetId (raw.fingerprint digest) pick rows
  | .triage place _ _ => some place

/-- A row that was not there before. -/
def fresh (raw : RawFinding) (ctx : Context) : Traced where
  row := toFinding digest raw ctx
  override := none
  scored := scoreInputs raw ctx

/-- What a sighting does to the row that is known. -/
def Traced.sight (raw : RawFinding) (ctx : Context) (t : Traced) : Traced :=
  { t with
    row := mergeSighting t.row (toFinding digest raw ctx)
    scored := scoreInputs raw ctx }

/-- What the matching of a service version does to the row that is there. -/
def Traced.rematch (raw : RawFinding) (target : ServiceTarget) (t : Traced) : Traced :=
  { t with row := refreshMatch t.row raw target }

/-- What a triage decision does to its row. -/
def Traced.decide (body : FindingTriage) (reviewer : ℕ) (t : Traced) : Traced :=
  match triageFinding R body reviewer t.row with
  | none => t
  | some (row, _) =>
    { t with row, override := body.severityOverride.or t.override }

/-- Changes the row that a lookup has returned, or inserts one. -/
def upsert (rows : List Traced) (new : Traced) (change : Traced → Traced) :
    Option ℕ → List Traced
  | none => rows ++ [new]
  | some i => rows.modify i change

/-- **One event.** -/
def step (rows : List Traced) (e : Event) : List Traced :=
  match e with
  | .sighting raw ctx _ =>
    upsert rows (fresh digest raw ctx) (Traced.sight digest raw ctx) (e.found digest rows)
  | .serviceMatch raw target _ =>
    upsert rows (fresh digest raw target.context) (Traced.rematch raw target)
      (e.found digest rows)
  | .triage place body reviewer => rows.modify place (Traced.decide R body reviewer)

/-! ### What an event does -/

variable {R digest}

theorem mem_modify {α : Type} {f : α → α} {i : ℕ} {l : List α} {a : α} (h : a ∈ l.modify i f) :
    (∃ b, l[i]? = some b ∧ a = f b) ∨ a ∈ l := by
  obtain ⟨j, hj⟩ := mem_iff_getElem?.mp h
  by_cases hij : i = j
  · subst hij
    rw [getElem?_modify_eq] at hj
    cases hb : l[i]? with
    | none =>
      rw [hb] at hj
      cases hj
    | some b =>
      rw [hb] at hj
      exact Or.inl ⟨b, rfl, (Option.some.inj hj).symm⟩
  · rw [getElem?_modify_ne _ _ hij] at hj
    exact Or.inr (mem_of_getElem? hj)

theorem mem_upsert {rows : List Traced} {new a : Traced} {change : Traced → Traced}
    {found : Option ℕ} (h : a ∈ upsert rows new change found) :
    (found = none ∧ a = new) ∨ (∃ i b, found = some i ∧ rows[i]? = some b ∧ a = change b) ∨
      a ∈ rows := by
  cases found with
  | none =>
    rcases mem_append.mp h with h | h
    · exact Or.inr (Or.inr h)
    · exact Or.inl ⟨rfl, mem_singleton.mp h⟩
  | some i =>
    rcases mem_modify h with ⟨b, hb, rfl⟩ | h
    · exact Or.inr (Or.inl ⟨i, b, rfl, hb, rfl⟩)
    · exact Or.inr (Or.inr h)

/-- **An invariant of rows** holds after an event when it holds of a row that is new, and of the row
that the event finds once it is changed. -/
theorem forall_step {I : Traced → Prop} {rows : List Traced} {e : Event}
    (hrows : ∀ t ∈ rows, I t) (hfresh : ∀ raw ctx, I (fresh digest raw ctx))
    (hsight : ∀ raw ctx pick i t, e = .sighting raw ctx pick → e.found digest rows = some i →
      rows[i]? = some t → I (t.sight digest raw ctx))
    (hrematch : ∀ raw target t, I t → I (t.rematch raw target))
    (hdecide : ∀ body reviewer t, I t → I (t.decide R body reviewer)) :
    ∀ t ∈ step R digest rows e, I t := by
  intro a ha
  cases e with
  | sighting raw ctx pick =>
    rcases mem_upsert ha with ⟨-, rfl⟩ | ⟨i, b, hfound, hb, rfl⟩ | ha
    · exact hfresh raw ctx
    · exact hsight raw ctx pick i b rfl hfound hb
    · exact hrows a ha
  | serviceMatch raw target pick =>
    rcases mem_upsert ha with ⟨-, rfl⟩ | ⟨i, b, -, hb, rfl⟩ | ha
    · exact hfresh raw target.context
    · exact hrematch raw target b (hrows b (mem_of_getElem? hb))
    · exact hrows a ha
  | triage place body reviewer =>
    rcases mem_modify ha with ⟨b, hb, rfl⟩ | ha
    · exact hdecide body reviewer b (hrows b (mem_of_getElem? hb))
    · exact hrows a ha

theorem getElem?_upsert {rows : List Traced} {new b : Traced} {change : Traced → Traced} {i : ℕ}
    (hb : rows[i]? = some b) : (upsert rows new change (some i))[i]? = some (change b) := by
  rw [upsert, getElem?_modify_eq, hb]
  rfl

theorem eq_of_getElem?_upsert {rows : List Traced} {new t : Traced} {change : Traced → Traced}
    {found : Option ℕ} (h : (upsert rows new change found)[found.getD rows.length]? = some t) :
    (found = none ∧ t = new) ∨ ∃ i b, found = some i ∧ rows[i]? = some b ∧ t = change b := by
  cases found with
  | none =>
    rw [upsert, Option.getD_none, getElem?_concat_length, Option.some.injEq] at h
    exact Or.inl ⟨rfl, h.symm⟩
  | some i =>
    rw [upsert, Option.getD_some, getElem?_modify_eq] at h
    cases hb : rows[i]? with
    | none =>
      rw [hb] at h
      cases h
    | some b =>
      rw [hb] at h
      exact Or.inr ⟨i, b, rfl, hb, (Option.some.inj h).symm⟩

/-! ### A scan -/

/-- What an engine reports of an issue. -/
def injection : RawFinding where
  engine := "sast"
  title := "SQL injection"
  category := "injection"
  description := []
  baseSeverity := .high
  confidence := "medium"
  cweId := some "CWE-89"
  owaspRef := none
  cveIds := []
  signals := ⟨none, none, false, none, false⟩
  location := [("path", .str "app.py")]
  evidence := []
  references := []

/-- A scan of an asset. -/
def scanOf (scanId : ℕ) : Context where
  tenantId := 1
  customerId := 1
  scanId
  engineRunId := scanId
  assetId := 1
  exposure := "internal"
  assetCriticality := "medium"
  businessImpact := "medium"
  source := "automated"

end Guardian.Triage

import Guardian.Python.Json
import Guardian.Redaction.Patterns
import Mathlib.Data.List.Sort

/-!
# Reports and what they show

The rows a report is made from, its summary as `create_report` and `generate_report_content` build
it, and the content of the document that an export renders: the summary that is stored, and the
findings of the scan as they are at the time.
-/

namespace Guardian.Reports

open Python List

/-! ### Rows -/

/-- `ReportStatus`. -/
inductive Status
  | draft
  | inReview
  | approved
  | published
  | rejected
  | revoked
  deriving DecidableEq

/-- The text of a status. -/
def Status.text : Status → Str
  | draft => "draft"
  | inReview => "in_review"
  | approved => "approved"
  | published => "published"
  | rejected => "rejected"
  | revoked => "revoked"

/-- A row of `scans`. -/
structure Scan where
  id : Str
  tenantId : Str
  customerId : Str
  authorizationBasis : Option Str

/-- A row of `scan_engine_runs`. -/
structure EngineRun where
  scanId : Str
  engine : Str
  status : Str

/-- A row of `findings`, as far as a report reads it. -/
structure Finding where
  id : Str
  scanId : Str
  title : Str
  description : Str
  category : Str
  cweId : Option Str
  owaspRef : Option Str
  severity : Str
  riskScore : ℤ
  status : Str
  evidence : Json.Dict
  location : Json.Dict

/-- A row of `reports`. -/
structure Report where
  id : Str
  tenantId : Str
  customerId : Str
  scanId : Str
  title : Str
  status : Status
  summary : Json.Dict

/-- A row of `report_approvals`. -/
structure Approval where
  reportId : Str
  actorId : Str
  decision : Str
  notes : Str

/-- The tables a report is made from and recorded in. -/
structure Database where
  scans : List Scan
  engineRuns : List EngineRun
  findings : List Finding
  reports : List Report
  approvals : List Approval

/-- What `explain_finding` says of a finding. -/
structure Explanation where
  whatItMeans : Str
  whyItMatters : Str
  whatToDo : Str
  location : Str

/-- **What the documents are built with**: the interpreter, the explanation of a finding, and the
coverage of the controls by findings and by the engines that completed. -/
structure Library where
  runtime : Runtime
  /-- `str(value)`. -/
  str : Json → Str
  /-- `bool(value)`. -/
  truthy : Json → Bool
  explain : Finding → Explanation
  coverage : List Finding → List Str → Json

/-! ### Summaries -/

/-- `counts[severity] = counts.get(severity, 0) + 1`. -/
def bump (severity : Str) : List (Str × ℕ) → List (Str × ℕ)
  | [] => [(severity, 1)]
  | (s, n) :: counts =>
    if s = severity then (s, n + 1) :: counts else (s, n) :: bump severity counts

/-- The severities a report counts. -/
def severities : List Str := ["critical", "high", "medium", "low", "info"].map String.toList

/-- `counts`. -/
def severityCounts (findings : List Finding) : List (Str × ℕ) :=
  findings.foldl (fun counts f => bump f.severity counts) (severities.map fun s => (s, 0))

/-- A natural number as a JSON value. -/
def jsonNat (n : ℕ) : Json := .number (Nat.repr n).toList

def jsonCounts (findings : List Finding) : Json :=
  .dict ((severityCounts findings).map fun count => (count.1, jsonNat count.2))

def findingsOf (db : Database) (scanId : Str) : List Finding :=
  db.findings.filter fun f => f.scanId = scanId

/-- `ORDER BY risk_score DESC, id`. -/
def Before (f g : Finding) : Prop :=
  g.riskScore < f.riskScore ∨ f.riskScore = g.riskScore ∧ f.id ≤ g.id

instance : DecidableRel Before := fun f g =>
  inferInstanceAs (Decidable (g.riskScore < f.riskScore ∨ f.riskScore = g.riskScore ∧ f.id ≤ g.id))

/-- The findings of a scan in the order of a query. -/
def orderedFindings (db : Database) (scanId : Str) : List Finding :=
  (findingsOf db scanId).insertionSort Before

/-- `sorted(rows, key=lambda f: -f.risk_score)`. -/
def byRisk (findings : List Finding) : List Finding :=
  findings.insertionSort fun f g => g.riskScore ≤ f.riskScore

/-- The first five, as the summary names them. -/
def topRisks (findings : List Finding) : Json :=
  .list ((findings.take 5).map fun f => .dict
    [("title", .str f.title), ("severity", .str f.severity),
      ("risk_score", .number (toString f.riskScore).toList)])

/-- `_build_summary`. -/
def buildSummary (db : Database) (scan : Scan) : Json.Dict :=
  [("total_findings", jsonNat (findingsOf db scan.id).length),
    ("severity_counts", jsonCounts (findingsOf db scan.id)),
    ("authorization_basis", .str <|
      match scan.authorizationBasis with
      | none => "verified-ownership"
      | some basis => if basis = [] then "verified-ownership" else basis),
    ("top_risks", topRisks (orderedFindings db scan.id))]

/-- `_WEIGHTS`. -/
def weights : List (Str × ℕ) :=
  [("critical", 25), ("high", 12), ("medium", 5), ("low", 1),
    ("info", 0)]

/-- `_OPEN_STATES`. -/
def openStates : List Str := ["open", "triaged", "confirmed"].map String.toList

/-- The loop in `security_score`: a finding that is not open costs nothing. -/
def penalty (findings : List Finding) : ℕ :=
  findings.foldl (fun penalty f =>
    if f.status ∉ openStates then penalty else penalty + (weights.lookup f.severity).getD 0) 0

/-- `security_score`. -/
def securityScore (findings : List Finding) : ℕ := 100 - min 100 (penalty findings)

/-- `executive_summary`, from the answer of the provider as `check_output` leaves it. -/
def executiveSummary (findings : List Finding) (answer : Json.Dict) : Json.Dict :=
  Json.put "top_risks" (topRisks (byRisk findings)) <|
    Json.put "severity_counts" (jsonCounts findings) <|
      Json.put "security_score" (jsonNat (securityScore findings)) answer

/-- `_engines_completed`. -/
def enginesCompleted (db : Database) (scanId : Str) : List Str :=
  (db.engineRuns.filter fun run => run.scanId = scanId ∧ run.status = "completed".toList).map
    EngineRun.engine

/-- The summary that `generate_report_content` stores. -/
def generatedSummary (lib : Library) (db : Database) (report : Report) (answer : Json.Dict) :
    Json.Dict :=
  let findings := byRisk (findingsOf db report.scanId)
  let summary := executiveSummary findings answer
  let field := fun key : String => (key.toList, (Json.get summary key.toList).getD .null)
  [field "security_score", field "posture", field "severity_counts",
    ("total_findings", jsonNat findings.length), field "recommendation",
    ("top_risks", (Json.get summary "top_risks").getD (.list [])),
    ("compliance", lib.coverage findings (enginesCompleted db report.scanId))]

/-! ### Documents -/

/-- The formats of an export. -/
inductive Format
  | pdf
  | html
  deriving DecidableEq

/-- What a document prints of a finding. -/
structure PrintedFinding where
  severity : Str
  title : Str
  riskScore : ℤ
  cweId : Option Str
  owaspRef : Option Str
  evidence : Str
  explanation : Explanation

/-- What a document prints of the summary: what is stored under these keys, if anything is.  A PDF
has no compliance table. -/
structure PrintedSummary where
  score : Option Json
  posture : Option Json
  severityCounts : Option Json
  recommendation : Option Json
  compliance : Option Json

/-- **The content of a document**, the status of the report aside: the findings it shows, and how
many it leaves out of how many. -/
structure Content where
  title : Str
  summary : PrintedSummary
  findings : List PrintedFinding
  truncation : Option (ℕ × ℕ)

/-- The evidence of a finding, scrubbed. -/
def printedEvidence (lib : Library) (f : Finding) : Str :=
  let field := fun key : String => (Json.get f.evidence key.toList).filter lib.truthy
  (Redaction.scrubText lib.runtime
    (((field "match").orElse fun _ => field "summary").elim [] lib.str)).1

/-- One finding in `render_html` and `render_pdf`. -/
def printFinding (lib : Library) (f : Finding) : PrintedFinding where
  severity := f.severity
  title := f.title
  riskScore := f.riskScore
  cweId := f.cweId
  owaspRef := f.owaspRef
  evidence := printedEvidence lib f
  explanation := lib.explain f

/-- The summary in `render_html` and `render_pdf`. -/
def printSummary (format : Format) (summary : Json.Dict) : PrintedSummary where
  score := Json.get summary "security_score"
  posture := Json.get summary "posture"
  severityCounts := Json.get summary "severity_counts"
  recommendation := Json.get summary "recommendation"
  compliance := if format = .html then Json.get summary "compliance" else none

/-- `truncation_note`: nothing, or how many are shown of how many. -/
def truncationNote (shown total : ℕ) : Option (ℕ × ℕ) :=
  if total ≤ shown then none else some (shown, total)

section Content
variable (lib : Library)

/-- What is printed of the findings of a scan, without a limit. -/
def printedFindings (db : Database) (scanId : Str) : List PrintedFinding :=
  (orderedFindings db scanId).map (printFinding lib)

/-- **The content that `export_report` renders**: the title and the summary of the report, and the
findings of its scan as far as the limit goes. -/
def content (db : Database) (format : Format) (limit : ℕ) (report : Report) : Content where
  title := report.title
  summary := printSummary format report.summary
  findings := ((orderedFindings db report.scanId).take limit).map (printFinding lib)
  truncation := truncationNote ((orderedFindings db report.scanId).take limit).length
    (findingsOf db report.scanId).length

variable {lib}

theorem length_findingsOf (lib : Library) (db : Database) (scanId : Str) :
    (findingsOf db scanId).length = (printedFindings lib db scanId).length := by
  rw [printedFindings, orderedFindings, length_map, length_insertionSort]

/-- **Where the same is printed** of the title, the summary and the findings, the content is the
same. -/
theorem content_congr {db db' : Database} {r r' : Report} (htitle : r'.title = r.title)
    (hsummary : r'.summary = r.summary)
    (hfindings : printedFindings lib db' r'.scanId = printedFindings lib db r.scanId)
    (format : Format) (limit : ℕ) :
    content lib db' format limit r' = content lib db format limit r := by
  have hshown : ((orderedFindings db' r'.scanId).take limit).map (printFinding lib) =
      ((orderedFindings db r.scanId).take limit).map (printFinding lib) := by
    rw [map_take, map_take]
    exact congrArg (List.take limit) hfindings
  have hcount := congrArg List.length hshown
  rw [length_map, length_map] at hcount
  unfold content
  rw [htitle, hsummary, hshown, hcount, length_findingsOf lib db', length_findingsOf lib db,
    hfindings]

end Content

end Guardian.Reports

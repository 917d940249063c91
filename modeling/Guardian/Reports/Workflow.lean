import Guardian.Reports.Document

/-!
# The requests on a report

A report is created as a draft, its content is generated, and it goes from `draft` to `in_review`,
`approved` or `rejected`, and `published`.  Each of these moves is one transition with its own
expected statuses; generating the content is none, and asks for no status.
-/

namespace Guardian.Reports

open Python

/-! ### Callers -/

/-- `Identity`, as far as the routes of a report read it. -/
structure Identity where
  user : Str
  tenantId : Str
  staffRole : Option Str
  portalCustomerId : Option Str
  isMachine : Bool
  maxReportFindings : ℕ

/-- `is_staff`. -/
def Identity.isStaff (caller : Identity) : Bool := caller.staffRole.isSome

/-- An error that a route answers with. -/
structure HttpError where
  status : ℕ
  detail : Str

/-- `_WRITE_ROLES`. -/
def writeRoles : List Str := ["owner", "admin", "pentester", "analyst"].map String.toList

/-- `_REVIEW_ROLES`. -/
def reviewRoles : List Str := ["reviewer", "admin", "owner"].map String.toList

/-- `require_staff_write`. -/
def requireStaffWrite (caller : Identity) : Except HttpError Unit :=
  if caller.isMachine then
    .error ⟨403, ("this endpoint requires a human staff role; API keys are limited to " ++
      "scoped endpoints").toList⟩
  else if caller.staffRole.any fun role => decide (role ∈ writeRoles) then .ok ()
  else .error ⟨403, "insufficient role for this action"⟩

/-- `require_reviewer`. -/
def requireReviewer (caller : Identity) : Except HttpError Unit :=
  if caller.staffRole.any fun role => decide (role ∈ reviewRoles) then .ok ()
  else .error ⟨403, "report approval requires a reviewer/admin/owner role"⟩

/-! ### Rows -/

/-- `_get_owned`. -/
def getOwned (db : Database) (reportId : Str) (caller : Identity) : Except HttpError Report :=
  match db.reports.find? fun r => r.id = reportId ∧ r.tenantId = caller.tenantId with
  | some report => .ok report
  | none => .error ⟨404, "report not found"⟩

/-- The row of a report is written. -/
def Database.write (db : Database) (report : Report) : Database :=
  { db with reports := db.reports.map fun r => if r.id = report.id then report else r }

/-! ### Routes -/

/-- `create_report`, with the id that the new row is given. -/
def createReport (db : Database) (caller : Identity) (id scanId title : Str) :
    Except HttpError Database := do
  requireStaffWrite caller
  match db.scans.find? fun s => s.id = scanId ∧ s.tenantId = caller.tenantId with
  | none => .error ⟨404, "scan not found"⟩
  | some scan =>
    -- the primary key
    if db.reports.any fun r => r.id = id then .error ⟨500, "Internal Server Error"⟩
    else
      .ok { db with reports := db.reports ++ [{
        id
        tenantId := caller.tenantId
        customerId := scan.customerId
        scanId := scan.id
        title := if title = [] then "Security Assessment — scan " ++ scan.id else title
        status := .draft
        summary := buildSummary db scan }] }

/-- `generate_report`, with the answer of the provider. -/
def generateReport (lib : Library) (db : Database) (caller : Identity) (reportId : Str)
    (answer : Json.Dict) : Except HttpError Database := do
  requireStaffWrite caller
  let report ← getOwned db reportId caller
  .ok (db.write { report with summary := generatedSummary lib db report answer })

/-- The list of the expected statuses, as a message prints it. -/
def listed (expected : List Status) : Str :=
  "[" ++ ", ".toList.intercalate
    (expected.map fun status => "'" ++ status.text ++ "'") ++ "]"

/-- `_transition`; the expected statuses are given in the order in which a message sorts them. -/
def transition (db : Database) (report : Report) (caller : Identity) (expected : List Status)
    (newStatus : Status) (decision notes : Str) : Except HttpError Database :=
  if report.status ∉ expected then
    .error ⟨409, "cannot " ++ decision ++ " a report in '" ++ report.status.text ++
      "' state (expected " ++ listed expected ++ ")"⟩
  else
    let db' := db.write { report with status := newStatus }
    .ok { db' with approvals := db'.approvals ++ [⟨report.id, caller.user, decision, notes⟩] }

/-- One of the routes that move a report: who may use it, from which statuses, and to which. -/
structure Move where
  require : Identity → Except HttpError Unit
  expected : List Status
  newStatus : Status
  decision : Str

/-- `submit_report`. -/
def Move.submit : Move := ⟨requireStaffWrite, [.draft, .rejected], .inReview, "submit"⟩

/-- `approve_report`. -/
def Move.approve : Move := ⟨requireReviewer, [.inReview], .approved, "approve"⟩

/-- `reject_report`. -/
def Move.reject : Move := ⟨requireReviewer, [.inReview], .rejected, "reject"⟩

/-- `publish_report`. -/
def Move.publish : Move := ⟨requireStaffWrite, [.approved], .published, "publish"⟩

/-- A route that moves a report. -/
def moveReport (move : Move) (db : Database) (caller : Identity) (reportId notes : Str) :
    Except HttpError Database := do
  move.require caller
  let report ← getOwned db reportId caller
  transition db report caller move.expected move.newStatus move.decision notes

/-- What `export_report` answers with; a PDF does not print the status of the report. -/
structure Document where
  format : Format
  status : Option Status
  content : Content

/-- `export_report`. -/
def exportReport (lib : Library) (db : Database) (caller : Identity) (reportId format : Str) :
    Except HttpError Document := do
  let report ← getOwned db reportId caller
  if !caller.isStaff && (decide (some report.customerId ≠ caller.portalCustomerId) ||
      decide (report.status ≠ .published)) then
    .error ⟨404, "report not found"⟩
  else if format = "html" then
    .ok ⟨.html, some report.status, content lib db .html caller.maxReportFindings report⟩
  else if format = "pdf" then
    .ok ⟨.pdf, none, content lib db .pdf caller.maxReportFindings report⟩
  else .error ⟨422, "format must be pdf or html"⟩

/-! ### Runs -/

/-- **A request on a report**, or a change of the other tables by the rest of the platform. -/
inductive Event
  | create (caller : Identity) (id scanId title : Str)
  | generate (caller : Identity) (reportId : Str) (answer : Json.Dict)
  | submit (caller : Identity) (reportId notes : Str)
  | approve (caller : Identity) (reportId notes : Str)
  | reject (caller : Identity) (reportId notes : Str)
  | publish (caller : Identity) (reportId notes : Str)
  | change (scans : List Scan) (engineRuns : List EngineRun) (findings : List Finding)

/-- The answer to a request. -/
def handle (lib : Library) (db : Database) : Event → Except HttpError Database
  | .create caller id scanId title => createReport db caller id scanId title
  | .generate caller reportId answer => generateReport lib db caller reportId answer
  | .submit caller reportId notes => moveReport .submit db caller reportId notes
  | .approve caller reportId notes => moveReport .approve db caller reportId notes
  | .reject caller reportId notes => moveReport .reject db caller reportId notes
  | .publish caller reportId notes => moveReport .publish db caller reportId notes
  | .change scans engineRuns findings => .ok { db with scans, engineRuns, findings }

/-- The tables after a request: a refused one leaves them as they are. -/
def step (lib : Library) (db : Database) (e : Event) : Database :=
  match handle lib db e with
  | .ok db' => db'
  | .error _ => db

/-- The tables before the first report. -/
def noReports (scans : List Scan) (engineRuns : List EngineRun) (findings : List Finding) :
    Database :=
  ⟨scans, engineRuns, findings, [], []⟩

/-! ### What one event can do -/

/-- The move of a request, with its caller, its report and its notes. -/
def Event.move : Event → Option (Move × Identity × Str × Str)
  | .submit caller reportId notes => some (.submit, caller, reportId, notes)
  | .approve caller reportId notes => some (.approve, caller, reportId, notes)
  | .reject caller reportId notes => some (.reject, caller, reportId, notes)
  | .publish caller reportId notes => some (.publish, caller, reportId, notes)
  | _ => none

theorem of_move {e : Event} {move : Move} {caller : Identity} {reportId notes : Str}
    (h : e.move = some (move, caller, reportId, notes)) :
    e = .submit caller reportId notes ∧ move = .submit ∨
      e = .approve caller reportId notes ∧ move = .approve ∨
      e = .reject caller reportId notes ∧ move = .reject ∨
      e = .publish caller reportId notes ∧ move = .publish := by
  cases e with
  | submit => cases h; exact Or.inl ⟨rfl, rfl⟩
  | approve => cases h; exact Or.inr (Or.inl ⟨rfl, rfl⟩)
  | reject => cases h; exact Or.inr (Or.inr (Or.inl ⟨rfl, rfl⟩))
  | publish => cases h; exact Or.inr (Or.inr (Or.inr ⟨rfl, rfl⟩))
  | _ => cases h

/-- **What one event can do** to the tables. -/
inductive Effect (lib : Library) (db : Database) : Event → Database → Prop
  | refused {e} : Effect lib db e db
  | created {caller id scanId title} (report : Report) (hid : report.id = id)
      (hnew : ∀ r ∈ db.reports, r.id ≠ id) (hdraft : report.status = .draft) :
      Effect lib db (.create caller id scanId title)
        { db with reports := db.reports ++ [report] }
  | generated {caller reportId answer} (hok : requireStaffWrite caller = .ok ())
      (report : Report) (hmem : report ∈ db.reports) (hid : report.id = reportId)
      (htenant : report.tenantId = caller.tenantId) :
      Effect lib db (.generate caller reportId answer)
        (db.write { report with summary := generatedSummary lib db report answer })
  | moved {e} {move : Move} {caller reportId notes}
      (hmove : e.move = some (move, caller, reportId, notes))
      (hok : move.require caller = .ok ()) (report : Report) (hmem : report ∈ db.reports)
      (hid : report.id = reportId) (htenant : report.tenantId = caller.tenantId)
      (hfrom : report.status ∈ move.expected) :
      Effect lib db e
        { db.write { report with status := move.newStatus } with
          approvals := db.approvals ++ [⟨reportId, caller.user, move.decision, notes⟩] }
  | changed (scans engineRuns findings) :
      Effect lib db (.change scans engineRuns findings) { db with scans, engineRuns, findings }

section Effect
variable {lib : Library} {db db' : Database} {caller : Identity} {reportId : Str}

theorem of_getOwned {report : Report} (h : getOwned db reportId caller = .ok report) :
    report ∈ db.reports ∧ report.id = reportId ∧ report.tenantId = caller.tenantId := by
  unfold getOwned at h
  cases hfind : db.reports.find? fun r => r.id = reportId ∧ r.tenantId = caller.tenantId with
  | none =>
    rw [hfind] at h
    cases h
  | some r =>
    rw [hfind] at h
    obtain rfl := Except.ok.inj h
    have hr := List.find?_some hfind
    exact ⟨List.mem_of_find?_eq_some hfind, decide_eq_true_eq.mp hr⟩

theorem effect_createReport {id scanId title : Str}
    (h : createReport db caller id scanId title = .ok db') :
    Effect lib db (.create caller id scanId title) db' := by
  obtain ⟨-, -, h⟩ := bind_eq_ok.mp h
  cases hscan : db.scans.find? fun s => s.id = scanId ∧ s.tenantId = caller.tenantId with
  | none =>
    rw [hscan] at h
    cases h
  | some scan =>
    rw [hscan] at h
    change (if db.reports.any fun r => r.id = id then _ else _) = _ at h
    split at h
    · cases h
    · rename_i hany
      obtain rfl := Except.ok.inj h
      exact .created _ rfl (by simpa using hany) rfl

theorem effect_generateReport {answer : Json.Dict}
    (h : generateReport lib db caller reportId answer = .ok db') :
    Effect lib db (.generate caller reportId answer) db' := by
  obtain ⟨_, hreq, h⟩ := bind_eq_ok.mp h
  obtain ⟨report, hget, h⟩ := bind_eq_ok.mp h
  obtain ⟨hmem, hid, htenant⟩ := of_getOwned hget
  obtain rfl := Except.ok.inj h
  exact .generated hreq report hmem hid htenant

theorem effect_moveReport {e : Event} {move : Move} {notes : Str}
    (hmove : e.move = some (move, caller, reportId, notes))
    (h : moveReport move db caller reportId notes = .ok db') : Effect lib db e db' := by
  obtain ⟨_, hreq, h⟩ := bind_eq_ok.mp h
  obtain ⟨report, hget, h⟩ := bind_eq_ok.mp h
  obtain ⟨hmem, hid, htenant⟩ := of_getOwned hget
  unfold transition at h
  split at h
  · cases h
  · rename_i hfrom
    obtain rfl := Except.ok.inj h
    subst hid
    exact .moved hmove hreq report hmem rfl htenant (not_not.mp hfrom)

/-- **One event** has one of these effects. -/
theorem effect_step (lib : Library) (db : Database) (e : Event) :
    Effect lib db e (step lib db e) := by
  unfold step
  cases h : handle lib db e with
  | error err => exact .refused
  | ok db' =>
    cases e with
    | create caller id scanId title => exact effect_createReport h
    | generate caller reportId answer => exact effect_generateReport h
    | submit caller reportId notes => exact effect_moveReport rfl h
    | approve caller reportId notes => exact effect_moveReport rfl h
    | reject caller reportId notes => exact effect_moveReport rfl h
    | publish caller reportId notes => exact effect_moveReport rfl h
    | change scans engineRuns findings =>
      obtain rfl := Except.ok.inj h
      exact .changed scans engineRuns findings

end Effect

end Guardian.Reports

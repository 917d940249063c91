import Guardian.Reports.Workflow
import Guardian.Transition.Run

/-!
# What an approval stands for

A report that is approved or published is to show what it showed when somebody other than its
submitter approved it.  Three things come in between: its content is generated once more, the
findings of its scan change, which an export reads afresh, and a submitter may approve.
`reviewed_of_careful` gives the runs in which none of them happens.
-/

namespace Guardian.Reports

open Python Transition List

def PastReview (status : Status) : Prop := status = .approved ∨ status = .published

/-- The user who last submitted a report. -/
def lastSubmitter (db : Database) (reportId : Str) : Option Str :=
  ((db.approvals.filter fun a => a.reportId = reportId ∧ a.decision = "submit".toList).getLast?).map
    Approval.actorId

section Approval
variable (lib : Library)

/-- A row of a report shows what another row, of other tables, does. -/
def SameContent (db db' : Database) (r r' : Report) : Prop :=
  ∀ format limit, content lib db' format limit r' = content lib db format limit r

def run (db : Database) (es : List Event) : Database := es.foldl (step lib) db

/-! ### What is to hold -/

/-- **No event changes the content** of a report past its review, unless it is a draft again. -/
def Keeps (db : Database) (e : Event) : Prop :=
  ∀ r ∈ db.reports, PastReview r.status → ∀ r' ∈ (step lib db e).reports, r'.id = r.id →
    r'.status = .draft ∨ SameContent lib db (step lib db e) r r'

/-- An approval in a run: what came before and after it, who approved, who had submitted the report,
and the report as it was. -/
structure Review where
  before : List Event
  after : List Event
  approver : Identity
  notes : Str
  submitter : Str
  report : Report

/-- **The review of a report**: an approval in the run by somebody other than the submitter, with
the content that the report has now. -/
structure Review.Covers (db : Database) (es : List Event) (r : Report) (review : Review) :
    Prop where
  happened : es = review.before ++ .approve review.approver r.id review.notes :: review.after
  admitted : requireReviewer review.approver = .ok ()
  mem : review.report ∈ (run lib db review.before).reports
  same_id : review.report.id = r.id
  same_tenant : review.report.tenantId = review.approver.tenantId
  inReview : review.report.status = .inReview
  submitted : lastSubmitter (run lib db review.before) r.id = some review.submitter
  independent : review.approver.user ≠ review.submitter
  content : SameContent lib (run lib db review.before) (run lib db es) review.report r

/-- **Every report past its review has one**, and what an export shows is what was approved. -/
def Reviewed (db : Database) (es : List Event) : Prop :=
  ∀ r ∈ (run lib db es).reports, PastReview r.status → ∃ review : Review,
    review.Covers lib db es r ∧
      ∀ reader format document, exportReport lib (run lib db es) reader r.id format = .ok document →
        document.content = content lib (run lib db review.before) document.format
          reader.maxReportFindings review.report

/-- **The events that respect a review**: content is not generated for a report past its review,
what is printed of its findings does not change, and whoever submitted a report does not approve
it. -/
def Careful (db : Database) : Event → Prop
  | .generate caller reportId _ => requireStaffWrite caller = .ok () →
    ∀ r ∈ db.reports, r.id = reportId → r.tenantId = caller.tenantId → ¬ PastReview r.status
  | .approve caller reportId _ => requireReviewer caller = .ok () →
    ∀ r ∈ db.reports, r.id = reportId → r.tenantId = caller.tenantId → r.status = .inReview →
      lastSubmitter db reportId ≠ some caller.user
  | .change scans engineRuns findings => ∀ r ∈ db.reports, PastReview r.status →
    printedFindings lib { db with scans, engineRuns, findings } r.scanId =
      printedFindings lib db r.scanId
  | _ => True

/-- **What holds of the tables** in every state: ids are there once, and a report in review has been
submitted. -/
structure Consistent (db : Database) : Prop where
  ids : (db.reports.map Report.id).Nodup
  submitted : ∀ r ∈ db.reports, r.status = .inReview → (lastSubmitter db r.id).isSome

variable {lib} {db : Database} {e : Event} {r r' : Report}

/-! ### Rows -/

theorem mem_write {report : Report} (h : r' ∈ (db.write report).reports) :
    r' = report ∨ r' ∈ db.reports := by
  obtain ⟨r, hr, rfl⟩ := mem_map.mp h
  split
  · exact Or.inl rfl
  · exact Or.inr hr

theorem ids_write (db : Database) (report : Report) :
    (db.write report).reports.map Report.id = db.reports.map Report.id := by
  rw [Database.write, map_map]
  refine map_congr_left fun r _ => ?_
  rw [Function.comp_apply]
  split
  · rename_i hr
    exact hr.symm
  · rfl

theorem lastSubmitter_append (db : Database) (a : Approval) (reportId : Str) :
    lastSubmitter { db with approvals := db.approvals ++ [a] } reportId =
      if a.reportId = reportId ∧ a.decision = "submit" then some a.actorId
      else lastSubmitter db reportId := by
  unfold lastSubmitter
  generalize "submit" = submit
  rw [filter_append]
  by_cases ha : a.reportId = reportId ∧ a.decision = submit
  · rw [if_pos ha, filter_cons_of_pos (by simpa using ha), filter_nil,
      getLast?_append, getLast?_singleton, Option.some_or, Option.map_some]
  · rw [if_neg ha, filter_cons_of_neg (by simpa using ha), filter_nil, append_nil]

theorem lastSubmitter_append_isSome {reportId : Str} (h : (lastSubmitter db reportId).isSome)
    (a : Approval) :
    (lastSubmitter { db with approvals := db.approvals ++ [a] } reportId).isSome := by
  rw [lastSubmitter_append]
  split
  · rfl
  · exact h

namespace Consistent

theorem eq_of_id (hdb : Consistent db) (hr : r ∈ db.reports) (hr' : r' ∈ db.reports)
    (h : r.id = r'.id) : r = r' :=
  inj_on_of_nodup_map hdb.ids hr hr' h

theorem noReports (scans : List Scan) (engineRuns : List EngineRun) (findings : List Finding) :
    Consistent (noReports scans engineRuns findings) :=
  ⟨nodup_nil, fun _ hr => nomatch hr⟩

/-- **Every event keeps the tables consistent.** -/
theorem step (hdb : Consistent db) : Consistent (step lib db e) := by
  have heffect := effect_step lib db e
  generalize Reports.step lib db e = db' at heffect ⊢
  cases heffect with
  | refused => exact hdb
  | created report hid hnew hdraft =>
    refine ⟨?_, fun r hr hreview => ?_⟩
    · rw [map_append, nodup_append]
      refine ⟨hdb.ids, nodup_singleton _, ?_⟩
      intro i hi j hj hij
      obtain ⟨r, hr, rfl⟩ := mem_map.mp hi
      rw [map_singleton, mem_singleton] at hj
      exact hnew r hr (by rw [hij, hj, hid])
    · rcases mem_append.mp hr with hr | hr
      · exact hdb.submitted r hr hreview
      · rw [mem_singleton.mp hr, hdraft] at hreview
        cases hreview
  | generated hok report hmem hid htenant =>
    refine ⟨by rw [ids_write]; exact hdb.ids, fun r hr hreview => ?_⟩
    rcases mem_write hr with rfl | hr
    · exact hdb.submitted report hmem hreview
    · exact hdb.submitted r hr hreview
  | @moved _ move caller reportId notes hmove hok report hmem hid htenant hfrom =>
    refine ⟨(ids_write _ _).symm ▸ hdb.ids, fun r hr hreview => ?_⟩
    rcases mem_write hr with rfl | hr
    · -- only a submission puts a report into review
      have hlast := lastSubmitter_append db ⟨reportId, caller.user, move.decision, notes⟩ report.id
      rcases of_move hmove with ⟨-, rfl⟩ | ⟨-, rfl⟩ | ⟨-, rfl⟩ | ⟨-, rfl⟩
      · rw [if_pos ⟨hid.symm, rfl⟩] at hlast
        exact Option.isSome_iff_exists.mpr ⟨caller.user, hlast⟩
      all_goals cases hreview
    · exact lastSubmitter_append_isSome (hdb.submitted r hr hreview) _
  | changed scans engineRuns findings => exact ⟨hdb.ids, hdb.submitted⟩

end Consistent

theorem consistent_run (hdb : Consistent db) (es : List Event) : Consistent (run lib db es) := by
  induction es generalizing db with
  | nil => exact hdb
  | cons e es ih => exact ih hdb.step

/-! ### One event -/

/-- **A row after an event** is a new draft, or comes from a row that was there: with the status it
had, or moved.  A moved row shows what it did, and so does any row past its review. -/
theorem row_step (he : Careful lib db e) (hr' : r' ∈ (step lib db e).reports) :
    (r'.status = .draft ∧ ∀ r ∈ db.reports, r.id ≠ r'.id) ∨
      ∃ r ∈ db.reports, r.id = r'.id ∧
        ((r'.status = r.status ∧ (PastReview r.status → SameContent lib db (step lib db e) r r')) ∨
          ∃ move caller notes, e.move = some (move, caller, r'.id, notes) ∧
            move.require caller = .ok () ∧ r.tenantId = caller.tenantId ∧
            r.status ∈ move.expected ∧ r'.status = move.newStatus ∧
            SameContent lib db (step lib db e) r r') := by
  have heffect := effect_step lib db e
  generalize step lib db e = db' at heffect hr' ⊢
  cases heffect with
  | refused => exact Or.inr ⟨r', hr', rfl, Or.inl ⟨rfl, fun _ _ _ => rfl⟩⟩
  | created report hid hnew hdraft =>
    rcases mem_append.mp hr' with hr' | hr'
    · exact Or.inr ⟨r', hr', rfl, Or.inl ⟨rfl, fun _ _ _ => rfl⟩⟩
    · obtain rfl := mem_singleton.mp hr'
      exact Or.inl ⟨hdraft, fun r hr => hid ▸ hnew r hr⟩
  | generated hok report hmem hid htenant =>
    rcases mem_write hr' with rfl | hr'
    · exact Or.inr ⟨report, hmem, rfl, Or.inl ⟨rfl, fun hpast =>
        absurd hpast (he hok report hmem hid htenant)⟩⟩
    · exact Or.inr ⟨r', hr', rfl, Or.inl ⟨rfl, fun _ _ _ => rfl⟩⟩
  | @moved _ move caller reportId notes hmove hok report hmem hid htenant hfrom =>
    rcases mem_write hr' with rfl | hr'
    · refine Or.inr ⟨report, hmem, rfl, Or.inr ⟨move, caller, notes, ?_, hok, htenant, hfrom, rfl,
        fun _ _ => rfl⟩⟩
      exact hid ▸ hmove
    · exact Or.inr ⟨r', hr', rfl, Or.inl ⟨rfl, fun _ _ _ => rfl⟩⟩
  | changed scans engineRuns findings =>
    refine Or.inr ⟨r', hr', rfl, Or.inl ⟨rfl, fun hpast => ?_⟩⟩
    exact content_congr rfl rfl (he r' hr' hpast)

theorem keeps_of_careful (hdb : Consistent db) (he : Careful lib db e) : Keeps lib db e := by
  intro r hr hpast r' hr' hid
  rcases row_step he hr' with ⟨-, hnew⟩ | ⟨r₀, hr₀, hid₀, hrow⟩
  · exact absurd hid.symm (hnew r hr)
  · obtain rfl : r₀ = r := hdb.eq_of_id hr₀ hr (hid₀.trans hid)
    rcases hrow with ⟨-, hsame⟩ | ⟨move, caller, notes, -, -, -, -, -, hsame⟩
    · exact Or.inr (hsame hpast)
    · exact Or.inr hsame

/-- **How a report comes past its review**: it was, or somebody else than its submitter approves
it. -/
theorem past_step (hdb : Consistent db) (he : Careful lib db e)
    (hr' : r' ∈ (step lib db e).reports) (hpast : PastReview r'.status) :
    ∃ r ∈ db.reports, r.id = r'.id ∧ SameContent lib db (step lib db e) r r' ∧
      (PastReview r.status ∨ ∃ caller notes submitter, e = .approve caller r'.id notes ∧
        requireReviewer caller = .ok () ∧ r.tenantId = caller.tenantId ∧ r.status = .inReview ∧
        lastSubmitter db r'.id = some submitter ∧ caller.user ≠ submitter) := by
  rcases row_step he hr' with ⟨hdraft, -⟩ | ⟨r, hr, hid, hrow⟩
  · rw [hdraft] at hpast
    rcases hpast with h | h <;> cases h
  rcases hrow with ⟨hstatus, hsame⟩ | ⟨move, caller, notes, hmove, hok, htenant, hfrom, hto, hsame⟩
  · rw [hstatus] at hpast
    exact ⟨r, hr, hid, hsame hpast, Or.inl hpast⟩
  refine ⟨r, hr, hid, hsame, ?_⟩
  rw [hto] at hpast
  rcases of_move hmove with ⟨-, rfl⟩ | ⟨rfl, rfl⟩ | ⟨-, rfl⟩ | ⟨-, rfl⟩
  · rcases hpast with h | h <;> cases h
  · have hreview : r.status = .inReview := mem_singleton.mp hfrom
    obtain ⟨submitter, hsubmitter⟩ := Option.isSome_iff_exists.mp (hdb.submitted r hr hreview)
    rw [hid] at hsubmitter
    refine Or.inr ⟨caller, notes, submitter, rfl, hok, htenant, hreview, hsubmitter,
      fun hself => ?_⟩
    exact he hok r hr hid htenant hreview (hself ▸ hsubmitter)
  · rcases hpast with h | h <;> cases h
  · exact Or.inl (Or.inl (mem_singleton.mp hfrom))

/-! ### A run -/

/-- **What an export shows** is the content of the report. -/
theorem content_of_export {reader : Identity} {format : Str} {document : Document}
    (hdb : Consistent db) (hr : r ∈ db.reports)
    (h : exportReport lib db reader r.id format = .ok document) :
    document.content = content lib db document.format reader.maxReportFindings r := by
  obtain ⟨report, hget, hdocument⟩ := bind_eq_ok.mp h
  obtain ⟨hmem, hid, -⟩ := of_getOwned hget
  obtain rfl : report = r := hdb.eq_of_id hmem hr hid
  split_ifs at hdocument
  · obtain rfl := Except.ok.inj hdocument
    rfl
  · obtain rfl := Except.ok.inj hdocument
    rfl

/-- **Every report past its review has one**, after one more event. -/
theorem covers_step {es : List Event} (hdb : Consistent db) (he : Careful lib (run lib db es) e)
    (hes : ∀ r ∈ (run lib db es).reports, PastReview r.status →
      ∃ review : Review, review.Covers lib db es r) :
    ∀ r ∈ (run lib db (es ++ [e])).reports, PastReview r.status →
      ∃ review : Review, review.Covers lib db (es ++ [e]) r := by
  have hrun : run lib db (es ++ [e]) = step lib (run lib db es) e := foldl_concat ..
  intro r' hr' hpast
  rw [hrun] at hr'
  obtain ⟨r, hr, hid, hsame, hwas | happroved⟩ := past_step (consistent_run hdb es) he hr' hpast
  · obtain ⟨review, hreview⟩ := hes r hr hwas
    refine ⟨{ review with after := review.after ++ [e] }, ?_, hreview.admitted, hreview.mem,
      hreview.same_id.trans hid, hreview.same_tenant, hreview.inReview, hid ▸ hreview.submitted,
      hreview.independent, fun format limit => ?_⟩
    · rw [hreview.happened, hid, append_assoc]
      rfl
    · rw [hrun, hsame format limit]
      exact hreview.content format limit
  · obtain ⟨caller, notes, submitter, rfl, hok, htenant, hreview, hsubmitter, hother⟩ := happroved
    refine ⟨⟨es, [], caller, notes, submitter, r⟩, rfl, hok, hr, hid, htenant, hreview, hsubmitter,
      hother, fun format limit => ?_⟩
    rw [hrun]
    exact hsame format limit

/-- **What was approved is what is exported.**  In a run in which no content is generated for a
report past its review, what is printed of its findings stays the same, and nobody approves what he
submitted, no event changes the content of such a report, and in every state each of them shows what
somebody other than its submitter approved. -/
theorem reviewed_of_careful (lib : Library) (scans : List Scan) (engineRuns : List EngineRun)
    (findings : List Finding) (es : List Event)
    (h : Along (step lib) (Careful lib) (noReports scans engineRuns findings) es) :
    Along (step lib) (Keeps lib) (noReports scans engineRuns findings) es ∧
      ∀ es', es' <+: es → Reviewed lib (noReports scans engineRuns findings) es' := by
  have hstart := Consistent.noReports scans engineRuns findings
  refine ⟨along_imp (I := Consistent) (fun _ _ => keeps_of_careful) (fun _ _ hdb _ => hdb.step)
    hstart h, ?_⟩
  -- every state of the run, by one more event at the end
  have hcovers : ∀ es', Along (step lib) (Careful lib) (noReports scans engineRuns findings) es' →
      ∀ r ∈ (run lib (noReports scans engineRuns findings) es').reports, PastReview r.status →
        ∃ review : Review, review.Covers lib (noReports scans engineRuns findings) es' r := by
    intro es'
    induction es' using reverseRecOn with
    | nil => exact fun _ r hr => nomatch hr
    | append_singleton es' e ih =>
      intro h
      obtain ⟨h, he, -⟩ := (along_append _ es' [e]).mp h
      exact covers_step hstart he (ih h)
  rintro es' ⟨rest, rfl⟩ r hr hpast
  obtain ⟨review, hreview⟩ := hcovers es' ((along_append _ es' rest).mp h).1 r hr hpast
  refine ⟨review, hreview, fun reader format document hexport => ?_⟩
  rw [content_of_export (consistent_run hstart es') hr hexport]
  exact hreview.content _ _

end Approval

/-! ### Two runs -/

def sampleLibrary : Library where
  runtime := Runtime.ascii
  str := fun value => value.text.getD []
  truthy := fun value => value.text.any fun s => !s.isEmpty
  explain := fun f => ⟨f.title, f.severity, f.category, []⟩
  coverage := fun findings _ => jsonNat findings.length

def analyst : Identity := ⟨"ana", "t", some "analyst", none, false, 2000⟩

def reviewer : Identity := ⟨"rev", "t", some "reviewer", none, false, 2000⟩

def sampleScan : Scan := ⟨"s", "t", "c", none⟩

/-- The content is generated, with an answer of the provider. -/
def regeneration : Event :=
  .generate analyst "r" [("posture", .str "strong")]

/-- A report from its creation to its publication. -/
def publication : List Event :=
  [.create analyst "r" "s" [], .submit analyst "r" [],
    .approve reviewer "r" [], .publish analyst "r" []]

/-- **A run with a review**: the report is published as it was approved. -/
theorem reviewed_of_careful_sample :
    Along (step sampleLibrary) (Keeps sampleLibrary) (noReports [sampleScan] [] []) publication ∧
      ∀ es', es' <+: publication → Reviewed sampleLibrary (noReports [sampleScan] [] []) es' := by
  have hsubmitter : lastSubmitter (run sampleLibrary (noReports [sampleScan] [] [])
      (publication.take 2)) "r" ≠ some reviewer.user := by decide
  exact reviewed_of_careful sampleLibrary [sampleScan] [] [] publication
    ⟨trivial, trivial, fun _ _ _ _ _ _ => hsubmitter, trivial, trivial⟩

/-- **Content that nobody has reviewed**: it is generated after the publication. -/
theorem generated_after_publication :
    ¬ (Along (step sampleLibrary) (Keeps sampleLibrary) (noReports [sampleScan] [] [])
        (publication ++ [regeneration]) ∧
      ∀ es', es' <+: publication ++ [regeneration] →
        Reviewed sampleLibrary (noReports [sampleScan] [] []) es') := by
  rintro ⟨halong, -⟩
  have hkeeps : Keeps sampleLibrary (run sampleLibrary (noReports [sampleScan] [] []) publication)
      regeneration :=
    ((along_append _ publication [regeneration]).mp halong).2.1
  have hbefore : ((run sampleLibrary (noReports [sampleScan] [] []) publication).reports.map
      fun r => (r.id, r.status, (printSummary .html r.summary).posture.isSome)) =
        [("r".toList, .published, false)] := by decide
  have hafter : ((step sampleLibrary (run sampleLibrary (noReports [sampleScan] [] []) publication)
      regeneration).reports.map
      fun r => (r.id, r.status, (printSummary .html r.summary).posture.isSome)) =
        [("r".toList, .published, true)] := by decide
  obtain ⟨r, hr, hrow⟩ := map_eq_singleton_iff.mp hbefore
  obtain ⟨r', hr', hrow'⟩ := map_eq_singleton_iff.mp hafter
  obtain ⟨hid, hstatus, hposture⟩ : r.id = "r" ∧ r.status = .published ∧
      (printSummary .html r.summary).posture.isSome = false := by simpa using hrow
  obtain ⟨hid', hstatus', hposture'⟩ : r'.id = "r" ∧ r'.status = .published ∧
      (printSummary .html r'.summary).posture.isSome = true := by simpa using hrow'
  rcases hkeeps r (hr ▸ mem_singleton_self r) (Or.inr hstatus) r'
    (hr' ▸ mem_singleton_self r') (hid'.trans hid.symm) with hdraft | hsame
  · rw [hstatus'] at hdraft
    cases hdraft
  · have hposture₀ := congrArg (fun c => c.summary.posture.isSome) (hsame .html 0)
    change (printSummary .html r'.summary).posture.isSome =
      (printSummary .html r.summary).posture.isSome at hposture₀
    rw [hposture, hposture'] at hposture₀
    cases hposture₀

end Guardian.Reports

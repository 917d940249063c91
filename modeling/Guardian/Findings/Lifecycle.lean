import Guardian.Python.Text
import Mathlib.Data.Rat.Defs

/-!
# The life of a finding

A scan persists what its engines reported: a finding that the asset already has is overwritten and
moves to the scan, any other is inserted.  A reconciliation then judges every finding of the asset by
what the scan reported and by how its engines ran, and is the only step that moves a status on its
own.
-/

namespace Guardian.Findings

open Python List

/-! ### The tables -/

/-- `FindingStatus`. -/
inductive FindingStatus
  | isOpen
  | triaged
  | confirmed
  | falsePositive
  | acceptedRisk
  | resolved
  deriving DecidableEq

/-- `_OPEN_STATUSES`, and the `_OPEN_STATES` of the deployment gate. -/
def FindingStatus.isOpenStatus : FindingStatus → Bool
  | .isOpen => true
  | .triaged => true
  | .confirmed => true
  | _ => false

/-- The entries of `Finding.location` that a reconciliation reads: the engine if it is a text, and
the rule as a text. -/
structure Location where
  engine : Option Str
  rule : Str
  deriving DecidableEq

/-- The observed fields of a finding, as far as they are read again. -/
structure Sighting where
  title : Str
  category : Str
  severity : Str
  riskScore : ℤ
  epssScore : Option ℚ
  kev : Bool
  location : Location
  deriving DecidableEq

/-- A row of `findings`. -/
structure Finding where
  id : ℕ
  fingerprint : Str
  scanId : ℕ
  seen : Sighting
  status : FindingStatus
  reopenedCount : ℕ
  deriving DecidableEq

/-- The status of an engine run. -/
inductive RunStatus
  | running
  | completed
  | failed
  | skipped
  | deferred
  | blocked
  deriving DecidableEq

/-- `ScanEngineRun`: its status, and whether `tool_versions` says that it ran degraded. -/
structure EngineRun where
  status : RunStatus
  degraded : Bool
  deriving DecidableEq

/-- A scan: its engine runs, and what they reported, by fingerprint. -/
structure Scan where
  id : ℕ
  runs : Str → Option EngineRun
  reports : List (Str × Sighting)

/-- A `FindingEvent`. -/
structure FindingEvent where
  findingId : ℕ
  fingerprint : Str
  fromStatus : FindingStatus
  toStatus : FindingStatus
  deriving DecidableEq

/-- **The findings of an asset**, the ones that were inserted last first, and what has happened to
them. -/
structure Table where
  rows : List Finding
  events : List FindingEvent
  nextId : ℕ

/-! ### Persisting -/

/-- `merge_sighting`. -/
def mergeSighting (existing : Finding) (fresh : Sighting) (scanId : ℕ) : Finding :=
  { existing with seen := fresh, scanId := scanId }

/-- Overwrites the finding that `known` holds for a fingerprint. -/
def updateKnown (fingerprint : Str) (merge : Finding → Finding) : List Finding → List Finding
  | [] => []
  | f :: fs =>
    if f.fingerprint = fingerprint then merge f :: fs else f :: updateKnown fingerprint merge fs

/-- One report of a scan: it is merged into the finding that is known, or inserted. -/
def persistOne (scanId : ℕ) (t : Table) (report : Str × Sighting) : Table :=
  if t.rows.any (·.fingerprint = report.1) then
    { t with rows := updateKnown report.1 (mergeSighting · report.2 scanId) t.rows }
  else
    { t with
      rows := ⟨t.nextId, report.1, scanId, report.2, .isOpen, 0⟩ :: t.rows
      nextId := t.nextId + 1 }

/-- The part of `run_scan` that writes findings. -/
def persist (scan : Scan) (t : Table) : Table := scan.reports.foldl (persistOne scan.id) t

/-! ### Reconciling -/

/-- The verdicts of a reconciliation. -/
inductive Verdict
  | stillPresent
  | resolved
  | notChecked
  | inconclusive
  deriving DecidableEq

/-- `engine_outcome`. -/
def engineOutcome : Option EngineRun → Verdict
  | none => .notChecked
  | some run =>
    if run.status = .failed then .notChecked
    else if run.status ≠ .completed then .notChecked
    else if run.degraded then .inconclusive
    else .resolved

/-- The prefixes of `_engine_key`, in their order. -/
def rulePrefixes : List (Str × Str) :=
  [("taint-", "sast"), ("py-", "sast"), ("js-", "sast"),
    ("image-", "container"), ("iac-", "iac"),
    ("web-check-", "web_checks"), ("service-cve-", "service_cve")]

/-- The categories that `_engine_key` maps to an engine; any other names its engine itself. -/
def categoryEngine (category : Str) : Str :=
  if category = "secret" then "secrets"
  else if category = "vuln-dep" then "sca"
  else if category = "vuln-service" then "service_cve"
  else if category = "insecure-code" then "sast"
  else category

/-- **`_engine_key`.** -/
def engineKey (seen : Sighting) : Str :=
  match seen.location.engine with
  | some (c :: cs) => c :: cs
  | _ =>
    match rulePrefixes.find? fun p => p.1.isPrefixOf seen.location.rule with
    | some p => p.2
    | none => categoryEngine seen.category

/-- What a scan reported, as a reconciliation reads it back: the fingerprints of the findings that
carry its id. -/
def reported (scan : Scan) (t : Table) : List Str :=
  (t.rows.filter (·.scanId = scan.id)).map (·.fingerprint)

/-- `_verdict_for`. -/
def verdictFor (f : Finding) (reported : List Str) (runs : Str → Option EngineRun) : Verdict :=
  if f.fingerprint ∈ reported then .stillPresent else engineOutcome (runs (engineKey f.seen))

/-- `_apply`, on the finding. -/
def applyVerdict (verdict : Verdict) (f : Finding) : Finding :=
  match verdict with
  | .resolved => if f.status.isOpenStatus then { f with status := .resolved } else f
  | .stillPresent =>
    if f.status = .resolved then
      { f with status := .isOpen, reopenedCount := f.reopenedCount + 1 }
    else f
  | _ => f

/-- The event that `_apply` records. -/
def eventOf (verdict : Verdict) (f : Finding) : Option FindingEvent :=
  match verdict with
  | .resolved =>
    if f.status.isOpenStatus then some ⟨f.id, f.fingerprint, f.status, .resolved⟩ else none
  | .stillPresent =>
    if f.status = .resolved then some ⟨f.id, f.fingerprint, .resolved, .isOpen⟩ else none
  | _ => none

/-- **`reconcile_scan`.** -/
def reconcile (scan : Scan) (t : Table) : Table :=
  let seen := reported scan t
  { t with
    rows := t.rows.map fun f => applyVerdict (verdictFor f seen scan.runs) f
    events := t.events ++ t.rows.filterMap fun f => eventOf (verdictFor f seen scan.runs) f }

/-! ### The findings that carry one fingerprint -/

/-- The findings with a fingerprint. -/
def rowsOf (fingerprint : Str) (t : Table) : List Finding :=
  t.rows.filter (·.fingerprint = fingerprint)

/-- What a reconciliation may change of a finding. -/
def Finding.mark (f : Finding) : FindingStatus × ℕ := (f.status, f.reopenedCount)

theorem mem_rowsOf {F : Str} {t : Table} {f : Finding} :
    f ∈ rowsOf F t ↔ f ∈ t.rows ∧ f.fingerprint = F := by
  simp [rowsOf]

theorem filter_updateKnown (F G : Str) (merge : Finding → Finding)
    (hmerge : ∀ f, (merge f).fingerprint = f.fingerprint) (fs : List Finding) :
    (updateKnown F merge fs).filter (·.fingerprint = G) =
      if F = G then (match fs.filter (·.fingerprint = G) with
        | [] => []
        | f :: rest => merge f :: rest)
      else fs.filter (·.fingerprint = G) := by
  induction fs with
  | nil => simp [updateKnown]
  | cons f fs ih =>
    by_cases hf : f.fingerprint = F
    · by_cases hG : F = G
      · simp [updateKnown, hf, hG, hmerge]
      · simp [updateKnown, hf, hG, hmerge]
    · by_cases hG : F = G
      · have hfG : f.fingerprint ≠ G := by rwa [← hG]
        simpa [updateKnown, hf, hG, hfG] using ih
      · simp only [updateKnown, hf, hG, if_false, filter_cons]
        rw [ih, if_neg hG]

theorem rowsOf_persistOne_of_ne {F : Str} {scanId : ℕ} {t : Table} {report : Str × Sighting}
    (h : report.1 ≠ F) : rowsOf F (persistOne scanId t report) = rowsOf F t := by
  unfold persistOne
  split_ifs
  · exact (filter_updateKnown report.1 F (mergeSighting · report.2 scanId) (fun _ => rfl)
      t.rows).trans (if_neg h)
  · simp [rowsOf, h]

theorem any_fingerprint_iff {F : Str} {t : Table} :
    t.rows.any (·.fingerprint = F) = true ↔ rowsOf F t ≠ [] := by
  rw [Ne, rowsOf, filter_eq_nil_iff, any_eq_true]
  push Not
  rfl

theorem rowsOf_persistOne (scanId : ℕ) (t : Table) (report : Str × Sighting) :
    ∃ f, rowsOf report.1 (persistOne scanId t report) = f :: (rowsOf report.1 t).tail ∧
      f.scanId = scanId ∧ f.seen = report.2 ∧
      f.mark = ((rowsOf report.1 t).head?.map Finding.mark).getD (.isOpen, 0) := by
  unfold persistOne
  split_ifs with hknown
  · rcases hrows : rowsOf report.1 t with _ | ⟨g, gs⟩
    · exact absurd hrows (any_fingerprint_iff.mp hknown)
    · refine ⟨mergeSighting g report.2 scanId, ?_, rfl, rfl, rfl⟩
      have := filter_updateKnown report.1 report.1 (mergeSighting · report.2 scanId)
        (fun _ => rfl) t.rows
      rw [if_pos rfl] at this
      simp only [rowsOf] at hrows
      rw [hrows] at this
      exact this
  · have hnil : rowsOf report.1 t = [] := by
      by_contra hne
      exact hknown (any_fingerprint_iff.mpr hne)
    refine ⟨⟨t.nextId, report.1, scanId, report.2, .isOpen, 0⟩, ?_, rfl, rfl, ?_⟩
    · rw [hnil]
      simp only [rowsOf] at hnil
      simp [rowsOf, hnil]
    · rw [hnil]
      rfl

theorem rowsOf_persist_of_notMem {F : Str} {scan : Scan} {t : Table}
    (h : F ∉ scan.reports.map Prod.fst) : rowsOf F (persist scan t) = rowsOf F t := by
  obtain ⟨id, runs, reports⟩ := scan
  simp only [persist] at h ⊢
  induction reports generalizing t with
  | nil => rfl
  | cons r rs ih =>
    rw [map_cons, mem_cons, not_or] at h
    rw [foldl_cons, ih h.2]
    exact rowsOf_persistOne_of_ne (Ne.symm h.1)

/-- **A scan that reports a fingerprint** moves one finding that carries it to itself, which it
inserts if there is none; statuses stay. -/
theorem rowsOf_persist {F : Str} {scan : Scan} {t : Table} (h : F ∈ scan.reports.map Prod.fst) :
    ∃ f, rowsOf F (persist scan t) = f :: (rowsOf F t).tail ∧ f.scanId = scan.id ∧
      f.mark = ((rowsOf F t).head?.map Finding.mark).getD (.isOpen, 0) := by
  obtain ⟨id, runs, reports⟩ := scan
  simp only [persist] at h ⊢
  induction reports generalizing t with
  | nil => cases h
  | cons r rs ih =>
    rw [foldl_cons]
    by_cases hr : r.1 = F
    · subst hr
      obtain ⟨f, hrows, hid, -, hmark⟩ := rowsOf_persistOne id t r
      by_cases hrs : r.1 ∈ rs.map Prod.fst
      · obtain ⟨g, hg, hgid, hgmark⟩ := ih (t := persistOne id t r) hrs
        refine ⟨g, ?_, hgid, ?_⟩
        · rw [hg, hrows]
          rfl
        · rw [hgmark, hrows]
          exact hmark
      · refine ⟨f, ?_, hid, hmark⟩
        have : rowsOf r.1 (persist ⟨id, runs, rs⟩ (persistOne id t r)) = _ :=
          rowsOf_persist_of_notMem hrs
        rw [← hrows]
        exact this
    · have hrs : F ∈ rs.map Prod.fst := by
        rcases mem_cons.mp h with heq | hmem
        · exact absurd heq.symm hr
        · exact hmem
      obtain ⟨g, hg, hgid, hgmark⟩ := ih (t := persistOne id t r) hrs
      rw [rowsOf_persistOne_of_ne hr] at hg hgmark
      exact ⟨g, hg, hgid, hgmark⟩

/-- **A verdict** changes at most the status and the count of reopenings. -/
theorem applyVerdict_frame (v : Verdict) (f : Finding) :
    ∃ status count, applyVerdict v f = { f with status := status, reopenedCount := count } := by
  unfold applyVerdict
  split
  · split_ifs
    · exact ⟨_, _, rfl⟩
    · exact ⟨f.status, _, rfl⟩
  · split_ifs
    · exact ⟨_, _, rfl⟩
    · exact ⟨f.status, _, rfl⟩
  · exact ⟨f.status, _, rfl⟩

theorem applyVerdict_fingerprint (v : Verdict) (f : Finding) :
    (applyVerdict v f).fingerprint = f.fingerprint := by
  obtain ⟨status, count, h⟩ := applyVerdict_frame v f
  rw [h]

theorem applyVerdict_scanId (v : Verdict) (f : Finding) : (applyVerdict v f).scanId = f.scanId := by
  obtain ⟨status, count, h⟩ := applyVerdict_frame v f
  rw [h]

theorem applyVerdict_seen (v : Verdict) (f : Finding) : (applyVerdict v f).seen = f.seen := by
  obtain ⟨status, count, h⟩ := applyVerdict_frame v f
  rw [h]

theorem rowsOf_reconcile (F : Str) (scan : Scan) (t : Table) :
    rowsOf F (reconcile scan t) =
      (rowsOf F t).map fun f => applyVerdict (verdictFor f (reported scan t) scan.runs) f := by
  show (t.rows.map _).filter _ = (t.rows.filter _).map _
  rw [filter_map]
  congr 1
  refine filter_congr fun f _ => ?_
  simp only [Function.comp_apply, applyVerdict_fingerprint]

theorem mem_reported {F : Str} {scan : Scan} {t : Table} :
    F ∈ reported scan t ↔ ∃ f ∈ rowsOf F t, f.scanId = scan.id := by
  simp only [reported, mem_map, mem_filter, decide_eq_true_eq, mem_rowsOf]
  constructor
  · rintro ⟨f, ⟨hf, hid⟩, rfl⟩
    exact ⟨f, ⟨hf, rfl⟩, hid⟩
  · rintro ⟨f, ⟨hf, rfl⟩, hid⟩
    exact ⟨f, ⟨hf, hid⟩, rfl⟩

/-! ### A sample -/

def sampleSighting : Sighting :=
  ⟨"Hardcoded secret: AWS Access Key ID", "secret", "critical", 90, none, false,
    ⟨none, "AWS Access Key ID"⟩⟩

def sampleScan (id : ℕ) : Scan where
  id := id
  runs key := if key = "secrets" then some ⟨.completed, false⟩ else none
  reports := [("f", sampleSighting)]

def sampleTable : Table := ⟨[⟨0, "f", 0, sampleSighting, .isOpen, 0⟩], [], 1⟩

end Guardian.Findings

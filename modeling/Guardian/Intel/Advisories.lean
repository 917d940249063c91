import Guardian.Order.Owned
import Guardian.Python.Text
import Mathlib.Data.List.Nodup

/-!
# Advisories of the knowledge base

`upsertVulnerabilities` stores the records of a feed: a record of an advisory that is not in the
table makes a row, any other one is merged into the row.  `finalRow_perm_iff` says when the order of
the sources does not count.
-/

namespace Guardian.Intel

open Python Guardian.Order List

variable (R : Runtime)

/-! ### Records and rows -/

/-- An affected package: its identity, the spelling of the feed where it differs, and the other
keys of the dictionary. -/
structure Package where
  package : Str
  ecosystem : Str
  packageDisplay : Option Str
  ecosystemDisplay : Option Str
  others : Str
  deriving DecidableEq

/-- `NormalizedVuln`.  `none` among the packages is an entry that is no dictionary; the score is in
tenths, as its column keeps it. -/
structure NormalizedVuln where
  externalId : Str
  source : Str
  summary : Str
  details : Str
  cweIds : List Str
  cvssBase : Option ℕ
  cvssVector : Option Str
  severity : Option Str
  affected : List (Option Package)
  cpeConfigurations : List Str
  references : List Str
  publishedAt : Option ℤ
  modifiedAt : Option ℤ
  deriving DecidableEq

/-- `Vulnerability`. -/
structure Vulnerability where
  externalId : Str
  source : Str
  summary : Str
  details : Str
  cweIds : List Str
  cvssVector : Option Str
  cvssBase : Option ℕ
  severity : Option Str
  affected : List Package
  cpeConfigurations : List Str
  references : List Str
  publishedAt : Option ℤ
  modifiedAt : Option ℤ
  deriving DecidableEq

/-- One row of `normalize_affected`. -/
def normalizePackage (entry : Package) : Package :=
  { entry with
    package := lower R entry.package
    ecosystem := lower R entry.ecosystem
    packageDisplay :=
      if entry.package ≠ lower R entry.package then some entry.package else entry.packageDisplay
    ecosystemDisplay :=
      if entry.ecosystem ≠ lower R entry.ecosystem then some entry.ecosystem
      else entry.ecosystemDisplay }

/-- `normalize_affected`. -/
def normalizeAffected (affected : List (Option Package)) : List Package :=
  affected.filterMap (·.map (normalizePackage R))

/-- `_new_vulnerability`. -/
def newVulnerability (record : NormalizedVuln) : Vulnerability where
  externalId := record.externalId
  source := record.source
  summary := record.summary
  details := record.details
  cweIds := record.cweIds
  cvssVector := record.cvssVector
  cvssBase := record.cvssBase
  severity := record.severity
  affected := normalizeAffected R record.affected
  cpeConfigurations := record.cpeConfigurations
  references := record.references
  publishedAt := record.publishedAt
  modifiedAt := record.modifiedAt

/-! ### Merging -/

/-- The values that are left alone: `None`, an empty text, an empty list. -/
class Blank (V : Type) where
  blank : V → Prop
  decBlank : DecidablePred blank

instance {V : Type} [Blank V] : DecidablePred (Blank.blank (V := V)) := Blank.decBlank

instance {A : Type} : Blank (List A) := ⟨(· = []), fun _ => decidable_of_iff _ List.isEmpty_iff⟩

instance : Blank (Option Str) :=
  ⟨fun o => o.getD [] = [], fun o => inferInstanceAs (Decidable (o.getD [] = []))⟩

instance : Blank (Option ℕ) := ⟨(· = none), fun o => inferInstanceAs (Decidable (o = none))⟩

instance : Blank (Option ℤ) := ⟨(· = none), fun o => inferInstanceAs (Decidable (o = none))⟩

/-- `set_if`: the new value of a field. -/
def setIf {V : Type} [Blank V] (overwrite : Bool) (current value : V) : V :=
  if Blank.blank value then current
  else if Blank.blank current ∨ overwrite = true then value else current

def isNvd (record : NormalizedVuln) : Bool := record.source == "nvd"

def isOsv (record : NormalizedVuln) : Bool := record.source == "osv"

/-- `_merge`: the row with a record folded in. -/
def merge (existing : Vulnerability) (record : NormalizedVuln) : Vulnerability :=
  { existing with
    summary := setIf false existing.summary record.summary
    details := setIf false existing.details record.details
    cweIds := setIf false existing.cweIds record.cweIds
    cvssVector := setIf (isNvd record) existing.cvssVector record.cvssVector
    cvssBase := setIf (isNvd record) existing.cvssBase record.cvssBase
    severity := setIf (isNvd record) existing.severity record.severity
    affected := setIf (isOsv record) existing.affected (normalizeAffected R record.affected)
    cpeConfigurations :=
      setIf (isNvd record) existing.cpeConfigurations record.cpeConfigurations
    references := setIf false existing.references record.references
    publishedAt := setIf false existing.publishedAt record.publishedAt
    modifiedAt := if record.modifiedAt = none then existing.modifiedAt else record.modifiedAt }

/-- What `_merge` returns: whether anything changed. -/
def mergeChanged (existing : Vulnerability) (record : NormalizedVuln) : Bool :=
  decide (merge R existing record ≠ existing)

/-! ### The table -/

/-- A session: the rows that the database has, with what became of them in the session, and the
rows that are not flushed yet. -/
structure Session where
  rows : List Vulnerability
  pending : List Vulnerability

/-- What `upsert_vulnerabilities` counts. -/
structure Counts where
  created : ℕ
  updated : ℕ

/-- One record.  The query does not flush, so it sees the rows of the database only. -/
def upsertOne (s : Session × Counts) (record : NormalizedVuln) : Session × Counts :=
  if record.externalId = [] then s
  else
    match s.1.rows.find? fun v => v.externalId == record.externalId with
    | none =>
      ({ s.1 with pending := s.1.pending ++ [newVulnerability R record] },
        { s.2 with created := s.2.created + 1 })
    | some existing =>
      ({ s.1 with rows := s.1.rows.map fun v =>
          if v.externalId = record.externalId then merge R v record else v },
        if mergeChanged R existing record then { s.2 with updated := s.2.updated + 1 } else s.2)

/-- `upsert_vulnerabilities`. -/
def upsertVulnerabilities (s : Session) (records : List NormalizedVuln) : Session × Counts :=
  records.foldl (upsertOne R) (s, ⟨0, 0⟩)

/-- The table after a call of its own for a record. -/
def ingest (table : List Vulnerability) (record : NormalizedVuln) : List Vulnerability :=
  let s := (upsertVulnerabilities R ⟨table, []⟩ [record]).1
  s.rows ++ s.pending

/-- The row of an advisory after records were ingested one by one into an empty table. -/
def finalRow (externalId : Str) (records : List NormalizedVuln) : Option Vulnerability :=
  (records.foldl (ingest R) []).find? fun v => v.externalId == externalId

/-! ### Fields with an owner -/

/-- **A field of the rows**: how it is read, what a record contributes, and which source owns it. -/
structure Field (V : Type) [Blank V] where
  get : Vulnerability → V
  val : NormalizedVuln → V
  owner : NormalizedVuln → Bool
  get_new : ∀ record, get (newVulnerability R record) = val record
  get_merge : ∀ v record, get (merge R v record) = setIf (owner record) (get v) (val record)
  owner_source : ∀ r r', owner r = true → owner r' = true → r.source = r'.source

theorem isNvd_source (r r' : NormalizedVuln) (h : isNvd r = true) (h' : isNvd r' = true) :
    r.source = r'.source := by
  rw [isNvd, beq_iff_eq] at h h'
  rw [h, h']

theorem isOsv_source (r r' : NormalizedVuln) (h : isOsv r = true) (h' : isOsv r' = true) :
    r.source = r'.source := by
  rw [isOsv, beq_iff_eq] at h h'
  rw [h, h']

namespace Field

/-- `cvss_vector`, owned by NVD. -/
def cvssVector : Field R (Option Str) :=
  ⟨(·.cvssVector), (·.cvssVector), isNvd, fun _ => rfl, fun _ _ => rfl, isNvd_source⟩

/-- `cvss_base`, owned by NVD. -/
def cvssBase : Field R (Option ℕ) :=
  ⟨(·.cvssBase), (·.cvssBase), isNvd, fun _ => rfl, fun _ _ => rfl, isNvd_source⟩

/-- `severity`, owned by NVD. -/
def severity : Field R (Option Str) :=
  ⟨(·.severity), (·.severity), isNvd, fun _ => rfl, fun _ _ => rfl, isNvd_source⟩

/-- `cwe_ids`, owned by no source. -/
def cweIds : Field R (List Str) :=
  ⟨(·.cweIds), (·.cweIds), fun _ => false, fun _ => rfl, fun _ _ => rfl, fun _ _ h => by cases h⟩

/-- `affected`, owned by OSV. -/
def affected : Field R (List Package) :=
  ⟨(·.affected), fun r => normalizeAffected R r.affected, isOsv, fun _ => rfl, fun _ _ => rfl,
    isOsv_source⟩

/-- `cpe_configurations`, owned by NVD. -/
def cpeConfigurations : Field R (List Str) :=
  ⟨(·.cpeConfigurations), (·.cpeConfigurations), isNvd, fun _ => rfl, fun _ _ => rfl, isNvd_source⟩

variable {R} {V : Type} [Blank V] (F : Field R V)

/-- The order in which the sources are ingested does not matter for the field. -/
def OrderFree (records : List NormalizedVuln) : Prop :=
  Order.OrderFree F.val Blank.blank (F.owner · = true) records

theorem get_foldl_merge (records : List NormalizedVuln) (v : Vulnerability) :
    F.get (records.foldl (merge R) v) =
      records.foldl (contribute F.val Blank.blank (F.owner · = true)) (F.get v) := by
  induction records generalizing v with
  | nil => rfl
  | cons r records ih =>
    rw [foldl_cons, foldl_cons, ih, F.get_merge]
    rfl

end Field

variable {R}

/-! ### The row of an advisory -/

@[simp] theorem merge_externalId (v : Vulnerability) (record : NormalizedVuln) :
    (merge R v record).externalId = v.externalId := rfl

theorem ingest_nil {record : NormalizedVuln} (h : record.externalId ≠ []) :
    ingest R [] record = [newVulnerability R record] := by
  simp [ingest, upsertVulnerabilities, upsertOne, h]

theorem ingest_single {v : Vulnerability} {record : NormalizedVuln} (h : record.externalId ≠ [])
    (hv : v.externalId = record.externalId) : ingest R [v] record = [merge R v record] := by
  simp [ingest, upsertVulnerabilities, upsertOne, h, hv]

theorem foldl_ingest {id : Str} (hid : id ≠ []) {records : List NormalizedVuln}
    (hrecords : ∀ r ∈ records, r.externalId = id) {v : Vulnerability} (hv : v.externalId = id) :
    records.foldl (ingest R) [v] = [records.foldl (merge R) v] := by
  induction records generalizing v with
  | nil => rfl
  | cons r records ih =>
    have hr := hrecords r (by simp)
    rw [foldl_cons, foldl_cons, ingest_single (hr ▸ hid) (hv.trans hr.symm)]
    exact ih (fun r hr => hrecords r (by simp [hr])) hv

theorem foldl_merge_externalId (records : List NormalizedVuln) (v : Vulnerability) :
    (records.foldl (merge R) v).externalId = v.externalId := by
  induction records generalizing v with
  | nil => rfl
  | cons r records ih => rw [foldl_cons, ih, merge_externalId]

/-- **The final row**: the first record makes it, the others are merged into it. -/
theorem finalRow_cons {id : Str} (hid : id ≠ []) {record : NormalizedVuln}
    {records : List NormalizedVuln} (h : ∀ r ∈ record :: records, r.externalId = id) :
    finalRow R id (record :: records) =
      some (records.foldl (merge R) (newVulnerability R record)) := by
  have hr := h record (by simp)
  have hnew : (newVulnerability R record).externalId = id := hr
  rw [finalRow, foldl_cons, ingest_nil (hr ▸ hid),
    foldl_ingest hid (fun r hr => h r (by simp [hr])) hnew]
  simp [foldl_merge_externalId, hnew]

/-- **A field of the final row** is settled by the records. -/
theorem settled_finalRow {V : Type} [Blank V] (F : Field R V) {id : Str} (hid : id ≠ [])
    {records : List NormalizedVuln} (h : ∀ r ∈ records, r.externalId = id) :
    (finalRow R id records).map F.get =
      settled F.val Blank.blank (F.owner · = true) records := by
  cases records with
  | nil => rfl
  | cons r records =>
    rw [finalRow_cons hid h, Option.map_some, F.get_foldl_merge, F.get_new]
    rfl

/-! ### The order of the sources -/

/-- **The records of one advisory**, one for each source. -/
structure OneAdvisory where
  externalId : Str
  records : List NormalizedVuln
  externalId_ne : externalId ≠ []
  same : ∀ r ∈ records, r.externalId = externalId
  sources : (records.map (·.source)).Nodup

/-- The fields that decide what is vulnerable and how much. -/
def Vulnerability.assessed (v : Vulnerability) :
    Option Str × Option ℕ × Option Str × List Str × List Package × List Str :=
  (v.cvssVector, v.cvssBase, v.severity, v.cweIds, v.affected, v.cpeConfigurations)

variable (R) in
/-- Every order of the sources leads to the same field. -/
def Field.Agrees {V : Type} [Blank V] (F : Field R V) (a : OneAdvisory) : Prop :=
  ∀ order, order.Perm a.records →
    (finalRow R a.externalId order).map F.get = (finalRow R a.externalId a.records).map F.get

theorem Field.agrees_iff {V : Type} [Blank V] (F : Field R V) (a : OneAdvisory) :
    F.Agrees R a ↔ F.OrderFree a.records := by
  have hunique : ∀ r ∈ a.records, ∀ r' ∈ a.records, F.owner r = true → F.owner r' = true →
      r = r' := fun r hr r' hr' ho ho' =>
    inj_on_of_nodup_map a.sources hr hr' (F.owner_source r r' ho ho')
  unfold Field.Agrees Field.OrderFree
  rw [← settled_perm_iff hunique]
  refine forall₂_congr fun order hperm => ?_
  rw [settled_finalRow F a.externalId_ne fun r hr => a.same r (hperm.mem_iff.mp hr),
    settled_finalRow F a.externalId_ne a.same]

theorem map_assessed_iff (o o' : Option Vulnerability) :
    o.map Vulnerability.assessed = o'.map Vulnerability.assessed ↔
      o.map (·.cvssVector) = o'.map (·.cvssVector) ∧ o.map (·.cvssBase) = o'.map (·.cvssBase) ∧
        o.map (·.severity) = o'.map (·.severity) ∧ o.map (·.cweIds) = o'.map (·.cweIds) ∧
        o.map (·.affected) = o'.map (·.affected) ∧
        o.map (·.cpeConfigurations) = o'.map (·.cpeConfigurations) := by
  rcases o with _ | v <;> rcases o' with _ | v' <;> simp [Vulnerability.assessed]

/-- **The final row does not depend on the order of the sources** exactly if for each field its
owner has a value, or all that have one have the same. -/
theorem finalRow_perm_iff (a : OneAdvisory) :
    (∀ order, order.Perm a.records →
        (finalRow R a.externalId order).map Vulnerability.assessed =
          (finalRow R a.externalId a.records).map Vulnerability.assessed) ↔
      (Field.cvssVector R).OrderFree a.records ∧ (Field.cvssBase R).OrderFree a.records ∧
        (Field.severity R).OrderFree a.records ∧ (Field.cweIds R).OrderFree a.records ∧
        (Field.affected R).OrderFree a.records ∧
        (Field.cpeConfigurations R).OrderFree a.records := by
  simp only [map_assessed_iff, forall_and, ← Field.agrees_iff]
  rfl

/-- Two records of one advisory that say different weaknesses. -/
def weaknessRecord (source weakness : String) : NormalizedVuln :=
  ⟨"CVE-2024-1234", source.toList, [], [], [weakness.toList], none, none, none, [], [], [],
    none, none⟩

/-- The two as an advisory. -/
def twoWeaknesses : OneAdvisory where
  externalId := "CVE-2024-1234"
  records := [weaknessRecord "nvd" "CWE-79", weaknessRecord "osv" "CWE-80"]
  externalId_ne := by decide
  same := by decide
  sources := by decide

/-- **The weaknesses are those of the source that comes first.** -/
theorem weakness_order : ¬ ∀ order, order.Perm twoWeaknesses.records →
    (finalRow .ascii twoWeaknesses.externalId order).map Vulnerability.assessed =
      (finalRow .ascii twoWeaknesses.externalId twoWeaknesses.records).map
        Vulnerability.assessed := by
  intro h
  have hswap := h twoWeaknesses.records.reverse (reverse_perm _)
  have hcwe := congrArg (Option.map fun fields => fields.2.2.2.1) hswap
  revert hcwe
  decide

end Guardian.Intel

import Guardian.Correlation.Persist
import Guardian.Correlation.Rules
import Guardian.Order.Overlay

/-!
# A run over the tables

What a run reads, writes and commits.  The session does not flush by itself: the rows of new members
wait until the row of a new group is flushed, or until the end.  A flush fails where two rows have one
key, and a group is not deleted while a finding points to it; then nothing of the run is kept.
-/

namespace Guardian.Correlation

open Python Findings Guardian.Order

/-! ### The tables -/

/-- A row of `findings`: what the rules read, and what a run reads and writes besides. -/
structure FindingRow where
  finding : Finding
  tenantId : Uuid
  status : Str
  correlationId : Option ℕ

/-- The key of a row of `finding_correlation_members`. -/
def FindingCorrelationMember.key (r : FindingCorrelationMember) : ℕ × Uuid :=
  (r.correlationId, r.findingId)

/-- **The tables.**  Correlations stand with their ids, of which `nextId` is the next one that is
generated. -/
structure Database where
  findings : List FindingRow
  correlations : List (ℕ × FindingCorrelation)
  members : List FindingCorrelationMember
  nextId : ℕ

/-- **The constraints of the tables**: keys, `uq_correlation_tenant_fingerprint`, and the foreign
keys of members and findings. -/
structure Database.Valid (db : Database) : Prop where
  nodup_findings : (db.findings.map (·.finding.id)).Nodup
  nodup_ids : (db.correlations.map Prod.fst).Nodup
  nodup_fingerprints : (db.correlations.map fun r => (r.2.tenantId, r.2.fingerprint)).Nodup
  nodup_keys : (db.members.map (·.key)).Nodup
  known_members : ∀ r ∈ db.members, r.correlationId ∈ db.correlations.map Prod.fst
  known_pointers : ∀ f ∈ db.findings, ∀ id ∈ f.correlationId, id ∈ db.correlations.map Prod.fst
  lt_nextId : ∀ r ∈ db.correlations, r.1 < db.nextId

/-- **A session**: the tables as it sees them, and the new members that it has not flushed. -/
structure Session where
  db : Database
  pending : List FindingCorrelationMember

/-- `session.flush`, which fails where two members have one key. -/
def Session.flush (s : Session) : Option Session :=
  if ((s.db.members ++ s.pending).map (·.key)).Nodup then
    some { db := { s.db with members := s.db.members ++ s.pending }, pending := [] }
  else none

/-! ### Groups -/

section Persist
variable (digest : Str → Str) (tenant : Uuid)

/-- The row is the one that a group finds. -/
def Group.Finds (g : Group) (row : FindingCorrelation) : Prop :=
  row.tenantId = tenant ∧ row.fingerprint = g.fingerprint digest

instance (g : Group) (row : FindingCorrelation) : Decidable (g.Finds digest tenant row) := by
  unfold Group.Finds; infer_instance

/-- The id of the row that a group finds. -/
def Group.existing (g : Group) (db : Database) : Option ℕ :=
  (db.correlations.find? fun r => g.Finds digest tenant r.2).map Prod.fst

/-- What a group with the id writes over the row of a group. -/
def Group.writeRow (g : Group) (id : ℕ) (r : ℕ × FindingCorrelation) : ℕ × FindingCorrelation :=
  if r.1 = id then (r.1, g.refresh r.2) else r

/-- What a group writes over the row of one of its members. -/
def Group.refreshMember (g : Group) (r : FindingCorrelationMember) : FindingCorrelationMember :=
  g.memberRow r.tenantId r.correlationId r.findingId

/-- What a group with the id writes over the row of a member. -/
def Group.writeListed (g : Group) (id : ℕ) (r : FindingCorrelationMember) :
    FindingCorrelationMember :=
  if r.correlationId = id ∧ r.findingId ∈ g.members then g.refreshMember r else r

/-- What a group with the id writes over the row of a finding. -/
def Group.writePointer (g : Group) (id : ℕ) (f : FindingRow) : FindingRow :=
  if f.finding.id ∈ g.members then { f with correlationId := some id } else f

/-- `_persist`, up to the id of the row: a new row is flushed at once. -/
def Session.upsert (g : Group) (s : Session) : Option (ℕ × Session) :=
  match g.existing digest tenant s.db with
  | none =>
    let correlations := s.db.correlations ++ [(s.db.nextId, g.row digest tenant)]
    (Session.flush { s with db := { s.db with correlations, nextId := s.db.nextId + 1 } }).map
      fun s' => (s.db.nextId, s')
  | some id =>
    some (id, { s with db := { s.db with correlations := s.db.correlations.map (g.writeRow id) } })

/-- `_persist`, from there on: the rows of the members, and the pointers to the row. -/
def Session.list (g : Group) (id : ℕ) (s : Session) : Session :=
  let existing := (s.db.members.filter fun r => r.correlationId = id).map (·.findingId)
  { db := { s.db with
      findings := s.db.findings.map (g.writePointer id)
      members := s.db.members.map (g.writeListed id) }
    pending := s.pending ++ (g.members.filter (· ∉ existing)).map (g.memberRow tenant id) }

/-- **`_persist`**, in a session. -/
def Session.persist (g : Group) (s : Session) : Option (ℕ × Session) :=
  (s.upsert digest tenant g).map fun p => (p.1, p.2.list tenant g p.1)

/-- The groups of a run one after the other, each with the id of its row. -/
def Session.persistAll : List Group → Session → Option (List (Group × ℕ) × Session)
  | [], s => some ([], s)
  | g :: gs, s =>
    match s.persist digest tenant g with
    | none => none
    | some (id, s') =>
      (Session.persistAll gs s').map fun p => ((g, id) :: p.1, p.2)

end Persist

/-! ### Scopes -/

/-- **The scope of a run**: a tenant, or one of its customers. -/
structure Scope where
  tenant : Uuid
  customer : Option Uuid

/-- The predicates on the tenant and the customer. -/
def Scope.Includes (scope : Scope) (tenantId customerId : Uuid) : Prop :=
  tenantId = scope.tenant ∧ ∀ c ∈ scope.customer, customerId = c

instance (scope : Scope) (tenantId customerId : Uuid) :
    Decidable (scope.Includes tenantId customerId) := by
  unfold Scope.Includes; infer_instance

variable (scope : Scope)

def FindingRow.In (f : FindingRow) : Prop := scope.Includes f.tenantId f.finding.customerId

def FindingCorrelation.In (row : FindingCorrelation) : Prop :=
  scope.Includes row.tenantId row.customerId

instance (f : FindingRow) : Decidable (f.In scope) := by
  unfold FindingRow.In; infer_instance

instance (row : FindingCorrelation) : Decidable (row.In scope) := by
  unfold FindingCorrelation.In; infer_instance

/-- The pointer of a finding, unless it is stale. -/
def FindingRow.clear (ids : List ℕ) (f : FindingRow) : FindingRow :=
  if f.In scope ∧ ∃ id ∈ f.correlationId, id ∉ ids then { f with correlationId := none } else f

/-- The ids of the groups in scope that the run did not produce. -/
def Database.stale (db : Database) (ids : List ℕ) : List ℕ :=
  (db.correlations.filter fun r => r.2.In scope ∧ r.1 ∉ ids).map Prod.fst

/-- **`_reconcile`**: no group is deleted to which a finding points. -/
def Session.reconcile (ids : List ℕ) (s : Session) : Option Session :=
  let findings := s.db.findings.map (FindingRow.clear scope ids)
  let removed := s.db.stale scope ids
  if ∃ f ∈ findings, ∃ id ∈ f.correlationId, id ∈ removed then none
  else
    some { s with db := { s.db with
      findings
      correlations := s.db.correlations.filter fun r => ¬ (r.2.In scope ∧ r.1 ∉ ids)
      members := s.db.members.filter fun r => r.correlationId ∉ removed } }

/-- `MAX_FINDINGS`. -/
def maxFindings : ℕ := 20000

/-- The findings that the query of a run asks for. -/
def Database.eligible (db : Database) : List Finding :=
  (db.findings.filter fun f => f.In scope ∧
    f.status ∈ ["open".toList, "triaged".toList, "confirmed".toList]).map (·.finding)

/-- The findings are some that the query may answer with, in some order: as many as it asks for, up
to its limit. -/
def Database.Answers (db : Database) (fs : List Finding) : Prop :=
  fs.Subperm (db.eligible scope) ∧ fs.length = min maxFindings (db.eligible scope).length

/-- **`correlate_tenant`**, for the findings that its query answers with: the groups that it
produces with the ids of their rows, and the tables that it commits. -/
def correlateTenant (R : Runtime) (digest : Str → Str) (fs : List Finding) (db : Database) :
    Option (List (Group × ℕ) × Database) :=
  match Session.persistAll digest scope.tenant (correlate R fs) ⟨db, []⟩ with
  | none => none
  | some (produced, s) =>
    (s.reconcile scope (produced.map Prod.snd)).bind fun s' =>
      s'.flush.map fun s'' => (produced, s''.db)

/-! ### What a run leaves behind -/

/-- **Reconciled tables**: the pointers and the groups in scope are those of the run, and nothing
outside the scope has changed. -/
structure Reconciled (digest : Str → Str) (db db' : Database) (produced : List (Group × ℕ)) :
    Prop where
  pointers : ∀ f ∈ db'.findings, f.In scope → ∀ id ∈ f.correlationId,
    ∃ g, (g, id) ∈ produced ∧ f.finding.id ∈ g.members ∧
      (id, f.finding.id) ∈ db'.members.map (·.key)
  correlations : ∀ r ∈ db'.correlations, r.2.In scope →
    ∃ g, (g, r.1) ∈ produced ∧ r.2.fingerprint = g.fingerprint digest
  findings_outside : (db'.findings.filter fun f => ¬ f.In scope) =
    db.findings.filter fun f => ¬ f.In scope
  correlations_outside : (db'.correlations.filter fun r => ¬ r.2.In scope) =
    db.correlations.filter fun r => ¬ r.2.In scope
  members_outside : ∀ r ∈ db.correlations, ¬ r.2.In scope →
    (db'.members.filter fun m => m.correlationId = r.1) =
      db.members.filter fun m => m.correlationId = r.1

section Conditions
variable (digest : Str → Str)

/-- Some of the groups has the fingerprint and the member. -/
def Named (gs : List Group) (fingerprint : Str) (m : Uuid) : Prop :=
  ∃ g ∈ gs, g.fingerprint digest = fingerprint ∧ m ∈ g.members

/-- The group comes with a fingerprint that neither the tenant's rows nor the groups before it
have. -/
def Opens (tenant : Uuid) (db : Database) (before : List Group) (g : Group) : Prop :=
  (∀ r ∈ db.correlations, ¬ g.Finds digest tenant r.2) ∧
    ∀ h ∈ before, h.fingerprint digest ≠ g.fingerprint digest

/-- A group that came with a new fingerprint since has had the member flushed. -/
def Flushed (tenant : Uuid) (db : Database) (before : List Group) (fingerprint : Str) (m : Uuid) :
    Prop :=
  ∃ earlier k later, before = earlier ++ k :: later ∧ Opens digest tenant db earlier k ∧
    Named digest earlier fingerprint m

/-- **No member is added twice**: one that a group before named under the same fingerprint has a row
already, or has been flushed. -/
def AddsOnce (tenant : Uuid) (db : Database) (before : List Group) (g : Group) : Prop :=
  ∀ m ∈ g.members, Named digest before (g.fingerprint digest) m →
    (∃ r ∈ db.correlations, g.Finds digest tenant r.2 ∧ (r.1, m) ∈ db.members.map (·.key)) ∨
      Flushed digest tenant db before (g.fingerprint digest) m

/-- **When a run reconciles**: no member is added twice; no finding outside the scope points to a
group in scope that is not produced; a group outside the scope with a fingerprint of the run shows
already, with its members, what the last of these groups says; and a finding in scope that points to
such a group of the tenant, inside the scope or outside, is a member of a group of the run. -/
structure Reconcilable (gs : List Group) (db : Database) : Prop where
  adds : ∀ before g after, gs = before ++ g :: after → AddsOnce digest scope.tenant db before g
  released : ∀ f ∈ db.findings, ¬ f.In scope → ∀ r ∈ db.correlations, r.1 ∈ f.correlationId →
    r.2.In scope → ∃ g ∈ gs, g.Finds digest scope.tenant r.2
  shown : ∀ r ∈ db.correlations, ¬ r.2.In scope →
    ∀ g ∈ latest (fun g => g.Finds digest scope.tenant r.2) gs, g.refresh r.2 = r.2
  listed : ∀ r ∈ db.correlations, ¬ r.2.In scope → ∀ m,
    ∀ g ∈ latest (fun g => g.Finds digest scope.tenant r.2 ∧ m ∈ g.members) gs,
      ∃ row ∈ db.members, row.key = (r.1, m) ∧ g.refreshMember row = row
  grouped : ∀ f ∈ db.findings, f.In scope → ∀ r ∈ db.correlations, r.1 ∈ f.correlationId →
    (∃ g ∈ gs, g.Finds digest scope.tenant r.2) → ∃ g ∈ gs, f.finding.id ∈ g.members

end Conditions

end Guardian.Correlation

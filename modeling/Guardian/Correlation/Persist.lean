import Guardian.Correlation.Group

/-!
# The rows of groups

Each group of a call is written over the row with its fingerprint, or into a new row.
-/

namespace Guardian.Correlation

open Python Findings List

/-- A row of `finding_correlations`. -/
structure FindingCorrelation where
  tenantId : Uuid
  customerId : Uuid
  rule : Str
  fingerprint : Str
  title : Str
  description : Str
  kind : Str
  severity : Str
  riskScore : ℤ
  confidence : Str
  rationale : List Str
  memberCount : ℕ
  deriving DecidableEq

/-- A row of `finding_correlation_members`. -/
structure FindingCorrelationMember where
  correlationId : ℕ
  findingId : Uuid
  tenantId : Uuid
  role : Str
  ordinal : ℕ
  edgeSource : Option Uuid
  edgeRationale : Option Str
  edgeConfidence : Option Str
  deriving DecidableEq

/-- **The tables of correlations.**  The id of a correlation is its place; `correlationOf` is the
pointer that findings carry. -/
structure Store where
  correlations : List FindingCorrelation
  members : List FindingCorrelationMember
  correlationOf : Uuid → Option ℕ

/-- **`Group.fingerprint`**, for a digest in hexadecimal. -/
def Group.fingerprint (digest : Str → Str) (g : Group) : Str := (digest g.blob).take 32

variable (digest : Str → Str) (tenant : Uuid)

/-- The row of a new group. -/
def Group.row (g : Group) : FindingCorrelation where
  tenantId := tenant
  customerId := g.customerId
  rule := g.rule.name
  fingerprint := g.fingerprint digest
  title := g.title
  description := g.description
  kind := g.kind
  severity := g.severity.value
  riskScore := g.riskScore
  confidence := g.confidence.value
  rationale := g.rationale
  memberCount := g.members.length

/-- What a group writes over a row that is there. -/
def Group.refresh (g : Group) (row : FindingCorrelation) : FindingCorrelation :=
  { row with
    severity := g.severity.value
    riskScore := g.riskScore
    confidence := g.confidence.value
    rationale := g.rationale
    memberCount := g.members.length }

/-- The row of a member in a correlation. -/
def Group.memberRow (g : Group) (correlationId : ℕ) (finding : Uuid) : FindingCorrelationMember :=
  -- of two edges to the member, and of two places, the last one counts
  let edge := g.edges.reverse.find? fun e => e.dest = finding
  { correlationId
    findingId := finding
    tenantId := tenant
    role :=
      if finding = g.primary then "primary"
      else if g.kind = "duplicate" then "duplicate"
      else "corroborating"
    ordinal := ((g.ordered.zipIdx.reverse.find? fun p => p.1 = finding).map Prod.snd).getD 0
    edgeSource := edge.map MemberEdge.source
    edgeRationale := edge.map MemberEdge.rationale
    edgeConfidence := edge.map fun e => e.confidence.value }

/-- Writes a member over the row with its key, or into a new row. -/
def writeMember (row : FindingCorrelationMember) (rows : List FindingCorrelationMember) :
    List FindingCorrelationMember :=
  if rows.any fun r => r.correlationId = row.correlationId ∧ r.findingId = row.findingId then
    rows.map fun r =>
      if r.correlationId = row.correlationId ∧ r.findingId = row.findingId then
        { row with tenantId := r.tenantId }
      else r
  else rows ++ [row]

def Group.place (g : Group) (S : Store) : Option ℕ :=
  S.correlations.findIdx? fun r => r.tenantId = tenant ∧ r.fingerprint = g.fingerprint digest

/-- **`_persist`**: whether the row is new, its id, and the tables. -/
def persist (g : Group) (S : Store) : Bool × ℕ × Store :=
  let (created, id, correlations) :=
    match g.place digest tenant S with
    | none => (true, S.correlations.length, S.correlations ++ [g.row digest tenant])
    | some id => (false, id, S.correlations.modify id g.refresh)
  (created, id,
    { correlations
      members := g.members.foldl (fun rows m => writeMember (g.memberRow tenant id m) rows) S.members
      correlationOf := fun f => if f ∈ g.members then some id else S.correlationOf f })

/-- The groups of a call one after the other, and the ids of their rows. -/
def persistAll : List Group → Store → List ℕ × Store
  | [], S => ([], S)
  | g :: gs, S =>
    let (_, id, S') := persist digest tenant g S
    let (ids, S'') := persistAll gs S'
    (id :: ids, S'')

/-- The row is the one of the group: it is found by the group's fingerprint, and shows what the
group says. -/
structure FindingCorrelation.Shows (row : FindingCorrelation) (g : Group) : Prop where
  tenantId : row.tenantId = tenant
  fingerprint : row.fingerprint = g.fingerprint digest
  severity : row.severity = g.severity.value
  riskScore : row.riskScore = g.riskScore
  confidence : row.confidence = g.confidence.value
  rationale : row.rationale = g.rationale
  memberCount : row.memberCount = g.members.length

/-- **Every group has a row of its own** after the call. -/
structure OwnRows (gs : List Group) (S : Store) : Prop where
  nodup : (persistAll digest tenant gs S).1.Nodup
  shown : List.Forall₂ (fun g id => ∃ row,
    (persistAll digest tenant gs S).2.correlations[id]? = some row ∧ row.Shows digest tenant g)
    gs (persistAll digest tenant gs S).1

/-- **What one group does**: its row shows it, was found by its fingerprint if it was there before,
and no other row changes. -/
theorem persist_spec (g : Group) (S : Store) :
    (∃ row, (persist digest tenant g S).2.2.correlations[(persist digest tenant g S).2.1]? =
      some row ∧ row.Shows digest tenant g) ∧
    ∀ i row, S.correlations[i]? = some row →
      (i = (persist digest tenant g S).2.1 ∧ row.fingerprint = g.fingerprint digest) ∨
        (i ≠ (persist digest tenant g S).2.1 ∧
          (persist digest tenant g S).2.2.correlations[i]? = some row) := by
  unfold persist
  cases hplace : g.place digest tenant S with
  | none =>
    refine ⟨⟨g.row digest tenant, by simp, ⟨rfl, rfl, rfl, rfl, rfl, rfl, rfl⟩⟩,
      fun i row hrow => Or.inr ?_⟩
    have hi : i < S.correlations.length := (List.getElem?_eq_some_iff.mp hrow).1
    exact ⟨hi.ne, (getElem?_append_left hi).trans hrow⟩
  | some id =>
    obtain ⟨hid, hfound, -⟩ := findIdx?_eq_some_iff_getElem.mp hplace
    rw [decide_eq_true_eq] at hfound
    refine ⟨⟨g.refresh S.correlations[id], ?_, hfound.1, hfound.2, rfl, rfl, rfl, rfl, rfl⟩,
      fun i row hrow => ?_⟩
    · simp [hid]
    · by_cases hi : i = id
      · subst hi
        rw [getElem?_eq_getElem hid, Option.some.injEq] at hrow
        exact Or.inl ⟨rfl, hrow ▸ hfound.2⟩
      · exact Or.inr ⟨hi, (getElem?_modify_ne _ _ (Ne.symm hi)).trans hrow⟩

/-- **What the groups do**: with different fingerprints, each of them ends up in a row of its own,
and a row with another fingerprint does not change. -/
theorem persistAll_spec (gs : List Group) (S : Store)
    (hgs : gs.Pairwise fun g h => g.fingerprint digest ≠ h.fingerprint digest) :
    OwnRows digest tenant gs S ∧
    ∀ i row, S.correlations[i]? = some row →
      (∀ g ∈ gs, row.fingerprint ≠ g.fingerprint digest) →
      (persistAll digest tenant gs S).2.correlations[i]? = some row ∧
        i ∉ (persistAll digest tenant gs S).1 := by
  induction gs generalizing S with
  | nil => exact ⟨⟨nodup_nil, .nil⟩, fun i row hrow _ => ⟨hrow, not_mem_nil⟩⟩
  | cons g gs ih =>
    rw [pairwise_cons] at hgs
    obtain ⟨hg, hrest⟩ := hgs
    obtain ⟨⟨row, hrow, hshows⟩, hframe⟩ := persist_spec digest tenant g S
    obtain ⟨hown, hkeep⟩ := ih (persist digest tenant g S).2.2 hrest
    obtain ⟨hkept, hfresh⟩ := hkeep _ row hrow fun h hh => hshows.fingerprint ▸ hg h hh
    refine ⟨⟨nodup_cons.mpr ⟨hfresh, hown.nodup⟩, .cons ⟨row, hkept, hshows⟩ hown.shown⟩,
      fun i row' hrow' hne => ?_⟩
    rw [forall_mem_cons] at hne
    rcases hframe i row' hrow' with ⟨-, heq⟩ | ⟨hi, hsame⟩
    · exact absurd heq hne.1
    · obtain ⟨hkept', hfresh'⟩ := hkeep i row' hsame hne.2
      exact ⟨hkept', not_mem_cons_of_ne_of_not_mem hi hfresh'⟩

end Guardian.Correlation

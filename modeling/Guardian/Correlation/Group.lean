import Guardian.Findings.Scoring
import Mathlib.Data.List.Sort

/-!
# Groups of findings

What a correlation is made of, and how a group is built from the findings that a rule has put
together: the member to read first, the order of presentation, the edges, and the severity.
-/

namespace Guardian.Correlation

open Python Findings List

/-! ### Findings -/

/-- The characters of the text of a UUID. -/
def uuidDigits : Str := "0123456789abcdef-"

/-- **A UUID**, by its text. -/
structure Uuid where
  text : Str
  length_text : text.length = 36
  digits : ∀ c ∈ text, c ∈ uuidDigits
  deriving DecidableEq

theorem Uuid.ext_text {a b : Uuid} (h : a.text = b.text) : a = b := by
  cases a
  cases b
  cases h
  rfl

def digitChar (n : ℕ) : Char := Char.ofNat (48 + n % 10)

theorem digitChar_mem (n : ℕ) : digitChar n ∈ uuidDigits := by
  have h : ∀ d : Fin 10, Char.ofNat (48 + d) ∈ uuidDigits := by decide
  exact h ⟨n % 10, Nat.mod_lt _ (by decide)⟩

theorem mod_eq_of_digitChar {m n : ℕ} (h : digitChar m = digitChar n) : m % 10 = n % 10 := by
  have hinj : ∀ d e : Fin 10, Char.ofNat (48 + d) = Char.ofNat (48 + e) → d = e := by decide
  have := hinj ⟨m % 10, Nat.mod_lt _ (by decide)⟩ ⟨n % 10, Nat.mod_lt _ (by decide)⟩ h
  exact congrArg Fin.val this

/-- The text of a UUID of zeros, up to its last three characters. -/
def zeros : Str :=
  replicate 8 '0' ++ '-' :: replicate 4 '0' ++ '-' :: replicate 4 '0' ++
    '-' :: replicate 4 '0' ++ '-' :: replicate 9 '0'

theorem zeros_subset : ∀ c ∈ zeros, c ∈ uuidDigits := by decide

/-- The UUID whose last three characters are the digits of a number. -/
def Uuid.ofNat (n : ℕ) : Uuid where
  text := zeros ++ [digitChar (n / 100), digitChar (n / 10), digitChar n]
  length_text := by simp [zeros]
  digits c hc := by
    rcases mem_append.mp hc with hc | hc
    · exact zeros_subset c hc
    · simp only [mem_cons, not_mem_nil, or_false] at hc
      rcases hc with rfl | rfl | rfl <;> exact digitChar_mem _

theorem Uuid.ofNat_inj {m n : ℕ} (hm : m < 1000) (hn : n < 1000)
    (h : Uuid.ofNat m = Uuid.ofNat n) : m = n := by
  have htext := append_cancel_left (congrArg Uuid.text h)
  simp only [List.cons.injEq, and_true] at htext
  have h1 := mod_eq_of_digitChar htext.1
  have h2 := mod_eq_of_digitChar htext.2.1
  have h3 := mod_eq_of_digitChar htext.2.2
  omega

instance : Inhabited Uuid := ⟨Uuid.ofNat 0⟩

/-- The entries of `Finding.location` that the rules read: texts, and a line number. -/
structure Location where
  engine : Option Str
  rule : Option Str
  path : Option Str
  line : Option ℕ
  deriving Inhabited

/-- The entries of a dictionary of evidence that may show a secret, where they are texts. -/
structure Excerpts where
  redacted : Option Str
  redactedExcerpt : Option Str
  excerpt : Option Str
  matched : Option Str
  deriving Inhabited

/-- A row of `findings`, as far as the rules read it. -/
structure Finding where
  id : Uuid
  customerId : Uuid
  assetId : Uuid
  category : Str
  severity : Str
  riskScore : Option ℤ
  cweId : Option Str
  cveIds : List Str
  location : Location
  evidence : Excerpts
  detail : Excerpts
  secretCorrelationId : Option Str
  deriving Inhabited

/-- The text, unless it is missing or empty. -/
def nonempty : Option Str → Option Str
  | some (c :: cs) => some (c :: cs)
  | _ => none

/-- `_severity`. -/
def severityOf (value : Str) : Severity := (Severity.ofValue value).getD .info

/-- `finding.risk_score or 0`. -/
def Finding.risk (f : Finding) : ℤ := f.riskScore.getD 0

/-- The rank of a finding's severity. -/
def Finding.rank (f : Finding) : ℕ := (severityOf f.severity).rank

/-- `_engine_of`. -/
def engineOf (f : Finding) : Str :=
  match nonempty f.location.engine with
  | some engine => engine
  | none =>
    let rule := f.location.rule.getD []
    if "taint-".toList.isPrefixOf rule ∨ "py-".toList.isPrefixOf rule ∨
        "js-".toList.isPrefixOf rule then "sast"
    else if "web-check-".toList.isPrefixOf rule then "web_checks"
    else if "image-".toList.isPrefixOf rule then "container"
    else if "iac-".toList.isPrefixOf rule then "iac"
    else if "service-cve-".toList.isPrefixOf rule then "service_cve"
    else if f.category = "secret" then "secrets"
    else if f.category = "vuln-dep" then "sca"
    else if f.category = "vuln-service" then "service_cve"
    else f.category

/-! ### The primary -/

/-- The key of `_primary` of the first finding is below that of the second one: risk, severity and
the text of the id. -/
def Below (f g : Finding) : Prop :=
  f.risk < g.risk ∨ (f.risk = g.risk ∧
    (f.rank < g.rank ∨ (f.rank = g.rank ∧ f.id.text < g.id.text)))

instance (f g : Finding) : Decidable (Below f g) := by
  unfold Below; infer_instance

theorem Below.trans {f g h : Finding} (hfg : Below f g) (hgh : Below g h) : Below f h := by
  unfold Below at *
  rcases hfg with h1 | ⟨h1, h2 | ⟨h2, h3⟩⟩ <;> rcases hgh with k1 | ⟨k1, k2 | ⟨k2, k3⟩⟩
  · exact Or.inl (h1.trans k1)
  · exact Or.inl (k1 ▸ h1)
  · exact Or.inl (k1 ▸ h1)
  · exact Or.inl (h1 ▸ k1)
  · exact Or.inr ⟨h1.trans k1, Or.inl (h2.trans k2)⟩
  · exact Or.inr ⟨h1.trans k1, Or.inl (k2 ▸ h2)⟩
  · exact Or.inl (h1 ▸ k1)
  · exact Or.inr ⟨h1.trans k1, Or.inl (h2 ▸ k2)⟩
  · exact Or.inr ⟨h1.trans k1, Or.inr ⟨h2.trans k2, h3.trans k3⟩⟩

theorem not_below_self (f : Finding) : ¬ Below f f := by
  rintro (h | ⟨-, h | ⟨-, h⟩⟩)
  · exact lt_irrefl _ h
  · exact lt_irrefl _ h
  · exact lt_irrefl _ h

theorem id_eq_of_not_below {f g : Finding} (h : ¬ Below f g) (h' : ¬ Below g f) : f.id = g.id := by
  unfold Below at h h'
  push Not at h h'
  have hrisk : f.risk = g.risk := le_antisymm h'.1 h.1
  have hrank : f.rank = g.rank := le_antisymm (h'.2 hrisk.symm).1 (h.2 hrisk).1
  exact Uuid.ext_text
    (le_antisymm ((h'.2 hrisk.symm).2 hrank.symm) ((h.2 hrisk).2 hrank))

/-- **`_primary`**: the first of the greatest. -/
def primary : List Finding → Finding
  | [] => default
  | f :: fs => fs.foldl (fun best g => if Below best g then g else best) f

theorem foldl_best_spec (fs : List Finding) (f : Finding) :
    let best := fs.foldl (fun best g => if Below best g then g else best) f
    best ∈ f :: fs ∧ (best = f ∨ Below f best) ∧ ∀ g ∈ fs, ¬ Below best g := by
  induction fs generalizing f with
  | nil => simp
  | cons g fs ih =>
    simp only [foldl_cons]
    by_cases hfg : Below f g
    · rw [if_pos hfg]
      obtain ⟨hmem, habove, hmax⟩ := ih g
      refine ⟨mem_cons_of_mem _ hmem, Or.inr ?_, fun h hh => ?_⟩
      · rcases habove with heq | habove
        · rwa [heq]
        · exact hfg.trans habove
      · rcases mem_cons.mp hh with rfl | hh
        · rcases habove with heq | habove
          · rw [heq]
            exact not_below_self _
          · exact fun hlt => not_below_self _ (habove.trans hlt)
        · exact hmax h hh
    · rw [if_neg hfg]
      obtain ⟨hmem, habove, hmax⟩ := ih f
      refine ⟨?_, habove, fun h hh => ?_⟩
      · rcases mem_cons.mp hmem with heq | hmem
        · rw [heq]
          exact mem_cons_self ..
        · exact mem_cons_of_mem _ (mem_cons_of_mem _ hmem)
      · rcases mem_cons.mp hh with rfl | hh
        · rcases habove with heq | habove
          · rwa [heq]
          · exact fun hlt => hfg (habove.trans hlt)
        · exact hmax h hh

/-- **The primary** is a member, and no member is above it. -/
theorem primary_spec {fs : List Finding} (h : fs ≠ []) :
    primary fs ∈ fs ∧ ∀ g ∈ fs, ¬ Below (primary fs) g := by
  rcases fs with _ | ⟨f, fs⟩
  · exact absurd rfl h
  · obtain ⟨hmem, habove, hmax⟩ := foldl_best_spec fs f
    refine ⟨hmem, fun g hg => ?_⟩
    rcases mem_cons.mp hg with rfl | hg
    · rcases habove with heq | habove
      · rw [primary, heq]
        exact not_below_self _
      · exact fun hlt => not_below_self _ (habove.trans hlt)
    · exact hmax g hg

theorem risk_le_primary {fs : List Finding} {f : Finding} (hf : f ∈ fs) :
    f.risk ≤ (primary fs).risk := by
  have := (primary_spec (ne_nil_of_mem hf)).2 f hf
  unfold Below at this
  push Not at this
  exact this.1

theorem rank_le_primary {fs : List Finding} {f : Finding} (hf : f ∈ fs)
    (hrisk : f.risk = (primary fs).risk) : f.rank ≤ (primary fs).rank := by
  have := (primary_spec (ne_nil_of_mem hf)).2 f hf
  unfold Below at this
  push Not at this
  exact (this.2 hrisk.symm).1

/-! ### Groups -/

/-- `CorrelationConfidence`. -/
inductive CorrelationConfidence
  | confirmed
  | strongEvidence
  | potential
  deriving DecidableEq

/-- The value of a confidence, as rows carry it. -/
def CorrelationConfidence.value : CorrelationConfidence → Str
  | confirmed => "confirmed"
  | strongEvidence => "strong_evidence"
  | potential => "potential"

/-- `MemberEdge`. -/
structure MemberEdge where
  source : Uuid
  dest : Uuid
  rationale : Str
  confidence : CorrelationConfidence
  deriving DecidableEq

/-- The rules. -/
inductive Rule
  | sameSecret
  | sameCveOnAsset
  | shippedAndRunning
  | injectionCorroborated
  | exposedRepositorySecret
  deriving DecidableEq

namespace Rule

/-- The name of a rule, as groups carry it. -/
def name : Rule → Str
  | sameSecret => "same-secret"
  | sameCveOnAsset => "same-cve-on-asset"
  | shippedAndRunning => "shipped-and-running"
  | injectionCorroborated => "injection-corroborated"
  | exposedRepositorySecret => "exposed-repository-secret"

/-- The kind of the groups of a rule. -/
def kind : Rule → Str
  | sameSecret => "duplicate"
  | sameCveOnAsset => "duplicate"
  | shippedAndRunning => "chain"
  | injectionCorroborated => "corroboration"
  | exposedRepositorySecret => "chain"

/-- The rule joins findings of two sides. -/
def twoSided : Rule → Bool
  | sameSecret => false
  | sameCveOnAsset => false
  | _ => true

end Rule

/-- `Group`. -/
structure Group where
  rule : Rule
  kind : Str
  title : Str
  description : Str
  members : List Uuid
  primary : Uuid
  severity : Severity
  riskScore : ℤ
  confidence : CorrelationConfidence
  rationale : List Str
  customerId : Uuid
  ordered : List Uuid
  edges : List MemberEdge
  deriving DecidableEq

/-- `MAX_GROUP_SIZE`. -/
def maxGroupSize : ℕ := 200

/-- UUIDs in the order of their texts. -/
def sorted (ids : List Uuid) : List Uuid := ids.insertionSort fun a b => a.text ≤ b.text

/-- `_presentation_order`. -/
def presentationOrder (primary : Uuid) (members : List Uuid) : List Uuid :=
  primary :: sorted (members.filter (· ≠ primary))

/-- `_star_edges`. -/
def starEdges (primary : Uuid) (members : List Uuid) (rationale : Str)
    (confidence : CorrelationConfidence) : List MemberEdge :=
  (members.filter (· ≠ primary)).map fun m => ⟨primary, m, rationale, confidence⟩

/-- `_bipartite_edges`. -/
def bipartiteEdges (primary : Uuid) (members oneSide : List Uuid)
    (crossRationale : Str) (crossConfidence : CorrelationConfidence)
    (sameRationale : Str) (sameConfidence : CorrelationConfidence) : List MemberEdge :=
  (members.filter (· ≠ primary)).map fun m =>
    if decide (m ∈ oneSide) ≠ decide (primary ∈ oneSide) then
      ⟨primary, m, crossRationale, crossConfidence⟩
    else ⟨primary, m, sameRationale, sameConfidence⟩

/-- `Group.fingerprint`, before it is hashed. -/
def Group.blob (g : Group) : Str :=
  g.rule.name ++ '|' :: intercalate ['|'] ((sorted g.members).map Uuid.text)

/-! ### From findings to a group -/

/-- **What a rule has put together**: the findings of its two sides, of which a duplicate has only
one, and what the rule says about them. -/
structure Cluster where
  rule : Rule
  title : Str
  description : Str
  customerId : Uuid
  confidence : CorrelationConfidence
  one : List Finding
  other : List Finding
  reason : Str
  crossRationale : Str
  crossConfidence : CorrelationConfidence
  sameRationale : Str
  sameConfidence : CorrelationConfidence

def Cluster.members (c : Cluster) : List Finding := c.one ++ c.other

/-- The findings of a cluster that its group keeps. -/
def Cluster.kept (c : Cluster) : List Finding := c.members.take maxGroupSize

/-- `_duplicate_group`. -/
def duplicateGroup (c : Cluster) : Group :=
  let primary := primary c.members
  let severity := severityOf primary.severity
  let memberIds := c.kept.map (·.id)
  { rule := c.rule
    kind := c.rule.kind
    title := c.title
    description := c.description
    members := memberIds
    primary := primary.id
    severity
    riskScore := primary.risk
    confidence := c.confidence
    rationale :=
      ["Grouped by rule \x60" ++ c.rule.name ++ "\x60: " ++
          decimal c.members.length ++ " findings describe one issue",
        "Severity " ++ severity.value ++ (" taken from the strongest member — grouping does " ++
          "not escalate a duplicate, it only stops it being counted several times").toList]
    customerId := c.customerId
    ordered := presentationOrder primary.id memberIds
    edges := starEdges primary.id memberIds c.sameRationale c.confidence }

/-- `str(n)` of an integer. -/
def signed : ℤ → Str
  | .ofNat n => decimal n
  | .negSucc n => '-' :: decimal (n + 1)

/-- `_escalated`, and the group that the rules with two sides build from it. -/
def joinedGroup (c : Cluster) : Group :=
  let steps := 1
  let primary := primary c.members
  let base := severityOf primary.severity
  let severity := base.bump steps
  let memberIds := c.kept.map (·.id)
  { rule := c.rule
    kind := c.rule.kind
    title := c.title
    description := c.description
    members := memberIds
    primary := primary.id
    severity
    riskScore := min 100 (primary.risk + 5 * steps)
    confidence := c.confidence
    rationale :=
      ["Strongest member: " ++ base.value ++ " at risk " ++ signed primary.risk,
        "Escalated to " ++ severity.value ++ " (+" ++ decimal (5 * steps) ++
          " risk) because " ++ c.reason]
    customerId := c.customerId
    ordered := presentationOrder primary.id memberIds
    edges := bipartiteEdges primary.id memberIds (c.one.map (·.id)) c.crossRationale
      c.crossConfidence c.sameRationale c.sameConfidence }

/-- **The group of a cluster.** -/
def Cluster.group (c : Cluster) : Group :=
  if c.rule.twoSided then joinedGroup c else duplicateGroup c

@[simp] theorem Cluster.group_rule (c : Cluster) : c.group.rule = c.rule := by
  unfold Cluster.group
  split_ifs <;> rfl

@[simp] theorem Cluster.group_customerId (c : Cluster) : c.group.customerId = c.customerId := by
  unfold Cluster.group
  split_ifs <;> rfl

@[simp] theorem Cluster.group_members (c : Cluster) : c.group.members = c.kept.map (·.id) := by
  unfold Cluster.group
  split_ifs <;> rfl

@[simp] theorem Cluster.group_primary (c : Cluster) : c.group.primary = (primary c.members).id := by
  unfold Cluster.group
  split_ifs <;> rfl

@[simp] theorem Cluster.group_ordered (c : Cluster) :
    c.group.ordered = presentationOrder c.group.primary c.group.members := by
  unfold Cluster.group
  split_ifs <;> rfl

theorem sorted_perm (ids : List Uuid) : (sorted ids).Perm ids := perm_insertionSort _ _

theorem sorted_eq_iff {a b : List Uuid} : sorted a = sorted b ↔ a.Perm b := by
  constructor
  · intro h
    exact (sorted_perm a).symm.trans (h ▸ sorted_perm b)
  · intro h
    have : Std.Total fun a b : Uuid => a.text ≤ b.text := ⟨fun a b => le_total a.text b.text⟩
    have : IsTrans Uuid fun a b => a.text ≤ b.text := ⟨fun _ _ _ => le_trans⟩
    refine Perm.eq_of_pairwise (fun a b _ _ hab hba => Uuid.ext_text (le_antisymm hab hba))
      (pairwise_insertionSort _ _) (pairwise_insertionSort _ _) ?_
    exact (sorted_perm a).trans (h.trans (sorted_perm b).symm)

theorem presentationOrder_perm {p : Uuid} {ids : List Uuid} (hp : p ∈ ids) (h : ids.Nodup) :
    (presentationOrder p ids).Perm ids := by
  have hfilter : ids.filter (· ≠ p) = ids.erase p := by
    rw [h.erase_eq_filter]
    exact filter_congr fun a _ => by by_cases ha : a = p <;> simp [ha]
  rw [presentationOrder, hfilter]
  exact ((sorted_perm _).cons p).trans (perm_cons_erase hp).symm

theorem Cluster.mem_edges {c : Cluster} {m n : Uuid} :
    (∃ e ∈ c.group.edges, e.source = m ∧ e.dest = n) ↔
      m = c.group.primary ∧ n ∈ c.group.members ∧ n ≠ c.group.primary := by
  unfold Cluster.group
  split_ifs
  · simp only [joinedGroup, bipartiteEdges, mem_map, mem_filter, decide_eq_true_eq]
    constructor
    · rintro ⟨e, ⟨a, ⟨ha, hne⟩, rfl⟩, rfl, rfl⟩
      split_ifs <;> exact ⟨rfl, ha, hne⟩
    · rintro ⟨rfl, hn, hne⟩
      refine ⟨_, ⟨n, ⟨hn, hne⟩, rfl⟩, ?_⟩
      split_ifs <;> exact ⟨rfl, rfl⟩
  · simp only [duplicateGroup, starEdges, mem_map, mem_filter, decide_eq_true_eq]
    constructor
    · rintro ⟨e, ⟨a, ⟨ha, hne⟩, rfl⟩, rfl, rfl⟩
      exact ⟨rfl, ha, hne⟩
    · rintro ⟨rfl, hn, hne⟩
      exact ⟨_, ⟨n, ⟨hn, hne⟩, rfl⟩, rfl, rfl⟩

end Guardian.Correlation

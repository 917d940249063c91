import Guardian.Correlation.Group
import Guardian.Order.Bucket
import Mathlib.Data.List.Dedup

/-!
# The rules

Each rule sorts the findings into buckets by a key, and makes a group of each bucket that is full
enough: two findings for a duplicate, one finding on each side for the others.
-/

namespace Guardian.Correlation

open Python Findings Guardian.Order List

/-! ### Buckets of findings -/

section Buckets
variable {K : Type} [DecidableEq K]

/-- The findings with each of their keys. -/
def keyed (keys : Finding → List K) (fs : List Finding) : List (K × Finding) :=
  fs.flatMap fun f => (keys f).map fun k => (k, f)

def havingKey (keys : Finding → List K) (k : K) (fs : List Finding) : List Finding :=
  fs.filter fun f => k ∈ keys f

theorem valuesOf_keyed {keys : Finding → List K} (hkeys : ∀ f, (keys f).Nodup) (k : K)
    (fs : List Finding) : valuesOf k (keyed keys fs) = havingKey keys k fs :=
  valuesOf_flatMap hkeys k fs

/-- The groups of a duplicate rule: the buckets with two findings. -/
def oneSided (keys : Finding → List K) (describe : K → List Finding → Cluster)
    (fs : List Finding) : List Cluster :=
  (buckets (keyed keys fs)).filterMap fun b =>
    if b.2.length < 2 then none else some (describe b.1 b.2)

/-- The groups of a rule with two sides: the buckets of the one side that have findings on the
other. -/
def twoSided (one other : Finding → List K) (describe : K → List Finding → List Finding → Cluster)
    (fs : List Finding) : List Cluster :=
  (buckets (keyed one fs)).filterMap fun b =>
    let others := valuesOf b.1 (keyed other fs)
    if others = [] then none else some (describe b.1 b.2 others)

end Buckets

/-! ### One credential -/

/-- How two secrets are known to be the same. -/
inductive Basis
  | identity
  | value
  | position
  deriving DecidableEq

/-- The texts of a dictionary of evidence, in the order in which they are tried. -/
def Excerpts.texts (e : Excerpts) : List (Option Str) :=
  [e.redacted, e.redactedExcerpt, e.excerpt, e.matched]

variable (R : Runtime)

/-- The first excerpt that shows something of the secret. -/
def snippetOf (f : Finding) : Option Str :=
  ((f.evidence.texts ++ f.detail.texts).filterMap fun text =>
    match text with
    | some value =>
      if strip R value ≠ [] ∧ value ≠ "<redacted>" then some ((strip R value).take 120)
      else none
    | none => none).head?

/-- **`_secret_identity`**: the key of the bucket, the basis, and what may be shown. -/
def secretIdentity (f : Finding) : Option (Str × Basis × Str) :=
  match nonempty f.secretCorrelationId with
  | some identity => some ("identity:" ++ identity, .identity, [])
  | none =>
    match snippetOf R f with
    | some snippet => some ("value:" ++ snippet, .value, snippet)
    | none =>
      match nonempty f.location.path, f.location.line with
      | some path, some (line + 1) =>
        let place := path ++ ':' :: decimal (line + 1)
        match nonempty f.location.rule with
        | some rule => some ("position:" ++ place ++ ':' :: rule, .position, [])
        | none => some ("position:" ++ place, .position, [])
      | _, _ => none

/-- `_SECRET_ENGINES`. -/
def secretEngines : List Str :=
  ["secrets", "sast", "container", "iac"]

/-- The findings that `group_same_secret` looks at. -/
def reportsSecret (f : Finding) : Bool :=
  decide (f.category ∈ ["secret".toList, "insecure-code".toList, "container-misconfig".toList]) &&
    decide ((nonempty f.location.engine).getD (engineOf f) ∈ secretEngines)

/-- The customer and the identity of the secret. -/
def secretKeys (f : Finding) : List (Uuid × Str) :=
  if reportsSecret f then ((secretIdentity R f).map fun s => (f.customerId, s.1)).toList else []

/-- What the edges of `group_same_secret` say, by the basis. -/
def secretRationale : Basis → Str
  | .identity =>
    "Both findings resolve to the same keyed secret identity — the same credential."
  | .value =>
    ("Both findings share the same redacted secret representation; a redaction is " ++
      "lossy, so this is not proof they are the same credential.").toList
  | .position =>
    ("Both findings reference the same file location (path:line); no value was " ++
      "available to compare.").toList

/-- The group of one credential.  The basis and what may be shown are those of the first member. -/
def secretCluster (key : Uuid × Str) (members : List Finding) : Cluster :=
  let shown := (members.head?.bind (secretIdentity R)).map Prod.snd
  let basis := (shown.map Prod.fst).getD .position
  let display := (shown.map Prod.snd).getD []
  { rule := .sameSecret
    title := "One credential reported by several engines"
    description :=
      decimal members.length ++ " findings describe the same credential" ++
        (if display = [] then [] else " (".toList ++ display.take 40 ++ ")".toList) ++
        (". Rotating it once resolves all of them; the individual findings are kept so each " ++
          "engine's evidence remains checkable.").toList
    customerId := key.1
    confidence := if basis = .identity then .confirmed else .strongEvidence
    one := members
    other := []
    reason := []
    crossRationale := []
    crossConfidence := .potential
    sameRationale := secretRationale basis
    sameConfidence := if basis = .identity then .confirmed else .strongEvidence }

/-- The clusters of `group_same_secret`. -/
def sameSecret (fs : List Finding) : List Cluster := oneSided (secretKeys R) (secretCluster R) fs

/-! ### One advisory on one asset -/

/-- `_cves`, in some order. -/
def cves (f : Finding) : List Str := (f.cveIds.filter fun c => "CVE-".toList.isPrefixOf c).dedup

def cveKeys (f : Finding) : List (Uuid × Str) := (cves f).map fun cve => (f.assetId, cve)

/-- The group of one CVE on one asset. -/
def cveCluster (key : Uuid × Str) (members : List Finding) : Cluster :=
  { rule := .sameCveOnAsset
    title := key.2 ++ " reported by several engines on one asset"
    description :=
      decimal members.length ++ " findings report " ++ key.2 ++
        " against the same asset. One fix closes them all."
    customerId := (members.headD default).customerId
    confidence := .strongEvidence
    one := members
    other := []
    reason := []
    crossRationale := []
    crossConfidence := .potential
    sameRationale := "Both findings reference the same CVE on the same asset."
    sameConfidence := .strongEvidence }

/-- The clusters of `group_same_cve_on_asset`. -/
def sameCveOnAsset (fs : List Finding) : List Cluster := oneSided cveKeys cveCluster fs

/-! ### Rules with two sides -/

/-- The side of a rule that a finding is on: the one that its group lists first, or the other. -/
inductive Side
  | one
  | other
  deriving DecidableEq

/-- `_DEPENDENCY_ENGINES`. -/
def dependencyEngines : List Str := ["sca", "container"]

/-- Shipped, or running. -/
def deploymentSide (f : Finding) : Option Side :=
  if f.category = "vuln-service" then some .other
  else if engineOf f ∈ dependencyEngines ∧ f.category = "vuln-dep" then some .one
  else none

def deploymentKeys (side : Side) (f : Finding) : List (Uuid × Str) :=
  if deploymentSide f = some side then (cves f).map fun cve => (f.customerId, cve) else []

/-- The group of one CVE that is shipped and running. -/
def deploymentCluster (key : Uuid × Str) (shipped running : List Finding) : Cluster :=
  { rule := .shippedAndRunning
    title := key.2 ++ " is deployed and reachable"
    description :=
      key.2 ++ (" appears both as a dependency in the codebase and in a service that is " ++
        "answering. Patching the dependency does not fix the running instance until it is " ++
        "redeployed.").toList
    customerId := key.1
    confidence := .potential
    one := shipped
    other := running
    reason :=
      key.2 ++ (" is both shipped in the codebase and answering on a reachable service — the " ++
        "vulnerable component is already running, not merely scheduled to be deployed").toList
    crossRationale :=
      "The same CVE (" ++ key.2 ++ (") is shipped as a dependency and is answering on a " ++
        "reachable service; not proven to be the same component.").toList
    crossConfidence := .potential
    sameRationale :=
      "The same CVE (" ++ key.2 ++
        ") reported on the same side (both shipped, or both running)."
    sameConfidence := .potential }

/-- The clusters of `group_shipped_and_running`: the keys stand in the order in which they came
first, on either side. -/
def shippedAndRunning (fs : List Finding) : List Cluster :=
  let keys := fun f => deploymentKeys .one f ++ deploymentKeys .other f
  (buckets (keyed keys fs)).filterMap fun b =>
    let shipped := valuesOf b.1 (keyed (deploymentKeys .one) fs)
    let running := valuesOf b.1 (keyed (deploymentKeys .other) fs)
    if shipped = [] ∨ running = [] then none else some (deploymentCluster b.1 shipped running)

/-- `_INJECTION_CWES`. -/
def injectionCwes : List Str :=
  ["CWE-89", "CWE-79", "CWE-78", "CWE-95", "CWE-22",
    "CWE-918", "CWE-1336"]

/-- `_DYNAMIC_ENGINES`. -/
def dynamicEngines : List Str := ["dast", "api", "web_checks"]

/-- Static, or dynamic. -/
def injectionSide (f : Finding) : Option Side :=
  match f.cweId with
  | none => none
  | some cwe =>
    if cwe ∉ injectionCwes then none
    else if engineOf f = "sast" then some .one
    else if engineOf f ∈ dynamicEngines then some .other
    else none

def injectionKeys (side : Side) (f : Finding) : List (Uuid × Str) :=
  if injectionSide f = some side then (f.cweId.map fun cwe => (f.customerId, cwe)).toList else []

/-- The group of one weakness that was found in the source and observed. -/
def injectionCluster (key : Uuid × Str) (static dynamic : List Finding) : Cluster :=
  { rule := .injectionCorroborated
    title := key.2 ++ " confirmed by static and dynamic analysis"
    description :=
      ("Source analysis found a path from attacker-controlled input to a dangerous " ++
        "operation, and a dynamic check independently observed ").toList ++ key.2 ++
        (" behaviour. Neither alone proves exploitability; together they are as close as scanning " ++
          "gets.").toList
    customerId := key.1
    confidence := .strongEvidence
    one := static
    other := dynamic
    reason :=
      "a static data-flow path to a " ++ key.2 ++
        " sink and a dynamic observation of " ++ key.2 ++
        (" on the same application agree — two independent methods reaching one " ++
          "conclusion").toList
    crossRationale :=
      "Static and dynamic analysis corroborate the same weakness class (" ++ key.2 ++
        ") for the customer; not proven to be the same sink."
    crossConfidence := .strongEvidence
    sameRationale :=
      "Both findings report " ++ key.2 ++
        " from the same analysis type; not independent corroboration."
    sameConfidence := .potential }

/-- The clusters of `group_injection_corroborated`. -/
def injectionCorroborated (fs : List Finding) : List Cluster :=
  twoSided (injectionKeys .one) (injectionKeys .other) injectionCluster fs

/-- An exposure, or a secret. -/
def exposureSide (f : Finding) : Option Side :=
  if "web-check-git".toList.isPrefixOf (f.location.rule.getD []) ∨
      "web-check-env".toList.isPrefixOf (f.location.rule.getD []) then some .one
  else if engineOf f = "secrets" then some .other
  else none

def exposureKeys (side : Side) (f : Finding) : List Uuid :=
  if exposureSide f = some side then [f.customerId] else []

/-- The group of the exposures and the secrets of a customer. -/
def exposureCluster (customerId : Uuid) (exposures secrets : List Finding) : Cluster :=
  { rule := .exposedRepositorySecret
    title := "A committed credential is publicly retrievable"
    description :=
      ("A repository directory or dotenv file is served over HTTP, and a credential was " ++
        "found in this customer's source. Removing the file does not help: assume the " ++
        "credential has been read and rotate it.").toList
    customerId
    confidence := .potential
    one := exposures
    other := secrets
    reason :=
      ("a repository or dotenv file is readable over HTTP and a credential was found in the " ++
        "same customer's source — treat the credential as disclosed, not merely " ++
        "committed").toList
    crossRationale :=
      ("A repository or dotenv file is publicly readable and a credential exists in the " ++
        "same customer's source; not proven the credential is inside that exposure.").toList
    crossConfidence := .potential
    sameRationale := "Additional exposure or secret for the same customer."
    sameConfidence := .potential }

/-- The clusters of `group_exposed_repository_secret`. -/
def exposedRepositorySecret (fs : List Finding) : List Cluster :=
  twoSided (exposureKeys .one) (exposureKeys .other) exposureCluster fs

/-! ### All rules -/

/-- What the rules put together, in the order of `RULES`. -/
def clusters (fs : List Finding) : List Cluster :=
  sameSecret R fs ++ sameCveOnAsset fs ++ shippedAndRunning fs ++ injectionCorroborated fs ++
    exposedRepositorySecret fs

/-- **`correlate`.** -/
def correlate (fs : List Finding) : List Group := (clusters R fs).map Cluster.group

/-- The side of a rule that a finding is on; a duplicate has one side. -/
def Rule.side : Rule → Finding → Option Side
  | .sameSecret, _ => some .one
  | .sameCveOnAsset, _ => some .one
  | .shippedAndRunning, f => deploymentSide f
  | .injectionCorroborated, f => injectionSide f
  | .exposedRepositorySecret, f => exposureSide f

/-! ### What the clusters are -/

@[simp] theorem secretCluster_rule (k : Uuid × Str) (ms : List Finding) :
    (secretCluster R k ms).rule = .sameSecret := rfl

@[simp] theorem secretCluster_members (k : Uuid × Str) (ms : List Finding) :
    (secretCluster R k ms).members = ms := append_nil _

@[simp] theorem cveCluster_rule (k : Uuid × Str) (ms : List Finding) :
    (cveCluster k ms).rule = .sameCveOnAsset := rfl

@[simp] theorem cveCluster_members (k : Uuid × Str) (ms : List Finding) :
    (cveCluster k ms).members = ms := append_nil _

@[simp] theorem deploymentCluster_rule (k : Uuid × Str) (ms ns : List Finding) :
    (deploymentCluster k ms ns).rule = .shippedAndRunning := rfl

@[simp] theorem deploymentCluster_members (k : Uuid × Str) (ms ns : List Finding) :
    (deploymentCluster k ms ns).members = ms ++ ns := rfl

@[simp] theorem injectionCluster_rule (k : Uuid × Str) (ms ns : List Finding) :
    (injectionCluster k ms ns).rule = .injectionCorroborated := rfl

@[simp] theorem injectionCluster_members (k : Uuid × Str) (ms ns : List Finding) :
    (injectionCluster k ms ns).members = ms ++ ns := rfl

@[simp] theorem exposureCluster_rule (k : Uuid) (ms ns : List Finding) :
    (exposureCluster k ms ns).rule = .exposedRepositorySecret := rfl

@[simp] theorem exposureCluster_members (k : Uuid) (ms ns : List Finding) :
    (exposureCluster k ms ns).members = ms ++ ns := rfl

section Members
variable {K : Type} [DecidableEq K]

theorem mem_havingKey {keys : Finding → List K} {k : K} {fs : List Finding} {f : Finding} :
    f ∈ havingKey keys k fs ↔ f ∈ fs ∧ k ∈ keys f := by
  simp [havingKey]

/-- **The clusters of a duplicate rule**: two or more findings with one key. -/
theorem mem_oneSided {keys : Finding → List K} (hkeys : ∀ f, (keys f).Nodup)
    {describe : K → List Finding → Cluster} {fs : List Finding} {c : Cluster} :
    c ∈ oneSided keys describe fs ↔
      ∃ k, 2 ≤ (havingKey keys k fs).length ∧ c = describe k (havingKey keys k fs) := by
  simp only [oneSided, mem_filterMap]
  constructor
  · rintro ⟨⟨k, vs⟩, hb, hc⟩
    obtain ⟨rfl, -⟩ := mem_buckets.mp hb
    rw [valuesOf_keyed hkeys] at hc
    split_ifs at hc with hlen
    rw [Option.some.injEq] at hc
    exact ⟨k, not_lt.mp hlen, hc.symm⟩
  · rintro ⟨k, hlen, rfl⟩
    refine ⟨(k, havingKey keys k fs), mem_buckets.mpr ⟨(valuesOf_keyed hkeys k fs).symm, ?_⟩, ?_⟩
    · exact ne_nil_of_length_pos (by omega)
    · exact if_neg (not_lt.mpr hlen)

/-- **The clusters of a rule with two sides**: the findings with one key, some on each side. -/
theorem mem_twoSided {one other : Finding → List K} (hone : ∀ f, (one f).Nodup)
    (hother : ∀ f, (other f).Nodup) {describe : K → List Finding → List Finding → Cluster}
    {fs : List Finding} {c : Cluster} :
    c ∈ twoSided one other describe fs ↔
      ∃ k, havingKey one k fs ≠ [] ∧ havingKey other k fs ≠ [] ∧
        c = describe k (havingKey one k fs) (havingKey other k fs) := by
  simp only [twoSided, mem_filterMap]
  constructor
  · rintro ⟨⟨k, vs⟩, hb, hc⟩
    obtain ⟨rfl, hne⟩ := mem_buckets.mp hb
    rw [valuesOf_keyed hone] at hc hne
    rw [valuesOf_keyed hother] at hc
    split_ifs at hc with hnil
    rw [Option.some.injEq] at hc
    exact ⟨k, hne, hnil, hc.symm⟩
  · rintro ⟨k, hne, hne', rfl⟩
    refine ⟨(k, havingKey one k fs), mem_buckets.mpr ⟨(valuesOf_keyed hone k fs).symm, hne⟩, ?_⟩
    rw [valuesOf_keyed hother]
    exact if_neg hne'

end Members

theorem nodup_secretKeys (f : Finding) : (secretKeys R f).Nodup := by
  unfold secretKeys
  split_ifs
  · rcases secretIdentity R f with _ | s <;> simp
  · exact nodup_nil

theorem nodup_cves (f : Finding) : (cves f).Nodup := nodup_dedup _

theorem nodup_cveKeys (f : Finding) : (cveKeys f).Nodup :=
  (nodup_cves f).map fun _ _ h => (Prod.mk.injEq ..).mp h |>.2

theorem nodup_deploymentKeys (side : Side) (f : Finding) : (deploymentKeys side f).Nodup := by
  unfold deploymentKeys
  split_ifs
  · exact (nodup_cves f).map fun _ _ h => (Prod.mk.injEq ..).mp h |>.2
  · exact nodup_nil

theorem nodup_injectionKeys (side : Side) (f : Finding) : (injectionKeys side f).Nodup := by
  unfold injectionKeys
  split_ifs
  · rcases f.cweId with _ | cwe <;> simp
  · exact nodup_nil

theorem nodup_exposureKeys (side : Side) (f : Finding) : (exposureKeys side f).Nodup := by
  unfold exposureKeys
  split_ifs <;> simp

variable {fs : List Finding} {f : Finding}

theorem mem_shippedAndRunning {c : Cluster} :
    c ∈ shippedAndRunning fs ↔
      ∃ k, havingKey (deploymentKeys .one) k fs ≠ [] ∧
        havingKey (deploymentKeys .other) k fs ≠ [] ∧
        c = deploymentCluster k (havingKey (deploymentKeys .one) k fs)
          (havingKey (deploymentKeys .other) k fs) := by
  simp only [shippedAndRunning, mem_filterMap, valuesOf_keyed (nodup_deploymentKeys _)]
  constructor
  · rintro ⟨⟨k, vs⟩, -, hc⟩
    dsimp only at hc
    split_ifs at hc with hnil
    rw [not_or] at hnil
    rw [Option.some.injEq] at hc
    exact ⟨k, hnil.1, hnil.2, hc.symm⟩
  · rintro ⟨k, hne, hne', rfl⟩
    obtain ⟨f, hf⟩ := exists_mem_of_ne_nil _ hne
    obtain ⟨hfs, hk⟩ := mem_havingKey.mp hf
    refine ⟨(k, _), mem_buckets.mpr ⟨rfl, ?_⟩, if_neg (not_or.mpr ⟨hne, hne'⟩)⟩
    refine ne_nil_of_mem (mem_valuesOf.mpr (mem_flatMap.mpr ⟨f, hfs, ?_⟩) :
      f ∈ valuesOf k _)
    exact mem_map.mpr ⟨k, mem_append_left _ hk, rfl⟩

variable {R}

/-- **What the rules put together**: for one of the rules, the findings with one key. -/
theorem mem_clusters {c : Cluster} :
    c ∈ clusters R fs ↔
      (∃ k, 2 ≤ (havingKey (secretKeys R) k fs).length ∧
        c = secretCluster R k (havingKey (secretKeys R) k fs)) ∨
      (∃ k, 2 ≤ (havingKey cveKeys k fs).length ∧ c = cveCluster k (havingKey cveKeys k fs)) ∨
      (∃ k, havingKey (deploymentKeys .one) k fs ≠ [] ∧
        havingKey (deploymentKeys .other) k fs ≠ [] ∧
        c = deploymentCluster k (havingKey (deploymentKeys .one) k fs)
          (havingKey (deploymentKeys .other) k fs)) ∨
      (∃ k, havingKey (injectionKeys .one) k fs ≠ [] ∧ havingKey (injectionKeys .other) k fs ≠ [] ∧
        c = injectionCluster k (havingKey (injectionKeys .one) k fs)
          (havingKey (injectionKeys .other) k fs)) ∨
      (∃ k, havingKey (exposureKeys .one) k fs ≠ [] ∧ havingKey (exposureKeys .other) k fs ≠ [] ∧
        c = exposureCluster k (havingKey (exposureKeys .one) k fs)
          (havingKey (exposureKeys .other) k fs)) := by
  simp only [clusters, mem_append, or_assoc, mem_shippedAndRunning]
  rw [sameSecret, mem_oneSided (nodup_secretKeys R), sameCveOnAsset, mem_oneSided nodup_cveKeys,
    injectionCorroborated, mem_twoSided (nodup_injectionKeys _) (nodup_injectionKeys _),
    exposedRepositorySecret, mem_twoSided (nodup_exposureKeys _) (nodup_exposureKeys _)]

/-- What is common to the clusters of all rules. -/
structure Cluster.Sound (fs : List Finding) (c : Cluster) : Prop where
  one_sublist : c.one.Sublist fs
  other_sublist : c.other.Sublist fs
  one_ne : c.one ≠ []
  other_ne : c.rule.twoSided = true → c.other ≠ []
  other_nil : c.rule.twoSided = false → c.other = []
  side_one : ∀ f ∈ c.one, c.rule.side f = some .one
  side_other : ∀ f ∈ c.other, c.rule.side f = some .other

theorem havingKey_sublist {K : Type} [DecidableEq K] (keys : Finding → List K) (k : K)
    (fs : List Finding) : (havingKey keys k fs).Sublist fs := filter_sublist

theorem mem_secretKeys {k : Uuid × Str} :
    k ∈ secretKeys R f ↔
      reportsSecret f = true ∧ (secretIdentity R f).map (fun s => (f.customerId, s.1)) = some k := by
  unfold secretKeys
  split_ifs with h <;> simp [h]

theorem mem_cveKeys {k : Uuid × Str} :
    k ∈ cveKeys f ↔ k.1 = f.assetId ∧ k.2 ∈ cves f := by
  rw [cveKeys, mem_map]
  constructor
  · rintro ⟨cve, hcve, rfl⟩
    exact ⟨rfl, hcve⟩
  · rintro ⟨hasset, hcve⟩
    exact ⟨k.2, hcve, Prod.ext hasset.symm rfl⟩

theorem mem_deploymentKeys {side : Side} {k : Uuid × Str} :
    k ∈ deploymentKeys side f ↔
      deploymentSide f = some side ∧ k.1 = f.customerId ∧ k.2 ∈ cves f := by
  unfold deploymentKeys
  split_ifs with h
  · rw [mem_map]
    constructor
    · rintro ⟨cve, hcve, rfl⟩
      exact ⟨h, rfl, hcve⟩
    · rintro ⟨-, hcustomer, hcve⟩
      exact ⟨k.2, hcve, Prod.ext hcustomer.symm rfl⟩
  · simp [h]

theorem mem_injectionKeys {side : Side} {k : Uuid × Str} :
    k ∈ injectionKeys side f ↔
      injectionSide f = some side ∧ f.cweId.map (fun cwe => (f.customerId, cwe)) = some k := by
  unfold injectionKeys
  split_ifs with h <;> simp [h]

theorem mem_exposureKeys {side : Side} {k : Uuid} :
    k ∈ exposureKeys side f ↔ exposureSide f = some side ∧ k = f.customerId := by
  unfold exposureKeys
  split_ifs with h <;> simp [h]

/-- **The clusters of all rules** hold findings of the list, some on each side. -/
theorem cluster_sound {c : Cluster} (h : c ∈ clusters R fs) : c.Sound fs := by
  rcases mem_clusters.mp h with ⟨k, hlen, rfl⟩ | ⟨k, hlen, rfl⟩ | ⟨k, hone, hother, rfl⟩ |
    ⟨k, hone, hother, rfl⟩ | ⟨k, hone, hother, rfl⟩
  · have hne := ne_nil_of_length_pos (Nat.zero_lt_of_lt hlen)
    exact ⟨havingKey_sublist _ _ _, nil_sublist _, hne, by simp [Rule.twoSided],
      fun _ => rfl, fun _ _ => rfl, fun f hf => absurd hf not_mem_nil⟩
  · have hne := ne_nil_of_length_pos (Nat.zero_lt_of_lt hlen)
    exact ⟨havingKey_sublist _ _ _, nil_sublist _, hne, by simp [Rule.twoSided],
      fun _ => rfl, fun _ _ => rfl, fun f hf => absurd hf not_mem_nil⟩
  · exact ⟨havingKey_sublist _ _ _, havingKey_sublist _ _ _, hone, fun _ => hother,
      by simp [Rule.twoSided],
      fun f hf => (mem_deploymentKeys.mp (mem_havingKey.mp hf).2).1,
      fun f hf => (mem_deploymentKeys.mp (mem_havingKey.mp hf).2).1⟩
  · exact ⟨havingKey_sublist _ _ _, havingKey_sublist _ _ _, hone, fun _ => hother,
      by simp [Rule.twoSided],
      fun f hf => (mem_injectionKeys.mp (mem_havingKey.mp hf).2).1,
      fun f hf => (mem_injectionKeys.mp (mem_havingKey.mp hf).2).1⟩
  · exact ⟨havingKey_sublist _ _ _, havingKey_sublist _ _ _, hone, fun _ => hother,
      by simp [Rule.twoSided],
      fun f hf => (mem_exposureKeys.mp (mem_havingKey.mp hf).2).1,
      fun f hf => (mem_exposureKeys.mp (mem_havingKey.mp hf).2).1⟩

theorem exists_customer {c : Cluster} (h : c ∈ clusters R fs) :
    ∃ f ∈ fs, c.customerId = f.customerId := by
  rcases mem_clusters.mp h with ⟨k, hlen, rfl⟩ | ⟨k, hlen, rfl⟩ | ⟨k, hone, -, rfl⟩ |
    ⟨k, hone, -, rfl⟩ | ⟨k, hone, -, rfl⟩
  · obtain ⟨f, hf⟩ := exists_mem_of_length_pos (Nat.zero_lt_of_lt hlen)
    obtain ⟨hfs, hk⟩ := mem_havingKey.mp hf
    obtain ⟨s, -, hs⟩ := Option.map_eq_some_iff.mp (mem_secretKeys.mp hk).2
    exact ⟨f, hfs, congrArg Prod.fst hs.symm⟩
  · obtain ⟨f, rest, hcons⟩ := exists_cons_of_length_pos (Nat.zero_lt_of_lt hlen)
    refine ⟨f, (havingKey_sublist cveKeys k fs).subset (hcons ▸ mem_cons_self), ?_⟩
    rw [hcons]
    rfl
  · obtain ⟨f, hf⟩ := exists_mem_of_ne_nil _ hone
    obtain ⟨hfs, hk⟩ := mem_havingKey.mp hf
    exact ⟨f, hfs, (mem_deploymentKeys.mp hk).2.1⟩
  · obtain ⟨f, hf⟩ := exists_mem_of_ne_nil _ hone
    obtain ⟨hfs, hk⟩ := mem_havingKey.mp hf
    obtain ⟨cwe, -, hcwe⟩ := Option.map_eq_some_iff.mp (mem_injectionKeys.mp hk).2
    exact ⟨f, hfs, congrArg Prod.fst hcwe.symm⟩
  · obtain ⟨f, hf⟩ := exists_mem_of_ne_nil _ hone
    obtain ⟨hfs, hk⟩ := mem_havingKey.mp hf
    exact ⟨f, hfs, (mem_exposureKeys.mp hk).2⟩

theorem eq_of_id (hids : (fs.map (·.id)).Nodup) {g : Finding} (hf : f ∈ fs)
    (hg : g ∈ fs) (h : f.id = g.id) : f = g := inj_on_of_nodup_map hids hf hg h

section Sound
variable {fs : List Finding} {c : Cluster} (hc : c.Sound fs)
include hc

theorem Cluster.Sound.members_subset : ∀ f ∈ c.members, f ∈ fs := by
  intro f hf
  rcases mem_append.mp hf with hf | hf
  · exact hc.one_sublist.subset hf
  · exact hc.other_sublist.subset hf

theorem Cluster.Sound.members_ne : c.members ≠ [] := by
  intro h
  exact hc.one_ne (append_eq_nil_iff.mp h).1

theorem Cluster.Sound.side {f : Finding} (hf : f ∈ c.members) :
    (c.rule.side f = some .one ∧ f ∈ c.one) ∨ (c.rule.side f = some .other ∧ f ∈ c.other) := by
  rcases mem_append.mp hf with hf | hf
  · exact Or.inl ⟨hc.side_one f hf, hf⟩
  · exact Or.inr ⟨hc.side_other f hf, hf⟩

theorem Cluster.Sound.nodup (hids : (fs.map (·.id)).Nodup) : (c.members.map (·.id)).Nodup := by
  rw [Cluster.members, map_append]
  refine nodup_append.mpr ⟨(hc.one_sublist.map _).nodup hids,
    (hc.other_sublist.map _).nodup hids, ?_⟩
  rintro a ha b hb rfl
  obtain ⟨f, hf, rfl⟩ := mem_map.mp ha
  obtain ⟨g, hg, hid⟩ := mem_map.mp hb
  have heq := eq_of_id hids (hc.other_sublist.subset hg) (hc.one_sublist.subset hf) hid
  subst heq
  have := hc.side_one g hf
  rw [hc.side_other g hg] at this
  cases this

theorem Cluster.Sound.nodup_kept (hids : (fs.map (·.id)).Nodup) : (c.kept.map (·.id)).Nodup := by
  rw [Cluster.kept, map_take]
  exact (take_sublist _ _).nodup (hc.nodup hids)

theorem Cluster.Sound.primary : primary c.members ∈ c.members ∧
    ∀ g ∈ c.members, ¬ Below (Correlation.primary c.members) g := primary_spec hc.members_ne

end Sound

theorem Cluster.mem_of_kept {c : Cluster} (h : f ∈ c.kept) : f ∈ c.members :=
  mem_of_mem_take h

end Guardian.Correlation

import Guardian.Python.Text
import Guardian.Order.Ranking
import Mathlib.Data.Finset.Union

/-!
# What a finding requires and grants

A class of findings has a profile: the capabilities that it requires, and those that it grants.  A
capability may come with others.
-/

namespace Guardian.AttackPaths

open Python Guardian.Order

/-- `Capability`. -/
inductive Capability
  | networkAccess
  | codeExecution
  | credentialAccess
  | dataAccess
  | privilegeEscalation
  | lateralMovement
  deriving DecidableEq

/-- The value of the enumeration. -/
def Capability.value : Capability → Str
  | networkAccess => "network_access"
  | codeExecution => "code_execution"
  | credentialAccess => "credential_access"
  | dataAccess => "data_access"
  | privilegeEscalation => "privilege_escalation"
  | lateralMovement => "lateral_movement"

def Capability.all : List Capability :=
  [networkAccess, codeExecution, credentialAccess, dataAccess, privilegeEscalation, lateralMovement]

/-- `tuple(sorted(c.value for c in capabilities))`. -/
def sortedValues (s : Finset Capability) : List Str :=
  sortBy id ((Capability.all.filter (· ∈ s)).map Capability.value)

/-- `IMPLIES`. -/
def implies : Capability → Finset Capability
  | .codeExecution => {.dataAccess}
  | _ => ∅

/-- **`expand`.** -/
def expand (s : Finset Capability) : Finset Capability := s ∪ s.biUnion implies

theorem implies_of_mem_implies {c d : Capability} (h : d ∈ implies c) : implies d = ∅ := by
  cases c <;> simp_all [implies]

theorem expand_expand_union (s t : Finset Capability) : expand (expand s ∪ t) = expand (s ∪ t) := by
  have hdeep : ∀ c, ∀ d ∈ implies c, implies d = ∅ := fun _ _ => implies_of_mem_implies
  ext d
  simp only [expand, Finset.mem_union, Finset.mem_biUnion]
  grind

theorem subset_expand (s : Finset Capability) : s ⊆ expand s := Finset.subset_union_left

/-! ### Profiles -/

/-- `Profile`. -/
structure Profile where
  requires : Finset Capability
  grants : Finset Capability
  reliability : ℤ
  rationale : Str
  deriving DecidableEq

/-- `_NET`. -/
def net : Finset Capability := {.networkAccess}

/-- `_BY_CWE`. -/
def byCweTable : List (Str × Profile) :=
  [("CWE-78", ⟨net, {.codeExecution}, 90,
      "OS command injection runs an attacker's command on the host"⟩),
   ("CWE-94", ⟨net, {.codeExecution}, 90,
      "code injection runs attacker-supplied code in the application"⟩),
   ("CWE-502", ⟨net, {.codeExecution}, 80,
      "unsafe deserialization commonly reaches code execution"⟩),
   ("CWE-1336", ⟨net, {.codeExecution}, 85,
      "server-side template injection evaluates attacker input"⟩),
   ("CWE-434", ⟨net, {.codeExecution}, 70,
      "an unrestricted upload becomes execution when the file is served"⟩),
   ("CWE-89", ⟨net, {.dataAccess}, 85,
      "SQL injection reads the database the application uses"⟩),
   ("CWE-22", ⟨net, {.dataAccess}, 80,
      "path traversal reads files outside the intended directory"⟩),
   ("CWE-639", ⟨net, {.dataAccess}, 85,
      "broken object level authorization reads other tenants' records"⟩),
   ("CWE-213", ⟨net, {.dataAccess}, 60,
      "the response carries fields the client was not meant to receive"⟩),
   ("CWE-918", ⟨net, {.networkAccess, .lateralMovement}, 75,
      "server-side request forgery reaches services the attacker cannot"⟩),
   ("CWE-798", ⟨{.dataAccess}, {.credentialAccess}, 95,
      "a hardcoded credential authenticates wherever it is valid"⟩),
   ("CWE-522", ⟨{.dataAccess}, {.credentialAccess}, 80,
      "the credential is insufficiently protected where it is stored"⟩),
   ("CWE-256", ⟨{.dataAccess}, {.credentialAccess}, 80,
      "the credential is stored in plaintext"⟩),
   ("CWE-306", ⟨net, {.dataAccess}, 90,
      "the function requires no authentication at all"⟩),
   ("CWE-287", ⟨net, {.dataAccess}, 70, "authentication can be bypassed"⟩),
   ("CWE-308", ⟨{.credentialAccess}, {.dataAccess}, 70,
      "a stolen password is sufficient with no second factor"⟩),
   ("CWE-269", ⟨{.credentialAccess}, {.privilegeEscalation, .lateralMovement}, 85,
      "the principal's permissions exceed its purpose"⟩),
   ("CWE-250", ⟨{.codeExecution}, {.privilegeEscalation, .lateralMovement}, 80,
      "the workload runs with privileges that reach the node"⟩),
   ("CWE-284", ⟨∅, {.networkAccess}, 90,
      "access control does not restrict who can reach the service"⟩),
   ("CWE-668", ⟨{.codeExecution}, {.lateralMovement}, 75,
      "the resource is exposed to a sphere that should not have it"⟩),
   ("CWE-732", ⟨∅, {.dataAccess}, 80,
      "permissions allow access the resource's owner did not intend"⟩),
   ("CWE-319", ⟨{.networkAccess}, {.credentialAccess}, 40,
      "credentials cross the network in cleartext for anyone positioned to read"⟩),
   ("CWE-200", ⟨net, {.dataAccess}, 40,
      "information is disclosed to an unauthorized actor"⟩),
   ("CWE-79", ⟨net, {.credentialAccess}, 55,
      "cross-site scripting steals the session of whoever views the page"⟩)]

/-- `_BY_CWE.get(cwe)`. -/
def byCwe (cwe : Str) : Option Profile := (byCweTable.find? (·.1 = cwe)).map Prod.snd

/-- `_BY_CATEGORY`.  Two of the profiles are those of a CWE. -/
def byCategoryTable : List (Str × Profile) :=
  [("secret", ⟨{.dataAccess}, {.credentialAccess}, 95,
      "a hardcoded credential authenticates wherever it is valid"⟩),
   ("injection", ⟨net, {.dataAccess}, 70, "the input reaches an interpreter"⟩),
   ("vuln-dep", ⟨net, {.codeExecution}, 50,
      "a known-vulnerable component is in the running code path"⟩),
   ("cloud-misconfig", ⟨∅, {.dataAccess}, 60,
      "the cloud resource is configured more openly than intended"⟩),
   ("k8s-misconfig", ⟨{.codeExecution}, {.privilegeEscalation}, 70,
      "the workload's settings weaken the boundary around it"⟩),
   ("api-authorization", ⟨net, {.dataAccess}, 85,
      "broken object level authorization reads other tenants' records"⟩),
   ("web-misconfig", ⟨net, {.dataAccess}, 40,
      "the service's configuration exposes more than intended"⟩),
   ("insecure-code", ⟨net, {.dataAccess}, 50,
      "the code path handles untrusted input unsafely"⟩)]

/-- `_BY_CATEGORY.get(category)`. -/
def byCategory (category : Str) : Option Profile :=
  (byCategoryTable.find? (·.1 = category)).map Prod.snd

/-- `_EXPLOIT_BONUS.get(maturity, 0)`. -/
def exploitBonus (maturity : Str) : ℤ :=
  if maturity = "high" then 10
  else if maturity = "functional" then 8
  else if maturity = "poc" then 3
  else 0

/-- `FindingView`. -/
structure FindingView where
  id : Str
  assetId : Str
  title : Str := []
  severity : Str := []
  riskScore : ℤ := 0
  category : Str := []
  cweId : Option Str := none
  kev : Bool := false
  exploitMaturity : Option Str := none
  nodeId : Str := []
  deriving DecidableEq

/-- **`profile_for`.** -/
def profileFor (f : FindingView) : Option Profile :=
  ((byCwe (f.cweId.getD [])).or (byCategory f.category)).map fun base =>
    { base with
      reliability := min 99 (base.reliability + exploitBonus (f.exploitMaturity.getD []) +
        if f.kev then 10 else 0) }

/-- What a finding grants: nothing, if it has no profile. -/
def granted (f : FindingView) : Finset Capability := ((profileFor f).map (·.grants)).getD ∅

/-- **The capabilities held** after some findings, by someone with network access. -/
def heldAfter (fs : List FindingView) : Finset Capability :=
  expand (fs.foldl (fun held f => held ∪ granted f) net)

theorem heldAfter_concat (fs : List FindingView) (f : FindingView) :
    heldAfter (fs ++ [f]) = expand (heldAfter fs ∪ granted f) := by
  rw [heldAfter, heldAfter, expand_expand_union, List.foldl_append]
  rfl

theorem networkAccess_mem_heldAfter (fs : List FindingView) :
    Capability.networkAccess ∈ heldAfter fs := by
  induction fs using List.reverseRecOn with
  | nil => exact subset_expand _ (Finset.mem_singleton_self _)
  | append_singleton fs f ih =>
    rw [heldAfter_concat]
    exact subset_expand _ (Finset.mem_union_left _ ih)

end Guardian.AttackPaths

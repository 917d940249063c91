import Guardian.Authorization.Discovery
import Mathlib.Data.List.ReduceOption
import Mathlib.Data.List.Sort

/-!
# The tool plane

`dispatchToolJob` decides whether a tool runs and against which targets: governance, then the scope
(the requested targets that are listed by an authorization on file), then the policy gate.
`dispatched_iff` says when the rules of the scan gate clear every target of a tool.
-/

namespace Guardian.Authorization

open Python Guardian.Order List

variable (R : Runtime)

/-! ### Scope and policy -/

/-- `ToolCapabilities`, as far as the gate reads them. -/
structure ToolCapabilities where
  network : Bool
  active : Bool
  destructive : Bool
  requiresAuthorization : Bool
  requiresHumanApproval : Bool
  ports : List ℕ
  protocols : List Str

/-- The policy of a dispatch: an absent `ports` or `protocols` narrows nothing. -/
structure ToolPolicy where
  ports : Option (List ℕ)
  protocols : Option (List Str)
  network : Bool
  allowDestructive : Bool

/-- `EffectiveScope`. -/
structure EffectiveScope where
  targets : List Str
  ports : List ℕ
  protocols : List Str
  networkAllowed : Bool
  readOnly : Bool
  deriving DecidableEq

/-- `sorted(set(values))`. -/
def sortedSet {A : Type} [LinearOrder A] (values : List A) : List A :=
  values.dedup.insertionSort (· ≤ ·)

/-- `_narrow`. -/
def narrow {A : Type} [DecidableEq A] (capValues : List A) (policyValues : Option (List A)) :
    List A :=
  match policyValues with
  | none => capValues
  | some values => capValues.filter (· ∈ values)

/-- `derive_effective_scope`. -/
def deriveEffectiveScope (requestedTargets authorizedTargets : List Str)
    (capabilities : ToolCapabilities) (policy : ToolPolicy) : EffectiveScope :=
  let requested := if requestedTargets = [] then authorizedTargets else requestedTargets
  { targets := sortedSet (requested.filter (· ∈ authorizedTargets))
    ports := sortedSet (narrow capabilities.ports policy.ports)
    protocols := sortedSet (narrow capabilities.protocols policy.protocols)
    networkAllowed := capabilities.network && policy.network
    readOnly := !(capabilities.destructive && policy.allowDestructive) }

/-- `PolicyDecision`. -/
structure PolicyDecision where
  allowed : Bool
  requiresHumanApproval : Bool
  reasons : List Str
  deriving DecidableEq

def reason (applies : Bool) (text : String) : List Str := if applies then [text.toList] else []

/-- `evaluate_tool_policy`. -/
def evaluateToolPolicy (capabilities : ToolCapabilities) (scope : EffectiveScope)
    (humanApproved : Bool) : PolicyDecision :=
  let noTarget := capabilities.requiresAuthorization && scope.targets.isEmpty
  let destructive := capabilities.destructive && !scope.readOnly
  let highRisk := (capabilities.active || capabilities.network) &&
    capabilities.requiresHumanApproval
  { allowed := !noTarget && (!destructive || humanApproved) && (!highRisk || humanApproved)
    requiresHumanApproval := destructive || highRisk
    reasons := reason noTarget "no in-scope authorized target" ++
      reason (destructive && !humanApproved) "destructive tool requires human approval" ++
      reason (highRisk && !humanApproved) "active/high-risk tool requires human approval" }

/-! ### The dispatch -/

/-- The value of an entry of `authorized_targets`, if it counts as true; an entry that is no
dictionary has no `get`. -/
def targetValue : Option Target → Except Fault (Option Str)
  | none => .error .attributeError
  | some entry => .ok ((entry.value.filter JsonValue.truthy).map JsonValue.text)

/-- The rows `_authorized_target_values` selects: every method. -/
def activeRows (table : List AuthorizationRow) (tenantId : Id) (now : ℤ) :
    List AuthorizationRow :=
  table.filter fun row => decide (row.tenantId = tenantId ∧ row.revokedAt = none ∧
    row.validFrom ≤ now ∧ now ≤ row.validUntil)

/-- `_authorized_target_values`. -/
def authorizedTargetValues (table : List AuthorizationRow) (tenantId : Id) (now : ℤ) :
    Except Fault (List Str) := do
  let values ← ((activeRows table tenantId now).flatMap (·.authorizedTargets)).mapM targetValue
  return sortedSet values.reduceOption

/-- The verdict of the governance: whether the actor may run the tool, and the single-use approval
that it consumes, with whether that one was consumed before. -/
structure Governance where
  allowed : Bool
  reasons : List Str
  approvalConsumed : Option Bool

/-- What a dispatch is asked for, and what it finds: the capabilities in the registry, the verdict of
the governance, whether the deployment allows owner-direct runs and whether the actor is the
owner of the tenant. -/
structure Dispatch where
  tenantId : Id
  requestedTargets : List Str
  humanApproved : Bool
  policy : ToolPolicy
  ownerDirect : Bool
  capabilities : Option ToolCapabilities
  governance : Governance
  ownerDirectRecon : Bool
  isTenantOwner : Bool

/-- What becomes of a dispatch. -/
inductive Outcome
  | unknownTool
  | forbidden (reasons : List Str)
  | denied (reasons : List Str) (requiresHumanApproval : Bool)
  | dispatched (scope : EffectiveScope)
  deriving DecidableEq

/-- The gate of the scope: the last steps of `dispatch_tool_job` before the job is sent. -/
def dispatchScope (d : Dispatch) (capabilities : ToolCapabilities) (authorized : List Str) :
    Outcome :=
  let scope := deriveEffectiveScope d.requestedTargets authorized capabilities d.policy
  let decision := evaluateToolPolicy capabilities scope d.humanApproved
  if !decision.allowed then .denied decision.reasons decision.requiresHumanApproval
  else if d.governance.approvalConsumed = some true then
    .forbidden ["approval already consumed"]
  else .dispatched scope

/-- `dispatch_tool_job`, up to the job that is sent. -/
def dispatchToolJob (table : List AuthorizationRow) (now : ℤ) (d : Dispatch) :
    Except Fault Outcome :=
  match d.capabilities with
  | none => return .unknownTool
  | some capabilities => do
    if !d.governance.allowed then return .forbidden d.governance.reasons
    else if d.ownerDirect && !d.ownerDirectRecon then
      return .forbidden ["owner-direct recon is disabled on this deployment"]
    else if d.ownerDirect && !d.isTenantOwner then
      return .forbidden ["owner-direct recon requires the tenant owner role"]
    else
      let authorized ← authorizedTargetValues table d.tenantId now
      let authorized :=
        if d.ownerDirect then sortedSet (authorized ++ d.requestedTargets) else authorized
      return dispatchScope d capabilities authorized

/-! ### The scope only narrows -/

theorem mem_sortedSet {A : Type} [LinearOrder A] {values : List A} {a : A} :
    a ∈ sortedSet values ↔ a ∈ values := by
  unfold sortedSet
  rw [mem_insertionSort, mem_dedup]

/-- **The targets of the scope** are authorized, and requested if any are. -/
theorem mem_targets_iff {requested authorized : List Str} {capabilities : ToolCapabilities}
    {policy : ToolPolicy} {t : Str} :
    t ∈ (deriveEffectiveScope requested authorized capabilities policy).targets ↔
      t ∈ authorized ∧ (requested = [] ∨ t ∈ requested) := by
  unfold deriveEffectiveScope
  simp only [mem_sortedSet, mem_filter, decide_eq_true_eq]
  split_ifs with h
  · simp [h]
  · simp [h, and_comm]

theorem scope_of_dispatched {table : List AuthorizationRow} {now : ℤ} {d : Dispatch}
    {scope : EffectiveScope} (hdirect : d.ownerDirect = false)
    (h : dispatchToolJob table now d = .ok (.dispatched scope)) :
    ∃ capabilities authorized, d.capabilities = some capabilities ∧
      authorizedTargetValues table d.tenantId now = .ok authorized ∧
      scope = deriveEffectiveScope d.requestedTargets authorized capabilities d.policy := by
  unfold dispatchToolJob at h
  split at h
  · cases h
  · next capabilities hcap =>
    simp only [hdirect, Bool.false_and, Bool.false_eq_true, if_false] at h
    split_ifs at h
    · cases h
    · obtain ⟨authorized, hauthorized, h⟩ := bind_eq_ok.mp h
      refine ⟨capabilities, authorized, hcap, hauthorized, ?_⟩
      have h := Except.ok.inj h
      unfold dispatchScope at h
      dsimp only at h
      split_ifs at h
      cases h
      rfl

/-! ### Values and entries -/

/-- A row of the tenant lists the value, in an entry. -/
def Lists (table : List AuthorizationRow) (tenantId : Id) (now : ℤ) (row : AuthorizationRow)
    (entry : Target) (v : Str) : Prop :=
  row ∈ activeRows table tenantId now ∧ some entry ∈ row.authorizedTargets ∧
    ∃ value, entry.value = some value ∧ value.truthy = true ∧ value.text = v

theorem targetValue_eq_some {e : Option Target} {v : Str} :
    targetValue e = .ok (some v) ↔ ∃ entry value, e = some entry ∧ entry.value = some value ∧
      value.truthy = true ∧ value.text = v := by
  cases e with
  | none =>
    refine iff_of_false (fun h => nomatch h) ?_
    rintro ⟨_, _, h, -⟩
    cases h
  | some entry =>
    unfold targetValue
    rw [Except.ok.injEq, Option.map_eq_some_iff]
    constructor
    · rintro ⟨value, hvalue, rfl⟩
      obtain ⟨hvalue, htruthy⟩ := Option.filter_eq_some_iff.mp hvalue
      exact ⟨entry, value, rfl, hvalue, htruthy, rfl⟩
    · rintro ⟨_, value, ⟨⟩, hvalue, htruthy, rfl⟩
      exact ⟨value, Option.filter_eq_some_iff.mpr ⟨hvalue, htruthy⟩, rfl⟩

/-- **The authorized values** are those that an active row of the tenant lists. -/
theorem mem_authorizedTargetValues {table : List AuthorizationRow} {tenantId : Id} {now : ℤ}
    {values : List Str} (h : authorizedTargetValues table tenantId now = .ok values) {v : Str} :
    v ∈ values ↔ ∃ row entry, Lists table tenantId now row entry v := by
  obtain ⟨opts, hopts, h⟩ := bind_eq_ok.mp h
  cases h
  rw [mem_sortedSet, reduceOption_mem_iff]
  constructor
  · intro hv
    obtain ⟨e, he, hval⟩ := exists_of_mem_mapM hopts _ hv
    obtain ⟨entry, value, rfl, hvalue⟩ := targetValue_eq_some.mp hval
    obtain ⟨row, hrow, hentry⟩ := mem_flatMap.mp he
    exact ⟨row, entry, hrow, hentry, value, hvalue⟩
  · rintro ⟨row, entry, hrow, hentry, value, hvalue⟩
    have hmem : some entry ∈ (activeRows table tenantId now).flatMap (·.authorizedTargets) :=
      mem_flatMap.mpr ⟨row, hrow, hentry⟩
    obtain ⟨o, ho, hval⟩ := exists_of_mem_mapM_left hopts _ hmem
    rw [targetValue_eq_some.mpr ⟨entry, value, rfl, hvalue⟩] at hval
    cases hval
    exact ho

/-! ### Cleared targets -/

/-- **The scan gate clears the target**: an authorization of the tenant covers it on the network. -/
def Cleared (table : List AuthorizationRow) (tenantId : Id) (now : ℤ) (target : Str) : Prop :=
  ∃ row ∈ table, row.tenantId = tenantId ∧ authorizes R row.view none target true now = .ok true

/-- An entry that covers the value as a target. -/
def CoversValue (entry : Target) (v : Str) : Prop :=
  ∃ host, hostOf R v = .ok host ∧ targetMatches R [some entry] host = true

/-- **The condition for the tool plane to clear no more than the scan gate**: every value in question
that comes from a row without a network method, or from an entry that does not cover it, is
cleared by another authorization. -/
def ClearedElsewhere (table : List AuthorizationRow) (now : ℤ) (d : Dispatch) : Prop :=
  ∀ row entry v, Lists table d.tenantId now row entry v →
    (d.requestedTargets = [] ∨ v ∈ d.requestedTargets) →
    row.method ∉ networkMethods ∨ ¬ CoversValue R entry v → Cleared R table d.tenantId now v

variable {R}

theorem cleared_of_lists {table : List AuthorizationRow} {tenantId : Id} {now : ℤ}
    {row : AuthorizationRow} {entry : Target} {v : Str}
    (h : Lists table tenantId now row entry v) (hmethod : row.method ∈ networkMethods)
    (hcovers : CoversValue R entry v) : Cleared R table tenantId now v := by
  obtain ⟨hrow, hentry, -⟩ := h
  unfold activeRows at hrow
  rw [mem_filter, decide_eq_true_eq] at hrow
  obtain ⟨hmem, htenant, hactive⟩ := hrow
  obtain ⟨host, hhost, hmatch⟩ := hcovers
  obtain ⟨hne, e, he, hmatch⟩ := targetMatches_iff.mp hmatch
  rw [mem_singleton] at he
  subst he
  refine ⟨row, hmem, htenant, authorizes_iff.mpr ⟨?_, hmethod, Or.inr ⟨host, hhost, ?_⟩⟩⟩
  · exact (view_active_iff row now).mpr hactive
  · exact targetMatches_iff.mpr ⟨hne, _, hentry, hmatch⟩

/-- **Every target of a dispatched tool is cleared** by the rules of the scan gate exactly under
`ClearedElsewhere`. -/
theorem dispatched_iff {table : List AuthorizationRow} {now : ℤ} {d : Dispatch}
    {scope : EffectiveScope} (hdirect : d.ownerDirect = false)
    (h : dispatchToolJob table now d = .ok (.dispatched scope)) :
    (∀ t ∈ scope.targets, Cleared R table d.tenantId now t) ↔ ClearedElsewhere R table now d := by
  obtain ⟨capabilities, authorized, -, hauthorized, rfl⟩ := scope_of_dispatched hdirect h
  constructor
  · intro hall row entry v hlists hrequested _
    refine hall v (mem_targets_iff.mpr ⟨?_, hrequested⟩)
    exact (mem_authorizedTargetValues hauthorized).mpr ⟨row, entry, hlists⟩
  · intro helse t ht
    obtain ⟨hmem, hrequested⟩ := mem_targets_iff.mp ht
    obtain ⟨row, entry, hlists⟩ := (mem_authorizedTargetValues hauthorized).mp hmem
    by_cases hgood : row.method ∈ networkMethods ∧ CoversValue R entry t
    · exact cleared_of_lists hlists hgood.1 hgood.2
    · exact helse row entry t hlists hrequested (not_and_or.mp hgood)

/-- A port scanner. -/
def portScanner : ToolCapabilities where
  network := true
  active := true
  destructive := false
  requiresAuthorization := true
  requiresHumanApproval := false
  ports := [80, 443]
  protocols := ["tcp"]

/-- A dispatch of the port scanner by an actor whom the governance lets. -/
def portScan (requestedTargets : List Str) : Dispatch where
  tenantId := 1
  requestedTargets := requestedTargets
  humanApproved := false
  policy := ⟨none, none, true, false⟩
  ownerDirect := false
  capabilities := some portScanner
  governance := ⟨true, [], none⟩
  ownerDirectRecon := false
  isTenantOwner := false

/-- The scope of a port scan of one target. -/
def portScanScope (target : Str) : EffectiveScope :=
  ⟨[target], [80, 443], ["tcp"], true, true⟩

theorem dispatched_iff_verified :
    (portScan ["example.com"]).ownerDirect = false ∧
    dispatchToolJob [domainRow "example.com" 0 9] 5 (portScan ["example.com"]) =
      .ok (.dispatched (portScanScope "example.com")) ∧
    ((∀ t ∈ (portScanScope "example.com").targets,
      Cleared .ascii [domainRow "example.com" 0 9] 1 5 t) ↔
      ClearedElsewhere .ascii [domainRow "example.com" 0 9] 5
        (portScan ["example.com"])) :=
  have h : dispatchToolJob [domainRow "example.com" 0 9] 5
      (portScan ["example.com"]) =
      .ok (.dispatched (portScanScope "example.com")) := by decide
  ⟨rfl, h, dispatched_iff rfl h⟩

/-- **A network tool dispatched on written consent**: the tool plane reads the targets of every
method. -/
theorem dispatched_uncleared :
    ¬ ∀ (R : Runtime) (table : List AuthorizationRow) (now : ℤ) (d : Dispatch)
      (scope : EffectiveScope), d.ownerDirect = false →
      (∃ capabilities, d.capabilities = some capabilities ∧ capabilities.network = true) →
      dispatchToolJob table now d = .ok (.dispatched scope) →
      ∀ t ∈ scope.targets, Cleared R table d.tenantId now t := by
  intro h
  have hcleared := h .ascii [{ domainRow "example.com" 0 9 with method := .writtenConsent }]
    5 (portScan ["example.com"]) (portScanScope "example.com") rfl
    ⟨portScanner, rfl, rfl⟩ (by decide) "example.com" (by decide)
  obtain ⟨row, hrow, -, hauthorizes⟩ := hcleared
  rw [mem_singleton] at hrow
  subst hrow
  revert hauthorizes
  decide

end Guardian.Authorization

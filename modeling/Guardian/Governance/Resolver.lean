import Guardian.Authorization.Tool
import Guardian.Python.JsonText

/-!
# Capability governance

Who may run a tool: the level of the tool is derived from its capabilities, and the actor, the
catalog, the grants, the campaign and the approval have to allow this level.
-/

namespace Guardian.Governance

open Python List
open Authorization (ToolCapabilities AuthorizationRow)

/-! ### Capability levels -/

/-- `CapabilityLevel` -/
inductive CapabilityLevel
  | passiveAnalysis
  | passiveNetwork
  | activeRecon
  | sensitive
  | exploitValidation
  | destructive
  deriving DecidableEq

/-- `int(level)` -/
def CapabilityLevel.int : CapabilityLevel → ℤ
  | passiveAnalysis => 0
  | passiveNetwork => 1
  | activeRecon => 2
  | sensitive => 3
  | exploitValidation => 4
  | destructive => 5

/-- `ToolCapabilities`, with the category. -/
structure ProviderCapabilities extends ToolCapabilities where
  category : Str

variable (R : Runtime)

/-- `_EXPLOIT_CATEGORIES` -/
def exploitCategories : List Str := ["exploit", "exploit_validation"]

/-- `_SENSITIVE_CATEGORIES` -/
def sensitiveCategories : List Str :=
  ["credential", "auth_testing", "credential_testing", "web_checks"]

/-- **`derive_capability_level`** -/
def deriveCapabilityLevel (caps : ProviderCapabilities) : CapabilityLevel :=
  let category := lower R caps.category
  if caps.destructive then .destructive
  else if category ∈ exploitCategories then .exploitValidation
  else if category ∈ sensitiveCategories then .sensitive
  else if caps.active then .activeRecon
  else if caps.network then .passiveNetwork
  else .passiveAnalysis

/-- `role_ceiling`: nothing for a role that is unknown, or may not run tools. -/
def roleCeiling (role : Str) : Option CapabilityLevel :=
  if role ∈ ["owner".toList, "admin".toList, "pentester".toList] then some .activeRecon
  else if role = "analyst" then some .passiveAnalysis
  else none

/-! ### The tables -/

/-- `PlatformGrant` -/
structure PlatformGrant where
  userId : UUID
  revokedAt : Option DateTime

/-- `TenantMembership` -/
structure TenantMembership where
  userId : UUID
  tenantId : UUID
  role : Str

/-- `ApiKey` -/
structure ApiKey where
  id : UUID
  tenantId : UUID
  scopes : Option (List Str)
  expiresAt : Option DateTime
  revokedAt : Option DateTime

/-- `ToolCatalog` -/
structure ToolCatalog where
  providerKey : Str
  enabled : Bool

/-- `CapabilityGrant` -/
structure CapabilityGrant where
  tenantId : UUID
  subjectKind : Str
  subjectRef : Str
  maxLevel : ℤ
  toolAllowlist : Option (List Str)
  expiresAt : Option DateTime
  revokedAt : Option DateTime

/-- `Campaign` -/
structure Campaign where
  id : UUID
  tenantId : UUID
  status : Str
  maxCapabilityLevel : ℤ
  startsAt : Option DateTime
  endsAt : Option DateTime

/-- `CampaignMember` -/
structure CampaignMember where
  campaignId : UUID
  userId : UUID
  roleInCampaign : Str

/-- `Approval` -/
structure Approval where
  id : UUID
  tenantId : UUID
  campaignId : Option UUID
  providerKey : Option Str
  capabilityLevel : ℤ
  approverId : UUID
  expiresAt : Option DateTime
  revokedAt : Option DateTime
  consumedAt : Option DateTime

/-- `Asset`, as far as the gate of an artifact reads it. -/
structure Asset where
  id : UUID
  tenantId : UUID

/-- **A state of the database.** -/
structure Database where
  platformGrants : List PlatformGrant
  memberships : List TenantMembership
  apiKeys : List ApiKey
  toolCatalog : List ToolCatalog
  capabilityGrants : List CapabilityGrant
  campaigns : List Campaign
  campaignMembers : List CampaignMember
  approvals : List Approval
  authorizations : List AuthorizationRow
  assets : List Asset
  /-- `id` is the primary key. -/
  approvals_unique : (approvals.map Approval.id).Nodup

/-- The statements by which a dispatch reads the database.  Each one finds what was committed before
it. -/
inductive Statement
  | platformGrant
  | membership
  | apiKey
  | catalog
  | grants
  | campaign
  | member
  | approval
  | owner
  | authorizations
  | asset
  deriving DecidableEq

/-! ### The decision -/

/-- `principal_kind` -/
inductive PrincipalKind
  | platformOwner
  | staff
  | service
  | none
  deriving DecidableEq

/-- `GovernanceResult` -/
structure GovernanceResult where
  allowed : Bool
  principalKind : PrincipalKind
  actorUuid : Option UUID
  requiredLevel : ℤ
  reasons : List Str
  approvalId : Option UUID

/-- Who asks to run what in which tenant. -/
structure GovernanceRequest where
  tenantId : UUID
  actorId : Option Str
  caps : ProviderCapabilities
  toolKey : Option Str
  campaignId : Option Str
  approvalId : Option Str

/-- The arguments of `_deny`. -/
structure Denial where
  kind : PrincipalKind
  actor : Option UUID
  reason : Str

/-- The principal that was resolved. -/
structure Principal where
  kind : PrincipalKind
  isService : Bool
  ceiling : ℤ
  role : Option Str

/-- `_SERVICE_MAX` -/
def serviceMax : ℤ := CapabilityLevel.activeRecon.int

/-- `_L3` -/
def l3 : ℤ := CapabilityLevel.sensitive.int

/-- `_L4` -/
def l4 : ℤ := CapabilityLevel.exploitValidation.int

/-- `_platform_owner_ids`, from the setting. -/
def platformOwnerIds (setting : Str) : List Str :=
  ((setting.splitOn ',').map (strip R)).filter (· ≠ [])

/-- The time has come: `_aware(ts) <= now`. -/
def reached (now : ℤ) (ts : DateTime) : Bool := decide (ts.instant ≤ now)

variable (setting : Str) (db : Statement → Database) (now : ℤ) (request : GovernanceRequest)

/-- `_is_platform_owner` -/
def isPlatformOwner (aid : Str) (actorUuid : Option UUID) : Bool :=
  decide (aid ∈ platformOwnerIds R setting) ||
    actorUuid.any fun actor => (db .platformGrant).platformGrants.any fun row =>
      row.userId = actor && row.revokedAt.isNone

/-- The higher one, if there is one already. -/
def raised (best : Option ℤ) (level : ℤ) : Option ℤ := some (best.elim level (max · level))

/-- `_service_scope_level` -/
def serviceScopeLevel (scopes : Option (List Str)) : Option ℤ :=
  (scopes.getD []).foldl (fun best token =>
    if "cap:" <+: token then (intBase10 R (token.drop 4)).elim best (raised best) else best)
    none

/-- A grant is made to the subject. -/
def matchesSubject (userUuid : Option UUID) (role : Option Str) (apiKeyId : Option UUID)
    (g : CapabilityGrant) : Bool :=
  (g.subjectKind = "user" && userUuid.any fun user => g.subjectRef = uuidText user) ||
    (g.subjectKind = "role" && role.any fun role => g.subjectRef = role) ||
    (g.subjectKind = "api_key" && apiKeyId.any fun key => g.subjectRef = uuidText key)

/-- `_grant_ceiling` -/
def grantCeiling (userUuid : Option UUID) (role : Option Str) (apiKeyId : Option UUID) :
    Option ℤ :=
  let rows := (db .grants).capabilityGrants.filter fun g =>
    g.tenantId = request.tenantId && g.revokedAt.isNone
  rows.foldl (fun best g =>
    if g.expiresAt.any (reached now) then best
    else if !matchesSubject userUuid role apiKeyId g then best
    else if g.toolAllowlist.any fun tools => !tools.any fun tool => request.toolKey = some tool then
      best
    else raised best g.maxLevel) none

/-- `_catalog_block` -/
def catalogBlock (required : ℤ) : Option Str :=
  match request.toolKey.filter (· ≠ []) with
  | none => none
  | some key =>
    match (db .catalog).toolCatalog.find? (·.providerKey = key) with
    | some cat => if cat.enabled then none else some "tool is disabled in the catalog"
    | none =>
      if l3 ≤ required then some "sensitive provider is not registered in the tool catalog"
      else none

/-- **`_validate_campaign`**: the reason why not. -/
def validateCampaign (actorUuid : Option UUID) (required : ℤ) : Option Str :=
  match request.campaignId.filter (· ≠ []) with
  | none => some "L3+ execution requires a campaign"
  | some campaignId =>
    let cid := uuidOf R campaignId
    match cid.bind fun cid => (db .campaign).campaigns.find? (·.id = cid) with
    | none => some "campaign not found in tenant"
    | some camp =>
      if camp.tenantId ≠ request.tenantId then some "campaign not found in tenant"
      else if camp.status ≠ "active" then
        some ("campaign is " ++ camp.status ++ ", not active")
      else if camp.startsAt.any (!reached now ·) then some "campaign has not started"
      else if camp.endsAt.any (reached now) then some "campaign window has ended"
      else if camp.maxCapabilityLevel < required then
        some "campaign does not authorize this capability level"
      else if (db .member).campaignMembers.any fun member =>
          some member.campaignId = cid && some member.userId = actorUuid &&
            member.roleInCampaign = "operator" then
        none
      else some "actor is not an operator of this campaign"

/-- `str(campaign_id)` of an approval. -/
def campaignText (campaignId : Option UUID) : Str := campaignId.elim "None" uuidText

/-- **`_validate_approval`**: the approval, or the reason why not. -/
def validateApproval (actorUuid : Option UUID) (required : ℤ) : Except Str UUID :=
  match request.approvalId.filter (· ≠ []) with
  | none => .error "L3+ execution requires an approval"
  | some approvalId =>
    match (uuidOf R approvalId).bind fun aid => (db .approval).approvals.find? (·.id = aid) with
    | none => .error "approval not found in tenant"
    | some appr =>
      if appr.tenantId ≠ request.tenantId then .error "approval not found in tenant"
      else if appr.revokedAt.isSome then .error "approval revoked"
      else if appr.consumedAt.isSome then .error "approval already consumed"
      else if appr.expiresAt.any (reached now) then .error "approval expired"
      else if appr.capabilityLevel < required then .error "approval level too low"
      else if appr.providerKey ≠ none ∧ appr.providerKey ≠ request.toolKey then
        .error "approval provider mismatch"
      else if campaignText appr.campaignId ≠ request.campaignId.getD "None" then
        .error "approval campaign mismatch"
      else if l4 ≤ required ∧ some appr.approverId = actorUuid then
        .error "L4+ requires an independent approver"
      else .ok appr.id

/-- The principal that an actor is. -/
def resolvePrincipal (aid : Str) (actorUuid : Option UUID) : Except Denial Principal :=
  if isPlatformOwner R setting db aid actorUuid then
    .ok ⟨.platformOwner, false, CapabilityLevel.destructive.int, none⟩
  else
    match actorUuid with
    | none => .error ⟨.none, none, "invalid actor id"⟩
    | some actor =>
      match (db .membership).memberships.find? fun row =>
          row.userId = actor && row.tenantId = request.tenantId with
      | some membership =>
        match roleCeiling membership.role with
        | none => .error ⟨.staff, some actor,
            "role '" ++ membership.role ++ "' may not execute tools"⟩
        | some ceiling => .ok ⟨.staff, false, ceiling.int, some membership.role⟩
      | none =>
        match (db .apiKey).apiKeys.find? (·.id = actor) with
        | none => .error ⟨.none, none, "no valid identity in this tenant"⟩
        | some apikey =>
          if apikey.tenantId ≠ request.tenantId ∨ apikey.revokedAt.isSome ∨
              apikey.expiresAt.any (reached now) then
            .error ⟨.none, none, "no valid identity in this tenant"⟩
          else
            match serviceScopeLevel R apikey.scopes with
            | none => .error ⟨.service, none, "service account has no capability scope"⟩
            | some level => .ok ⟨.service, true, min level serviceMax, none⟩

/-- The ceiling of a principal, raised by grants. -/
def effectiveCeiling (principal : Principal) (actorUuid : Option UUID) : ℤ :=
  if principal.kind = .platformOwner then principal.ceiling
  else
    let granted := grantCeiling db now request
      (if principal.isService then none else actorUuid) principal.role
      (if principal.isService then actorUuid else none)
    let effective := granted.elim principal.ceiling (max principal.ceiling)
    if principal.isService then min effective serviceMax else effective

/-- The checks of level 3 and more, and the approval. -/
def checkSensitive (kind : PrincipalKind) (auditActor actorUuid : Option UUID) (required : ℤ) :
    Except Denial UUID :=
  match validateCampaign R db now request actorUuid required with
  | some reason => .error ⟨kind, auditActor, reason⟩
  | none =>
    match validateApproval R db now request actorUuid required with
    | .error reason => .error ⟨kind, auditActor, reason⟩
    | .ok approval => .ok approval

/-- What an allowed decision says: the principal, the actor for the audit, and the approval. -/
structure Permission where
  kind : PrincipalKind
  actor : Option UUID
  approvalId : Option UUID

/-- `audit_actor`: a user, and no service account. -/
def auditActor (principal : Principal) (actorUuid : Option UUID) : Option UUID :=
  if principal.isService then none else actorUuid

/-- The checks of `evaluate_governance`, one after the other. -/
def checkGovernance (required : ℤ) : Except Denial Permission :=
  match request.actorId.filter (· ≠ []) with
  | none => .error ⟨.none, none, "missing actor identity"⟩
  | some aid => do
    let actorUuid := uuidOf R aid
    let principal ← resolvePrincipal R setting db now request aid actorUuid
    let actor := auditActor principal actorUuid
    match catalogBlock db request required with
    | some reason => .error ⟨principal.kind, actor, reason⟩
    | none =>
      let effective := effectiveCeiling db now request principal actorUuid
      if principal.isService ∧ l3 ≤ required then
        .error ⟨.service, none, "service accounts are capped at level 2"⟩
      else if effective < required then
        .error ⟨principal.kind, actor,
          "principal capped at level " ++ integerText effective⟩
      else if required < l3 then .ok ⟨principal.kind, actor, none⟩
      else do
        let approval ← checkSensitive R db now request principal.kind actor actorUuid required
        return ⟨principal.kind, actor, some approval⟩

/-- **`evaluate_governance`** -/
def evaluateGovernance : GovernanceResult :=
  let required := (deriveCapabilityLevel R request.caps).int
  match checkGovernance R setting db now request required with
  | .error denial => ⟨false, denial.kind, denial.actor, required, [denial.reason], none⟩
  | .ok permission =>
    ⟨true, permission.kind, permission.actor, required, [], permission.approvalId⟩

/-! ### What an allowed decision has found -/

/-- **The grounds of a run of level 3 or more**: a campaign that is active at the time, in which the
actor is an operator, and an approval that is made for it and can be used. -/
structure Grounded (required : ℤ) (actor : UUID) (campaign : Campaign) (approval : Approval) :
    Prop where
  actor_named : request.actorId.bind (uuidOf R) = some actor
  campaign_mem : campaign ∈ (db .campaign).campaigns
  campaign_named : request.campaignId = some (uuidText campaign.id)
  campaign_tenant : campaign.tenantId = request.tenantId
  active : campaign.status = "active"
  started : ∀ t ∈ campaign.startsAt, t.instant ≤ now
  unended : ∀ t ∈ campaign.endsAt, now < t.instant
  ceiling : required ≤ campaign.maxCapabilityLevel
  operator : ∃ member ∈ (db .member).campaignMembers, member.campaignId = campaign.id ∧
    member.userId = actor ∧ member.roleInCampaign = "operator"
  approval_mem : approval ∈ (db .approval).approvals
  approval_named : request.approvalId.bind (uuidOf R) = some approval.id
  approval_tenant : approval.tenantId = request.tenantId
  approval_campaign : approval.campaignId = some campaign.id
  approval_provider : approval.providerKey = none ∨ approval.providerKey = request.toolKey
  approval_level : required ≤ approval.capabilityLevel
  unrevoked : approval.revokedAt = none
  unexpired : ∀ t ∈ approval.expiresAt, now < t.instant
  unconsumed : approval.consumedAt = none
  independent : 4 ≤ required → approval.approverId ≠ actor

variable {R setting db now request} {required : ℤ} {actorUuid : Option UUID}

theorem any_reached_eq_false {ts : Option DateTime} :
    ts.any (reached now) = false ↔ ∀ t ∈ ts, now < t.instant := by
  rw [Option.any_eq_false]
  refine forall₂_congr fun t _ => ?_
  unfold reached
  rw [decide_eq_false_iff_not, not_le]

/-- **A campaign that is let through.** -/
theorem of_validateCampaign (h : validateCampaign R db now request actorUuid required = none) :
    ∃ text camp, request.campaignId = some text ∧ uuidOf R text = some camp.id ∧
      camp ∈ (db .campaign).campaigns ∧ camp.tenantId = request.tenantId ∧
      camp.status = "active" ∧ (∀ t ∈ camp.startsAt, t.instant ≤ now) ∧
      (∀ t ∈ camp.endsAt, now < t.instant) ∧ required ≤ camp.maxCapabilityLevel ∧
      ∃ member ∈ (db .member).campaignMembers, member.campaignId = camp.id ∧
        some member.userId = actorUuid ∧ member.roleInCampaign = "operator" := by
  unfold validateCampaign at h
  split at h
  · cases h
  · next text htext =>
    dsimp only at h
    split at h
    · cases h
    · next camp hcamp =>
      obtain ⟨cid, hcid, hfind⟩ := Option.bind_eq_some_iff.mp hcamp
      have hid : camp.id = cid := by simpa using find?_some hfind
      split_ifs at h with htenant hstatus hstart hend hlevel hmember
      obtain ⟨member, hmem, hmember⟩ := any_eq_true.mp hmember
      simp only [Bool.and_eq_true, decide_eq_true_eq, hcid, Option.some.injEq] at hmember
      refine ⟨text, camp, (Option.filter_eq_some_iff.mp htext).1, hid ▸ hcid,
        mem_of_find?_eq_some hfind, not_not.mp htenant, not_not.mp hstatus, ?_,
        any_reached_eq_false.mp (Bool.eq_false_iff.mpr hend), not_lt.mp hlevel, member, hmem,
        hmember.1.1.trans hid.symm, hmember.1.2, hmember.2⟩
      intro t ht
      have hreached := (Option.any_eq_false _ _).mp (Bool.eq_false_iff.mpr hstart) t ht
      have hreached : reached now t = true := by simpa using hreached
      exact of_decide_eq_true hreached

/-- **An approval that is let through.** -/
theorem of_validateApproval {approvalId : UUID}
    (h : validateApproval R db now request actorUuid required = .ok approvalId) :
    ∃ appr, appr.id = approvalId ∧ request.approvalId.bind (uuidOf R) = some appr.id ∧
      appr ∈ (db .approval).approvals ∧ appr.tenantId = request.tenantId ∧
      appr.revokedAt = none ∧ appr.consumedAt = none ∧ (∀ t ∈ appr.expiresAt, now < t.instant) ∧
      required ≤ appr.capabilityLevel ∧
      (appr.providerKey = none ∨ appr.providerKey = request.toolKey) ∧
      campaignText appr.campaignId = request.campaignId.getD "None" ∧
      (l4 ≤ required → some appr.approverId ≠ actorUuid) := by
  unfold validateApproval at h
  split at h
  · cases h
  · next text htext =>
    split at h
    · cases h
    · next appr happr =>
      obtain ⟨aid, haid, hfind⟩ := Option.bind_eq_some_iff.mp happr
      have hid : appr.id = aid := by simpa using find?_some hfind
      split_ifs at h with htenant hrevoked hconsumed hexpired hlevel hprovider hcampaign hself
      refine ⟨appr, Except.ok.inj h, ?_, mem_of_find?_eq_some hfind, not_not.mp htenant,
        Option.not_isSome_iff_eq_none.mp hrevoked, Option.not_isSome_iff_eq_none.mp hconsumed,
        any_reached_eq_false.mp (Bool.eq_false_iff.mpr hexpired), not_lt.mp hlevel, ?_,
        not_not.mp hcampaign, fun hl4 hactor => hself ⟨hl4, hactor⟩⟩
      · rw [(Option.filter_eq_some_iff.mp htext).1, hid]
        exact haid
      · exact or_iff_not_imp_left.mpr fun hne => not_not.mp fun hkey => hprovider ⟨hne, hkey⟩

theorem uuidOf_none_text : uuidOf R "None" = none := by
  unfold uuidOf
  exact if_neg (by decide)

/-- **What the checks of level 3 and more have found.** -/
theorem of_checkSensitive {kind : PrincipalKind} {auditActor : Option UUID} {approvalId : UUID}
    (hactor : request.actorId.bind (uuidOf R) = actorUuid)
    (h : checkSensitive R db now request kind auditActor actorUuid required = .ok approvalId) :
    ∃ actor campaign approval, Grounded R db now request required actor campaign approval ∧
      approval.id = approvalId := by
  unfold checkSensitive at h
  split at h
  · cases h
  · next hcampaign =>
    split at h
    · cases h
    · next approvalId' happroval =>
      cases h
      obtain ⟨text, camp, htext, huuid, hmem, htenant, hstatus, hstart, hend, hlevel, member,
        hmember, hcid, huser, hrole⟩ := of_validateCampaign hcampaign
      obtain ⟨appr, hid, hnamed, happr, hatenant, hrevoked, hconsumed, hexpired, halevel,
        hprovider, hsame, hself⟩ := of_validateApproval happroval
      rw [htext, Option.getD_some] at hsame
      have hcampaignId : appr.campaignId = some camp.id := by
        rcases hnone : appr.campaignId with _ | id
        · rw [hnone] at hsame
          change "None" = text at hsame
          rw [← hsame, uuidOf_none_text] at huuid
          cases huuid
        · rw [hnone] at hsame
          change uuidText id = text at hsame
          rw [← hsame, uuidOf_uuidText] at huuid
          exact huuid
      rw [hcampaignId] at hsame
      change uuidText camp.id = text at hsame
      refine ⟨member.userId, camp, appr, ?_, hid⟩
      exact
        { actor_named := hactor.trans huser.symm
          campaign_mem := hmem
          campaign_named := htext.trans (congrArg some hsame.symm)
          campaign_tenant := htenant
          active := hstatus
          started := hstart
          unended := hend
          ceiling := hlevel
          operator := ⟨member, hmember, hcid, rfl, hrole⟩
          approval_mem := happr
          approval_named := hnamed
          approval_tenant := hatenant
          approval_campaign := hcampaignId
          approval_provider := hprovider
          approval_level := halevel
          unrevoked := hrevoked
          unexpired := hexpired
          unconsumed := hconsumed
          independent := fun hl4 hsame' => hself hl4 (by rw [hsame', huser]) }

theorem isService_of_resolvePrincipal {aid : Str} {principal : Principal}
    (h : resolvePrincipal R setting db now request aid actorUuid = .ok principal)
    (hkind : principal.kind = .service) : principal.isService = true := by
  unfold resolvePrincipal at h
  split_ifs at h
  · cases h
    cases hkind
  · split at h
    · cases h
    · split at h
      · split at h <;> cases h
        cases hkind
      · split at h
        · cases h
        · split_ifs at h
          split at h <;> cases h
          rfl

/-- **The checks, one after the other.** -/
theorem of_checkGovernance {permission : Permission}
    (h : checkGovernance R setting db now request required = .ok permission) :
    (permission.kind = .service → required < 3) ∧
      (required < 3 ∧ permission.approvalId = none ∨
        ∃ actor campaign approval, Grounded R db now request required actor campaign approval ∧
          permission.approvalId = some approval.id) := by
  unfold checkGovernance at h
  split at h
  · cases h
  · next aid haid =>
    have hactor : request.actorId.bind (uuidOf R) = uuidOf R aid := by
      rw [(Option.filter_eq_some_iff.mp haid).1]
      rfl
    obtain ⟨principal, hprincipal, h⟩ := bind_eq_ok.mp h
    have hservice := isService_of_resolvePrincipal hprincipal
    dsimp only at h
    split at h
    · cases h
    · split_ifs at h with hcap hceiling hlow
      · cases h
        exact ⟨fun _ => hlow, Or.inl ⟨hlow, rfl⟩⟩
      · obtain ⟨approvalId, hsensitive, h⟩ := bind_eq_ok.mp h
        cases h
        obtain ⟨actor, campaign, approval, hgrounded, hid⟩ := of_checkSensitive hactor hsensitive
        refine ⟨fun hkind => ?_, Or.inr ⟨actor, campaign, approval, hgrounded, ?_⟩⟩
        · exact not_le.mp fun hle => hcap ⟨hservice hkind, hle⟩
        · exact congrArg some hid.symm

theorem eq_of_allowed (h : (evaluateGovernance R setting db now request).allowed = true) :
    ∃ permission, checkGovernance R setting db now request
        (deriveCapabilityLevel R request.caps).int = .ok permission ∧
      evaluateGovernance R setting db now request = ⟨true, permission.kind, permission.actor,
        (deriveCapabilityLevel R request.caps).int, [], permission.approvalId⟩ := by
  unfold evaluateGovernance at h ⊢
  dsimp only at h ⊢
  split at h
  · cases h
  · next permission hpermission =>
    exact ⟨permission, hpermission, rfl⟩

/-- **An allowed decision of level 3 or more** has its grounds, and names the approval. -/
theorem allowed_sensitive (h : (evaluateGovernance R setting db now request).allowed = true)
    (hlevel : 3 ≤ (evaluateGovernance R setting db now request).requiredLevel) :
    ∃ actor campaign approval,
      Grounded R db now request (evaluateGovernance R setting db now request).requiredLevel actor
        campaign approval ∧
      (evaluateGovernance R setting db now request).approvalId = some approval.id := by
  obtain ⟨permission, hpermission, heq⟩ := eq_of_allowed h
  rw [heq] at hlevel ⊢
  exact (of_checkGovernance hpermission).2.resolve_left fun hlow => not_le.mpr hlow.1 hlevel

theorem allowed_service (h : (evaluateGovernance R setting db now request).allowed = true)
    (hkind : (evaluateGovernance R setting db now request).principalKind = .service) :
    (evaluateGovernance R setting db now request).requiredLevel ≤ 2 := by
  obtain ⟨permission, hpermission, heq⟩ := eq_of_allowed h
  rw [heq] at hkind ⊢
  exact Int.lt_add_one_iff.mp ((of_checkGovernance hpermission).1 hkind)

end Guardian.Governance

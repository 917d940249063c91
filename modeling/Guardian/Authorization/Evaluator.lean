import Guardian.Authorization.Host

/-!
# The evaluator

`decide` answers whether an engine may run against an asset: some authorization on file is active,
of a method that permits the plane, and covers the asset by its id or its host by a target.
-/

namespace Guardian.Authorization

open Python Guardian.Order

variable (R : Runtime)

/-! ### Authorizations -/

/-- A JSON value as the gates read it: what `str` makes of it, and whether it counts as true. -/
inductive JsonValue
  | str (s : Str)
  | other (text : Str) (truthy : Bool)
  deriving DecidableEq

namespace JsonValue

/-- `str(value)`. -/
def text : JsonValue → Str
  | .str s => s
  | .other t _ => t

/-- `bool(value)`. -/
def truthy : JsonValue → Bool
  | .str s => !s.isEmpty
  | .other _ b => b

end JsonValue

/-- An authorized target. -/
structure Target where
  type : Option JsonValue
  value : Option JsonValue
  deriving DecidableEq

/-- The target `{"type": type, "value": value}`. -/
def Target.of (type value : Str) : Target := ⟨some (.str type), some (.str value)⟩

/-- How an authorization came about. -/
inductive Method
  | writtenConsent
  | activeRecon
  | ownershipVerified
  | other (name : Str)
  deriving DecidableEq

/-- The name of the method. -/
def Method.name : Method → Str
  | .writtenConsent => "written_consent"
  | .activeRecon => "active_recon"
  | .ownershipVerified => "ownership_verified"
  | .other name => name

/-- `NETWORK_METHODS`. -/
def networkMethods : List Method := [.activeRecon, .ownershipVerified]

/-- `ARTIFACT_METHODS`. -/
def artifactMethods : List Method := [.writtenConsent, .activeRecon, .ownershipVerified]

/-- `NETWORK_ASSET_KINDS`. -/
def networkAssetKinds : List Str :=
  ["web", "api", "host", "netblock", "cloud_account"]

abbrev Id := ℕ

/-- `AuthorizationView`.  A target that is `none` is an entry that is no dictionary; an instant is an
integer. -/
structure AuthorizationView where
  id : Id
  method : Method
  assetId : Option Id
  customerId : Option Id
  targets : List (Option Target)
  validFrom : Option ℤ
  validUntil : Option ℤ
  revokedAt : Option ℤ

/-- `AuthorizationView.active`. -/
def AuthorizationView.active (a : AuthorizationView) (now : ℤ) : Bool :=
  if a.revokedAt.isSome then false
  else if a.validFrom.any (now < ·) then false
  else !a.validUntil.any (· < now)

/-! ### The scope test -/

/-- One entry of the scope against a host, which is not empty and is its own key. -/
def entryMatches (host : Str) : Option Target → Bool
  | none => false
  | some entry =>
    let kind := lower R ((entry.type.map JsonValue.text).getD [])
    let target := hostKey R ((entry.value.map JsonValue.text).getD [])
    if target = [] then false
    else if kind = "domain" then decide (Within '.' target host)
    else if kind = "netblock" then
      (ipAddress host).any fun address =>
        (ipNetwork R target).any fun network => network.contains address
    else decide (kind = "ip" ∨ kind = "host") &&
      decide (host = target)

/-- `authorization.target_matches`. -/
def targetMatches (targets : List (Option Target)) (value : Str) : Bool :=
  let host := hostKey R value
  if host = [] then false else targets.any (entryMatches R host)

/-! ### The decision -/

/-- `authorization.authorizes`. -/
def authorizes (a : AuthorizationView) (assetId : Option Id) (assetIdentifier : Str)
    (needsNetwork : Bool) (now : ℤ) : Except Fault Bool := do
  if !a.active now then return false
  else if a.method ∉ (if needsNetwork then networkMethods else artifactMethods) then return false
  else if a.assetId.isSome ∧ a.assetId = assetId then return true
  else if a.targets = [] then return false
  else return targetMatches R a.targets (← hostOf R assetIdentifier)

/-- The first authorization that covers the target. -/
def firstAuthorizing (assetId : Option Id) (assetIdentifier : Str) (needsNetwork : Bool)
    (now : ℤ) : List AuthorizationView → Except Fault (Option AuthorizationView)
  | [] => return none
  | a :: rest => do
    if ← authorizes R a assetId assetIdentifier needsNetwork now then return some a
    else firstAuthorizing assetId assetIdentifier needsNetwork now rest

/-- `Decision`. -/
structure Decision where
  allowed : Bool
  reason : Str
  authorizationId : Option Id
  deriving DecidableEq

/-- An active authorization that covers the target on the other plane. -/
def coversOtherPlane (assetId : Option Id) (assetIdentifier : Str) (needsNetwork : Bool)
    (now : ℤ) (a : AuthorizationView) : Except Fault Bool := do
  if a.active now && needsNetwork && decide (a.method ∉ networkMethods) then
    if a.assetId = assetId then return true
    else return targetMatches R a.targets (← hostOf R assetIdentifier)
  else return false

/-- `authorization.decide`. -/
def AuthorizationView.decide (authorizations : List AuthorizationView) (assetId : Option Id)
    (assetIdentifier assetKind engine : Str) (engineTouchesNetwork : Option Bool) (now : ℤ) :
    Except Fault Decision := do
  let needsNetwork :=
    engineTouchesNetwork.getD (Decidable.decide (assetKind ∈ networkAssetKinds))
  match ← firstAuthorizing R assetId assetIdentifier needsNetwork now authorizations with
  | some a => return ⟨true, "authorized by " ++ a.method.name, some a.id⟩
  | none =>
    let expired := authorizations.filter fun a => !a.active now
    let wrongPlane ←
      authorizations.filterM (coversOtherPlane R assetId assetIdentifier needsNetwork now)
    let h ← hostOf R assetIdentifier
    let host := if h = [] then assetIdentifier else h
    match wrongPlane with
    | a :: _ =>
      return ⟨false, engine ++ " needs permission to send traffic to " ++ host ++
        "; the authorization on file is " ++ a.method.name ++
        (", which covers an artifact the customer provided rather than " ++
        "their network"), none⟩
    | [] =>
      if !expired.isEmpty && (authorizations.filter fun a => a.active now).isEmpty then
        return ⟨false, "the authorization covering " ++ host ++
          " is expired or revoked", none⟩
      else
        return ⟨false, "no authorization covers " ++ host ++
          (if needsNetwork then
            " — prove ownership of the domain or record an engagement scope".toList
          else " — record the customer's consent for this artifact"), none⟩

variable {R}

/-! ### What an authorization covers -/

/-- The methods that permit a plane. -/
def Permits (needsNetwork : Bool) (method : Method) : Prop :=
  method ∈ if needsNetwork then networkMethods else artifactMethods

variable (R) in
/-- **An authorization covers a target**: it is active, its method permits the plane, and it names
the asset or has a target that the host falls inside. -/
def Covers (a : AuthorizationView) (assetId : Option Id) (assetIdentifier : Str)
    (needsNetwork : Bool) (now : ℤ) : Prop :=
  a.active now = true ∧ Permits needsNetwork a.method ∧
    ((a.assetId.isSome = true ∧ a.assetId = assetId) ∨
      ∃ host, hostOf R assetIdentifier = .ok host ∧ targetMatches R a.targets host = true)

theorem targetMatches_nil (host : Str) : targetMatches R [] host = false := by
  unfold targetMatches
  dsimp only
  split_ifs <;> rfl

theorem targetMatches_iff {targets : List (Option Target)} {value : Str} :
    targetMatches R targets value = true ↔
      hostKey R value ≠ [] ∧ ∃ e ∈ targets, entryMatches R (hostKey R value) e = true := by
  unfold targetMatches
  dsimp only
  split_ifs with h
  · simp [h]
  · simp [h]

theorem targetMatches_congr {v w : Str} (h : hostKey R v = hostKey R w)
    (targets : List (Option Target)) : targetMatches R targets v = targetMatches R targets w := by
  unfold targetMatches
  rw [h]

theorem lower_domain : lower R "domain" = "domain" := lower_of_ascii (by decide)

theorem entryMatches_domain {host value : Str} :
    entryMatches R host (some (Target.of "domain" value)) = true ↔
      hostKey R value ≠ [] ∧ Within '.' (hostKey R value) host := by
  have hkind : lower R (((Target.of "domain" value).type.map JsonValue.text).getD []) =
      "domain" := lower_domain
  have hvalue : ((Target.of "domain" value).value.map JsonValue.text).getD [] = value := rfl
  unfold entryMatches
  simp only [hkind, hvalue]
  split_ifs with h
  · simp [h]
  · simp [h]

/-- **A list of domain targets** covers the names inside one of their zones. -/
theorem targetMatches_domains {domains : List Str} {value : Str} :
    targetMatches R (domains.map fun d => some (Target.of "domain" d)) value = true ↔
      hostKey R value ≠ [] ∧
        ∃ d ∈ domains, hostKey R d ≠ [] ∧ Within '.' (hostKey R d) (hostKey R value) := by
  rw [targetMatches_iff]
  refine and_congr_right fun _ => ?_
  constructor
  · rintro ⟨e, he, h⟩
    obtain ⟨d, hd, rfl⟩ := List.mem_map.mp he
    exact ⟨d, hd, entryMatches_domain.mp h⟩
  · rintro ⟨d, hd, h⟩
    exact ⟨_, List.mem_map_of_mem hd, entryMatches_domain.mpr h⟩

/-- **An authorization grants exactly what it covers.** -/
theorem authorizes_iff {a : AuthorizationView} {assetId : Option Id} {assetIdentifier : Str}
    {needsNetwork : Bool} {now : ℤ} :
    authorizes R a assetId assetIdentifier needsNetwork now = .ok true ↔
      Covers R a assetId assetIdentifier needsNetwork now := by
  unfold authorizes Covers Permits
  by_cases hactive : a.active now = true
  swap
  · rw [if_pos (by simpa using hactive)]
    exact iff_of_false (fun h => nomatch h) fun h => hactive h.1
  rw [if_neg (by simpa using hactive)]
  by_cases hmethod : a.method ∈ if needsNetwork = true then networkMethods else artifactMethods
  swap
  · rw [if_pos hmethod]
    exact iff_of_false (fun h => nomatch h) fun h => hmethod h.2.1
  rw [if_neg (not_not_intro hmethod)]
  by_cases hasset : a.assetId.isSome = true ∧ a.assetId = assetId
  · rw [if_pos hasset]
    exact iff_of_true rfl ⟨hactive, hmethod, Or.inl hasset⟩
  rw [if_neg hasset]
  by_cases htargets : a.targets = []
  · rw [if_pos htargets]
    refine iff_of_false (fun h => nomatch h) ?_
    rintro ⟨-, -, h | ⟨host, -, h⟩⟩
    · exact hasset h
    · rw [htargets, targetMatches_nil] at h
      cases h
  · rw [if_neg htargets, bind_eq_ok]
    constructor
    · rintro ⟨host, hhost, h⟩
      exact ⟨hactive, hmethod, Or.inr ⟨host, hhost, Except.ok.inj h⟩⟩
    · rintro ⟨-, -, h | ⟨host, hhost, h⟩⟩
      · exact absurd h hasset
      · exact ⟨host, hhost, congrArg Except.ok h⟩

/-! ### What the gate allows -/

theorem firstAuthorizing_mem {assetId : Option Id} {assetIdentifier : Str} {needsNetwork : Bool}
    {now : ℤ} {l : List AuthorizationView} {a : AuthorizationView}
    (h : firstAuthorizing R assetId assetIdentifier needsNetwork now l = .ok (some a)) :
    a ∈ l ∧ Covers R a assetId assetIdentifier needsNetwork now := by
  induction l with
  | nil => cases h
  | cons b l ih =>
    obtain ⟨x, hx, h⟩ := bind_eq_ok.mp h
    cases x with
    | true =>
      cases h
      exact ⟨by simp, authorizes_iff.mp hx⟩
    | false =>
      obtain ⟨hmem, hcovers⟩ := ih h
      exact ⟨by simp [hmem], hcovers⟩

theorem firstAuthorizing_of_mem {assetId : Option Id} {assetIdentifier host : Str}
    {needsNetwork : Bool} {now : ℤ} {l : List AuthorizationView} {a : AuthorizationView}
    (hhost : hostOf R assetIdentifier = .ok host) (ha : a ∈ l)
    (hcovers : Covers R a assetId assetIdentifier needsNetwork now) :
    ∃ b, firstAuthorizing R assetId assetIdentifier needsNetwork now l = .ok (some b) := by
  have hok : ∀ b, ∃ x, authorizes R b assetId assetIdentifier needsNetwork now = .ok x := by
    intro b
    unfold authorizes
    rw [hhost]
    split_ifs <;> exact ⟨_, rfl⟩
  induction l with
  | nil => simp at ha
  | cons b l ih =>
    obtain ⟨x, hx⟩ := hok b
    cases x with
    | true => exact ⟨b, bind_eq_ok.mpr ⟨true, hx, rfl⟩⟩
    | false =>
      rcases List.mem_cons.mp ha with rfl | ha
      · rw [authorizes_iff.mpr hcovers] at hx
        cases hx
      · obtain ⟨c, hc⟩ := ih ha
        exact ⟨c, bind_eq_ok.mpr ⟨false, hx, hc⟩⟩

section

variable {l : List AuthorizationView} {assetId : Option Id} {assetIdentifier assetKind engine : Str}
  {touches : Option Bool} {now : ℤ}

def needsNetworkOf (touches : Option Bool) (assetKind : Str) : Bool :=
  touches.getD (decide (assetKind ∈ networkAssetKinds))

theorem decide_allowed_iff_first :
    (∃ d, AuthorizationView.decide R l assetId assetIdentifier assetKind engine touches now = .ok d ∧
      d.allowed = true) ↔
      ∃ a, firstAuthorizing R assetId assetIdentifier (needsNetworkOf touches assetKind) now l =
        .ok (some a) := by
  unfold AuthorizationView.decide
  constructor
  · rintro ⟨d, hd, hallowed⟩
    obtain ⟨first, hfirst, hd⟩ := bind_eq_ok.mp hd
    cases first with
    | some a => exact ⟨a, hfirst⟩
    | none =>
      obtain ⟨wrongPlane, -, hd⟩ := bind_eq_ok.mp hd
      obtain ⟨h, -, hd⟩ := bind_eq_ok.mp hd
      cases wrongPlane with
      | cons a _ => cases hd; cases hallowed
      | nil =>
        dsimp only at hd
        split_ifs at hd <;> cases hd <;> cases hallowed
  · rintro ⟨a, ha⟩
    exact ⟨_, bind_eq_ok.mpr ⟨some a, ha, rfl⟩, rfl⟩

/-- **What the gate allows is covered** by the authorization it names. -/
theorem covers_of_decide {d : Decision}
    (h : AuthorizationView.decide R l assetId assetIdentifier assetKind engine touches now = .ok d)
    (hallowed : d.allowed = true) :
    ∃ a ∈ l, d.authorizationId = some a.id ∧
      Covers R a assetId assetIdentifier (needsNetworkOf touches assetKind) now := by
  obtain ⟨a, ha⟩ := decide_allowed_iff_first.mp ⟨d, h, hallowed⟩
  obtain ⟨hmem, hcovers⟩ := firstAuthorizing_mem ha
  refine ⟨a, hmem, ?_, hcovers⟩
  obtain ⟨first, hfirst, h⟩ := bind_eq_ok.mp h
  rw [needsNetworkOf] at ha
  rw [ha] at hfirst
  cases hfirst
  cases h
  rfl

/-- **Without an asset id** the gate allows exactly the targets whose host is covered. -/
theorem decide_allowed_iff :
    (∃ d, AuthorizationView.decide R l none assetIdentifier assetKind engine touches now = .ok d ∧
      d.allowed = true) ↔
      ∃ host, hostOf R assetIdentifier = .ok host ∧ ∃ a ∈ l, a.active now = true ∧
        Permits (needsNetworkOf touches assetKind) a.method ∧
        targetMatches R a.targets host = true := by
  rw [decide_allowed_iff_first]
  constructor
  · rintro ⟨a, ha⟩
    obtain ⟨hmem, hactive, hpermits, ⟨hsome, hnone⟩ | ⟨host, hhost, hmatch⟩⟩ :=
      firstAuthorizing_mem ha
    · rw [hnone] at hsome
      cases hsome
    · exact ⟨host, hhost, a, hmem, hactive, hpermits, hmatch⟩
  · rintro ⟨host, hhost, a, hmem, hactive, hpermits, hmatch⟩
    exact firstAuthorizing_of_mem hhost hmem ⟨hactive, hpermits, Or.inr ⟨host, hhost, hmatch⟩⟩

end

end Guardian.Authorization

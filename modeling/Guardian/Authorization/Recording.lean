import Guardian.Authorization.Discovery
import Guardian.Authorization.Ownership
import Guardian.Transition.Run

/-!
# Recording an authorization

`createAuthorization` is the route by which the staff of a tenant records what a customer consented
to.  A method that permits network traffic is recorded only for domains that the customer has
proved.  The scan gate later matches the row by its targets, or by the asset it names.
`recon_confined` gives the runs in which what it allows is proved.
-/

namespace Guardian.Authorization

open Python Guardian.Order Transition List

variable (R : Runtime)

/-! ### The tables -/

/-- An asset, as far as the gate reads it. -/
structure Asset where
  tenantId : Id
  customerId : Id
  kind : Str
  identifier : Str

/-- The proof of a domain, as far as the route reads it. -/
structure Proof where
  tenantId : Id
  customerId : Id
  domain : Str
  verified : Bool
  expiresAt : Option ℤ
  deriving DecidableEq

/-- What may be recorded: `RECORDABLE`. -/
inductive Recordable
  | writtenConsent
  | activeRecon
  deriving DecidableEq

/-- The method of the row. -/
def Recordable.method : Recordable → Method
  | .writtenConsent => .writtenConsent
  | .activeRecon => .activeRecon

/-- `AuthorizationCreate`, the body of a request. -/
structure AuthorizationCreate where
  customerId : Id
  method : Recordable
  assetId : Option Id
  domains : List Str
  validityDays : ℕ

/-- The bounds that a body is checked against. -/
def AuthorizationCreate.InBounds (body : AuthorizationCreate) : Prop :=
  body.domains.length ≤ 50 ∧ 1 ≤ body.validityDays ∧ body.validityDays ≤ 365

instance (body : AuthorizationCreate) : Decidable body.InBounds :=
  inferInstanceAs (Decidable (_ ∧ _))

/-- A row, with the domains that its customer had proved when it was created. -/
structure Recorded where
  row : AuthorizationRow
  proved : List Str

/-- **The database**: its tables, the next id and the time.  A table maps its ids to its rows, the
one of the customers to their tenants. -/
structure Store where
  customers : Id → Option Id
  assets : Id → Option Asset
  proofs : List Proof
  authorizations : List Recorded
  nextId : Id
  now : ℤ

/-! ### The route -/

/-- Why a request is refused. -/
inductive Refusal
  | customerNotFound
  | assetNotFound
  | notADomain (raw : Str)
  | namesNothing
  | notVerified (unproved : List Str)
  deriving DecidableEq

/-- A proof that holds at an instant. -/
def Proof.holds (now : ℤ) (p : Proof) : Bool := p.verified && p.expiresAt.all (now < ·)

/-- The proofs the query of `_verified_domains` selects, before its limit. -/
def verifiedProofs (s : Store) (tenantId customerId : Id) : List Proof :=
  s.proofs.filter fun p =>
    decide (p.tenantId = tenantId ∧ p.customerId = customerId) && p.verified

/-- `_verified_domains`, from the rows the query returns. -/
def verifiedDomains (picked : List Proof) (now : ℤ) : List Str :=
  (picked.filter (Proof.holds now)).map fun p => lower R p.domain

/-- The domains a customer has proved. -/
def provedDomains (s : Store) (tenantId customerId : Id) : List Str :=
  verifiedDomains R (verifiedProofs s tenantId customerId) s.now

/-- The targets of a request: its domains, normalized. -/
def requestTargets : List Str → Except Refusal (List Str)
  | [] => return []
  | raw :: rest =>
    match normalizeDomain R raw with
    | .error _ => throw (.notADomain raw)
    | .ok d => do return d :: (← requestTargets rest)

/-- The asset a request names is one of the tenant. -/
def assetFound (s : Store) (tenantId : Id) (assetId : Option Id) : Bool :=
  assetId.all fun id => (s.assets id).any fun a => decide (a.tenantId = tenantId)

def day : ℤ := 86400000000

/-- The targets that lie in no verified domain. -/
def unprovedTargets (verified targets : List Str) : List Str :=
  targets.filter fun t => !verified.any fun d => decide (Within '.' d t)

/-- The row of a request. -/
def recordedRow (s : Store) (tenantId : Id) (body : AuthorizationCreate) (targets : List Str) :
    AuthorizationRow where
  id := s.nextId
  tenantId := tenantId
  customerId := body.customerId
  assetId := body.assetId
  authorizedTargets := targets.map fun t => some (Target.of "domain" t)
  method := body.method.method
  validFrom := s.now
  validUntil := s.now + body.validityDays * day
  revokedAt := none

/-- `create_authorization`, with the proofs its query returned. -/
def createAuthorization (s : Store) (tenantId : Id) (picked : List Proof)
    (body : AuthorizationCreate) : Except Refusal AuthorizationRow := do
  if s.customers body.customerId ≠ some tenantId then throw .customerNotFound
  else if !assetFound s tenantId body.assetId then throw .assetNotFound
  else
    let targets ← requestTargets R body.domains
    let unproved := unprovedTargets (verifiedDomains R picked s.now) targets
    if body.assetId = none ∧ targets = [] then throw .namesNothing
    else if body.method = .activeRecon ∧ (unproved ≠ [] ∨ targets = []) then
      throw (.notVerified unproved)
    else return recordedRow s tenantId body targets

/-! ### The runs -/

/-- What happens to the database. -/
inductive Change
  /-- A request of the staff of a tenant; the query for the proofs returns some of its rows. -/
  | request (tenantId : Id) (picked : List Proof) (body : AuthorizationCreate)
  | addAsset (a : Asset)
  | setCustomers (customers : Id → Option Id)
  | setProofs (proofs : List Proof)
  /-- The worker grants what a proof of ownership earns. -/
  | grant (row : AuthorizationRow)
  | revoke (id : Id)
  | wait (time : ℕ)

/-- A row that is withdrawn, if it is the one and was not before. -/
def Recorded.revoke (id : Id) (now : ℤ) (r : Recorded) : Recorded :=
  if r.row.id = id ∧ r.row.revokedAt = none then
    { r with row := { r.row with revokedAt := some now } }
  else r

/-- **One step**: a refused request changes nothing. -/
def change (s : Store) : Change → Option Store
  | .request tenantId picked body =>
    if body.InBounds ∧ picked.length ≤ 500 ∧
        ∀ p ∈ picked, p ∈ verifiedProofs s tenantId body.customerId then
      match createAuthorization R s tenantId picked body with
      | .error _ => some s
      | .ok row => some
          { s with
            authorizations := ⟨row, provedDomains R s tenantId body.customerId⟩ :: s.authorizations
            nextId := s.nextId + 1 }
    else none
  | .addAsset a => some
      { s with assets := Function.update s.assets s.nextId (some a), nextId := s.nextId + 1 }
  | .setCustomers customers => some { s with customers := customers }
  | .setProofs proofs => some { s with proofs := proofs }
  | .grant row =>
    if row.method = .ownershipVerified ∧ row.id = s.nextId then
      some { s with authorizations := ⟨row, []⟩ :: s.authorizations, nextId := s.nextId + 1 }
    else none
  | .revoke id => some { s with authorizations := s.authorizations.map (Recorded.revoke id s.now) }
  | .wait time => some { s with now := s.now + time }

/-- A database without authorizations; the ids of its assets were given out. -/
def Store.Initial (s : Store) : Prop :=
  s.authorizations = [] ∧ ∀ id, s.nextId ≤ id → s.assets id = none

/-! ### What the scan gate allows -/

/-- The rows that the query of the scan gate may return. -/
def ScanRows (s : Store) (a : Asset) (rows : List Recorded) : Prop :=
  rows.length ≤ 200 ∧ ∀ r ∈ rows, r ∈ s.authorizations ∧ r.row.tenantId = a.tenantId ∧
    r.row.customerId = a.customerId

/-- `_authorized`, with the rows its query returned. -/
def scanAuthorized (rows : List Recorded) (assetId : Id) (a : Asset) (engineKey : Str) (now : ℤ) :
    Except Fault Decision :=
  AuthorizationView.decide R (rows.map fun r => r.row.view) (some assetId) a.identifier a.kind
    engineKey none now

/-- The host lies inside a domain that was proved. -/
def HostProved (proved : List Str) (identifier : Str) : Prop :=
  ∃ host, hostOf R identifier = .ok host ∧ ∃ d ∈ proved, Within '.' d (hostKey R host)

/-- **Active testing is confined**: an asset to which the scan gate allows network traffic on a row of
the method `active_recon` has its host inside a domain proved when the row was created. -/
def ReconConfined (s : Store) : Prop :=
  ∀ id a rows engineKey now d, s.assets id = some a → ScanRows s a rows →
    a.kind ∈ networkAssetKinds → scanAuthorized R rows id a engineKey now = .ok d →
    d.allowed = true → ∃ r ∈ rows, d.authorizationId = some r.row.id ∧
      (r.row.method = .activeRecon → HostProved R r.proved a.identifier)

/-- A request for active testing that passes the checks on its customer and its domains, and names
an asset of that customer on the network. -/
structure NamesAsset (s : Store) (tenantId : Id) (picked : List Proof) (body : AuthorizationCreate)
    (id : Id) (a : Asset) : Prop where
  method : body.method = .activeRecon
  customer : s.customers body.customerId = some tenantId
  domains : ∃ targets, requestTargets R body.domains = .ok targets ∧ targets ≠ [] ∧
    unprovedTargets (verifiedDomains R picked s.now) targets = []
  assetId : body.assetId = some id
  asset : s.assets id = some a
  owner : a.tenantId = tenantId ∧ a.customerId = body.customerId
  network : a.kind ∈ networkAssetKinds

/-- **The condition on a step**: a request for active testing that passes the checks on its customer
and its domains, and names an asset of that customer on the network, names one whose host lies
inside a domain the customer has proved. -/
def NamedAssetProved (s : Store) : Change → Prop
  | .request tenantId picked body =>
    ∀ id a, NamesAsset R s tenantId picked body id a →
      HostProved R (provedDomains R s tenantId body.customerId) a.identifier
  | _ => True

/-- The invariant of a row: its targets lie inside its proved domains, and so does the host of the
asset on the network that it names. -/
structure RowConfined (s : Store) (r : Recorded) : Prop where
  targets : ∃ domains : List Str,
    r.row.authorizedTargets = domains.map (fun t => some (Target.of "domain" t)) ∧
      ∀ t ∈ domains, hostKey R t = t ∧ ∃ d ∈ r.proved, Within '.' d t
  asset : ∀ id, r.row.assetId = some id → id < s.nextId ∧ ∀ a, s.assets id = some a →
    a.tenantId = r.row.tenantId → a.customerId = r.row.customerId → a.kind ∈ networkAssetKinds →
    HostProved R r.proved a.identifier

/-- **The invariant of the database.** -/
structure Invariant (s : Store) : Prop where
  fresh : ∀ id, s.nextId ≤ id → s.assets id = none
  rows : ∀ r ∈ s.authorizations, r.row.method = .activeRecon → RowConfined R s r

variable {R}

theorem requestTargets_spec {domains targets : List Str}
    (h : requestTargets R domains = .ok targets) : ∀ t ∈ targets, hostKey R t = t := by
  induction domains generalizing targets with
  | nil =>
    cases h
    simp
  | cons raw rest ih =>
    rw [requestTargets] at h
    split at h
    · cases h
    · next d hd =>
      obtain ⟨ts, hts, h⟩ := bind_eq_ok.mp h
      cases h
      intro t ht
      rcases mem_cons.mp ht with rfl | ht
      · exact hostKey_of_normalizeDomain hd
      · exact ih hts t ht

theorem unprovedTargets_eq_nil {verified targets : List Str} :
    unprovedTargets verified targets = [] ↔ ∀ t ∈ targets, ∃ d ∈ verified, Within '.' d t := by
  unfold unprovedTargets
  rw [filter_eq_nil_iff]
  refine forall₂_congr fun t _ => ?_
  rw [Bool.not_eq_true, Bool.not_eq_false', any_eq_true]
  simp only [decide_eq_true_eq]

variable {s : Store} {body : AuthorizationCreate} {picked : List Proof} {tenantId : Id}

/-- **What the route records**, and after which checks. -/
theorem createAuthorization_eq_ok {row : AuthorizationRow} :
    createAuthorization R s tenantId picked body = .ok row ↔
      s.customers body.customerId = some tenantId ∧ assetFound s tenantId body.assetId = true ∧
        ∃ targets, requestTargets R body.domains = .ok targets ∧
          (body.assetId = none → targets ≠ []) ∧
          (body.method = .activeRecon → targets ≠ [] ∧
            unprovedTargets (verifiedDomains R picked s.now) targets = []) ∧
          row = recordedRow s tenantId body targets := by
  unfold createAuthorization
  by_cases hcustomer : s.customers body.customerId = some tenantId
  swap
  · rw [if_pos hcustomer]
    exact iff_of_false (fun h => nomatch h) fun h => hcustomer h.1
  rw [if_neg (not_not_intro hcustomer), and_iff_right hcustomer]
  by_cases hasset : assetFound s tenantId body.assetId = true
  swap
  · rw [if_pos (by simpa using hasset)]
    exact iff_of_false (fun h => nomatch h) fun h => hasset h.1
  rw [if_neg (by simpa using hasset), and_iff_right hasset, bind_eq_ok]
  refine exists_congr fun targets => and_congr_right fun _ => ?_
  dsimp only
  split_ifs with hnothing hunproved
  · exact iff_of_false (fun h => nomatch h) fun h => h.1 hnothing.1 hnothing.2
  · refine iff_of_false (fun h => nomatch h) ?_
    rintro ⟨-, hproved, -⟩
    obtain ⟨hne, hnil⟩ := hproved hunproved.1
    exact hunproved.2.elim (fun h => h hnil) hne
  · rw [and_iff_right fun hnone hnil => hnothing ⟨hnone, hnil⟩, and_iff_right]
    · exact ⟨fun h => (Except.ok.inj h).symm, fun h => congrArg Except.ok h.symm⟩
    · intro hmethod
      refine ⟨fun hnil => hunproved ⟨hmethod, Or.inr hnil⟩, ?_⟩
      by_contra hne
      exact hunproved ⟨hmethod, Or.inl hne⟩

theorem Recordable.method_eq_activeRecon {m : Recordable} :
    m.method = .activeRecon ↔ m = .activeRecon := by
  cases m <;> simp [Recordable.method]

/-! ### The invariant -/

theorem verifiedDomains_subset {customerId : Id}
    (h : ∀ p ∈ picked, p ∈ verifiedProofs s tenantId customerId) :
    verifiedDomains R picked s.now ⊆ provedDomains R s tenantId customerId := by
  intro d hd
  obtain ⟨p, hp, rfl⟩ := mem_map.mp hd
  rw [mem_filter] at hp
  exact mem_map_of_mem (mem_filter.mpr ⟨h p hp.1, hp.2⟩)

theorem lt_of_assetFound (hfresh : ∀ id, s.nextId ≤ id → s.assets id = none)
    {id : Id} (h : assetFound s tenantId (some id) = true) : id < s.nextId := by
  by_contra hlt
  rw [assetFound, Option.all_some, hfresh id (Nat.le_of_not_lt hlt)] at h
  cases h

theorem RowConfined.mono {t : Store} {r r' : Recorded} (h : RowConfined R s r)
    (htargets : r'.row.authorizedTargets = r.row.authorizedTargets)
    (hasset : r'.row.assetId = r.row.assetId) (htenant : r'.row.tenantId = r.row.tenantId)
    (hcustomer : r'.row.customerId = r.row.customerId) (hproved : r'.proved = r.proved)
    (hnext : s.nextId ≤ t.nextId) (hassets : ∀ id < s.nextId, t.assets id = s.assets id) :
    RowConfined R t r' := by
  obtain ⟨hdomains, hnamed⟩ := h
  refine ⟨?_, ?_⟩
  · rw [htargets, hproved]
    exact hdomains
  · rw [hasset, htenant, hcustomer, hproved]
    intro id hid
    obtain ⟨hlt, hconfined⟩ := hnamed id hid
    refine ⟨Nat.lt_of_lt_of_le hlt hnext, ?_⟩
    rw [hassets id hlt]
    exact hconfined

theorem rowConfined_recorded {row : AuthorizationRow}
    (hfresh : ∀ id, s.nextId ≤ id → s.assets id = none)
    (hok : NamedAssetProved R s (.request tenantId picked body))
    (hpicked : ∀ p ∈ picked, p ∈ verifiedProofs s tenantId body.customerId)
    (h : createAuthorization R s tenantId picked body = .ok row)
    (hmethod : row.method = .activeRecon) :
    RowConfined R s ⟨row, provedDomains R s tenantId body.customerId⟩ := by
  obtain ⟨hcustomer, hfound, targets, htargets, -, hproved, rfl⟩ := createAuthorization_eq_ok.mp h
  have hactive : body.method = .activeRecon := Recordable.method_eq_activeRecon.mp hmethod
  obtain ⟨hne, hunproved⟩ := hproved hactive
  refine ⟨⟨targets, rfl, ?_⟩, ?_⟩
  · intro t ht
    obtain ⟨d, hd, hwithin⟩ := unprovedTargets_eq_nil.mp hunproved t ht
    exact ⟨requestTargets_spec htargets t ht, d, verifiedDomains_subset hpicked hd, hwithin⟩
  · intro id hid
    have hasset : body.assetId = some id := hid
    rw [hasset] at hfound
    refine ⟨lt_of_assetFound hfresh hfound, ?_⟩
    intro a ha htenant howner hkind
    exact hok id a
      ⟨hactive, hcustomer, ⟨targets, htargets, hne, hunproved⟩, hasset, ha, ⟨htenant, howner⟩, hkind⟩

theorem Recorded.revoke_row (id : Id) (now : ℤ) (r : Recorded) :
    (r.revoke id now).row.method = r.row.method ∧
      (r.revoke id now).row.authorizedTargets = r.row.authorizedTargets ∧
      (r.revoke id now).row.assetId = r.row.assetId ∧
      (r.revoke id now).row.tenantId = r.row.tenantId ∧
      (r.revoke id now).row.customerId = r.row.customerId ∧ (r.revoke id now).proved = r.proved := by
  unfold Recorded.revoke
  split_ifs <;> exact ⟨rfl, rfl, rfl, rfl, rfl, rfl⟩

/-- **One step keeps the invariant.** -/
theorem Invariant.change {t : Store} {e : Change} (hinv : Invariant R s)
    (hok : NamedAssetProved R s e) (h : change R s e = some t) : Invariant R t := by
  obtain ⟨hfresh, hrows⟩ := hinv
  cases e with
  | request tenantId picked body =>
    rw [Authorization.change] at h
    split_ifs at h with hpicked
    cases hrow : createAuthorization R s tenantId picked body with
    | error _ =>
      rw [hrow] at h
      cases h
      exact ⟨hfresh, hrows⟩
    | ok row =>
      rw [hrow] at h
      cases h
      refine ⟨fun id hid => hfresh id (Nat.le_of_succ_le hid), ?_⟩
      intro r hr hmethod
      have hconfined : RowConfined R s r := by
        rcases mem_cons.mp hr with rfl | hr
        · exact rowConfined_recorded hfresh hok hpicked.2.2 hrow hmethod
        · exact hrows r hr hmethod
      exact hconfined.mono rfl rfl rfl rfl rfl (Nat.le_succ _) fun _ _ => rfl
  | addAsset a =>
    cases h
    refine ⟨?_, ?_⟩
    · intro id hid
      have hne : id ≠ s.nextId := Nat.ne_of_gt hid
      exact (Function.update_of_ne hne _ _).trans (hfresh id (Nat.le_of_succ_le hid))
    · intro r hr hmethod
      refine (hrows r hr hmethod).mono rfl rfl rfl rfl rfl (Nat.le_succ _) ?_
      intro id hid
      exact Function.update_of_ne (Nat.ne_of_lt hid) _ _
  | setCustomers _ | setProofs _ =>
    cases h
    exact ⟨hfresh, fun r hr hmethod =>
      (hrows r hr hmethod).mono rfl rfl rfl rfl rfl le_rfl fun _ _ => rfl⟩
  | grant row =>
    rw [Authorization.change] at h
    split_ifs at h with hgrant
    cases h
    refine ⟨fun id hid => hfresh id (Nat.le_of_succ_le hid), ?_⟩
    intro r hr hmethod
    rcases mem_cons.mp hr with rfl | hr
    · rw [hgrant.1] at hmethod
      cases hmethod
    · exact (hrows r hr hmethod).mono rfl rfl rfl rfl rfl (Nat.le_succ _) fun _ _ => rfl
  | revoke id =>
    cases h
    refine ⟨hfresh, ?_⟩
    intro r hr hmethod
    obtain ⟨r₀, hr₀, rfl⟩ := mem_map.mp hr
    obtain ⟨hm, htargets, hasset, htenant, hcustomer, hproved⟩ := Recorded.revoke_row id s.now r₀
    rw [hm] at hmethod
    exact (hrows r₀ hr₀ hmethod).mono htargets hasset htenant hcustomer hproved le_rfl
      fun _ _ => rfl
  | wait time =>
    cases h
    exact ⟨hfresh, fun r hr hmethod =>
      (hrows r hr hmethod).mono rfl rfl rfl rfl rfl le_rfl fun _ _ => rfl⟩

theorem Store.Initial.invariant (h : s.Initial) : Invariant R s := by
  refine ⟨h.2, ?_⟩
  rw [h.1]
  intro r hr
  cases hr

/-- **A confined row covers** only assets of its customer whose host lies inside a domain that was
proved. -/
theorem RowConfined.hostProved {r : Recorded} (h : RowConfined R s r) {id : Id}
    {a : Asset} {needsNetwork : Bool} {now : ℤ} (ha : s.assets id = some a)
    (htenant : a.tenantId = r.row.tenantId) (hcustomer : a.customerId = r.row.customerId)
    (hkind : a.kind ∈ networkAssetKinds)
    (hcovers : Covers R r.row.view (some id) a.identifier needsNetwork now) :
    HostProved R r.proved a.identifier := by
  obtain ⟨⟨domains, htargets, hdomains⟩, hnamed⟩ := h
  obtain ⟨-, -, ⟨-, hasset⟩ | ⟨host, hhost, hmatch⟩⟩ := hcovers
  · exact (hnamed id hasset).2 a ha htenant hcustomer hkind
  · rw [AuthorizationRow.view, htargets, targetMatches_domains] at hmatch
    obtain ⟨-, t, ht, -, hwithin⟩ := hmatch
    obtain ⟨hkey, d, hd, hdt⟩ := hdomains t ht
    rw [hkey] at hwithin
    exact ⟨host, hhost, d, hd, within_trans hdt hwithin⟩

/-! ### The main results -/

theorem reconConfined_of_invariant (hinv : Invariant R s) : ReconConfined R s := by
  intro id a rows engineKey now d ha hrows hkind hd hallowed
  obtain ⟨view, hview, hid, hcovers⟩ := covers_of_decide hd hallowed
  obtain ⟨r, hr, rfl⟩ := mem_map.mp hview
  refine ⟨r, hr, hid, ?_⟩
  intro hmethod
  obtain ⟨hmem, htenant, hcustomer⟩ := hrows.2 r hr
  exact (hinv.rows r hmem hmethod).hostProved ha htenant.symm hcustomer.symm hkind hcovers

/-- **Active testing is confined** in every run whose requests for active testing name no asset of
the customer outside the domains the customer has proved. -/
theorem recon_confined {s₀ s : Store} (h₀ : s₀.Initial)
    (h : Run (change R) (NamedAssetProved R) s₀ s) : ReconConfined R s :=
  reconConfined_of_invariant
    (h.invariant (fun hinv hok hstep => hinv.change hok hstep) h₀.invariant)

/-! ### The condition is exact -/

theorem NamesAsset.granted {id : Id} {a : Asset} (h : NamesAsset R s tenantId picked body id a) :
    ∃ targets, createAuthorization R s tenantId picked body =
      .ok (recordedRow s tenantId body targets) := by
  obtain ⟨targets, htargets, hne, hunproved⟩ := h.domains
  refine ⟨targets, createAuthorization_eq_ok.mpr
    ⟨h.customer, ?_, targets, htargets, fun _ => hne, fun _ => ⟨hne, hunproved⟩, rfl⟩⟩
  rw [h.assetId, assetFound, Option.all_some, h.asset, Option.any_some]
  exact decide_eq_true h.owner.1

theorem recordedRow_active (s : Store) (tenantId : Id) (body : AuthorizationCreate)
    (targets : List Str) : (recordedRow s tenantId body targets).view.active s.now = true := by
  have hday : 0 ≤ (body.validityDays : ℤ) * day :=
    Int.mul_nonneg (Int.natCast_nonneg _) (by decide)
  rw [view_active_iff]
  refine ⟨rfl, le_rfl, ?_⟩
  show s.now ≤ s.now + body.validityDays * day
  omega

/-- **A request that breaks the condition** is granted, and the scan gate then allows network traffic
to an asset that nobody proved. -/
theorem not_reconConfined_of_request {t : Store}
    (hnot : ¬ NamedAssetProved R s (.request tenantId picked body))
    (h : change R s (.request tenantId picked body) = some t) : ¬ ReconConfined R t := by
  intro hconfined
  rw [NamedAssetProved] at hnot
  push Not at hnot
  obtain ⟨id, a, hnames, hunproved⟩ := hnot
  obtain ⟨targets, hrow⟩ := hnames.granted
  rw [Authorization.change] at h
  split_ifs at h
  rw [hrow] at h
  cases h
  have hrows : ScanRows
      { s with
        authorizations := ⟨recordedRow s tenantId body targets,
          provedDomains R s tenantId body.customerId⟩ :: s.authorizations
        nextId := s.nextId + 1 } a
      [⟨recordedRow s tenantId body targets, provedDomains R s tenantId body.customerId⟩] := by
    refine ⟨by simp, ?_⟩
    intro r hr
    rw [mem_singleton.mp hr]
    exact ⟨mem_cons_self, hnames.owner.1.symm, hnames.owner.2.symm⟩
  have hmethod : (recordedRow s tenantId body targets).method = .activeRecon :=
    Recordable.method_eq_activeRecon.mpr hnames.method
  have hcovers : Covers R (recordedRow s tenantId body targets).view (some id) a.identifier true
      s.now := by
    refine ⟨recordedRow_active s tenantId body targets, ?_, Or.inl ?_⟩
    · show (recordedRow s tenantId body targets).method ∈ networkMethods
      rw [hmethod]
      decide
    · have hasset : (recordedRow s tenantId body targets).view.assetId = some id := hnames.assetId
      exact ⟨by rw [hasset]; rfl, hasset⟩
  have hfirst : firstAuthorizing R (some id) a.identifier (needsNetworkOf none a.kind) s.now
      [(recordedRow s tenantId body targets).view] =
      .ok (some (recordedRow s tenantId body targets).view) := by
    have hnetwork : needsNetworkOf none a.kind = true := decide_eq_true hnames.network
    rw [hnetwork]
    exact bind_eq_ok.mpr ⟨true, authorizes_iff.mpr hcovers, rfl⟩
  obtain ⟨d, hd, hallowed⟩ := decide_allowed_iff_first.mpr ⟨_, hfirst⟩
  obtain ⟨r, hr, -, hproved⟩ :=
    hconfined id a _ "" s.now d hnames.asset hrows hnames.network hd hallowed
  rw [mem_singleton.mp hr] at hproved
  exact hunproved (hproved hmethod)

/-! ### A request that names an asset -/

/-- The proof of `example.com`. -/
def sampleProofs : List Proof := [⟨1, 1, "example.com", true, none⟩]

/-- A customer who has proved `example.com` and has one asset. -/
def sampleStore (identifier : Str) : Store where
  customers _ := some 1
  assets id := if id = 0 then some ⟨1, 1, "host", identifier⟩ else none
  proofs := sampleProofs
  authorizations := []
  nextId := 1
  now := 0

def sampleBody : AuthorizationCreate := ⟨1, .activeRecon, some 0, ["example.com"], 90⟩

def sampleRow : Recorded where
  row :=
    { id := 1, tenantId := 1, customerId := 1, assetId := some 0,
      authorizedTargets := [some (Target.of "domain" "example.com")],
      method := .activeRecon, validFrom := 0, validUntil := 90 * day, revokedAt := none }
  proved := ["example.com"]

/-- The database after the request. -/
def recordedStore (identifier : Str) : Store :=
  { sampleStore identifier with authorizations := [sampleRow], nextId := 2 }

theorem sampleStore_initial (identifier : Str) : (sampleStore identifier).Initial := by
  refine ⟨rfl, ?_⟩
  intro id hid
  exact if_neg (Nat.ne_of_gt hid)

theorem provedDomains_sample (identifier : Str) :
    provedDomains .ascii (sampleStore identifier) 1 sampleBody.customerId =
      ["example.com".toList] := by
  have h : verifiedDomains .ascii (sampleProofs.filter fun p =>
      decide (p.tenantId = 1 ∧ p.customerId = 1) && p.verified) 0 = ["example.com".toList] := by
    decide
  exact h

theorem change_sample (identifier : Str) :
    change .ascii (sampleStore identifier) (.request 1 sampleProofs sampleBody) =
      some (recordedStore identifier) := by
  have htargets : requestTargets .ascii sampleBody.domains = .ok ["example.com"] := by
    decide
  have hproved : unprovedTargets (verifiedDomains .ascii sampleProofs 0) ["example.com"] =
      [] := by
    decide
  have hrow : createAuthorization .ascii (sampleStore identifier) 1 sampleProofs sampleBody =
      .ok sampleRow.row := by
    refine createAuthorization_eq_ok.mpr ⟨rfl, ?_, _, htargets, ?_, ?_, rfl⟩
    · simp [assetFound, sampleStore, sampleBody]
    · simp
    · intro _
      exact ⟨by simp, hproved⟩
  have hpicked : sampleBody.InBounds ∧ sampleProofs.length ≤ 500 ∧
      ∀ p ∈ sampleProofs, p ∈ verifiedProofs (sampleStore identifier) 1 sampleBody.customerId := by
    refine ⟨by decide, by decide, ?_⟩
    simp [sampleProofs, verifiedProofs, sampleStore, sampleBody]
  rw [change, if_pos hpicked, hrow]
  dsimp only
  rw [provedDomains_sample]
  rfl

/-- The host `app.example.com` of the asset is proved, so testing it is confined. -/
theorem recon_confined_subdomain :
    (sampleStore "app.example.com").Initial ∧
      Run (change .ascii) (NamedAssetProved .ascii) (sampleStore "app.example.com")
        (recordedStore "app.example.com") ∧
      ReconConfined .ascii (recordedStore "app.example.com") := by
  have hinitial := sampleStore_initial "app.example.com"
  have hok : NamedAssetProved .ascii (sampleStore "app.example.com")
      (.request 1 sampleProofs sampleBody) := by
    intro id a hnames
    cases hnames.assetId
    cases hnames.asset
    refine ⟨"app.example.com", by decide, "example.com", ?_, by decide⟩
    rw [provedDomains_sample]
    exact mem_singleton_self _
  have hrun : Run (change .ascii) (NamedAssetProved .ascii) (sampleStore "app.example.com")
      (recordedStore "app.example.com") :=
    (Run.refl _).tail hok (change_sample _)
  exact ⟨hinitial, hrun, recon_confined hinitial hrun⟩

theorem not_hostProved_victim : ¬ HostProved .ascii ["example.com"] "victim.org" := by
  rintro ⟨host, hof, d, hd, hwithin⟩
  have hvictim : hostOf .ascii "victim.org" = .ok "victim.org" := by decide
  cases hof.symm.trans hvictim
  rw [mem_singleton.mp hd] at hwithin
  revert hwithin
  decide

/-- The asset `victim.org` of the customer is not proved. -/
theorem not_reconConfined_victim :
    ¬ ReconConfined .ascii (recordedStore "victim.org") := by
  refine not_reconConfined_of_request (fun h => ?_) (change_sample _)
  have hproved := h 0 ⟨1, 1, "host", "victim.org"⟩
    ⟨rfl, rfl, ⟨["example.com"], by decide, by decide, by decide⟩, rfl, rfl,
      ⟨rfl, rfl⟩, by decide⟩
  rw [provedDomains_sample] at hproved
  exact not_hostProved_victim hproved

/-- **An asset that nobody proved**: the row covers it by its id. -/
theorem recon_unconfined :
    ¬ ∀ (R : Runtime) (s₀ s : Store), s₀.Initial → Run (change R) (fun _ _ => True) s₀ s →
      ReconConfined R s := by
  intro h
  have hconfined := h .ascii _ _ (sampleStore_initial "victim.org")
    ((Run.refl _).tail trivial (change_sample _))
  have hrows : ScanRows (recordedStore "victim.org")
      ⟨1, 1, "host", "victim.org"⟩ [sampleRow] := by
    refine ⟨by decide, ?_⟩
    intro r hr
    rw [mem_singleton.mp hr]
    exact ⟨mem_singleton_self _, rfl, rfl⟩
  have hscan : scanAuthorized .ascii [sampleRow] 0 ⟨1, 1, "host", "victim.org"⟩
      "nmap" 5 = .ok ⟨true, "authorized by active_recon", some 1⟩ := by
    decide
  obtain ⟨r, hr, -, hhost⟩ := hconfined 0 _ _ _ _ _ rfl hrows (by decide) hscan rfl
  rw [mem_singleton.mp hr] at hhost
  exact not_hostProved_victim (hhost rfl)

end Guardian.Authorization

import Guardian.Authorization.Client

/-!
# The discovery gate

`authorizeTargets` splits the targets of a discovery run by the targets of the active network
authorizations on file.  The scan gate answers the same question with `decide`, and the API reports
the state of a row.  `egress_iff` and `gates_agree_iff` say when they agree.
-/

namespace Guardian.Authorization

open Python Guardian.Order List

variable (R : Runtime)

/-! ### The table -/

/-- A row of the table of authorizations. -/
structure AuthorizationRow where
  id : Id
  tenantId : Id
  customerId : Id
  assetId : Option Id
  authorizedTargets : List (Option Target)
  method : Method
  validFrom : ℤ
  validUntil : ℤ
  revokedAt : Option ℤ

/-- The row as the evaluator sees it. -/
def AuthorizationRow.view (row : AuthorizationRow) : AuthorizationView where
  id := row.id
  method := row.method
  assetId := row.assetId
  customerId := some row.customerId
  targets := row.authorizedTargets
  validFrom := some row.validFrom
  validUntil := some row.validUntil
  revokedAt := row.revokedAt

/-- The rows the scan gate asks for. -/
def rowsOf (table : List AuthorizationRow) (tenantId customerId : Id) : List AuthorizationRow :=
  table.filter fun row => decide (row.tenantId = tenantId ∧ row.customerId = customerId)

/-- The state the API reports. -/
inductive State
  | revoked
  | expired
  | pending
  | active
  deriving DecidableEq

/-- `_state`. -/
def AuthorizationRow.state (row : AuthorizationRow) (now : ℤ) : State :=
  if row.revokedAt.isSome then .revoked
  else if row.validUntil ≤ now then .expired
  else if now < row.validFrom then .pending
  else .active

/-! ### The gate -/

/-- `target_matches` of the discovery gate. -/
def discoveryTargetMatches (authorizedTargets : List (Option Target)) (target : Str) : Bool :=
  targetMatches R authorizedTargets (discoveryHostOf R target)

/-- `load_recon_authorizations`. -/
def loadReconAuthorizations (table : List AuthorizationRow) (tenantId : Id) (customerId : Option Id)
    (now : ℤ) : List AuthorizationRow :=
  table.filter fun row => decide (row.tenantId = tenantId ∧ row.method ∈ networkMethods ∧
    row.revokedAt = none ∧ row.validFrom ≤ now ∧ now ≤ row.validUntil ∧
    ∀ c ∈ customerId, row.customerId = c)

/-- The targets on which the gate decides. -/
def mergedTargets (table : List AuthorizationRow) (tenantId : Id) (customerId : Option Id)
    (now : ℤ) : List (Option Target) :=
  (loadReconAuthorizations table tenantId customerId now).flatMap (·.authorizedTargets)

/-- `authorize_targets`: the allowed and the denied candidates. -/
def authorizeTargets (table : List AuthorizationRow) (tenantId : Id) (customerId : Option Id)
    (candidates : List Str) (now : ℤ) : List Str × List Str :=
  let merged := mergedTargets table tenantId customerId now
  candidates.partition fun target => !merged.isEmpty && discoveryTargetMatches R merged target

variable {R}

variable {target : Str}

theorem mem_authorizeTargets {table : List AuthorizationRow} {tenantId : Id}
    {customerId : Option Id} {candidates : List Str} {now : ℤ} :
    target ∈ (authorizeTargets R table tenantId customerId candidates now).1 ↔
      target ∈ candidates ∧ targetMatches R (mergedTargets table tenantId customerId now)
        (discoveryHostOf R target) = true := by
  unfold authorizeTargets
  rw [partition_eq_filter_filter, mem_filter]
  refine and_congr_right fun _ => ?_
  rw [Bool.and_eq_true]
  refine and_iff_right_of_imp fun h => ?_
  unfold discoveryTargetMatches at h
  rcases hm : mergedTargets table tenantId customerId now with _ | _
  · rw [hm, targetMatches_nil] at h
    cases h
  · rfl

/-! ### The egress allow-list -/

variable (R) in
/-- **A plain target**: a name without colon and blanks around it, or a name and a port. -/
def PlainTarget (target : Str) : Prop :=
  lstrip R target = target ∧ target.head? ≠ some '[' ∧
    ((':' ∉ target ∧ strip R target = target) ∨
      ∃ host port, strip R target = host ++ ':' :: port ∧ ':' ∉ host ∧ strIsdigit R port = true)

theorem isSpace_colon : R.isSpace ':' = false := R.isSpace_ascii ':' (by decide)

theorem isUrl_of_port {host port : Str} (hhost : ':' ∉ host) (hport : strIsdigit R port = true) :
    ¬ IsUrl (host ++ ':' :: port) := by
  rintro ⟨s, t, h⟩
  have hcolon : ':' ∉ port := notMem_digits hport (by decide) (by decide)
  have hsplit : s ++ ':' :: ('/' :: '/' :: t) = host ++ ':' :: port := by
    rw [← h]
    simp
  have hcount := congrArg (List.count ':') hsplit
  rw [count_append, count_append, count_cons_self, count_cons_self,
    count_eq_zero_of_not_mem hhost, count_eq_zero_of_not_mem hcolon] at hcount
  have hs : ':' ∉ s := count_eq_zero.mp (by omega)
  have hpart := congrArg (partition ':') hsplit
  rw [partition_append hs, partition_append hhost, Prod.mk.injEq, Prod.mk.injEq] at hpart
  exact notMem_digits hport (c := '/') (by decide) (by decide) (hpart.2.2 ▸ by simp)

theorem discoveryHostOf_of_port {host port : Str}
    (hstrip : strip R target = host ++ ':' :: port) (hbracket : host.head? ≠ some '[')
    (hport : strIsdigit R port = true) : discoveryHostOf R target = host := by
  have hhead : (host ++ ':' :: port).head? ≠ some '[' := by
    cases host with
    | nil => simp
    | cons c host => exact hbracket
  unfold discoveryHostOf
  simp only [hstrip]
  rw [if_neg hhead, stripPort_append hport]

theorem discoveryHostOf_of_plain (hbracket : (strip R target).head? ≠ some '[')
    (hcolon : ':' ∉ strip R target) : discoveryHostOf R target = strip R target := by
  unfold discoveryHostOf
  simp only
  rw [if_neg hbracket, stripPort_of_notMem hcolon]

theorem egressHosts_singleton (h : target ≠ []) :
    egressHosts [target] = {(partition ':' target).1} := by
  unfold egressHosts
  simp [h]

theorem partition_colon (target : Str) : ∃ a b, target = a ++ lstrip R target ∧
    lstrip R target = strip R target ++ b ∧
    (∀ c ∈ a, R.isSpace c = true) ∧ (∀ c ∈ b, R.isSpace c = true) ∧ ':' ∉ a ∧ ':' ∉ b := by
  obtain ⟨a, b, h1, h2, ha, hb⟩ := strip_spec R target
  refine ⟨a, b, h1, h2, ha, hb, fun h => ?_, fun h => ?_⟩
  · have := ha _ h
    rw [isSpace_colon] at this
    cases this
  · have := hb _ h
    rw [isSpace_colon] at this
    cases this

/-- A bracketed target is never cut where the gate cuts it. -/
theorem partition_ne_of_bracket (h : (strip R target).head? = some '[') :
    (partition ':' target).1 ≠ discoveryHostOf R target := by
  obtain ⟨a, b, h1, h2, -, -, ha, hb⟩ := partition_colon (R := R) target
  obtain ⟨u, hu⟩ : ∃ u, strip R target = '[' :: u := by
    rcases hs : strip R target with _ | ⟨c, u⟩
    · rw [hs] at h
      cases h
    · rw [hs] at h
      cases h
      exact ⟨u, rfl⟩
  have hhost : discoveryHostOf R target = (partition ']' u).1 := by
    unfold discoveryHostOf
    simp only [hu, head?_cons, tail_cons, if_true]
  have htarget : target = a ++ '[' :: (u ++ b) := by
    rw [h1, h2, hu]
    rfl
  have hpart : (partition ':' target).1 = a ++ '[' :: (u ++ b).takeWhile (· != ':') := by
    show target.takeWhile (· != ':') = _
    rw [htarget, takeWhile_append_of_pos, takeWhile_cons_of_pos (by decide)]
    intro c hc
    rw [bne_iff_ne]
    rintro rfl
    exact ha hc
  rw [hhost, hpart]
  intro heq
  -- a name without colon at the start of `u` is no longer than `u` up to its first colon
  have hnocolon : ∀ c ∈ (partition ']' u).1, (c != ':') = true := by
    intro c hc
    rw [bne_iff_ne]
    rintro rfl
    rw [← heq, mem_append, mem_cons] at hc
    rcases hc with hc | hc | hc
    · exact ha hc
    · exact absurd hc (by decide)
    · exact absurd (mem_takeWhile_imp hc) (by decide)
  obtain ⟨r, hr⟩ : (partition ']' u).1 <+: u ++ b :=
    (List.takeWhile_prefix _).trans (prefix_append u b)
  have hle : (partition ']' u).1.length ≤ ((u ++ b).takeWhile (· != ':')).length := by
    rw [← hr, takeWhile_append_of_pos hnocolon, length_append]
    omega
  have hlen := congrArg List.length heq
  rw [length_append, length_cons] at hlen
  omega

theorem discoveryHostOf_of_not_port {host port : Str}
    (hstrip : strip R target = host ++ ':' :: port) (hcolon : ':' ∉ port)
    (hbracket : (strip R target).head? ≠ some '[') (hport : strIsdigit R port = false) :
    discoveryHostOf R target = strip R target := by
  unfold discoveryHostOf
  simp only
  rw [if_neg hbracket, hstrip, stripPort_of_not hcolon hport]

theorem plainTarget_of_partition_eq (hne : discoveryHostOf R target ≠ [])
    (heq : (partition ':' target).1 = discoveryHostOf R target) : PlainTarget R target := by
  obtain ⟨a, b, h1, h2, -, -, ha, hb⟩ := partition_colon (R := R) target
  have hbracket : (strip R target).head? ≠ some '[' := fun h => partition_ne_of_bracket h heq
  have hnocolon : ':' ∉ (partition ':' target).1 := fun h =>
    absurd (mem_takeWhile_imp h) (by decide)
  by_cases hcolon : ':' ∈ strip R target
  · obtain ⟨u, v, hstrip, hv, -⟩ := exists_rpartition hcolon
    rcases hport : strIsdigit R v with _ | _
    · rw [discoveryHostOf_of_not_port hstrip hv hbracket hport] at heq
      exact absurd hcolon (heq ▸ hnocolon)
    · have hu : u.head? ≠ some '[' := by
        cases u with
        | nil => simp
        | cons c u => simpa [hstrip] using hbracket
      have hhost := discoveryHostOf_of_port hstrip hu hport
      rw [hhost] at heq hne
      have hucolon : ':' ∉ u := heq ▸ hnocolon
      have hau : ':' ∉ a ++ u := by simp [ha, hucolon]
      have htarget : target = (a ++ u) ++ ':' :: (v ++ b) := by
        rw [h1, h2, hstrip]
        simp
      have hnil : a = [] := by
        rw [htarget, partition_append hau] at heq
        simpa using heq
      have hlstrip : lstrip R target = target := by
        rw [hnil] at h1
        exact h1.symm
      refine ⟨hlstrip, ?_, Or.inr ⟨u, v, hstrip, hucolon, hport⟩⟩
      rw [htarget, hnil]
      cases u with
      | nil => exact absurd rfl hne
      | cons c u => exact hu
  · rw [discoveryHostOf_of_plain hbracket hcolon] at heq
    have htcolon : ':' ∉ target := by
      rw [h1, h2]
      simp [ha, hb, hcolon]
    rw [partition_eq_self htcolon] at heq
    have hlstrip : lstrip R target = target := by
      have hlen := congrArg List.length h1
      have hlen' := congrArg List.length h2
      rw [length_append, ← heq] at *
      have hnil : a = [] := length_eq_zero_iff.mp (by omega)
      rw [hnil] at h1
      exact h1.symm
    refine ⟨hlstrip, ?_, Or.inl ⟨htcolon, heq.symm⟩⟩
    rw [heq]
    exact hbracket

/-- **The text before the first colon is the name the gate matched** exactly for a plain target. -/
theorem partition_eq_iff (hne : discoveryHostOf R target ≠ []) :
    (partition ':' target).1 = discoveryHostOf R target ↔ PlainTarget R target := by
  refine ⟨plainTarget_of_partition_eq hne, ?_⟩
  rintro ⟨hlstrip, hbracket, ⟨hcolon, hstrip⟩ | ⟨host, port, hstrip, hhost, hport⟩⟩
  · rw [partition_eq_self hcolon, discoveryHostOf_of_plain (by rwa [hstrip]) (by rwa [hstrip]),
      hstrip]
  · obtain ⟨a, b, h1, h2, -⟩ := partition_colon (R := R) target
    have htarget : target = host ++ ':' :: (port ++ b) := by
      rw [hlstrip, hstrip] at h2
      rw [h2]
      simp
    have hhead : host.head? ≠ some '[' := by
      cases host with
      | nil => simp
      | cons c host => simpa [htarget] using hbracket
    rw [discoveryHostOf_of_port hstrip hhead hport, htarget, partition_append hhost]

theorem not_isUrl_of_plain (h : PlainTarget R target) :
    ¬ IsUrl (strip R target) := by
  obtain ⟨-, -, ⟨hcolon, hstrip⟩ | ⟨host, port, hstrip, hhost, hport⟩⟩ := h
  · rw [hstrip]
    exact fun hurl => hcolon (hurl.subset (by simp))
  · rw [hstrip]
    exact isUrl_of_port hhost hport

/-- **The condition for the three readings to agree** on a target the gate allows: the egress
allow-list holds the host the gate matched and nothing else, and the scan gate reads the same host
exactly for a plain target. -/
theorem egress_iff {table : List AuthorizationRow} {tenantId : Id} {customerId : Option Id}
    {candidates : List Str} {now : ℤ} {target : Str}
    (h : target ∈ (authorizeTargets R table tenantId customerId candidates now).1) :
    (egressHosts [target] = {discoveryHostOf R target} ∧
      ∃ host, hostOf R target = .ok host ∧
        hostKey R host = hostKey R (discoveryHostOf R target)) ↔ PlainTarget R target := by
  have hmatch := (targetMatches_iff.mp (mem_authorizeTargets.mp h).2).1
  have hne : discoveryHostOf R target ≠ [] := by
    intro hnil
    rw [hnil] at hmatch
    exact hmatch rfl
  have htarget : target ≠ [] := by
    rintro rfl
    exact hne rfl
  rw [egressHosts_singleton htarget, Finset.singleton_inj, partition_eq_iff hne]
  exact and_iff_left_of_imp fun hplain => hostOf_of_not_url (not_isUrl_of_plain hplain)

/-- A grant over a domain, by the proof of ownership. -/
def domainRow (domain : Str) (validFrom validUntil : ℤ) : AuthorizationRow where
  id := 1
  tenantId := 1
  customerId := 1
  assetId := none
  authorizedTargets := [some (Target.of "domain" domain)]
  method := .ownershipVerified
  validFrom := validFrom
  validUntil := validUntil
  revokedAt := none

theorem egress_iff_port :
    "app.example.com:443".toList ∈ (authorizeTargets .ascii
      [domainRow "example.com" 0 9] 1 (some 1) ["app.example.com:443"] 5).1 ∧
    ((egressHosts ["app.example.com:443"] =
        {discoveryHostOf .ascii "app.example.com:443"} ∧
      ∃ host, hostOf .ascii "app.example.com:443" = .ok host ∧
        hostKey .ascii host =
          hostKey .ascii (discoveryHostOf .ascii "app.example.com:443")) ↔
      PlainTarget .ascii "app.example.com:443") :=
  have h : "app.example.com:443".toList ∈ (authorizeTargets .ascii
      [domainRow "example.com" 0 9] 1 (some 1) ["app.example.com:443"] 5).1 := by
    decide
  ⟨h, egress_iff h⟩

/-- **A URL is read in three ways**: the allow-list of the run holds `https`, the gate matched the
whole text, and the scan gate reads the host. -/
theorem egress_ne :
    ¬ ∀ (R : Runtime) (table : List AuthorizationRow) (tenantId : Id) (customerId : Option Id)
      (candidates : List Str) (now : ℤ) (target : Str),
      target ∈ (authorizeTargets R table tenantId customerId candidates now).1 →
      egressHosts [target] = {discoveryHostOf R target} ∧
        ∃ host, hostOf R target = .ok host ∧
          hostKey R host = hostKey R (discoveryHostOf R target) := by
  intro h
  have heq := (h .ascii [domainRow "example.com" 0 9] 1 (some 1)
    ["https://app.example.com"] 5 "https://app.example.com" (by decide)).1
  revert heq
  decide

/-! ### The two gates and the API -/

theorem targetMatches_flatMap {A : Type} {l : List A} {f : A → List (Option Target)} {v : Str} :
    targetMatches R (l.flatMap f) v = true ↔ ∃ a ∈ l, targetMatches R (f a) v = true := by
  simp only [targetMatches_iff, mem_flatMap]
  constructor
  · rintro ⟨hne, e, ⟨a, ha, he⟩, h⟩
    exact ⟨a, ha, hne, e, he, h⟩
  · rintro ⟨a, ha, hne, e, he, h⟩
    exact ⟨hne, e, ⟨a, ha, he⟩, h⟩

theorem view_active_iff (row : AuthorizationRow) (now : ℤ) :
    row.view.active now = true ↔
      row.revokedAt = none ∧ row.validFrom ≤ now ∧ now ≤ row.validUntil := by
  unfold AuthorizationView.active AuthorizationRow.view
  rcases row.revokedAt with _ | t
  · simp only [Option.isSome_none, Bool.false_eq_true, if_false, Option.any_some]
    split_ifs with h
    · simp at h
      simp
      omega
    · simp at h
      simp
      omega
  · simp

theorem state_active_iff (row : AuthorizationRow) (now : ℤ) :
    row.state now = .active ↔
      row.revokedAt = none ∧ row.validFrom ≤ now ∧ now < row.validUntil := by
  unfold AuthorizationRow.state
  rcases row.revokedAt with _ | t
  · simp only [Option.isSome_none, Bool.false_eq_true, if_false]
    split_ifs with h1 h2
    · simp
      omega
    · simp
      omega
    · simp
      omega
  · simp

/-- **What the scan gate allows** without an asset id, over all rows of a customer: the targets whose
host falls inside the targets on which the discovery gate decides. -/
theorem decide_rows_iff {table : List AuthorizationRow} {tenantId customerId : Id} {now : ℤ}
    {assetKind engine : Str} {touches : Option Bool}
    (hnetwork : needsNetworkOf touches assetKind = true) :
    (∃ d, AuthorizationView.decide R ((rowsOf table tenantId customerId).map AuthorizationRow.view)
        none target assetKind engine touches now = .ok d ∧ d.allowed = true) ↔
      ∃ host, hostOf R target = .ok host ∧
        targetMatches R (mergedTargets table tenantId (some customerId) now) host = true := by
  rw [decide_allowed_iff, hnetwork]
  refine exists_congr fun host => and_congr_right fun _ => ?_
  unfold mergedTargets
  rw [targetMatches_flatMap]
  constructor
  · rintro ⟨_, ha, hactive, hpermits, hmatch⟩
    obtain ⟨row, hrow, rfl⟩ := mem_map.mp ha
    rw [view_active_iff] at hactive
    refine ⟨row, ?_, hmatch⟩
    unfold rowsOf at hrow
    unfold loadReconAuthorizations
    rw [mem_filter, decide_eq_true_eq] at hrow ⊢
    refine ⟨hrow.1, hrow.2.1, hpermits, hactive.1, hactive.2.1, hactive.2.2, ?_⟩
    rintro c ⟨⟩
    exact hrow.2.2
  · rintro ⟨row, hrow, hmatch⟩
    unfold loadReconAuthorizations at hrow
    rw [mem_filter, decide_eq_true_eq] at hrow
    obtain ⟨hmem, htenant, hmethod, hrevoked, hfrom, huntil, hcustomer⟩ := hrow
    refine ⟨row.view, mem_map_of_mem ?_, ?_, hmethod, hmatch⟩
    · unfold rowsOf
      rw [mem_filter, decide_eq_true_eq]
      exact ⟨hmem, htenant, hcustomer _ rfl⟩
    · rw [view_active_iff]
      exact ⟨hrevoked, hfrom, huntil⟩

variable (R) in
/-- What an entry is about, and the value that the scope test compares. -/
def Target.kindAndKey (e : Target) : Str × Str :=
  (lower R ((e.type.map JsonValue.text).getD []), hostKey R ((e.value.map JsonValue.text).getD []))

variable (R) in
/-- **An entry has nothing to do with a URL**: its value is the end neither of the name nor of the
text (without the port that ends it), and the name is no address if the value is a netblock. -/
def Apart (u : UrlText) (e : Target) : Prop :=
  (e.kindAndKey R).2 = [] ∨
    ¬ (e.kindAndKey R).2 <:+ hostKey R u.name ∧
      ¬ (e.kindAndKey R).2 <:+ hostKey R (stripPort R u.text) ∧
      ((e.kindAndKey R).1 = "netblock" → ipAddress (hostKey R u.name) = none)

variable (R) in
/-- **An origin below a domain of the scope**: a scheme, a name and a port of digits or none, in
ASCII, where the name ends with a dot and the domain of an entry. -/
def OriginBelow (u : UrlText) (targets : List (Option Target)) : Prop :=
  u.user = [] ∧ u.path = [] ∧
    (u.port = [] ∨ ∃ digits, strIsdigit R digits = true ∧ u.port = ':' :: digits) ∧
    (∀ c ∈ u.text, IsAscii c) ∧
    ∃ e, some e ∈ targets ∧ (e.kindAndKey R).1 = "domain" ∧ (e.kindAndKey R).2 ≠ [] ∧
      '.' :: (e.kindAndKey R).2 <:+ hostKey R u.name

variable (R) in
/-- **A URL that both gates read to the same effect.** -/
def ReadAlike (targets : List (Option Target)) (target : Str) : Prop :=
  ∃ u : UrlText, u.IsPlain R ∧ strip R target = u.text ∧
    (OriginBelow R u targets ∨ ∀ e, some e ∈ targets → Apart R u e)

theorem entryMatches_some {host : Str} {e : Target} :
    entryMatches R host (some e) = true ↔ (e.kindAndKey R).2 ≠ [] ∧
      if (e.kindAndKey R).1 = "domain" then Within '.' (e.kindAndKey R).2 host
      else if (e.kindAndKey R).1 = "netblock" then
        (ipAddress host).any (fun address =>
          (ipNetwork R (e.kindAndKey R).2).any fun network => network.contains address) = true
      else ((e.kindAndKey R).1 = "ip" ∨ (e.kindAndKey R).1 = "host") ∧
        host = (e.kindAndKey R).2 := by
  unfold entryMatches Target.kindAndKey
  dsimp only
  split_ifs with hnil <;> simp [hnil]

/-- An entry that the host does not end with does not match it. -/
theorem entryMatches_of_not_suffix {host : Str} {e : Target}
    (h : (e.kindAndKey R).2 = [] ∨ ¬ (e.kindAndKey R).2 <:+ host ∧
      ((e.kindAndKey R).1 = "netblock" → ipAddress host = none)) :
    entryMatches R host (some e) = false := by
  rw [← Bool.not_eq_true, entryMatches_some]
  rintro ⟨hne, hmatch⟩
  obtain ⟨hsuffix, hblock⟩ := h.resolve_left hne
  split_ifs at hmatch with hdomain hnet
  · exact hsuffix (suffix_of_within hmatch)
  · rw [hblock hnet] at hmatch
    cases hmatch
  · exact hsuffix (hmatch.2 ▸ suffix_rfl)

theorem targetMatches_eq_false {targets : List (Option Target)} {value : Str}
    (h : ∀ e, some e ∈ targets → entryMatches R (hostKey R value) (some e) = false) :
    targetMatches R targets value = false := by
  rw [← Bool.not_eq_true, targetMatches_iff]
  rintro ⟨-, e, he, hmatch⟩
  cases e with
  | none => cases hmatch
  | some e =>
    rw [h e he] at hmatch
    cases hmatch

/-- What has a slash is no address. -/
theorem ipAddress_slash {s : Str} (h : '/' ∈ s) : ipAddress s = none := by
  have h4 : ipv4OfString s = none := Option.eq_none_iff_forall_ne_some.mpr fun n hn => by
    rcases (ipv4OfString_some hn).2 '/' h with hc | hc
    · exact absurd hc (by decide)
    · exact absurd hc (by decide)
  have h6 : ipv6Address s = none := by
    unfold ipv6Address
    rw [if_pos h]
  unfold ipAddress
  rw [h4, h6]
  rfl

section Alike
variable {u : UrlText} {targets : List (Option Target)}

theorem discoveryHostOf_plain (h : u.IsPlain R) (htext : strip R target = u.text) :
    discoveryHostOf R target = stripPort R u.text := by
  obtain ⟨c, s, hcs⟩ := exists_cons_of_ne_nil h.scheme_ne
  have hbracket : u.text.head? ≠ some '[' := by
    rw [UrlText.text, hcs]
    intro hc
    have halpha := h.scheme c (hcs ▸ mem_cons_self)
    rw [Option.some.inj hc] at halpha
    cases halpha
  unfold discoveryHostOf
  simp only [htext, if_neg hbracket]

/-- What the discovery gate reads keeps the slashes of a URL. -/
theorem slash_mem_stripPort (u : UrlText) : '/' ∈ hostKey R (stripPort R u.text) := by
  have hread : '/' ∈ stripPort R u.text := by
    have htext : '/' ∈ u.text := by simp [UrlText.text]
    unfold stripPort
    dsimp only
    split_ifs with hport
    · rw [Bool.and_eq_true] at hport
      obtain ⟨a, b, hab, hb, -⟩ := exists_rpartition (of_decide_eq_true hport.1)
      rw [hab, rpartition_append hb] at hport ⊢
      rw [hab, mem_append, mem_cons] at htext
      rcases htext with htext | htext | htext
      · exact htext
      · exact absurd htext (by decide)
      · exact absurd htext (notMem_digits hport.2 (by decide) (by decide))
    · exact htext
  have hlower : '/' ∈ lower R (stripPort R u.text) := by
    obtain ⟨w, hw, hsub⟩ := (lowers_lower (R := R) (stripPort R u.text)).exists_of_mem hread
    rw [hw.ascii (by decide)] at hsub
    exact hsub (mem_singleton_self _)
  obtain ⟨dots, hdots, hall, -⟩ := rstripChar_eq_iff.mp (rfl : hostKey R (stripPort R u.text) = _)
  rw [hdots, mem_append] at hlower
  exact hlower.resolve_right fun h => absurd (hall _ h) (by decide)

theorem targetMatches_apart (h : u.IsPlain R) (htext : strip R target = u.text)
    (hapart : ∀ e, some e ∈ targets → Apart R u e) :
    targetMatches R targets (discoveryHostOf R target) = false ∧
      ∀ host, hostOf R target = .ok host → targetMatches R targets host = false := by
  constructor
  · rw [discoveryHostOf_plain h htext]
    refine targetMatches_eq_false fun e he => entryMatches_of_not_suffix ?_
    exact (hapart e he).imp_right fun h =>
      ⟨h.2.1, fun _ => ipAddress_slash (slash_mem_stripPort u)⟩
  · intro host hhost
    rw [hostOf_plain h htext hhost]
    refine targetMatches_eq_false fun e he => entryMatches_of_not_suffix ?_
    rw [hostKey_hostKey]
    exact (hapart e he).imp_right fun h => ⟨h.1, h.2.2⟩

theorem targetMatches_below (h : u.IsPlain R) (htext : strip R target = u.text)
    (hbelow : OriginBelow R u targets) :
    targetMatches R targets (discoveryHostOf R target) = true ∧
      ∃ host, hostOf R target = .ok host ∧ targetMatches R targets host = true := by
  obtain ⟨huser, hpath, hport, hascii, e, he, hkind, hne, hend⟩ := hbelow
  have hmatch : ∀ host, '.' :: (e.kindAndKey R).2 <:+ hostKey R host →
      targetMatches R targets host = true := by
    intro host h
    refine targetMatches_iff.mpr ⟨fun hnil => ?_, some e, he, ?_⟩
    · rw [hnil, suffix_nil] at h
      cases h
    · rw [entryMatches_some, if_pos hkind]
      exact ⟨hne, Or.inr h⟩
  have hread : stripPort R u.text = u.scheme ++ "://" ++ u.name := by
    rcases hport with hport | ⟨digits, hdigits, hport⟩
    · have hcolon : ':' ∉ '/' :: '/' :: u.name := by
        have := notMem_of_isName h.name (c := ':') (by decide)
        simpa using this
      have htext : u.text = u.scheme ++ ':' :: '/' :: '/' :: u.name := by
        simp [UrlText.text, huser, hport, hpath]
      have hnot : strIsdigit R ('/' :: '/' :: u.name) = false := by
        simp [strIsdigit, R.isDigit_ascii '/' (by decide), show Char.isDigit '/' = false by decide]
      rw [htext, stripPort_of_not hcolon hnot]
      simp
    · have htext : u.text = (u.scheme ++ "://" ++ u.name) ++ ':' :: digits := by
        simp [UrlText.text, huser, hport, hpath]
      rw [htext, stripPort_append hdigits]
  constructor
  · rw [discoveryHostOf_plain h htext, hread]
    refine hmatch _ (hend.trans ?_)
    have hsub : ∀ c ∈ u.scheme ++ "://" ++ u.name, IsAscii c := by
      intro c hc
      refine hascii c ?_
      simp only [UrlText.text, mem_append, mem_cons] at hc ⊢
      simp at hc
      tauto
    have hlow : lower R (u.scheme ++ "://" ++ u.name) =
        (u.scheme ++ "://").map Char.toLower ++ lower R u.name := by
      rw [(lowers_lower _).eq_map hsub, map_append, (lowers_lower (R := R) u.name).eq_map
        fun c hc => hsub c (mem_append_right _ hc)]
    have hne : rstripChar '.' (lower R u.name) ≠ [] := h.name.last_ne.1
    unfold hostKey
    rw [hlow, rstripChar_append, if_neg hne]
    exact suffix_append _ _
  · have hauthority : ∀ c ∈ u.authority, c ∈ u.name ∨ c ∈ u.port := by
      intro c hc
      rw [UrlText.authority, huser, mem_append, mem_append] at hc
      exact hc.elim nofun fun hc => hc.imp_right mem_of_mem_filter
    have hbracket : ∀ c, IsMark c → c ≠ ':' → c ∉ u.authority := by
      intro c hc hcolon hmem
      rcases hauthority c hmem with hmem | hmem
      · exact notMem_of_isName h.name hc hmem
      · rcases hport with hport | ⟨digits, hdigits, hport⟩
        · rw [hport] at hmem
          cases hmem
        · rw [hport, mem_cons] at hmem
          exact hmem.elim hcolon (notMem_digits hdigits hc.1 hc.not_alphanum.2)
    have hok : nfkcOk R u.authority = true := by
      have hall : ∀ c ∈ u.authority, IsAscii c := fun c hc => hascii c (by
        rcases hauthority c hc with hc | hc <;> simp [UrlText.text, hc])
      unfold nfkcOk
      rw [decide_eq_true hall]
      rfl
    have hcheck : checkNetloc R u.authority = .ok u.authority := by
      have hopen := hbracket '[' (by decide) (by decide)
      have hclose := hbracket ']' (by decide) (by decide)
      unfold checkNetloc
      simp [hopen, hclose, hok]
    refine ⟨hostKey R u.name, ?_, hmatch _ (by rwa [hostKey_hostKey])⟩
    have hne : u.text ≠ [] := append_ne_nil_of_left_ne_nil h.scheme_ne _
    unfold hostOf
    simp only [htext, if_neg hne, if_pos u.isUrl]
    unfold urlHostname
    rw [h.netloc, hcheck]
    simp [h.hostinfo, ne_nil_of_isName h.name, lowerHost_of_isName h.name, hostKey_lower]

end Alike

/-- **The two gates** allow the same targets, but for URLs. -/
theorem gates_alike {targets : List (Option Target)}
    (h : IsUrl (strip R target) → ReadAlike R targets target) :
    targetMatches R targets (discoveryHostOf R target) = true ↔
      ∃ host, hostOf R target = .ok host ∧ targetMatches R targets host = true := by
  by_cases hurl : IsUrl (strip R target)
  · obtain ⟨u, hu, htext, hbelow | hapart⟩ := h hurl
    · exact iff_of_true (targetMatches_below hu htext hbelow).1
        (targetMatches_below hu htext hbelow).2
    · obtain ⟨hdiscovery, hscan⟩ := targetMatches_apart hu htext hapart
      rw [hdiscovery]
      refine iff_of_false Bool.false_ne_true ?_
      rintro ⟨host, hhost, hmatch⟩
      rw [hscan host hhost] at hmatch
      cases hmatch
  · obtain ⟨host, hhost, hkey⟩ := hostOf_of_not_url hurl
    rw [hhost, ← targetMatches_congr hkey]
    simp

/-- The origin of the application, below the domain of the row. -/
def originUrl : UrlText :=
  ⟨"https", [], "app.example.com", ":443", []⟩

end Guardian.Authorization

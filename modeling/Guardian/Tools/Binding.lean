import Guardian.Authorization.Discovery
import Guardian.Discovery.Canonicalize
import Guardian.Order.Bucket
import Guardian.Order.Filing
import Mathlib.Data.List.ReduceOption

/-!
# Binding the findings of a tool

The findings that a tool derives for a host or an address are filed under an asset.  The host binder
takes the one asset whose URL has that host; the binder of `nmap` takes the asset of the first valid
authorization that lists the address, in the order in which the rows come.  `binders_exact_iff` says
when both are exact.
-/

namespace Guardian.Tools

open Python Guardian.Order Discovery Authorization List

/-! ### The tables -/

/-- A row of `assets`, as the binders read it. -/
structure Asset where
  id : Id
  tenantId : Id
  customerId : Id
  kind : Str
  identifier : Str
  deriving DecidableEq

/-- **The tables**, in the order in which their rows come: `id` is the key of an asset, and an
authorization refers to one by it. -/
structure Database where
  assets : List Asset
  authorizations : List AuthorizationRow
  nodup_id : (assets.map Asset.id).Nodup
  asset_of_row : ∀ row ∈ authorizations, ∀ i ∈ row.assetId, ∃ a ∈ assets, a.id = i

/-- The rows come in another order. -/
def Database.Reordered (db db' : Database) : Prop :=
  db.assets.Perm db'.assets ∧ db.authorizations.Perm db'.authorizations

/-- `RawEvidence`. -/
structure RawEvidence (D : Type) where
  target : Str
  kind : Str
  data : D

/-- The findings that are filed for a target, and the asset that they are filed under. -/
structure Filed (F : Type) where
  target : Str
  asset : Asset
  findings : List F

section Binders
variable (R : Runtime) (I : Idna)

/-! ### The binders -/

/-- `_HOST_ASSET_KINDS`. -/
def hostAssetKinds : List Str := ["web", "api"]

/-- **`_asset_host`.** -/
def assetHost (a : Asset) : Except Fault (Option Str) := do
  if a.kind ∉ hostAssetKinds then return none
  let parts ← urlparse R a.identifier
  match parts.hostname R with
  | none => return none
  | some host =>
    if (ipAddress host).isSome then return none
    let key ← canonicalKey R I (.inl .subdomain) host
    return some key

/-- The assets that `resolve_asset` selects, in the order of their ids. -/
def candidates (db : Database) (tenantId : Id) : List Asset :=
  sortBy Asset.id
    (db.assets.filter fun a => decide (a.tenantId = tenantId ∧ a.kind ∈ hostAssetKinds))

/-- **`resolve_asset`.** -/
def resolveAsset (tenantId : Id) (db : Database) (host : Str) : Except Fault (Option Asset) := do
  if host = [] then return none
  let want ← canonicalKey R I (.inl .subdomain) host
  let hosts ← (candidates db tenantId).mapM fun a => do
    let h ← assetHost R I a
    return (a, h)
  match hosts.filter fun p => decide (p.2 = some want) with
  | [p] => return some p.1
  | _ => return none

/-- `str(t.get("value"))`. -/
def targetText : Option Target → Except Fault Str
  | none => .error .attributeError
  | some t => .ok ((t.value.map JsonValue.text).getD "None")

/-- The rounds over the targets of a row: whether one of them is the address. -/
def lists (ip : Str) : List (Option Target) → Except Fault Bool
  | [] => .ok false
  | t :: ts => do
    let text ← targetText t
    if text = ip then return true else lists ip ts

/-- The valid authorizations of the tenant that name an asset. -/
def validRows (db : Database) (tenantId : Id) (now : ℤ) : List AuthorizationRow :=
  db.authorizations.filter fun row => decide (row.tenantId = tenantId ∧ row.revokedAt = none ∧
    row.assetId ≠ none ∧ row.validFrom ≤ now ∧ now ≤ row.validUntil)

/-- One round of the loop over the rows: what it returns, if it returns or raises anything. -/
def answer (ip : Str) (row : AuthorizationRow) : Option (Except Fault (Option Id)) :=
  match lists ip row.authorizedTargets with
  | .error f => some (.error f)
  | .ok true => some (.ok row.assetId)
  | .ok false => none

/-- `session.get(Asset, id)`. -/
def getAsset (db : Database) (i : Option Id) : Option Asset :=
  db.assets.find? fun a => i = some a.id

/-- **`_asset_for_target_ip`.** -/
def assetForTargetIp (tenantId : Id) (now : ℤ) (db : Database) (ip : Str) :
    Except Fault (Option Asset) :=
  match (validRows db tenantId now).findSome? (answer ip) with
  | none => .ok none
  | some named => getAsset db <$> named

end Binders

section Loop
variable {D F : Type} (normalize : RawEvidence D → Option F)

/-- One round of the loop over the targets. -/
def bindTarget (assetFor : Str → Except Fault (Option Asset)) (p : Str × List (RawEvidence D)) :
    Except Fault (Option (Filed F)) := do
  match ← assetFor p.1 with
  | none => return none
  | some asset =>
    let raws := p.2.filterMap normalize
    if raws.isEmpty then return none
    return some ⟨p.1, asset, raws⟩

/-- The loop over the targets, in their order. -/
def bindTargets (assetFor : Str → Except Fault (Option Asset)) (evidences : List (RawEvidence D)) :
    Except Fault (List (Filed F)) := do
  let groups := sortBy Prod.fst (buckets (evidences.map fun e => (e.target, e)))
  let filed ← groups.mapM (bindTarget normalize assetFor)
  return filed.reduceOption

/-- **`_bind_and_derive_findings_strict`.** -/
def bindAndDeriveFindingsStrict (R : Runtime) (I : Idna) (tenantId : Id)
    (evidences : List (RawEvidence D)) (db : Database) : Except Fault (List (Filed F)) :=
  bindTargets normalize (resolveAsset R I tenantId db) evidences

/-- The evidence that the binder of `nmap` reads. -/
def nmapServices (evidences : List (RawEvidence D)) : List (RawEvidence D) :=
  evidences.filter fun e => decide (e.kind = "nmap_service")

/-- **`_bind_nmap_findings`.** -/
def bindNmapFindings (tenantId : Id) (now : ℤ) (evidences : List (RawEvidence D)) (db : Database) :
    Except Fault (List (Filed F)) :=
  bindTargets normalize (assetForTargetIp tenantId now db) (nmapServices evidences)

end Loop

/-! ### Exact binders -/

/-- **The rows name an asset for a host**: the canonical host of its URL is that of the host. -/
def NamedByHost (R : Runtime) (I : Idna) (tenantId : Id) (db : Database) (host : Str) (a : Asset) :
    Prop :=
  a ∈ db.assets ∧ a.tenantId = tenantId ∧ host ≠ [] ∧
    assetHost R I a = .ok (some (canonHost R I host))

/-- **The rows name an asset for an address**: a valid authorization that names it lists the
address. -/
def NamedByAuthorization (tenantId : Id) (now : ℤ) (db : Database) (ip : Str) (a : Asset) : Prop :=
  a ∈ db.assets ∧ ∃ row ∈ validRows db tenantId now, row.assetId = some a.id ∧
    ∃ t ∈ row.authorizedTargets, targetText t = .ok ip

/-- **A binder is exact**: it files the same in whatever order the rows come, and what it files for
a target it files under the one asset that the rows name for it. -/
def Exact {F : Type} (names : Str → Asset → Prop)
    (binder : Database → Except Fault (List (Filed F))) (db : Database) : Prop :=
  ∃ filed, (∀ db', db.Reordered db' → binder db' = .ok filed) ∧
    ∀ f ∈ filed, ∀ a, names f.target a ↔ a = f.asset

/-- **The URLs of the assets can be parsed**, if any host is looked for. -/
def UrlsParse {D : Type} (R : Runtime) (I : Idna) (tenantId : Id) (evidences : List (RawEvidence D))
    (db : Database) : Prop :=
  (∃ e ∈ evidences, e.target ≠ []) →
    ∀ a ∈ db.assets, a.tenantId = tenantId → Returns (assetHost R I a)

/-- **The authorizations agree on an address**: each of them can be read up to it, and those that
list it name one asset, if there is anything to file. -/
def Agree {D F : Type} (normalize : RawEvidence D → Option F) (tenantId : Id) (now : ℤ)
    (evidences : List (RawEvidence D)) (db : Database) : Prop :=
  ∀ e ∈ nmapServices evidences,
    (∀ row ∈ validRows db tenantId now, Returns (lists e.target row.authorizedTargets)) ∧
      ((normalize e).isSome → ∀ row ∈ validRows db tenantId now,
        ∀ row' ∈ validRows db tenantId now, lists e.target row.authorizedTargets = .ok true →
          lists e.target row'.authorizedTargets = .ok true → row.assetId = row'.assetId)

/-! ### What a loop files -/

section Loop
variable {D F : Type} {normalize : RawEvidence D → Option F}
  {assetFor assetFor' : Str → Except Fault (Option Asset)} {evidences : List (RawEvidence D)}

/-- The evidence of a target. -/
def evidenceOf (target : Str) (evidences : List (RawEvidence D)) : List (RawEvidence D) :=
  valuesOf target (evidences.map fun e => (e.target, e))

theorem mem_evidenceOf {target : Str} {e : RawEvidence D} :
    e ∈ evidenceOf target evidences ↔ e ∈ evidences ∧ e.target = target := by
  unfold evidenceOf
  rw [mem_valuesOf, mem_map]
  constructor
  · rintro ⟨e', he', heq⟩
    cases heq
    exact ⟨he', rfl⟩
  · rintro ⟨he, rfl⟩
    exact ⟨e, he, rfl⟩

theorem mem_groups {p : Str × List (RawEvidence D)} :
    p ∈ sortBy Prod.fst (buckets (evidences.map fun e => (e.target, e))) ↔
      p.2 = evidenceOf p.1 evidences ∧ p.2 ≠ [] := by
  obtain ⟨k, vs⟩ := p
  rw [mem_sortBy]
  exact mem_buckets

theorem bindTarget_eq {target : Str} {es : List (RawEvidence D)} {found : Option Asset}
    (h : assetFor target = .ok found) : bindTarget normalize assetFor (target, es) =
      .ok (if es.filterMap normalize = [] then none
        else found.map fun asset => ⟨target, asset, es.filterMap normalize⟩) := by
  unfold bindTarget
  rw [h, ok_bind]
  cases found with
  | none => exact (ite_self _).symm ▸ rfl
  | some asset =>
    by_cases hes : es.filterMap normalize = []
    · simp only [hes, isEmpty_nil, if_true]
      rfl
    · simp only [hes, List.isEmpty_iff, if_false]
      rfl

theorem returns_bindTarget_iff {p : Str × List (RawEvidence D)} :
    Returns (bindTarget normalize assetFor p) ↔ Returns (assetFor p.1) := by
  constructor
  · rintro ⟨filed, h⟩
    obtain ⟨found, hfound, -⟩ := bind_eq_ok.mp h
    exact ⟨found, hfound⟩
  · rintro ⟨found, hfound⟩
    exact ⟨_, bindTarget_eq hfound⟩

theorem returns_bindTargets_iff :
    Returns (bindTargets normalize assetFor evidences) ↔
      ∀ e ∈ evidences, Returns (assetFor e.target) := by
  unfold bindTargets
  rw [returns_bind_pure_iff, returns_mapM_iff]
  simp only [returns_bindTarget_iff]
  constructor
  · intro h e he
    have hmem : e ∈ evidenceOf e.target evidences := mem_evidenceOf.mpr ⟨he, rfl⟩
    exact h (e.target, _) (mem_groups.mpr ⟨rfl, ne_nil_of_mem hmem⟩)
  · intro h p hp
    obtain ⟨heq, hne⟩ := mem_groups.mp hp
    obtain ⟨e, he⟩ := exists_mem_of_ne_nil _ hne
    rw [heq, mem_evidenceOf] at he
    exact he.2 ▸ h e he.1

/-- **What is filed**: for a target with findings, under the asset that is looked up for it. -/
theorem mem_bindTargets {filed : List (Filed F)}
    (h : bindTargets normalize assetFor evidences = .ok filed) {f : Filed F} : f ∈ filed ↔
      assetFor f.target = .ok (some f.asset) ∧ f.findings ≠ [] ∧
        f.findings = (evidenceOf f.target evidences).filterMap normalize := by
  unfold bindTargets at h
  obtain ⟨rounds, hrounds, hfiled⟩ := bind_eq_ok.mp h
  obtain rfl : rounds.reduceOption = filed := Except.ok.inj hfiled
  rw [reduceOption_mem_iff]
  constructor
  · intro hf
    obtain ⟨⟨target, es⟩, hp, hround⟩ := exists_of_mem_mapM hrounds _ hf
    obtain ⟨found, hfound⟩ := returns_bindTarget_iff.mp ⟨_, hround⟩
    rw [bindTarget_eq hfound, Except.ok.injEq] at hround
    split_ifs at hround with hes
    obtain ⟨asset, rfl, rfl⟩ := Option.map_eq_some_iff.mp hround
    exact ⟨hfound, hes, congrArg _ (mem_groups.mp hp).1⟩
  · rintro ⟨hfound, hne, hfindings⟩
    have hes : evidenceOf f.target evidences ≠ [] := by
      intro hnil
      rw [hnil] at hfindings
      exact hne hfindings
    obtain ⟨round, hround, heq⟩ := exists_of_mem_mapM_left hrounds _
      (mem_groups (p := (f.target, evidenceOf f.target evidences)).mpr ⟨rfl, hes⟩)
    rw [bindTarget_eq hfound, ← hfindings, if_neg hne, Except.ok.injEq] at heq
    rwa [← heq] at hround

/-- **The loop files the same** if every target is looked up to the same asset, or has no
findings. -/
theorem bindTargets_congr (hfor : ∀ e ∈ evidences, Returns (assetFor e.target))
    (hfor' : ∀ e ∈ evidences, Returns (assetFor' e.target))
    (h : ∀ e ∈ evidences, (normalize e).isSome → assetFor e.target = assetFor' e.target) :
    bindTargets normalize assetFor evidences = bindTargets normalize assetFor' evidences := by
  refine congrArg (· >>= fun rounds => pure rounds.reduceOption) (mapM_congr_mem fun p hp => ?_)
  obtain ⟨target, es⟩ := p
  obtain ⟨hes, hne⟩ := mem_groups.mp hp
  simp only at hes hne
  subst hes
  obtain ⟨e, he⟩ := exists_mem_of_ne_nil _ hne
  obtain ⟨hmem, rfl⟩ := mem_evidenceOf.mp he
  obtain ⟨found, hfound⟩ := hfor e hmem
  obtain ⟨found', hfound'⟩ := hfor' e hmem
  rw [bindTarget_eq hfound, bindTarget_eq hfound']
  split_ifs with hes
  · rfl
  · obtain ⟨x, hx⟩ := exists_mem_of_ne_nil _ hes
    obtain ⟨e', he', hsome⟩ := mem_filterMap.mp hx
    obtain ⟨he', htarget⟩ := mem_evidenceOf.mp he'
    have hsame := h e' he' (hsome ▸ rfl)
    rw [htarget, hfound, hfound', Except.ok.injEq] at hsame
    rw [hsame]

end Loop

/-! ### The host binder -/

section Hosts
variable {R : Runtime} {I : Idna} {tenantId : Id} {db db' : Database} {host : Str}

theorem keyInj_id (db : Database) : KeyInj Asset.id db.assets :=
  inj_on_of_nodup_map db.nodup_id

theorem candidates_eq (h : db.Reordered db') : candidates db tenantId = candidates db' tenantId :=
  sortBy_perm_eq ((keyInj_id db).mono fun _ ha => mem_of_mem_filter ha) (h.1.filter _)

theorem resolveAsset_eq (h : db.Reordered db') :
    resolveAsset R I tenantId db = resolveAsset R I tenantId db' := by
  unfold resolveAsset
  rw [candidates_eq h]

theorem mem_candidates {a : Asset} : a ∈ candidates db tenantId ↔
    a ∈ db.assets ∧ a.tenantId = tenantId ∧ a.kind ∈ hostAssetKinds := by
  unfold candidates
  rw [mem_sortBy, mem_filter, decide_eq_true_iff]

theorem assetHost_of_kind {a : Asset} (h : a.kind ∉ hostAssetKinds) :
    assetHost R I a = .ok none := by
  unfold assetHost
  rw [if_pos h]
  rfl

theorem subdomain_key (host : Str) :
    canonicalKey R I (.inl .subdomain) host = .ok (canonHost R I host) := by
  unfold canonicalKey typeName
  exact if_pos (Or.inr rfl)

/-- The candidates with their hosts. -/
def hostsOf (R : Runtime) (I : Idna) (tenantId : Id) (db : Database) :
    Except Fault (List (Asset × Option Str)) :=
  (candidates db tenantId).mapM fun a => do
    let h ← assetHost R I a
    return (a, h)

theorem resolveAsset_eq_bind (hhost : host ≠ []) :
    resolveAsset R I tenantId db host = hostsOf R I tenantId db >>= fun hosts =>
      match hosts.filter fun p => decide (p.2 = some (canonHost R I host)) with
      | [p] => .ok (some p.1)
      | _ => .ok none := by
  unfold resolveAsset
  rw [if_neg hhost, subdomain_key]
  rfl

theorem returns_hostsOf_iff : Returns (hostsOf R I tenantId db) ↔
    ∀ a ∈ db.assets, a.tenantId = tenantId → Returns (assetHost R I a) := by
  unfold hostsOf
  rw [returns_mapM_iff]
  simp only [returns_bind_pure_iff, mem_candidates]
  constructor
  · intro h a ha htenant
    by_cases hkind : a.kind ∈ hostAssetKinds
    · exact h a ⟨ha, htenant, hkind⟩
    · exact ⟨none, assetHost_of_kind hkind⟩
  · exact fun h a ha => h a ha.1 ha.2.1

theorem returns_resolveAsset_iff : Returns (resolveAsset R I tenantId db host) ↔
    (host ≠ [] → ∀ a ∈ db.assets, a.tenantId = tenantId → Returns (assetHost R I a)) := by
  by_cases hhost : host = []
  · refine iff_of_true ⟨none, ?_⟩ fun h => absurd hhost h
    unfold resolveAsset
    rw [if_pos hhost]
    rfl
  · rw [resolveAsset_eq_bind hhost, returns_bind_iff (P := True), returns_hostsOf_iff]
    · exact ⟨fun h _ => h.1, fun h => ⟨h hhost, trivial⟩⟩
    · intro hosts
      refine iff_of_true ?_ trivial
      split <;> exact returns_ok _

theorem mem_hostsOf {hosts : List (Asset × Option Str)} (h : hostsOf R I tenantId db = .ok hosts)
    {p : Asset × Option Str} :
    p ∈ hosts ↔ p.1 ∈ candidates db tenantId ∧ assetHost R I p.1 = .ok p.2 := by
  constructor
  · intro hp
    obtain ⟨a, ha, hround⟩ := exists_of_mem_mapM h p hp
    obtain ⟨host, hhost, heq⟩ := bind_eq_ok.mp hround
    cases heq
    exact ⟨ha, hhost⟩
  · rintro ⟨ha, hhost⟩
    obtain ⟨q, hq, hround⟩ := exists_of_mem_mapM_left h p.1 ha
    rw [hhost] at hround
    cases hround
    exact hq

theorem nodup_hostsOf {hosts : List (Asset × Option Str)}
    (h : hostsOf R I tenantId db = .ok hosts) : hosts.Nodup := by
  have hcands : (candidates db tenantId).Nodup :=
    nodup_sortBy _ (db.nodup_id.of_map.filter _)
  have hfst : ∀ {as : List Asset} {ps : List (Asset × Option Str)},
      (as.mapM fun a => do let h ← assetHost R I a; return (a, h)) = .ok ps →
        ps.map Prod.fst = as := by
    intro as
    induction as with
    | nil =>
      intro ps hps
      cases hps
      rfl
    | cons a as ih =>
      intro ps hps
      obtain ⟨p, ps', hp, hps', rfl⟩ := mapM_cons_eq_ok.mp hps
      obtain ⟨host, -, heq⟩ := bind_eq_ok.mp hp
      cases heq
      rw [map_cons, ih hps']
  exact Nodup.of_map Prod.fst ((hfst h).symm ▸ hcands)

/-- **`resolve_asset` returns the one asset that the rows name**, if they name one. -/
theorem resolveAsset_some_iff {asset : Asset}
    (hurls : host ≠ [] → ∀ a ∈ db.assets, a.tenantId = tenantId → Returns (assetHost R I a)) :
    resolveAsset R I tenantId db host = .ok (some asset) ↔
      ∀ a, NamedByHost R I tenantId db host a ↔ a = asset := by
  by_cases hhost : host = []
  · refine iff_of_false ?_ fun h => ((h asset).mpr rfl).2.2.1 hhost
    unfold resolveAsset
    rw [if_pos hhost]
    exact fun h => nomatch h
  obtain ⟨hosts, hhosts⟩ := returns_hostsOf_iff.mpr (hurls hhost)
  set found := hosts.filter fun p => decide (p.2 = some (canonHost R I host)) with hfound
  have hnamed : ∀ a, NamedByHost R I tenantId db host a ↔
      (a, some (canonHost R I host)) ∈ found := by
    intro a
    rw [hfound, mem_filter, mem_hostsOf hhosts, decide_eq_true_iff, mem_candidates]
    constructor
    · rintro ⟨ha, htenant, -, hcanon⟩
      refine ⟨⟨⟨ha, htenant, ?_⟩, hcanon⟩, rfl⟩
      by_contra hkind
      rw [assetHost_of_kind hkind] at hcanon
      cases hcanon
    · rintro ⟨⟨⟨ha, htenant, -⟩, hcanon⟩, -⟩
      exact ⟨ha, htenant, hhost, hcanon⟩
  have hsnd : ∀ p ∈ found, p.2 = some (canonHost R I host) :=
    fun p hp => of_decide_eq_true (mem_filter.mp hp).2
  have hnodup : found.Nodup := (nodup_hostsOf hhosts).filter _
  rw [resolveAsset_eq_bind hhost, hhosts, ok_bind, ← hfound]
  simp only [hnamed]
  constructor
  · intro h
    rcases hl : found with _ | ⟨p, _ | ⟨q, ps⟩⟩
    · rw [hl] at h
      cases h
    · rw [hl] at h
      cases h
      intro a
      rw [mem_singleton, Prod.ext_iff]
      exact and_iff_left (hsnd p (hl ▸ mem_cons_self)).symm
    · rw [hl] at h
      cases h
  · intro h
    have hperm : found.Perm [(asset, some (canonHost R I host))] := by
      refine (perm_ext_iff_of_nodup hnodup (nodup_singleton _)).mpr fun p => ?_
      rw [mem_singleton]
      constructor
      · intro hp
        have hp' : (p.1, some (canonHost R I host)) ∈ found := (hsnd p hp) ▸ hp
        exact Prod.ext ((h p.1).mp hp') (hsnd p hp)
      · rintro rfl
        exact (h asset).mpr rfl
    rw [perm_singleton.mp hperm]

/-- **When the host binder is exact.** -/
theorem hostBinder_exact_iff {D F : Type} (normalize : RawEvidence D → Option F)
    (evidences : List (RawEvidence D)) :
    Exact (NamedByHost R I tenantId db)
        (bindAndDeriveFindingsStrict normalize R I tenantId evidences) db ↔
      UrlsParse R I tenantId evidences db := by
  have hreturns : Returns (bindAndDeriveFindingsStrict normalize R I tenantId evidences db) ↔
      UrlsParse R I tenantId evidences db := by
    unfold bindAndDeriveFindingsStrict UrlsParse
    rw [returns_bindTargets_iff]
    simp only [returns_resolveAsset_iff]
    exact ⟨fun h ⟨e, he, hne⟩ => h e he hne, fun h e he hne => h ⟨e, he, hne⟩⟩
  rw [← hreturns]
  constructor
  · rintro ⟨filed, hfiled, -⟩
    exact ⟨filed, hfiled db ⟨.refl _, .refl _⟩⟩
  · rintro ⟨filed, hfiled⟩
    refine ⟨filed, fun db' hdb' => ?_, fun f hf => ?_⟩
    · unfold bindAndDeriveFindingsStrict at hfiled ⊢
      rwa [← resolveAsset_eq hdb']
    · obtain ⟨hasset, -⟩ := (mem_bindTargets hfiled).mp hf
      exact (resolveAsset_some_iff (returns_resolveAsset_iff.mp ⟨_, hasset⟩)).mp hasset

end Hosts

/-! ### The binder of `nmap` -/

section Addresses
variable {tenantId : Id} {now : ℤ} {db db' : Database} {ip : Str}

theorem of_lists_true {targets : List (Option Target)} (h : lists ip targets = .ok true) :
    ∃ t ∈ targets, targetText t = .ok ip := by
  induction targets with
  | nil => cases h
  | cons t ts ih =>
    rw [lists] at h
    obtain ⟨text, htext, h⟩ := bind_eq_ok.mp h
    split_ifs at h with heq
    · exact ⟨t, mem_cons_self, heq ▸ htext⟩
    · obtain ⟨t', ht', h'⟩ := ih h
      exact ⟨t', mem_cons_of_mem _ ht', h'⟩

theorem of_lists_false {targets : List (Option Target)} (h : lists ip targets = .ok false) :
    ∀ t ∈ targets, targetText t ≠ .ok ip := by
  induction targets with
  | nil => exact fun t ht => nomatch ht
  | cons t ts ih =>
    rw [lists] at h
    obtain ⟨text, htext, h⟩ := bind_eq_ok.mp h
    split_ifs at h with heq
    · cases h
    · intro t' ht'
      rcases mem_cons.mp ht' with rfl | ht'
      · rw [htext]
        exact fun hok => heq (Except.ok.inj hok)
      · exact ih h t' ht'

theorem lists_true_iff {targets : List (Option Target)} (h : Returns (lists ip targets)) :
    lists ip targets = .ok true ↔ ∃ t ∈ targets, targetText t = .ok ip := by
  refine ⟨of_lists_true, fun ⟨t, ht, heq⟩ => ?_⟩
  obtain ⟨_ | _, hlists⟩ := h
  · exact absurd heq (of_lists_false hlists t ht)
  · exact hlists

theorem validRows_perm (h : db.Reordered db') :
    (validRows db tenantId now).Perm (validRows db' tenantId now) := h.2.filter _

theorem getAsset_eq_some_iff {i : Option Id} {a : Asset} :
    getAsset db i = some a ↔ a ∈ db.assets ∧ i = some a.id := by
  unfold getAsset
  constructor
  · intro h
    have hid := find?_some h
    exact ⟨mem_of_find?_eq_some h, of_decide_eq_true hid⟩
  · rintro ⟨ha, rfl⟩
    rcases hfind : db.assets.find? fun b => decide (some a.id = some b.id) with _ | b
    · exact absurd (decide_eq_true rfl) (find?_eq_none.mp hfind a ha)
    · have hid := find?_some hfind
      exact hfind.trans (congrArg some (keyInj_id db b (mem_of_find?_eq_some hfind) a ha
        (Option.some.inj (of_decide_eq_true hid)).symm))

theorem getAsset_eq (h : db.Reordered db') (i : Option Id) : getAsset db i = getAsset db' i := by
  refine Option.ext fun a => ?_
  rw [getAsset_eq_some_iff, getAsset_eq_some_iff, h.1.mem_iff]

theorem exists_getAsset {row : AuthorizationRow} (hrow : row ∈ validRows db tenantId now) :
    ∃ a, getAsset db row.assetId = some a ∧ row.assetId = some a.id := by
  obtain ⟨hrow, hvalid⟩ := mem_filter.mp hrow
  obtain ⟨i, hi⟩ := Option.ne_none_iff_exists'.mp (of_decide_eq_true hvalid).2.2.1
  obtain ⟨a, ha, rfl⟩ := db.asset_of_row row hrow i hi
  exact ⟨a, getAsset_eq_some_iff.mpr ⟨ha, hi⟩, hi⟩

theorem answer_of_true {row : AuthorizationRow} (h : lists ip row.authorizedTargets = .ok true) :
    answer ip row = some (.ok row.assetId) := by
  unfold answer
  rw [h]

theorem answer_of_false {row : AuthorizationRow} (h : lists ip row.authorizedTargets = .ok false) :
    answer ip row = none := by
  unfold answer
  rw [h]

/-- **What is looked up for an address**: the asset of a row that lists it, if one does. -/
theorem assetForTargetIp_spec
    (hread : ∀ row ∈ validRows db tenantId now, Returns (lists ip row.authorizedTargets)) :
    (∃ row ∈ validRows db tenantId now, lists ip row.authorizedTargets = .ok true ∧
        assetForTargetIp tenantId now db ip = .ok (getAsset db row.assetId)) ∨
      (∀ row ∈ validRows db tenantId now, lists ip row.authorizedTargets ≠ .ok true) ∧
        assetForTargetIp tenantId now db ip = .ok none := by
  unfold assetForTargetIp
  rcases hfind : (validRows db tenantId now).findSome? (answer ip) with _ | named
  · refine Or.inr ⟨fun row hrow hlists => ?_, rfl⟩
    have hnone := findSome?_eq_none_iff.mp hfind row hrow
    rw [answer_of_true hlists] at hnone
    cases hnone
  · obtain ⟨row, hrow, hanswer⟩ := exists_of_findSome?_eq_some hfind
    obtain ⟨_ | _, hlists⟩ := hread row hrow
    · rw [answer_of_false hlists] at hanswer
      cases hanswer
    · rw [answer_of_true hlists] at hanswer
      cases hanswer
      exact Or.inl ⟨row, hrow, hlists, rfl⟩

theorem returns_assetForTargetIp
    (hread : ∀ row ∈ validRows db tenantId now, Returns (lists ip row.authorizedTargets)) :
    Returns (assetForTargetIp tenantId now db ip) := by
  obtain ⟨row, -, -, h⟩ | ⟨-, h⟩ := assetForTargetIp_spec hread <;> exact ⟨_, h⟩

theorem exists_reordered {row : AuthorizationRow} (hrow : row ∈ validRows db tenantId now) :
    ∃ db', db.Reordered db' ∧ ∃ rows, validRows db' tenantId now = row :: rows := by
  obtain ⟨hmem, hvalid⟩ := mem_filter.mp hrow
  obtain ⟨pre, post, hsplit⟩ := append_of_mem hmem
  have hperm : db.authorizations.Perm (row :: (pre ++ post)) := hsplit ▸ perm_middle
  refine ⟨⟨db.assets, row :: (pre ++ post), db.nodup_id, fun r hr =>
    db.asset_of_row r (hperm.mem_iff.mpr hr)⟩, ⟨.refl _, hperm⟩, ?_⟩
  unfold validRows
  exact ⟨_, filter_cons_of_pos hvalid⟩

theorem not_returns_of_first {row : AuthorizationRow} {rows : List AuthorizationRow}
    (h : validRows db tenantId now = row :: rows)
    (hread : ¬ Returns (lists ip row.authorizedTargets)) :
    ¬ Returns (assetForTargetIp tenantId now db ip) := by
  unfold assetForTargetIp answer
  rw [h, findSome?_cons]
  rcases hlists : lists ip row.authorizedTargets with f | b
  · exact not_returns_error _
  · exact absurd ⟨b, hlists⟩ hread

variable {D F : Type} {normalize : RawEvidence D → Option F} {evidences : List (RawEvidence D)}

/-- Where the binder of `nmap` is exact, the rows that list an address agree. -/
theorem agree_of_exact (h : Exact (NamedByAuthorization tenantId now db)
    (bindNmapFindings normalize tenantId now evidences) db) :
    Agree normalize tenantId now evidences db := by
  obtain ⟨filed, hfiled, hnamed⟩ := h
  intro e he
  have hread : ∀ row ∈ validRows db tenantId now,
      Returns (lists e.target row.authorizedTargets) := by
    intro row hrow
    by_contra hraises
    obtain ⟨db', hdb', rows, hrows⟩ := exists_reordered hrow
    exact not_returns_of_first hrows hraises
      (returns_bindTargets_iff.mp ⟨filed, hfiled db' hdb'⟩ e he)
  refine ⟨hread, fun hsome row hrow row' hrow' hlists hlists' => ?_⟩
  -- something is filed for the address, and every row that lists it names the asset of that
  have hids : ∀ r ∈ validRows db tenantId now, lists e.target r.authorizedTargets = .ok true →
      ∃ a, r.assetId = some a.id ∧ NamedByAuthorization tenantId now db e.target a := by
    intro r hr hl
    obtain ⟨a, ha, hid⟩ := exists_getAsset hr
    exact ⟨a, hid, (getAsset_eq_some_iff.mp ha).1, r, hr, hid, of_lists_true hl⟩
  obtain ⟨asset, hasset⟩ :
      ∃ asset, assetForTargetIp tenantId now db e.target = .ok (some asset) := by
    rcases assetForTargetIp_spec hread with ⟨r, hr, -, hfound⟩ | ⟨hnone, -⟩
    · obtain ⟨a, ha, -⟩ := exists_getAsset hr
      exact ⟨a, ha ▸ hfound⟩
    · exact absurd hlists (hnone row hrow)
  have hfindings : (evidenceOf e.target (nmapServices evidences)).filterMap normalize ≠ [] := by
    obtain ⟨x, hx⟩ := Option.isSome_iff_exists.mp hsome
    exact ne_nil_of_mem (mem_filterMap.mpr ⟨e, mem_evidenceOf.mpr ⟨he, rfl⟩, hx⟩)
  have hmem : (⟨e.target, asset, _⟩ : Filed F) ∈ filed :=
    (mem_bindTargets (hfiled db ⟨.refl _, .refl _⟩)).mpr ⟨hasset, hfindings, rfl⟩
  obtain ⟨a, hid, ha⟩ := hids row hrow hlists
  obtain ⟨a', hid', ha'⟩ := hids row' hrow' hlists'
  rw [hid, hid', (hnamed _ hmem a).mp ha, (hnamed _ hmem a').mp ha']

/-- Where the rows agree, their order does not count. -/
theorem Agree.bind_eq (h : Agree normalize tenantId now evidences db) (hdb : db.Reordered db') :
    bindNmapFindings normalize tenantId now evidences db' =
      bindNmapFindings normalize tenantId now evidences db := by
  have hrows : (validRows db tenantId now).Perm (validRows db' tenantId now) :=
    validRows_perm hdb
  have hread : ∀ e ∈ nmapServices evidences, ∀ row ∈ validRows db' tenantId now,
      Returns (lists e.target row.authorizedTargets) :=
    fun e he row hrow => (h e he).1 row (hrows.mem_iff.mpr hrow)
  refine (bindTargets_congr (fun e he => returns_assetForTargetIp (h e he).1)
    (fun e he => returns_assetForTargetIp (hread e he)) fun e he hsome => ?_).symm
  rcases assetForTargetIp_spec (h e he).1 with ⟨r, hr, hl, hfound⟩ | ⟨hnone, hfound⟩ <;>
    rcases assetForTargetIp_spec (hread e he) with ⟨r', hr', hl', hfound'⟩ | ⟨hnone', hfound'⟩
  · rw [hfound, hfound', ← getAsset_eq hdb,
      (h e he).2 hsome r hr r' (hrows.mem_iff.mpr hr') hl hl']
  · exact absurd hl (hnone' r (hrows.mem_iff.mp hr))
  · exact absurd hl' (hnone r' (hrows.mem_iff.mpr hr'))
  · rw [hfound, hfound']

/-- Where the rows agree, what is filed is filed under the asset that they name. -/
theorem Agree.named_iff (h : Agree normalize tenantId now evidences db) {filed : List (Filed F)}
    (hfiled : bindNmapFindings normalize tenantId now evidences db = .ok filed) {f : Filed F}
    (hf : f ∈ filed) (a : Asset) :
    NamedByAuthorization tenantId now db f.target a ↔ a = f.asset := by
  obtain ⟨hasset, hne, hfindings⟩ := (mem_bindTargets hfiled).mp hf
  obtain ⟨x, hx⟩ := exists_mem_of_ne_nil _ hne
  rw [hfindings] at hx
  obtain ⟨e, he, hsome⟩ := mem_filterMap.mp hx
  obtain ⟨hmem, htarget⟩ := mem_evidenceOf.mp he
  have hagreed := h e hmem
  rw [htarget] at hagreed
  obtain ⟨r, hr, hl, hfound⟩ | ⟨-, hfound⟩ := assetForTargetIp_spec hagreed.1
  · rw [hfound, Except.ok.injEq] at hasset
    obtain ⟨hassets, hid⟩ := getAsset_eq_some_iff.mp hasset
    constructor
    · rintro ⟨ha, r', hr', hid', hlisted⟩
      have hl' := (lists_true_iff (hagreed.1 r' hr')).mpr hlisted
      rw [← hagreed.2 (hsome ▸ rfl) r hr r' hr' hl hl', hid] at hid'
      exact keyInj_id db a ha _ hassets (Option.some.inj hid').symm
    · rintro rfl
      exact ⟨hassets, r, hr, hid, of_lists_true hl⟩
  · rw [hfound] at hasset
    cases hasset

/-- **When the binder of `nmap` is exact.** -/
theorem nmapBinder_exact_iff {D F : Type} (normalize : RawEvidence D → Option F)
    (evidences : List (RawEvidence D)) :
    Exact (NamedByAuthorization tenantId now db)
        (bindNmapFindings normalize tenantId now evidences) db ↔
      Agree normalize tenantId now evidences db := by
  refine ⟨agree_of_exact, fun h => ?_⟩
  obtain ⟨filed, hfiled⟩ : Returns (bindNmapFindings normalize tenantId now evidences db) :=
    returns_bindTargets_iff.mpr fun e he => returns_assetForTargetIp (h e he).1
  exact ⟨filed, fun db' hdb' => (h.bind_eq hdb').trans hfiled, fun f hf => h.named_iff hfiled hf⟩

end Addresses

/-- **When the binders are exact.** -/
theorem binders_exact_iff {D F : Type} (R : Runtime) (I : Idna)
    (normalize normalizeNmap : RawEvidence D → Option F) (tenantId : Id) (now : ℤ)
    (evidences nmapEvidences : List (RawEvidence D)) (db : Database) :
    Exact (NamedByHost R I tenantId db)
          (bindAndDeriveFindingsStrict normalize R I tenantId evidences) db ∧
        Exact (NamedByAuthorization tenantId now db)
          (bindNmapFindings normalizeNmap tenantId now nmapEvidences) db ↔
      UrlsParse R I tenantId evidences db ∧
        Agree normalizeNmap tenantId now nmapEvidences db :=
  and_congr (hostBinder_exact_iff normalize evidences)
    (nmapBinder_exact_iff normalizeNmap nmapEvidences)

/-! ### An address of two assets -/

/-- A valid authorization for the asset of a customer that lists an address. -/
def addressRow (i : Id) : AuthorizationRow where
  id := i
  tenantId := 0
  customerId := i
  assetId := some i
  authorizedTargets := [some (.of "ip" "10.0.0.9")]
  method := .writtenConsent
  validFrom := 0
  validUntil := 9
  revokedAt := none

/-- Two customers' assets, and an authorization for each of them that lists one address. -/
def sharedAddress : Database where
  assets := [⟨1, 0, 1, "web", "https://a.example"⟩, ⟨2, 0, 2, "web", "https://b.example"⟩]
  authorizations := [addressRow 1, addressRow 2]
  nodup_id := by decide
  asset_of_row := by decide

/-- **An address that two assets are named for** is bound to one of them. -/
theorem shared_address_bound : ¬ ∀ (R : Runtime) (I : Idna)
    (normalize normalizeNmap : RawEvidence Unit → Option Unit) (tenantId : Id) (now : ℤ)
    (evidences nmapEvidences : List (RawEvidence Unit)) (db : Database),
    Exact (NamedByHost R I tenantId db)
          (bindAndDeriveFindingsStrict normalize R I tenantId evidences) db ∧
        Exact (NamedByAuthorization tenantId now db)
          (bindNmapFindings normalizeNmap tenantId now nmapEvidences) db := by
  intro h
  have hexact := (h .ascii ⟨some, id⟩ (fun _ => none) (fun _ => some ()) 0 5 []
    [⟨"10.0.0.9", "nmap_service", ()⟩] sharedAddress).2
  have hrows : validRows sharedAddress 0 5 = [addressRow 1, addressRow 2] := rfl
  have hagree := (nmapBinder_exact_iff _ _).mp hexact _ (mem_singleton_self _)
  rw [hrows] at hagree
  have hsame := hagree.2 rfl (addressRow 1) (by simp) (addressRow 2) (by simp) rfl rfl
  exact absurd hsame (by decide)

end Guardian.Tools

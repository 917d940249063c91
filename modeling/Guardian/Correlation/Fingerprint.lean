import Guardian.Correlation.Persist
import Guardian.Correlation.Rules
import Mathlib.Data.List.Pairwise

/-!
# Fingerprints

The fingerprint of a group is made of its rule and its members.  What tells the buckets of a rule
apart, such as the CVE, is not in it.  `ownRows_iff_apart` says when every group has a row of its
own.
-/

namespace Guardian.Correlation

open Python Findings Guardian.Order List

/-! ### What is hashed -/

theorem Rule.bar_notMem (r : Rule) : '|' ∉ r.name := by cases r <;> decide

theorem Rule.name_injective : Function.Injective Rule.name := by
  intro a b h
  have hlen := congrArg List.length h
  cases a <;> cases b <;> first | rfl | exact absurd hlen (by decide)

theorem Uuid.bar_notMem (u : Uuid) : '|' ∉ u.text := fun h => absurd (u.digits _ h) (by decide)

theorem Uuid.text_injective : Function.Injective Uuid.text := fun _ _ => Uuid.ext_text

theorem Group.blob_eq_intercalate {g : Group} (hg : g.members ≠ []) :
    g.blob = intercalate ['|'] (g.rule.name :: (sorted g.members).map Uuid.text) := by
  have hne : (sorted g.members).map Uuid.text ≠ [] := by
    rw [ne_eq, map_eq_nil_iff]
    exact fun h => hg (Perm.nil_eq (h ▸ sorted_perm g.members)).symm
  obtain ⟨t, ts, hts⟩ := exists_cons_of_ne_nil hne
  rw [Group.blob, hts, intercalate_cons_cons]
  simp

/-- **The text that is hashed** tells rules and sets of members apart. -/
theorem blob_eq_iff {g h : Group} (hg : g.members ≠ []) (hh : h.members ≠ []) :
    g.blob = h.blob ↔ g.rule = h.rule ∧ g.members.Perm h.members := by
  have hbar : ∀ k : Group, ∀ l ∈ k.rule.name :: (sorted k.members).map Uuid.text, '|' ∉ l := by
    intro k l hl
    rcases mem_cons.mp hl with rfl | hl
    · exact k.rule.bar_notMem
    · obtain ⟨u, -, rfl⟩ := mem_map.mp hl
      exact u.bar_notMem
  rw [Group.blob_eq_intercalate hg, Group.blob_eq_intercalate hh]
  constructor
  · intro heq
    have hsplit := congrArg (splitOn '|') heq
    rw [splitOn_intercalate '|' (hbar g) (cons_ne_nil _ _),
      splitOn_intercalate '|' (hbar h) (cons_ne_nil _ _), List.cons.injEq] at hsplit
    exact ⟨Rule.name_injective hsplit.1,
      sorted_eq_iff.mp (map_injective_iff.mpr Uuid.text_injective hsplit.2)⟩
  · rintro ⟨hrule, hperm⟩
    rw [hrule, sorted_eq_iff.mpr hperm]

/-- **No collision**: the digest, cut to 32 characters, tells the texts apart. -/
def NoCollision (digest : Str → Str) (texts : List Str) : Prop :=
  ∀ a ∈ texts, ∀ b ∈ texts, (digest a).take 32 = (digest b).take 32 → a = b

/-! ### Buckets that differ -/

section Buckets
variable {K : Type} [DecidableEq K] {S : Cluster → Cluster → Prop}

theorem pairwise_oneSided {keys : Finding → List K} (hkeys : ∀ f, (keys f).Nodup)
    {describe : K → List Finding → Cluster} {fs : List Finding}
    (h : ∀ k l, k ≠ l → 2 ≤ (havingKey keys k fs).length → 2 ≤ (havingKey keys l fs).length →
      S (describe k (havingKey keys k fs)) (describe l (havingKey keys l fs))) :
    (oneSided keys describe fs).Pairwise S := by
  have hnodup := pairwise_map.mp (nodup_keys_buckets (keyed keys fs))
  rw [oneSided, pairwise_filterMap]
  refine hnodup.imp_of_mem fun {a b} ha hb hne c hc d hd => ?_
  rw [(mem_buckets.mp ha).1, valuesOf_keyed hkeys] at hc
  rw [(mem_buckets.mp hb).1, valuesOf_keyed hkeys] at hd
  split_ifs at hc hd with hlen hlen'
  rw [Option.some.injEq] at hc hd
  exact hc ▸ hd ▸ h a.1 b.1 hne (not_lt.mp hlen) (not_lt.mp hlen')

theorem pairwise_twoSided {one other : Finding → List K} (hone : ∀ f, (one f).Nodup)
    (hother : ∀ f, (other f).Nodup) {describe : K → List Finding → List Finding → Cluster}
    {fs : List Finding}
    (h : ∀ k l, k ≠ l → havingKey one k fs ≠ [] →
      S (describe k (havingKey one k fs) (havingKey other k fs))
        (describe l (havingKey one l fs) (havingKey other l fs))) :
    (twoSided one other describe fs).Pairwise S := by
  have hnodup := pairwise_map.mp (nodup_keys_buckets (keyed one fs))
  rw [twoSided, pairwise_filterMap]
  refine hnodup.imp_of_mem fun {a b} ha hb hne c hc d hd => ?_
  obtain ⟨ha, hane⟩ := mem_buckets.mp ha
  dsimp only at hc hd
  rw [valuesOf_keyed hone] at ha
  rw [ha, valuesOf_keyed hother] at hc
  rw [(mem_buckets.mp hb).1, valuesOf_keyed hone, valuesOf_keyed hother] at hd
  split_ifs at hc hd
  rw [Option.some.injEq] at hc hd
  exact hc ▸ hd ▸ h a.1 b.1 hne (ha ▸ hane)

end Buckets

variable {fs : List Finding} {c : Cluster}

theorem pairwise_shippedAndRunning {S : Cluster → Cluster → Prop}
    (h : ∀ k l, k ≠ l → havingKey (deploymentKeys .one) k fs ≠ [] →
      havingKey (deploymentKeys .other) k fs ≠ [] → havingKey (deploymentKeys .one) l fs ≠ [] →
      havingKey (deploymentKeys .other) l fs ≠ [] →
      S (deploymentCluster k (havingKey (deploymentKeys .one) k fs)
          (havingKey (deploymentKeys .other) k fs))
        (deploymentCluster l (havingKey (deploymentKeys .one) l fs)
          (havingKey (deploymentKeys .other) l fs))) :
    (shippedAndRunning fs).Pairwise S := by
  have hnodup := pairwise_map.mp (nodup_keys_buckets
    (keyed (fun f => deploymentKeys .one f ++ deploymentKeys .other f) fs))
  rw [shippedAndRunning, pairwise_filterMap]
  refine hnodup.imp fun {a b} hne c hc d hd => ?_
  simp only [valuesOf_keyed (nodup_deploymentKeys _)] at hc hd
  split_ifs at hc hd with hnil hnil'
  rw [Option.some.injEq] at hc hd
  rw [not_or] at hnil hnil'
  exact hc ▸ hd ▸ h a.1 b.1 hne hnil.1 hnil.2 hnil'.1 hnil'.2

theorem Cluster.Sound.group_members_ne (hc : c.Sound fs) :
    c.group.members ≠ [] := by
  rw [Cluster.group_members, ne_eq, map_eq_nil_iff, Cluster.kept, take_eq_nil_iff]
  rintro (h | h)
  · exact absurd h (by decide)
  · exact hc.members_ne h

theorem exists_common {d : Cluster} (hc : c.members ≠ []) (h : c.kept.Perm d.kept) :
    ∃ f ∈ c.members, f ∈ d.members := by
  obtain ⟨f, fs, hcons⟩ := exists_cons_of_ne_nil hc
  have hf : f ∈ c.kept := by
    rw [Cluster.kept, hcons]
    exact mem_cons_self ..
  exact ⟨f, Cluster.mem_of_kept hf, Cluster.mem_of_kept (h.subset hf)⟩

theorem perm_members_iff (hids : (fs.map (·.id)).Nodup) {d : Cluster}
    (hc : c.Sound fs) (hd : d.Sound fs) :
    c.group.members.Perm d.group.members ↔ c.kept.Perm d.kept := by
  rw [Cluster.group_members, Cluster.group_members]
  refine ⟨fun h => ?_, Perm.map _⟩
  have hmem : ∀ {c d : Cluster}, c.Sound fs → d.Sound fs →
      (c.kept.map (·.id)).Perm (d.kept.map (·.id)) → ∀ f ∈ c.kept, f ∈ d.kept := by
    intro c d hc hd h f hf
    obtain ⟨g, hg, hid⟩ := mem_map.mp (h.subset (mem_map_of_mem hf))
    have heq := eq_of_id hids (hd.members_subset g (Cluster.mem_of_kept hg))
      (hc.members_subset f (Cluster.mem_of_kept hf)) hid
    exact heq ▸ hg
  refine (perm_ext_iff_of_nodup (hc.nodup_kept hids).of_map
    (hd.nodup_kept hids).of_map).mpr fun f => ⟨hmem hc hd h f, hmem hd hc h.symm f⟩

/-! ### CVEs with the same findings -/

/-- The findings that ship a CVE to a customer, then those that run it. -/
def deployed (k : Uuid × Str) (fs : List Finding) : List Finding :=
  havingKey (deploymentKeys .one) k fs ++ havingKey (deploymentKeys .other) k fs

/-- Shipped and running. -/
def Deployed (fs : List Finding) (k : Uuid × Str) : Prop :=
  havingKey (deploymentKeys .one) k fs ≠ [] ∧ havingKey (deploymentKeys .other) k fs ≠ []

/-- **No two CVEs with the same findings**: neither on an asset, for two findings and more, nor
shipped and running for a customer. -/
structure CvesApart (fs : List Finding) : Prop where
  reported : ∀ k l, k ≠ l → 2 ≤ (havingKey cveKeys k fs).length →
    2 ≤ (havingKey cveKeys l fs).length →
    ¬ ((havingKey cveKeys k fs).take maxGroupSize).Perm
      ((havingKey cveKeys l fs).take maxGroupSize)
  deployed : ∀ k l, k ≠ l → Deployed fs k → Deployed fs l →
    ¬ ((deployed k fs).take maxGroupSize).Perm ((deployed l fs).take maxGroupSize)

theorem rule_of_mem_sameSecret {R : Runtime} (h : c ∈ sameSecret R fs) : c.rule = .sameSecret := by
  obtain ⟨k, -, rfl⟩ := (mem_oneSided (nodup_secretKeys R)).mp h
  rfl

theorem rule_of_mem_sameCveOnAsset (h : c ∈ sameCveOnAsset fs) : c.rule = .sameCveOnAsset := by
  obtain ⟨k, -, rfl⟩ := (mem_oneSided nodup_cveKeys).mp h
  rfl

theorem rule_of_mem_shippedAndRunning
    (h : c ∈ shippedAndRunning fs) : c.rule = .shippedAndRunning := by
  obtain ⟨k, -, -, rfl⟩ := mem_shippedAndRunning.mp h
  rfl

theorem rule_of_mem_injectionCorroborated
    (h : c ∈ injectionCorroborated fs) : c.rule = .injectionCorroborated := by
  obtain ⟨k, -, -, rfl⟩ := (mem_twoSided (nodup_injectionKeys _) (nodup_injectionKeys _)).mp h
  rfl

theorem rule_of_mem_exposedRepositorySecret
    (h : c ∈ exposedRepositorySecret fs) : c.rule = .exposedRepositorySecret := by
  obtain ⟨k, -, -, rfl⟩ := (mem_twoSided (nodup_exposureKeys _) (nodup_exposureKeys _)).mp h
  rfl

/-- **Clusters of one rule keep different findings** when no two CVEs have the same findings. -/
theorem pairwise_clusters {R : Runtime} (h : CvesApart fs) :
    (clusters R fs).Pairwise fun c d => c.rule = d.rule → ¬ c.kept.Perm d.kept := by
  have hsecret : (sameSecret R fs).Pairwise fun c d => c.rule = d.rule → ¬ c.kept.Perm d.kept :=
    pairwise_oneSided (nodup_secretKeys R) fun k l hne hk hl _ hperm => by
      have hne' := ne_nil_of_length_pos (Nat.zero_lt_of_lt hk)
      obtain ⟨f, hf, hf'⟩ := exists_common (append_ne_nil_of_left_ne_nil hne' _) hperm
      simp only [secretCluster_members, mem_havingKey,
        mem_secretKeys] at hf hf'
      exact hne (Option.some.inj (hf.2.2.symm.trans hf'.2.2))
  have hcve : (sameCveOnAsset fs).Pairwise fun c d => c.rule = d.rule → ¬ c.kept.Perm d.kept :=
    pairwise_oneSided nodup_cveKeys fun k l hne hk hl _ => by
      simpa only [Cluster.kept, cveCluster_members] using h.reported k l hne hk hl
  have hdeployed : (shippedAndRunning fs).Pairwise fun c d =>
      c.rule = d.rule → ¬ c.kept.Perm d.kept :=
    pairwise_shippedAndRunning fun k l hne hk hk' hl hl' _ =>
      h.deployed k l hne ⟨hk, hk'⟩ ⟨hl, hl'⟩
  have hinjection : (injectionCorroborated fs).Pairwise fun c d =>
      c.rule = d.rule → ¬ c.kept.Perm d.kept :=
    pairwise_twoSided (nodup_injectionKeys _) (nodup_injectionKeys _) fun k l hne hk _ hperm => by
      obtain ⟨f, hf, hf'⟩ := exists_common (append_ne_nil_of_left_ne_nil hk _) hperm
      simp only [injectionCluster_members, mem_append, mem_havingKey,
        mem_injectionKeys] at hf hf'
      rcases hf with hf | hf <;> rcases hf' with hf' | hf' <;>
        exact hne (Option.some.inj (hf.2.2.symm.trans hf'.2.2))
  have hexposure : (exposedRepositorySecret fs).Pairwise fun c d =>
      c.rule = d.rule → ¬ c.kept.Perm d.kept :=
    pairwise_twoSided (nodup_exposureKeys _) (nodup_exposureKeys _) fun k l hne hk _ hperm => by
      obtain ⟨f, hf, hf'⟩ := exists_common (append_ne_nil_of_left_ne_nil hk _) hperm
      simp only [exposureCluster_members, mem_append, mem_havingKey,
        mem_exposureKeys] at hf hf'
      rcases hf with hf | hf <;> rcases hf' with hf' | hf' <;>
        exact hne (hf.2.2.trans hf'.2.2.symm)
  refine pairwise_append.mpr ⟨pairwise_append.mpr ⟨pairwise_append.mpr
    ⟨pairwise_append.mpr ⟨hsecret, hcve, ?_⟩, hdeployed, ?_⟩, hinjection, ?_⟩, hexposure, ?_⟩
  all_goals
    intro c hc d hd heq
    try simp only [mem_append] at hc
  · rw [rule_of_mem_sameSecret hc, rule_of_mem_sameCveOnAsset hd] at heq
    cases heq
  · rw [rule_of_mem_shippedAndRunning hd] at heq
    rcases hc with hc | hc
    · cases heq ▸ rule_of_mem_sameSecret hc
    · cases heq ▸ rule_of_mem_sameCveOnAsset hc
  · rw [rule_of_mem_injectionCorroborated hd] at heq
    rcases hc with (hc | hc) | hc
    · cases heq ▸ rule_of_mem_sameSecret hc
    · cases heq ▸ rule_of_mem_sameCveOnAsset hc
    · cases heq ▸ rule_of_mem_shippedAndRunning hc
  · rw [rule_of_mem_exposedRepositorySecret hd] at heq
    rcases hc with ((hc | hc) | hc) | hc
    · cases heq ▸ rule_of_mem_sameSecret hc
    · cases heq ▸ rule_of_mem_sameCveOnAsset hc
    · cases heq ▸ rule_of_mem_shippedAndRunning hc
    · cases heq ▸ rule_of_mem_injectionCorroborated hc

section Apart
variable {digest : Str → Str} {R : Runtime} {fs : List Finding}
  (hids : (fs.map (·.id)).Nodup)
include hids

theorem not_pairwise_of_perm {c d : Cluster} (hc : c ∈ clusters R fs) (hd : d ∈ clusters R fs)
    (hrule : c.rule = d.rule) (hperm : c.kept.Perm d.kept) (htitle : c.group.title ≠ d.group.title) :
    ¬ (correlate R fs).Pairwise fun g h => g.fingerprint digest ≠ h.fingerprint digest := by
  intro h
  have hcs := cluster_sound hc
  have hds := cluster_sound hd
  have hblob : c.group.blob = d.group.blob :=
    (blob_eq_iff hcs.group_members_ne hds.group_members_ne).mpr
      ⟨by rw [Cluster.group_rule, Cluster.group_rule, hrule],
        (perm_members_iff hids hcs hds).mpr hperm⟩
  have : Std.Symm fun g h : Group => g.fingerprint digest ≠ h.fingerprint digest :=
    ⟨fun _ _ hne => Ne.symm hne⟩
  refine h.forall (mem_map_of_mem hc) (mem_map_of_mem hd)
    (fun heq => htitle (congrArg Group.title heq)) ?_
  rw [Group.fingerprint, Group.fingerprint, hblob]

/-- **Fingerprints that differ** leave no two CVEs with the same findings. -/
theorem cvesApart_of_pairwise
    (h : (correlate R fs).Pairwise fun g h => g.fingerprint digest ≠ h.fingerprint digest) :
    CvesApart fs := by
  refine ⟨fun k l hne hk hl hperm => ?_, fun k l hne hk hl hperm => ?_⟩
  · have hc : cveCluster k (havingKey cveKeys k fs) ∈ clusters R fs :=
      mem_clusters.mpr (Or.inr (Or.inl ⟨k, hk, rfl⟩))
    have hd : cveCluster l (havingKey cveKeys l fs) ∈ clusters R fs :=
      mem_clusters.mpr (Or.inr (Or.inl ⟨l, hl, rfl⟩))
    have hne' := ne_nil_of_length_pos (Nat.zero_lt_of_lt hk)
    have hkept : (cveCluster k (havingKey cveKeys k fs)).kept.Perm
        (cveCluster l (havingKey cveKeys l fs)).kept := by
      simpa only [Cluster.kept, cveCluster_members] using hperm
    obtain ⟨f, hf, hf'⟩ := exists_common (append_ne_nil_of_left_ne_nil hne' _) hkept
    simp only [cveCluster_members, mem_havingKey, mem_cveKeys] at hf hf'
    -- the asset is that of a common finding, so the CVEs are different, and so are the titles
    refine not_pairwise_of_perm hids hc hd rfl hkept (fun htitle => hne ?_) h
    exact Prod.ext (hf.2.1.trans hf'.2.1.symm) (append_cancel_right htitle)
  · have hc : deploymentCluster k (havingKey (deploymentKeys .one) k fs)
        (havingKey (deploymentKeys .other) k fs) ∈ clusters R fs :=
      mem_clusters.mpr (Or.inr (Or.inr (Or.inl ⟨k, hk.1, hk.2, rfl⟩)))
    have hd : deploymentCluster l (havingKey (deploymentKeys .one) l fs)
        (havingKey (deploymentKeys .other) l fs) ∈ clusters R fs :=
      mem_clusters.mpr (Or.inr (Or.inr (Or.inl ⟨l, hl.1, hl.2, rfl⟩)))
    have hkept : (deploymentCluster k (havingKey (deploymentKeys .one) k fs)
        (havingKey (deploymentKeys .other) k fs)).kept.Perm
        (deploymentCluster l (havingKey (deploymentKeys .one) l fs)
          (havingKey (deploymentKeys .other) l fs)).kept := hperm
    obtain ⟨f, hf, hf'⟩ := exists_common (append_ne_nil_of_left_ne_nil hk.1 _) hkept
    refine not_pairwise_of_perm hids hc hd rfl hkept (fun htitle => hne ?_) h
    refine Prod.ext ?_ (append_cancel_right htitle)
    simp only [deploymentCluster_members, mem_append, mem_havingKey,
      mem_deploymentKeys] at hf hf'
    rcases hf with hf | hf <;> rcases hf' with hf' | hf' <;> exact hf.2.2.1.trans hf'.2.2.1.symm

/-- **Fingerprints and rows of their own**: exactly when no two CVEs have the same findings. -/
theorem ownRows_iff_apart (hdigest : NoCollision digest ((correlate R fs).map Group.blob)) :
    ((correlate R fs).Pairwise (fun g h => g.fingerprint digest ≠ h.fingerprint digest) ∧
      ∀ tenant S, OwnRows digest tenant (correlate R fs) S) ↔ CvesApart fs := by
  constructor
  · rintro ⟨hpairwise, -⟩
    exact cvesApart_of_pairwise hids hpairwise
  · intro hapart
    have hpairwise : (correlate R fs).Pairwise fun g h =>
        g.fingerprint digest ≠ h.fingerprint digest := by
      refine pairwise_map.mpr ((pairwise_clusters hapart).imp_of_mem
        fun {c d} hc hd hne heq => ?_)
      have hcs := cluster_sound hc
      have hds := cluster_sound hd
      have hblob := hdigest _ (mem_map_of_mem (mem_map_of_mem hc)) _
        (mem_map_of_mem (mem_map_of_mem hd)) heq
      obtain ⟨hrule, hperm⟩ := (blob_eq_iff hcs.group_members_ne hds.group_members_ne).mp hblob
      rw [Cluster.group_rule, Cluster.group_rule] at hrule
      exact hne hrule ((perm_members_iff hids hcs hds).mp hperm)
    exact ⟨hpairwise, fun tenant S => (persistAll_spec digest tenant _ S hpairwise).1⟩

end Apart

/-! ### Two CVEs of one component -/

/-- A finding about a component of one asset, with the number as its id. -/
def componentFinding (cveIds : List Str) (n : ℕ) : Finding where
  id := Uuid.ofNat n
  customerId := default
  assetId := default
  category := "vuln-dep"
  severity := "high"
  riskScore := some 70
  cweId := none
  cveIds
  location := default
  evidence := default
  detail := default
  secretCorrelationId := none

/-- Two engines report the same two CVEs. -/
def twoCveFindings : List Finding :=
  [componentFinding ["CVE-1", "CVE-2"] 1,
    componentFinding ["CVE-1", "CVE-2"] 2]

/-- A digest in hexadecimal that begins with the sum of the characters. -/
def sumDigest (text : Str) : Str :=
  let sum := (text.map Char.toNat).sum
  digitChar (sum / 100) :: digitChar (sum / 10) :: digitChar sum :: replicate 61 '0'

theorem twoCveFindings_not_ownRows :
    (twoCveFindings.map (·.id)).Nodup ∧
      NoCollision sumDigest ((correlate Runtime.ascii twoCveFindings).map Group.blob) ∧
      ¬ ((correlate Runtime.ascii twoCveFindings).Pairwise (fun g h =>
          g.fingerprint sumDigest ≠ h.fingerprint sumDigest) ∧
        ∀ tenant S, OwnRows sumDigest tenant (correlate Runtime.ascii twoCveFindings) S) := by
  have hids : (twoCveFindings.map (·.id)).Nodup := by decide
  refine ⟨hids, by unfold NoCollision; decide +kernel, fun h => ?_⟩
  refine (cvesApart_of_pairwise hids h.1).reported (default, "CVE-1")
    (default, "CVE-2") (by decide) (by decide) (by decide) ?_
  exact Perm.refl _

/-- Two engines report one CVE, and a third one another. -/
def threeCveFindings : List Finding :=
  [componentFinding ["CVE-1"] 1, componentFinding ["CVE-1", "CVE-2"] 2,
    componentFinding ["CVE-2"] 3]

theorem ownRows_iff_apart_three :
    ((correlate Runtime.ascii threeCveFindings).Pairwise (fun g h =>
        g.fingerprint sumDigest ≠ h.fingerprint sumDigest) ∧
      ∀ tenant S, OwnRows sumDigest tenant (correlate Runtime.ascii threeCveFindings) S) ↔
      CvesApart threeCveFindings :=
  ownRows_iff_apart (by decide +kernel) (by unfold NoCollision; decide +kernel)

end Guardian.Correlation

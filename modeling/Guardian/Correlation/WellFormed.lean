import Guardian.Correlation.Rules

/-!
# Well-formed groups and their severity

A group is read through its primary: it is presented first, and every other member hangs on it by an
edge.  The primary and the sides are chosen before an oversized group is cut down to its first
members (`wellFormed_iff_fits` says when that does no harm).

A group takes its severity and its risk from its primary, the finding with the greatest risk; a rule
with two sides raises both by one step.  A finding with a smaller risk and a greater severity does
not count (`covers_iff_agrees` says when there is none).
-/

namespace Guardian.Correlation

open Python Findings List

/-- **A well-formed group** over the findings of a list. -/
structure WellFormed (fs : List Finding) (g : Group) : Prop where
  primary_mem : g.primary ∈ g.members
  nodup : g.members.Nodup
  ordered_perm : g.ordered.Perm g.members
  ordered_head : g.ordered.head? = some g.primary
  joined : ∀ m ∈ g.members, m ≠ g.primary → ∃ e ∈ g.edges, e.source = m ∨ e.dest = m
  edges_join : ∀ e ∈ g.edges, e.source ∈ g.members ∧ e.dest ∈ g.members ∧ e.source ≠ e.dest
  sides : g.rule.twoSided = true →
    (∃ f ∈ fs, f.id ∈ g.members ∧ g.rule.side f = some .one) ∧
      ∃ f ∈ fs, f.id ∈ g.members ∧ g.rule.side f = some .other

/-- **What the cut leaves**: a finding that no finding of the cluster is above, and room for the
side that is listed second. -/
def Cluster.Fits (c : Cluster) : Prop :=
  (∃ f ∈ c.kept, ∀ g ∈ c.members, ¬ Below f g) ∧
    (c.rule.twoSided = true → c.one.length < maxGroupSize)

section Cut
variable {fs : List Finding} {c : Cluster} (hids : (fs.map (·.id)).Nodup) (hc : c.Sound fs)
include hids hc

theorem Cluster.Sound.mem_kept_of_id {f : Finding} (hf : f ∈ fs)
    (hid : f.id ∈ c.group.members) : f ∈ c.kept := by
  rw [Cluster.group_members] at hid
  obtain ⟨g, hg, hgid⟩ := mem_map.mp hid
  have hgs := hc.members_subset g (Cluster.mem_of_kept hg)
  exact eq_of_id hids hgs hf hgid ▸ hg

theorem Cluster.Sound.primary_mem_iff :
    c.group.primary ∈ c.group.members ↔ ∃ f ∈ c.kept, ∀ g ∈ c.members, ¬ Below f g := by
  obtain ⟨hmem, hmax⟩ := hc.primary
  rw [Cluster.group_primary]
  constructor
  · intro hid
    exact ⟨_, hc.mem_kept_of_id hids (hc.members_subset _ hmem) hid, hmax⟩
  · rintro ⟨f, hf, hfmax⟩
    have hid := id_eq_of_not_below (hmax f (Cluster.mem_of_kept hf)) (hfmax _ hmem)
    rw [hid, Cluster.group_members]
    exact mem_map_of_mem hf

theorem Cluster.Sound.side_kept_iff (side : Side) :
    (∃ f ∈ fs, f.id ∈ c.group.members ∧ c.rule.side f = some side) ↔
      ∃ f ∈ c.kept, c.rule.side f = some side := by
  constructor
  · rintro ⟨f, hf, hid, hside⟩
    exact ⟨f, hc.mem_kept_of_id hids hf hid, hside⟩
  · rintro ⟨f, hf, hside⟩
    refine ⟨f, hc.members_subset f (Cluster.mem_of_kept hf), ?_, hside⟩
    rw [Cluster.group_members]
    exact mem_map_of_mem hf

omit hids in
theorem Cluster.Sound.one_kept : ∃ f ∈ c.kept, c.rule.side f = some .one := by
  obtain ⟨f, rest, hone⟩ := exists_cons_of_ne_nil hc.one_ne
  refine ⟨f, ?_, hc.side_one f (by simp [hone])⟩
  rw [Cluster.kept, Cluster.members, hone]
  exact mem_cons_self ..

omit hids in
theorem Cluster.Sound.other_kept_iff (htwo : c.rule.twoSided = true) :
    (∃ f ∈ c.kept, c.rule.side f = some .other) ↔ c.one.length < maxGroupSize := by
  constructor
  · rintro ⟨f, hf, hside⟩
    by_contra hfull
    rw [Cluster.kept, Cluster.members, take_append_of_le_length (not_lt.mp hfull)] at hf
    rw [hc.side_one f (mem_of_mem_take hf)] at hside
    cases hside
  · intro hroom
    obtain ⟨f, rest, hother⟩ := exists_cons_of_ne_nil (hc.other_ne htwo)
    refine ⟨f, ?_, hc.side_other f (by simp [hother])⟩
    have hlen : 0 < maxGroupSize - c.one.length := by omega
    obtain ⟨n, hn⟩ := Nat.exists_eq_succ_of_ne_zero hlen.ne'
    rw [Cluster.kept, Cluster.members, take_append, hother, hn]
    simp

/-- **A group is well formed** when its cluster fits. -/
theorem Cluster.Sound.wellFormed_iff : WellFormed fs c.group ↔ c.Fits := by
  have hnodup : c.group.members.Nodup := by
    rw [Cluster.group_members]
    exact hc.nodup_kept hids
  constructor
  · intro h
    refine ⟨(hc.primary_mem_iff hids).mp h.primary_mem, fun htwo => ?_⟩
    have hsides := h.sides (by rw [Cluster.group_rule]; exact htwo)
    rw [Cluster.group_rule] at hsides
    exact (hc.other_kept_iff htwo).mp ((hc.side_kept_iff hids .other).mp hsides.2)
  · rintro ⟨htop, hroom⟩
    have hprimary := (hc.primary_mem_iff hids).mpr htop
    refine ⟨hprimary, hnodup, ?_, ?_, fun m hm hne => ?_, fun e he => ?_, fun htwo => ?_⟩
    · rw [Cluster.group_ordered]
      exact presentationOrder_perm hprimary hnodup
    · rw [Cluster.group_ordered]
      rfl
    · obtain ⟨e, he, -, hdest⟩ := Cluster.mem_edges.mpr ⟨rfl, hm, hne⟩
      exact ⟨e, he, Or.inr hdest⟩
    · obtain ⟨hsource, hdest, hne⟩ := Cluster.mem_edges.mp ⟨e, he, rfl, rfl⟩
      exact ⟨hsource ▸ hprimary, hdest, fun heq => hne (heq.symm.trans hsource)⟩
    · rw [Cluster.group_rule] at htwo ⊢
      exact ⟨(hc.side_kept_iff hids .one).mpr hc.one_kept,
        (hc.side_kept_iff hids .other).mpr ((hc.other_kept_iff htwo).mpr (hroom htwo))⟩

end Cut

/-- **The groups of a list of findings are well formed** exactly when every cluster keeps a topmost
finding and, if it has two sides, does not fill up with the first one. -/
theorem wellFormed_iff_fits {R : Runtime} {fs : List Finding} (hids : (fs.map (·.id)).Nodup) :
    (∀ g ∈ correlate R fs, WellFormed fs g) ↔ ∀ c ∈ clusters R fs, c.Fits := by
  rw [correlate, forall_mem_map]
  constructor
  · intro h c hc
    exact ((cluster_sound hc).wellFormed_iff hids).mp (h c hc)
  · intro h c hc
    exact ((cluster_sound hc).wellFormed_iff hids).mpr (h c hc)

/-! ### One credential too many -/

/-- A finding of one and the same credential, with the number as its id and its risk. -/
def secretFinding (n : ℕ) : Finding where
  id := Uuid.ofNat n
  customerId := default
  assetId := default
  category := "secret"
  severity := "high"
  riskScore := some n
  cweId := none
  cveIds := []
  location := default
  evidence := default
  detail := default
  secretCorrelationId := some "k"

/-- A number of findings of one credential, the one with the greatest risk last. -/
def secretFindings (n : ℕ) : List Finding := (List.range n).map secretFinding

theorem nodup_secretFindings {n : ℕ} (hn : n ≤ 1000) :
    ((secretFindings n).map (·.id)).Nodup := by
  rw [secretFindings, map_map]
  refine Nodup.map_on (fun a ha b hb h => ?_) nodup_range
  rw [mem_range] at ha hb
  exact Uuid.ofNat_inj (by omega) (by omega) h

theorem secretCluster_mem {n : ℕ} (hn : 2 ≤ n) :
    secretCluster Runtime.ascii (default, "identity:k") (secretFindings n) ∈
      clusters Runtime.ascii (secretFindings n) := by
  have hall : havingKey (secretKeys Runtime.ascii) (default, "identity:k")
      (secretFindings n) = secretFindings n := by
    refine filter_eq_self.mpr fun f hf => ?_
    obtain ⟨i, -, rfl⟩ := mem_map.mp hf
    rfl
  refine mem_clusters.mpr (Or.inl ⟨(default, "identity:k"), ?_, by rw [hall]⟩)
  rw [hall, secretFindings, length_map, length_range]
  exact hn

theorem secretFindings_not_wellFormed :
    ((secretFindings 201).map (·.id)).Nodup ∧
      ¬ ∀ g ∈ correlate Runtime.ascii (secretFindings 201),
        WellFormed (secretFindings 201) g := by
  refine ⟨nodup_secretFindings (by omega), fun h => ?_⟩
  have hc := secretCluster_mem (by omega : 2 ≤ 201)
  have hfits := ((cluster_sound hc).wellFormed_iff (nodup_secretFindings (by omega))).mp
    (h _ (mem_map_of_mem hc))
  obtain ⟨⟨f, hf, htop⟩, -⟩ := hfits
  have hlast : secretFinding 200 ∈ secretFindings 201 :=
    mem_map_of_mem (mem_range.mpr (by omega))
  have hkept : f ∈ (secretFindings 201).take 200 := by
    simpa only [Cluster.kept, secretCluster_members, maxGroupSize] using hf
  rw [secretFindings, ← map_take, take_range] at hkept
  obtain ⟨i, hi, rfl⟩ := mem_map.mp hkept
  rw [mem_range] at hi
  -- the finding that was cut off has the greatest risk
  refine htop (secretFinding 200) (mem_append_left _ hlast) (Or.inl ?_)
  simp only [Finding.risk, secretFinding, Option.getD_some]
  omega

theorem wellFormed_iff_fits_two :
    (∀ g ∈ correlate Runtime.ascii (secretFindings 2), WellFormed (secretFindings 2) g) ↔
      ∀ c ∈ clusters Runtime.ascii (secretFindings 2), c.Fits :=
  wellFormed_iff_fits (nodup_secretFindings (by omega))

/-! ### The severity of a group -/

/-- **Nothing is lowered**: the group is as severe and as risky as each of its members. -/
def Group.Covers (fs : List Finding) (g : Group) : Prop :=
  ∀ f ∈ fs, f.id ∈ g.members → f.rank ≤ g.severity.rank ∧ f.risk ≤ g.riskScore

instance (fs : List Finding) (g : Group) : Decidable (g.Covers fs) := by
  unfold Group.Covers; infer_instance

/-- The steps by which a rule raises a severity. -/
def Rule.steps (r : Rule) : ℕ := if r.twoSided then 1 else 0

/-- A finding of the cluster with the greatest risk. -/
def Cluster.Riskiest (c : Cluster) (m : Finding) : Prop :=
  m ∈ c.members ∧ ∀ f ∈ c.members, f.risk ≤ m.risk

/-- **Severities follow risks**: what is kept is not more severe than the riskiest findings, up to
the step of the rule, and a rule with two sides finds no risk above 100. -/
def Cluster.Agrees (c : Cluster) : Prop :=
  ∀ f ∈ c.kept, (∃ m, c.Riskiest m ∧ f.rank ≤ m.rank + c.rule.steps) ∧
    (c.rule.twoSided = true → f.risk ≤ 100)

theorem Finding.rank_le (f : Finding) : f.rank ≤ 4 := Severity.rank_le _

theorem Cluster.group_rank (c : Cluster) :
    c.group.severity.rank = min 4 ((primary c.members).rank + c.rule.steps) := by
  unfold Cluster.group Rule.steps
  split_ifs
  · exact Severity.rank_bump _ _
  · exact (min_eq_right (Finding.rank_le _)).symm

theorem Cluster.group_riskScore (c : Cluster) :
    c.group.riskScore = if c.rule.twoSided = true then min 100 ((primary c.members).risk + 5)
      else (primary c.members).risk := by
  unfold Cluster.group
  split_ifs <;> rfl

section Covers
variable {fs : List Finding} {c : Cluster} (hids : (fs.map (·.id)).Nodup) (hc : c.Sound fs)
include hids hc

theorem Cluster.Sound.covers_iff_kept : c.group.Covers fs ↔
    ∀ f ∈ c.kept, f.rank ≤ c.group.severity.rank ∧ f.risk ≤ c.group.riskScore := by
  constructor
  · intro h f hf
    refine h f (hc.members_subset f (Cluster.mem_of_kept hf)) ?_
    rw [Cluster.group_members]
    exact mem_map_of_mem hf
  · intro h f hf hid
    exact h f (hc.mem_kept_of_id hids hf hid)

/-- **A group covers its members** when the severities of its cluster follow the risks. -/
theorem Cluster.Sound.covers_iff : c.group.Covers fs ↔ c.Agrees := by
  rw [hc.covers_iff_kept hids, Cluster.group_rank, Cluster.group_riskScore]
  refine forall₂_congr fun f hf => ?_
  have hmem := Cluster.mem_of_kept hf
  have hrisk := risk_le_primary hmem
  constructor
  · rintro ⟨hrank, hscore⟩
    refine ⟨⟨_, ⟨hc.primary.1, fun g hg => risk_le_primary hg⟩, ?_⟩, fun htwo => ?_⟩
    · exact hrank.trans (min_le_right _ _)
    · rw [if_pos htwo] at hscore
      exact hscore.trans (min_le_left _ _)
  · rintro ⟨⟨m, ⟨hm, hmax⟩, hrank⟩, htwo⟩
    -- the riskiest finding has the risk of the primary, so at most its severity
    have hsame := le_antisymm (risk_le_primary hm) (hmax _ hc.primary.1)
    have hprimary := rank_le_primary hm hsame
    refine ⟨le_min f.rank_le (by omega), ?_⟩
    split_ifs with h
    · exact le_min (htwo h) (by omega)
    · exact hrisk

end Covers

/-- **No group lowers a finding** exactly when the severities follow the risks in every cluster. -/
theorem covers_iff_agrees {R : Runtime} {fs : List Finding} (hids : (fs.map (·.id)).Nodup) :
    (∀ g ∈ correlate R fs, g.Covers fs) ↔ ∀ c ∈ clusters R fs, c.Agrees := by
  rw [correlate, forall_mem_map]
  exact forall₂_congr fun c hc => (cluster_sound hc).covers_iff hids

/-! ### A critical finding below a high one -/

/-- Two findings of one credential: the critical one has the smaller risk. -/
def disagreeingFindings : List Finding :=
  [{ secretFinding 90 with severity := "critical" }, secretFinding 95]

theorem disagreeingFindings_not_covered :
    (disagreeingFindings.map (·.id)).Nodup ∧
      ¬ ∀ g ∈ correlate Runtime.ascii disagreeingFindings, g.Covers disagreeingFindings := by
  decide

theorem covers_iff_agrees_two :
    (∀ g ∈ correlate Runtime.ascii (secretFindings 2), g.Covers (secretFindings 2)) ↔
      ∀ c ∈ clusters Runtime.ascii (secretFindings 2), c.Agrees :=
  covers_iff_agrees (nodup_secretFindings (by omega))

end Guardian.Correlation

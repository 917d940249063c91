import Guardian.Correlation.Persist
import Guardian.Correlation.WellFormed

/-!
# The order of arrival

The buckets of a rule keep the findings in the order in which they came, and an oversized bucket is
cut down to the ones that came first.  `sameGroups_iff_whole` says when the order does not count.
-/

namespace Guardian.Correlation

open Python Findings Guardian.Order List

/-! ### The same groups -/

/-- **The same group**, by its fingerprint, rule, primary, severity, risk, order of presentation and
set of edges. -/
structure Group.Same (digest : Str → Str) (g h : Group) : Prop where
  fingerprint : g.fingerprint digest = h.fingerprint digest
  rule : g.rule = h.rule
  primary : g.primary = h.primary
  severity : g.severity = h.severity
  riskScore : g.riskScore = h.riskScore
  ordered : g.ordered = h.ordered
  edges : g.edges.Perm h.edges

variable {digest : Str → Str} {c : Cluster} {R : Runtime} {fs gs : List Finding}

theorem Group.Same.symm {g h : Group} (hgh : g.Same digest h) :
    h.Same digest g :=
  ⟨hgh.fingerprint.symm, hgh.rule.symm, hgh.primary.symm, hgh.severity.symm, hgh.riskScore.symm,
    hgh.ordered.symm, hgh.edges.symm⟩

theorem Group.Same.trans {g h k : Group} (hgh : g.Same digest h)
    (hhk : h.Same digest k) : g.Same digest k :=
  ⟨hgh.fingerprint.trans hhk.fingerprint, hgh.rule.trans hhk.rule, hgh.primary.trans hhk.primary,
    hgh.severity.trans hhk.severity, hgh.riskScore.trans hhk.riskScore,
    hgh.ordered.trans hhk.ordered, hgh.edges.trans hhk.edges⟩

/-- **The same set of groups** comes from two lists of findings. -/
def SameGroups (digest : Str → Str) (R : Runtime) (fs gs : List Finding) : Prop :=
  (∀ g ∈ correlate R fs, ∃ h ∈ correlate R gs, g.Same digest h) ∧
    ∀ h ∈ correlate R gs, ∃ g ∈ correlate R fs, g.Same digest h

/-! ### Clusters up to order -/

/-- **One cluster in two orders**, as far as its group shows. -/
structure Cluster.Reorders (c d : Cluster) : Prop where
  rule : c.rule = d.rule
  confidence : c.confidence = d.confidence
  one : c.one.Perm d.one
  other : c.other.Perm d.other
  crossRationale : c.crossRationale = d.crossRationale
  crossConfidence : c.crossConfidence = d.crossConfidence
  sameRationale : c.sameRationale = d.sameRationale
  sameConfidence : c.sameConfidence = d.sameConfidence

theorem Cluster.Reorders.members {d : Cluster} (h : c.Reorders d) : c.members.Perm d.members :=
  h.one.append h.other

theorem basis_eq_of_key {f g : Finding} {s t : Str × Basis × Str}
    (hf : secretIdentity R f = some s) (hg : secretIdentity R g = some t) (h : s.1 = t.1) :
    s.2.1 = t.2.1 := by
  have hshape : ∀ {f : Finding} {s : Str × Basis × Str}, secretIdentity R f = some s →
      (s.1.head? = some 'i' ∧ s.2.1 = .identity) ∨ (s.1.head? = some 'v' ∧ s.2.1 = .value) ∨
        (s.1.head? = some 'p' ∧ s.2.1 = .position) := by
    intro f s hs
    unfold secretIdentity at hs
    split at hs
    · cases hs
      exact Or.inl ⟨rfl, rfl⟩
    · split at hs
      · cases hs
        exact Or.inr (Or.inl ⟨rfl, rfl⟩)
      · split at hs
        · dsimp only at hs
          split at hs <;> cases hs <;> exact Or.inr (Or.inr ⟨rfl, rfl⟩)
        · cases hs
  rcases hshape hf with ⟨hs, hs'⟩ | ⟨hs, hs'⟩ | ⟨hs, hs'⟩ <;>
    rcases hshape hg with ⟨ht, ht'⟩ | ⟨ht, ht'⟩ | ⟨ht, ht'⟩ <;> rw [hs', ht'] <;>
      rw [h, ht] at hs <;> exact absurd hs (by decide)

theorem basis_eq_of_havingKey {k : Uuid × Str} {f g : Finding}
    (hf : k ∈ secretKeys R f) (hg : k ∈ secretKeys R g) :
    (secretCluster R k (f :: fs)).sameRationale = (secretCluster R k (g :: gs)).sameRationale ∧
      (secretCluster R k (f :: fs)).confidence = (secretCluster R k (g :: gs)).confidence ∧
        (secretCluster R k (f :: fs)).sameConfidence =
          (secretCluster R k (g :: gs)).sameConfidence := by
  obtain ⟨-, hf⟩ := mem_secretKeys.mp hf
  obtain ⟨-, hg⟩ := mem_secretKeys.mp hg
  obtain ⟨s, hs, hsk⟩ := Option.map_eq_some_iff.mp hf
  obtain ⟨t, ht, htk⟩ := Option.map_eq_some_iff.mp hg
  have hbasis := basis_eq_of_key hs ht (congrArg Prod.snd (hsk.trans htk.symm))
  simp only [secretCluster, head?_cons, Option.bind_some, hs, ht, hbasis, Option.map_some,
    Option.getD_some, and_self]

theorem havingKey_perm {K : Type} [DecidableEq K] (keys : Finding → List K) (k : K)
    (h : fs.Perm gs) : (havingKey keys k fs).Perm (havingKey keys k gs) :=
  h.filter _

theorem havingKey_ne {K : Type} [DecidableEq K] {keys : Finding → List K} {k : K}
    (h : fs.Perm gs) (hne : havingKey keys k fs ≠ []) :
    havingKey keys k gs ≠ [] := fun hnil =>
  hne (Perm.eq_nil (hnil ▸ havingKey_perm keys k h))

/-- **Permuted findings make the same clusters**, each up to its order. -/
theorem exists_reordered (h : fs.Perm gs)
    (hc : c ∈ clusters R fs) : ∃ d ∈ clusters R gs, c.Reorders d := by
  rcases mem_clusters.mp hc with ⟨k, hlen, rfl⟩ | ⟨k, hlen, rfl⟩ | ⟨k, hone, hother, rfl⟩ |
    ⟨k, hone, hother, rfl⟩ | ⟨k, hone, hother, rfl⟩
  · have hperm := havingKey_perm (secretKeys R) k h
    refine ⟨_, mem_clusters.mpr (Or.inl ⟨k, hperm.length_eq ▸ hlen, rfl⟩), ?_⟩
    have hne := ne_nil_of_length_pos (Nat.zero_lt_of_lt hlen)
    obtain ⟨f, ms, hf⟩ := exists_cons_of_ne_nil hne
    obtain ⟨g, ns, hg⟩ := exists_cons_of_ne_nil (havingKey_ne h hne)
    have hkf : k ∈ secretKeys R f := (mem_havingKey.mp (hf ▸ mem_cons_self ..)).2
    have hkg : k ∈ secretKeys R g := (mem_havingKey.mp (hg ▸ mem_cons_self ..)).2
    obtain ⟨hrationale, hconfidence, hsame⟩ := basis_eq_of_havingKey hkf hkg
    rw [hf, hg] at hperm ⊢
    exact ⟨rfl, hconfidence, hperm, .refl _, rfl, rfl, hrationale, hsame⟩
  · have hperm := havingKey_perm cveKeys k h
    exact ⟨_, mem_clusters.mpr (Or.inr (Or.inl ⟨k, hperm.length_eq ▸ hlen, rfl⟩)),
      rfl, rfl, hperm, .refl _, rfl, rfl, rfl, rfl⟩
  · exact ⟨_, mem_clusters.mpr (Or.inr (Or.inr (Or.inl
      ⟨k, havingKey_ne h hone, havingKey_ne h hother, rfl⟩))),
      rfl, rfl, havingKey_perm _ k h, havingKey_perm _ k h, rfl, rfl, rfl, rfl⟩
  · exact ⟨_, mem_clusters.mpr (Or.inr (Or.inr (Or.inr (Or.inl
      ⟨k, havingKey_ne h hone, havingKey_ne h hother, rfl⟩)))),
      rfl, rfl, havingKey_perm _ k h, havingKey_perm _ k h, rfl, rfl, rfl, rfl⟩
  · exact ⟨_, mem_clusters.mpr (Or.inr (Or.inr (Or.inr (Or.inr
      ⟨k, havingKey_ne h hone, havingKey_ne h hother, rfl⟩)))),
      rfl, rfl, havingKey_perm _ k h, havingKey_perm _ k h, rfl, rfl, rfl, rfl⟩

theorem primary_perm {ms ns : List Finding} (hids : (fs.map (·.id)).Nodup)
    (hms : ∀ f ∈ ms, f ∈ fs) (hne : ms ≠ []) (h : ms.Perm ns) : primary ms = primary ns := by
  have hne' : ns ≠ [] := fun hnil => hne (Perm.eq_nil (hnil ▸ h))
  obtain ⟨hmem, hmax⟩ := primary_spec hne
  obtain ⟨hmem', hmax'⟩ := primary_spec hne'
  have hmem' := h.symm.subset hmem'
  exact eq_of_id hids (hms _ hmem) (hms _ hmem')
    (id_eq_of_not_below (hmax _ hmem') (hmax' _ (h.subset hmem)))

theorem presentationOrder_congr {p : Uuid} {a b : List Uuid} (h : a.Perm b) :
    presentationOrder p a = presentationOrder p b := by
  rw [presentationOrder, presentationOrder, sorted_eq_iff.mpr (h.filter _)]

theorem starEdges_perm {p : Uuid} {a b : List Uuid} (h : a.Perm b) (rationale : Str)
    (confidence : CorrelationConfidence) :
    (starEdges p a rationale confidence).Perm (starEdges p b rationale confidence) :=
  (h.filter _).map _

theorem bipartiteEdges_perm {p : Uuid} {a b o o' : List Uuid} (h : a.Perm b) (ho : o.Perm o')
    (cr : Str) (cc : CorrelationConfidence) (sr : Str) (sc : CorrelationConfidence) :
    (bipartiteEdges p a o cr cc sr sc).Perm (bipartiteEdges p b o' cr cc sr sc) := by
  unfold bipartiteEdges
  simp only [ho.mem_iff]
  exact (h.filter _).map _

/-- **What two orders of a cluster have in common**: their groups, if they keep the same findings. -/
theorem Cluster.Reorders.same {d : Cluster}
    (hids : (fs.map (·.id)).Nodup) (hc : c.Sound fs) (h : c.Reorders d)
    (hkept : c.kept.Perm d.kept) : c.group.Same digest d.group := by
  have hprimary := primary_perm hids hc.members_subset hc.members_ne h.members
  have hmembers : c.group.members.Perm d.group.members := by
    rw [Cluster.group_members, Cluster.group_members]
    exact hkept.map _
  have hrule : c.group.rule = d.group.rule := by
    rw [Cluster.group_rule, Cluster.group_rule, h.rule]
  have hp : c.group.primary = d.group.primary := by
    rw [Cluster.group_primary, Cluster.group_primary, hprimary]
  refine ⟨?_, hrule, hp, ?_, ?_, ?_, ?_⟩
  · rw [Group.fingerprint, Group.fingerprint, Group.blob, Group.blob, hrule,
      sorted_eq_iff.mpr hmembers]
  · unfold Cluster.group
    rw [h.rule]
    split_ifs
    · simp only [joinedGroup, hprimary]
    · simp only [duplicateGroup, hprimary]
  · unfold Cluster.group
    rw [h.rule]
    split_ifs
    · simp only [joinedGroup, hprimary]
    · simp only [duplicateGroup, hprimary]
  · rw [Cluster.group_ordered, Cluster.group_ordered, hp]
    exact presentationOrder_congr hmembers
  · unfold Cluster.group
    rw [h.rule]
    split_ifs
    · simp only [joinedGroup, hprimary, h.crossRationale, h.crossConfidence, h.sameRationale,
        h.sameConfidence]
      exact bipartiteEdges_perm (hkept.map _) (h.one.map _) _ _ _ _
    · simp only [duplicateGroup, hprimary, h.sameRationale, h.confidence]
      exact starEdges_perm (hkept.map _) _ _

/-! ### The cut -/

/-- **The cut does not choose**: it leaves everything, or just the whole of the first side. -/
def Cluster.Whole (c : Cluster) : Prop :=
  c.members.length ≤ maxGroupSize ∨ c.one.length = maxGroupSize

theorem Cluster.Reorders.whole {d : Cluster} (h : c.Reorders d) (hd : d.Whole) : c.Whole := by
  unfold Cluster.Whole at *
  rwa [h.members.length_eq, h.one.length_eq]

theorem Cluster.Reorders.kept {d : Cluster} (h : c.Reorders d) (hd : d.Whole) :
    c.kept.Perm d.kept := by
  have hlen := h.members.length_eq
  have hlen' := h.one.length_eq
  unfold Cluster.kept
  rcases hd with hd | hd
  · rw [take_of_length_le hd, take_of_length_le (by omega)]
    exact h.members
  · rw [Cluster.members, Cluster.members, take_left' hd, take_left' (by omega)]
    exact h.one

/-- **Permuted findings make the same groups** where no cut chooses. -/
theorem sameGroups_of_whole
    (hids : (fs.map (·.id)).Nodup) (hwhole : ∀ c ∈ clusters R fs, c.Whole) (h : fs.Perm gs) :
    SameGroups digest R fs gs := by
  have hids' : (gs.map (·.id)).Nodup := (h.map _).nodup_iff.mp hids
  unfold SameGroups correlate
  simp only [forall_mem_map]
  constructor
  · intro c hc
    obtain ⟨d, hd, hcd⟩ := exists_reordered h hc
    obtain ⟨e, he, hde⟩ := exists_reordered h.symm hd
    exact ⟨d.group, mem_map_of_mem hd,
      hcd.same hids (cluster_sound hc) (hcd.kept (hde.whole (hwhole e he)))⟩
  · intro d hd
    obtain ⟨c, hc, hdc⟩ := exists_reordered h.symm hd
    exact ⟨c.group, mem_map_of_mem hc,
      (hdc.same hids' (cluster_sound hd) (hdc.kept (hwhole c hc))).symm⟩

/-! ### Arriving first and arriving last -/

theorem eq_cons_of_sublist {α : Type} {z : α} {rest s : List α} (h : s.Sublist (z :: rest))
    (hz : z ∈ s) (hrest : z ∉ rest) : ∃ t, s = z :: t := by
  cases h with
  | cons _ h => exact absurd (h.subset hz) hrest
  | cons_cons _ h => exact ⟨_, rfl⟩

theorem eq_concat_of_sublist {α : Type} {z : α} {rest s : List α} (h : s.Sublist (rest ++ [z]))
    (hz : z ∈ s) (hrest : z ∉ rest) : ∃ t, s = t ++ [z] := by
  have hreverse : s.reverse.Sublist (z :: rest.reverse) := by
    simpa using h.reverse
  obtain ⟨t, ht⟩ := eq_cons_of_sublist hreverse (mem_reverse.mpr hz)
    (fun hmem => hrest (mem_reverse.mp hmem))
  refine ⟨t.reverse, ?_⟩
  rw [← reverse_reverse s, ht, reverse_cons]

theorem mem_take_of_lt {α : Type} {z : α} {u v : List α} {n : ℕ} (h : u.length < n) :
    z ∈ (u ++ z :: v).take n := by
  obtain ⟨m, hm⟩ := Nat.exists_eq_add_of_lt h
  rw [take_append, show n - u.length = m + 1 by omega]
  exact mem_append_right _ (mem_cons_self ..)

theorem notMem_take_of_le {α : Type} {z : α} {u v : List α} {n : ℕ} (hnodup : (u ++ z :: v).Nodup)
    (h : n ≤ u.length) : z ∉ (u ++ z :: v).take n := by
  rw [take_append_of_le_length h]
  intro hmem
  exact (nodup_append.mp hnodup).2.2 z (mem_of_mem_take hmem) z
    (mem_cons_self ..) rfl

theorem exists_ne_of_two_le {α : Type} {l : List α} (hnodup : l.Nodup) (h : 2 ≤ l.length) (a : α) :
    ∃ z ∈ l, z ≠ a := by
  match l, hnodup, h with
  | x :: y :: t, hnodup, _ =>
    have hne : x ≠ y := fun heq => (nodup_cons.mp hnodup).1 (heq ▸ mem_cons_self ..)
    by_cases hx : x = a
    · exact ⟨y, by simp, fun hy => hne (hx.trans hy.symm)⟩
    · exact ⟨x, by simp, hx⟩

theorem Cluster.Sound.primary_eq (hc : c.Sound fs)
    (hids : (fs.map (·.id)).Nodup) {p : Finding} (hp : p ∈ fs) (h : c.group.primary = p.id) :
    Correlation.primary c.members = p := by
  rw [Cluster.group_primary] at h
  exact eq_of_id hids (hc.members_subset _ hc.primary.1) hp h

theorem length_presentationOrder {p : Uuid} {ids : List Uuid} (h : p ∉ ids) :
    (presentationOrder p ids).length = ids.length + 1 := by
  have hfilter : ids.filter (· ≠ p) = ids :=
    filter_eq_self.mpr fun a ha => by
      rw [decide_eq_true_eq]
      rintro rfl
      exact h ha
  rw [presentationOrder, hfilter, length_cons, (sorted_perm ids).length_eq]

section Duplicates
variable {digest : Str → Str} {R : Runtime} {p : Finding} {rest : List Finding}
  (hids : ((p :: rest).map (·.id)).Nodup)
include hids

theorem length_ordered_first {d : Cluster} (hd : d ∈ clusters R (p :: rest))
    (hrule : d.rule.twoSided = false) (hp : d.group.primary = p.id) :
    d.group.ordered.length ≤ maxGroupSize := by
  have hds := cluster_sound hd
  have hmembers : d.members = d.one := by
    rw [Cluster.members, hds.other_nil hrule, append_nil]
  have hprimary := hds.primary_eq hids (mem_cons_self ..) hp
  have hmem : p ∈ d.one := hmembers ▸ hprimary ▸ hds.primary.1
  obtain ⟨t, ht⟩ := eq_cons_of_sublist hds.one_sublist hmem
    (nodup_cons.mp hids.of_map).1
  have hkept : p.id ∈ d.group.members := by
    rw [Cluster.group_members, Cluster.kept, hmembers, ht]
    exact mem_cons_self ..
  have hnodup : d.group.members.Nodup := by
    rw [Cluster.group_members]
    exact hds.nodup_kept hids
  rw [Cluster.group_ordered, hp, (presentationOrder_perm hkept hnodup).length_eq,
    Cluster.group_members, length_map, Cluster.kept]
  exact length_take_le ..

theorem length_ordered_last {c : Cluster} (hc : c ∈ clusters R (rest ++ [p]))
    (hrule : c.rule.twoSided = false) (hlen : maxGroupSize < c.members.length)
    (hp : c.group.primary = p.id) : c.group.ordered.length = maxGroupSize + 1 := by
  have hcs := cluster_sound hc
  have hids' : ((rest ++ [p]).map (·.id)).Nodup :=
    ((perm_append_singleton p rest).map _).nodup_iff.mpr hids
  have hmembers : c.members = c.one := by
    rw [Cluster.members, hcs.other_nil hrule, append_nil]
  have hprimary := hcs.primary_eq hids' (by simp) hp
  have hmem : p ∈ c.one := hmembers ▸ hprimary ▸ hcs.primary.1
  obtain ⟨t, ht⟩ := eq_concat_of_sublist hcs.one_sublist hmem (nodup_cons.mp hids.of_map).1
  have hcut : maxGroupSize ≤ t.length := by
    rw [hmembers, ht, length_append, length_singleton] at hlen
    omega
  have hnotin : p.id ∉ c.group.members := by
    have hnodup := hcs.nodup hids'
    rw [hmembers, ht, map_append] at hnodup
    rw [Cluster.group_members, Cluster.kept, hmembers, ht, map_take, map_append]
    exact notMem_take_of_le hnodup (by rwa [length_map])
  rw [Cluster.group_ordered, hp, length_presentationOrder hnotin, Cluster.group_members,
    length_map, Cluster.kept, length_take_of_le hlen.le]

/-- **A primary that is cut off** is a member when it arrives first. -/
theorem not_sameGroups_of_duplicate {c : Cluster} (hc : c ∈ clusters R (rest ++ [p]))
    (hrule : c.rule.twoSided = false) (hlen : maxGroupSize < c.members.length)
    (hp : c.group.primary = p.id) : ¬ SameGroups digest R (rest ++ [p]) (p :: rest) := by
  intro h
  obtain ⟨h', hh', hsame⟩ := h.1 _ (mem_map_of_mem hc)
  obtain ⟨d, hd, rfl⟩ := mem_map.mp hh'
  have hrule' : d.rule.twoSided = false := by
    rw [← Cluster.group_rule, ← hsame.rule, Cluster.group_rule, hrule]
  have hfirst := length_ordered_first hids hd hrule' (hsame.primary ▸ hp)
  rw [← hsame.ordered, length_ordered_last hids hc hrule hlen hp] at hfirst
  omega

end Duplicates

/-! ### Rules with two sides -/

section Keys
variable {R : Runtime} {fs : List Finding} {c : Cluster}

/-- What a rule with two sides groups. -/
theorem eq_cluster (hc : c ∈ clusters R fs) :
    (c.rule = .shippedAndRunning → ∃ k, c = deploymentCluster k
      (havingKey (deploymentKeys .one) k fs) (havingKey (deploymentKeys .other) k fs)) ∧
    (c.rule = .injectionCorroborated → ∃ k, c = injectionCluster k
      (havingKey (injectionKeys .one) k fs) (havingKey (injectionKeys .other) k fs)) ∧
    (c.rule = .exposedRepositorySecret → ∃ k, c = exposureCluster k
      (havingKey (exposureKeys .one) k fs) (havingKey (exposureKeys .other) k fs)) := by
  rcases mem_clusters.mp hc with ⟨k, -, rfl⟩ | ⟨k, -, rfl⟩ | ⟨k, -, -, rfl⟩ | ⟨k, -, -, rfl⟩ |
    ⟨k, -, -, rfl⟩
  · simp
  · simp
  · exact ⟨fun _ => ⟨k, rfl⟩, by simp, by simp⟩
  · exact ⟨by simp, fun _ => ⟨k, rfl⟩, by simp⟩
  · exact ⟨by simp, by simp, fun _ => ⟨k, rfl⟩⟩

end Keys

theorem rationale_of_mem_edges (htwo : c.rule.twoSided = true) {e : MemberEdge}
    (he : e ∈ c.group.edges) :
    e.rationale = c.crossRationale ∨ e.rationale = c.sameRationale := by
  rw [Cluster.group, if_pos htwo] at he
  obtain ⟨m, -, rfl⟩ := mem_map.mp he
  split_ifs
  · exact Or.inl rfl
  · exact Or.inr rfl

/-- The rationale of an edge between findings of a CVE shows the CVE. -/
theorem cve_eq_of_rationale {k l : Uuid × Str} {s r s' r' : List Finding} {text : Str}
    (h : text = (deploymentCluster k s r).crossRationale ∨
      text = (deploymentCluster k s r).sameRationale)
    (h' : text = (deploymentCluster l s' r').crossRationale ∨
      text = (deploymentCluster l s' r').sameRationale) : k.2 = l.2 := by
  have htake : ∀ (a b : Str) (x y : Char), b.reverse.take 2 = [x, y] →
      (a ++ b).reverse.take 2 = [x, y] := by
    intro a b x y hb
    have hlength : 2 ≤ b.reverse.length := by
      have hlen := congrArg List.length hb
      rw [length_take, length_cons, length_singleton] at hlen
      omega
    rw [reverse_append, take_append_of_le_length hlength, hb]
  have hends : ∀ a b : Str, a ++ (") is shipped as a dependency and is answering on a " ++
      "reachable service; not proven to be the same component.").toList ≠
      b ++ ") reported on the same side (both shipped, or both running)." := by
    intro a b heq
    have hlast : List.take 2 (reverse _) = List.take 2 (reverse _) :=
      congrArg (fun t => t.reverse.take 2) heq
    rw [String.toList_append, ← append_assoc, htake _ _ '.' 't' (by decide),
      htake _ _ '.' ')' (by decide)] at hlast
    exact absurd hlast (by decide)
  rcases h with rfl | rfl <;> rcases h' with h' | h'
  · exact append_cancel_left (append_cancel_right h')
  · exact absurd h' (hends _ _)
  · exact absurd h'.symm (hends _ _)
  · exact append_cancel_left (append_cancel_right h')

/-- **A rule with two sides**, a finding and an edge tell a cluster. -/
theorem perm_of_edge (h : fs.Perm gs) {d : Cluster}
    (hc : c ∈ clusters R fs) (hd : d ∈ clusters R gs) (htwo : c.rule.twoSided = true)
    (hrule : c.rule = d.rule) {p : Finding} (hpc : p ∈ c.members) (hpd : p ∈ d.members)
    {e : MemberEdge} (hec : e ∈ c.group.edges) (hed : e ∈ d.group.edges) :
    c.one.Perm d.one ∧ c.other.Perm d.other := by
  have hrationale := rationale_of_mem_edges htwo hec
  have hrationale' := rationale_of_mem_edges (hrule ▸ htwo) hed
  cases hr : c.rule with
  | sameSecret => rw [hr] at htwo; cases htwo
  | sameCveOnAsset => rw [hr] at htwo; cases htwo
  | shippedAndRunning =>
    obtain ⟨k, rfl⟩ := (eq_cluster hc).1 hr
    obtain ⟨l, rfl⟩ := (eq_cluster hd).1 (hrule ▸ hr)
    simp only [deploymentCluster_members, mem_append, mem_havingKey,
      mem_deploymentKeys] at hpc hpd
    have hcustomer : k.1 = l.1 := by
      rcases hpc with hpc | hpc <;> rcases hpd with hpd | hpd <;>
        exact hpc.2.2.1.trans hpd.2.2.1.symm
    cases Prod.ext hcustomer (cve_eq_of_rationale hrationale hrationale')
    exact ⟨havingKey_perm _ k h, havingKey_perm _ k h⟩
  | injectionCorroborated =>
    obtain ⟨k, rfl⟩ := (eq_cluster hc).2.1 hr
    obtain ⟨l, rfl⟩ := (eq_cluster hd).2.1 (hrule ▸ hr)
    simp only [injectionCluster_members, mem_append, mem_havingKey,
      mem_injectionKeys] at hpc hpd
    have hkey : k = l := by
      rcases hpc with hpc | hpc <;> rcases hpd with hpd | hpd <;>
        exact Option.some.inj (hpc.2.2.symm.trans hpd.2.2)
    cases hkey
    exact ⟨havingKey_perm _ k h, havingKey_perm _ k h⟩
  | exposedRepositorySecret =>
    obtain ⟨k, rfl⟩ := (eq_cluster hc).2.2 hr
    obtain ⟨l, rfl⟩ := (eq_cluster hd).2.2 (hrule ▸ hr)
    simp only [exposureCluster_members, mem_append, mem_havingKey,
      mem_exposureKeys] at hpc hpd
    have hkey : k = l := by
      rcases hpc with hpc | hpc <;> rcases hpd with hpd | hpd <;>
        exact hpc.2.2.trans hpd.2.2.symm
    cases hkey
    exact ⟨havingKey_perm _ k h, havingKey_perm _ k h⟩

/-- A finding on the side that the cut goes through. -/
def Cluster.AtCut (c : Cluster) (z : Finding) : Prop :=
  (maxGroupSize < c.one.length ∧ z ∈ c.one) ∨
    (c.one.length < maxGroupSize ∧ maxGroupSize < c.members.length ∧ z ∈ c.other)

theorem Cluster.AtCut.perm {d : Cluster} {z : Finding} (h : c.AtCut z)
    (hone : c.one.Perm d.one) (hother : c.other.Perm d.other) : d.AtCut z := by
  have hlen := (hone.append hother).length_eq
  unfold Cluster.AtCut at *
  rwa [← hone.length_eq, ← hone.mem_iff, ← hother.mem_iff, Cluster.members, ← hlen]

theorem Cluster.Sound.exists_atCut (hc : c.Sound fs)
    (hids : (fs.map (·.id)).Nodup) (h : ¬ c.Whole) (p : Finding) :
    ∃ z, c.AtCut z ∧ z ≠ p := by
  have hnodup : (c.one ++ c.other).Nodup := (hc.nodup hids).of_map
  have hlen : c.members.length = c.one.length + c.other.length := length_append
  unfold Cluster.Whole at h
  rw [not_or, not_le] at h
  obtain ⟨hcut, hne⟩ := h
  rcases lt_or_gt_of_ne hne with hlt | hgt
  · obtain ⟨z, hz, hzp⟩ := exists_ne_of_two_le hnodup.of_append_right (by omega) p
    exact ⟨z, Or.inr ⟨hlt, hcut, hz⟩, hzp⟩
  · have htwo : 2 ≤ c.one.length := by
      have : maxGroupSize = 200 := rfl
      omega
    obtain ⟨z, hz, hzp⟩ := exists_ne_of_two_le hnodup.of_append_left htwo p
    exact ⟨z, Or.inl ⟨hgt, hz⟩, hzp⟩

section Joined
variable {z : Finding} {rest : List Finding} (hids : ((z :: rest).map (·.id)).Nodup)
include hids

theorem Cluster.Sound.mem_kept_first {c : Cluster} (hc : c.Sound (z :: rest)) (h : c.AtCut z) :
    z ∈ c.kept := by
  have hrest := (nodup_cons.mp hids.of_map).1
  rw [Cluster.kept, Cluster.members]
  rcases h with ⟨-, hz⟩ | ⟨hlt, -, hz⟩
  · obtain ⟨t, ht⟩ := eq_cons_of_sublist hc.one_sublist hz hrest
    rw [ht]
    exact mem_cons_self ..
  · obtain ⟨t, ht⟩ := eq_cons_of_sublist hc.other_sublist hz hrest
    rw [ht]
    exact mem_take_of_lt hlt

theorem Cluster.Sound.notMem_kept_last {c : Cluster} (hc : c.Sound (rest ++ [z]))
    (h : c.AtCut z) : z ∉ c.kept := by
  have hrest := (nodup_cons.mp hids.of_map).1
  have hids' : ((rest ++ [z]).map (·.id)).Nodup :=
    ((perm_append_singleton z rest).map _).nodup_iff.mpr hids
  have hnodup : (c.one ++ c.other).Nodup := (hc.nodup hids').of_map
  rw [Cluster.kept, Cluster.members]
  rcases h with ⟨hgt, hz⟩ | ⟨-, hcut, hz⟩
  · obtain ⟨t, ht⟩ := eq_concat_of_sublist hc.one_sublist hz hrest
    rw [ht, append_assoc, singleton_append] at hnodup ⊢
    rw [ht, length_append, length_singleton] at hgt
    exact notMem_take_of_le hnodup (by omega)
  · obtain ⟨t, ht⟩ := eq_concat_of_sublist hc.other_sublist hz hrest
    rw [ht, ← append_assoc] at hnodup ⊢
    rw [Cluster.members, ht, ← append_assoc, length_append, length_singleton] at hcut
    exact notMem_take_of_le hnodup (by omega)

/-- **A finding at the cut** is a member of the group only when it arrives first. -/
theorem not_sameGroups_of_joined {digest : Str → Str} {R : Runtime} {c : Cluster}
    (hc : c ∈ clusters R (z :: rest)) (htwo : c.rule.twoSided = true) (hcut : c.AtCut z)
    (hz : z ≠ primary c.members) : ¬ SameGroups digest R (z :: rest) (rest ++ [z]) := by
  intro h
  have hcs := cluster_sound hc
  have hperm : (z :: rest).Perm (rest ++ [z]) := (perm_append_singleton z rest).symm
  have hids' : ((rest ++ [z]).map (·.id)).Nodup := (hperm.map _).nodup_iff.mp hids
  obtain ⟨h', hh', hsame⟩ := h.1 _ (mem_map_of_mem hc)
  obtain ⟨d, hd, rfl⟩ := mem_map.mp hh'
  have hds := cluster_sound hd
  have hrule : c.rule = d.rule := by
    rw [← Cluster.group_rule, hsame.rule, Cluster.group_rule]
  have hp := hcs.members_subset _ hcs.primary.1
  have hprimary : primary d.members = primary c.members :=
    hds.primary_eq hids' (hperm.subset hp) (by rw [← hsame.primary, Cluster.group_primary])
  -- the edge to the finding shows which cluster the other list has made the group of
  have hzc := hcs.members_subset _ (Cluster.mem_of_kept (hcs.mem_kept_first hids hcut))
  have hne : z.id ≠ c.group.primary := by
    rw [Cluster.group_primary]
    exact fun heq => hz (eq_of_id hids hzc hp heq)
  have hmem : z.id ∈ c.group.members := by
    rw [Cluster.group_members]
    exact mem_map_of_mem (hcs.mem_kept_first hids hcut)
  obtain ⟨e, he, -, hdest⟩ := Cluster.mem_edges.mpr ⟨rfl, hmem, hne⟩
  have hed := hsame.edges.subset he
  obtain ⟨hone, hother⟩ := perm_of_edge hperm hc hd htwo hrule hcs.primary.1
    (hprimary ▸ hds.primary.1) he hed
  have hzd : z.id ∈ d.group.members := (Cluster.mem_edges.mp ⟨e, hed, rfl, hdest⟩).2.1
  exact hds.notMem_kept_last hids (hcut.perm hone hother)
    (hds.mem_kept_of_id hids' (hperm.subset (mem_cons_self ..)) hzd)

end Joined

/-! ### The main result -/

theorem SameGroups.symm (h : SameGroups digest R fs gs) : SameGroups digest R gs fs := by
  refine ⟨fun g hg => ?_, fun g hg => ?_⟩
  · obtain ⟨k, hk, hsame⟩ := h.2 g hg
    exact ⟨k, hk, hsame.symm⟩
  · obtain ⟨k, hk, hsame⟩ := h.1 g hg
    exact ⟨k, hk, hsame.symm⟩

theorem SameGroups.trans {ks : List Finding}
    (h : SameGroups digest R fs gs) (h' : SameGroups digest R gs ks) :
    SameGroups digest R fs ks := by
  refine ⟨fun g hg => ?_, fun g hg => ?_⟩
  · obtain ⟨k, hk, hsame⟩ := h.1 g hg
    obtain ⟨l, hl, hsame'⟩ := h'.1 k hk
    exact ⟨l, hl, hsame.trans hsame'⟩
  · obtain ⟨k, hk, hsame⟩ := h'.2 g hg
    obtain ⟨l, hl, hsame'⟩ := h.2 k hk
    exact ⟨l, hl, hsame'.trans hsame⟩

/-- **The groups do not depend on the order of arrival** exactly when no cut chooses. -/
theorem sameGroups_iff_whole {digest : Str → Str} {R : Runtime} {fs : List Finding}
    (hids : (fs.map (·.id)).Nodup) :
    (∀ gs, fs.Perm gs → SameGroups digest R fs gs) ↔ ∀ c ∈ clusters R fs, c.Whole := by
  refine ⟨fun h c hc => ?_, fun h gs hgs => sameGroups_of_whole hids h hgs⟩
  by_contra hcut
  have hcs := cluster_sound hc
  have hmoved : ∀ z ∈ fs, ∃ rest, fs.Perm (z :: rest) ∧
      SameGroups digest R (z :: rest) (rest ++ [z]) := by
    intro z hz
    obtain ⟨u, v, rfl⟩ := append_of_mem hz
    refine ⟨u ++ v, perm_middle, (h _ perm_middle).symm.trans (h _ ?_)⟩
    exact perm_middle.trans (perm_append_singleton z _).symm
  cases htwo : c.rule.twoSided with
  | false =>
    obtain ⟨rest, hperm, hsame⟩ := hmoved _ (hcs.members_subset _ hcs.primary.1)
    obtain ⟨d, hd, hcd⟩ :=
      exists_reordered (hperm.trans (perm_append_singleton _ rest).symm) hc
    have hprimary := primary_perm hids hcs.members_subset hcs.members_ne hcd.members
    have hlen : maxGroupSize < d.members.length :=
      hcd.members.length_eq ▸ not_le.mp fun hle => hcut (Or.inl hle)
    refine not_sameGroups_of_duplicate ((hperm.map (·.id)).nodup_iff.mp hids) hd
      (hcd.rule ▸ htwo) hlen ?_ hsame.symm
    rw [Cluster.group_primary, ← hprimary]
  | true =>
    obtain ⟨z, hz, hne⟩ := hcs.exists_atCut hids hcut (primary c.members)
    have hzmem : z ∈ fs := by
      rcases hz with ⟨-, hz⟩ | ⟨-, -, hz⟩
      · exact hcs.one_sublist.subset hz
      · exact hcs.other_sublist.subset hz
    obtain ⟨rest, hperm, hsame⟩ := hmoved z hzmem
    obtain ⟨d, hd, hcd⟩ := exists_reordered hperm hc
    have hprimary := primary_perm hids hcs.members_subset hcs.members_ne hcd.members
    exact not_sameGroups_of_joined ((hperm.map (·.id)).nodup_iff.mp hids) hd (hcd.rule ▸ htwo)
      (hz.perm hcd.one hcd.other) (hprimary ▸ hne) hsame

/-! ### The riskiest finding last, and first -/

theorem secretFindings_not_sameGroups :
    ((secretFindings 201).map (·.id)).Nodup ∧
      (secretFindings 201).Perm (secretFinding 200 :: secretFindings 200) ∧
      ∀ digest, ¬ SameGroups digest Runtime.ascii (secretFindings 201)
        (secretFinding 200 :: secretFindings 200) := by
  have hlast : secretFindings 201 = secretFindings 200 ++ [secretFinding 200] := by
    rw [secretFindings, range_succ, map_append]
    rfl
  have hids := nodup_secretFindings (n := 201) (by omega)
  have hperm : (secretFindings 201).Perm (secretFinding 200 :: secretFindings 200) :=
    hlast ▸ perm_append_singleton _ _
  refine ⟨hids, hperm, fun digest => ?_⟩
  have hc := secretCluster_mem (n := 201) (by omega)
  have hmem := (cluster_sound hc).primary.1
  have htop : secretFinding 200 ∈ (secretCluster Runtime.ascii (default, "identity:k")
      (secretFindings 201)).members := by
    rw [hlast]
    exact mem_append_left _ (mem_append_right _ (mem_singleton_self _))
  obtain ⟨i, hi, heq⟩ := mem_map.mp ((cluster_sound hc).members_subset _ hmem)
  have hrisk := risk_le_primary htop
  rw [← heq] at hrisk
  have hi' : i = 200 := by
    rw [mem_range] at hi
    simp only [Finding.risk, secretFinding, Option.getD_some] at hrisk
    omega
  rw [hlast] at hc heq ⊢
  refine not_sameGroups_of_duplicate ((hperm.map (·.id)).nodup_iff.mp hids) hc rfl ?_ ?_
  · simp [maxGroupSize, secretFindings]
  · rw [Cluster.group_primary, ← heq, hi']

theorem sameGroups_iff_whole_two :
    (∀ gs, (secretFindings 2).Perm gs →
      SameGroups (fun _ => []) Runtime.ascii (secretFindings 2) gs) ↔
      ∀ c ∈ clusters Runtime.ascii (secretFindings 2), c.Whole :=
  sameGroups_iff_whole (nodup_secretFindings (by omega))

end Guardian.Correlation

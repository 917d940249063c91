import Guardian.AttackPaths.Chains

/-!
# The ranked chains

The chains that the search lists are ranked before they are cut.  `buildChains_exact` says which of
them are returned, and `buildChains_ranked` that the order of the findings does not count.
-/

namespace Guardian.AttackPaths

open Python Guardian.Order List

section Collect
variable {m : ℤ} {kept cs : List (List Step)}

theorem collect_prefix : (collect m kept cs).1 <+: kept ++ cs := by
  induction cs generalizing kept with
  | nil => simp [collect]
  | cons c cs ih =>
    unfold collect
    split_ifs
    · exact prefix_append _ _
    · have : (collect m (kept ++ [c]) cs).1 <+: kept ++ [c] ++ cs := ih
      rwa [append_assoc, singleton_append] at this

theorem collect_eq (h : (collect m kept cs).2 = false) : (collect m kept cs).1 = kept ++ cs := by
  induction cs generalizing kept with
  | nil => simp [collect]
  | cons c cs ih =>
    unfold collect at h ⊢
    by_cases hfull : m ≤ (kept.length : ℤ)
    · simp [hfull] at h
    · rw [if_neg hfull] at h ⊢
      rw [ih h, append_assoc, singleton_append]

end Collect

section Build
variable {scoreChain : List Step → Str → Score} {o : Options} {findings findings' : List FindingView}

/-- All chains that the search lists, in their ranking. -/
def rankedChains (scoreChain : List Step → Str → Score) (o : Options)
    (findings : List FindingView) : List Chain :=
  sortBy Chain.key ((candidates findings o).map (mkChain scoreChain o))

/-- **What is ranked** are the attack chains. -/
theorem mem_rankedChains {c : Chain} :
    c ∈ rankedChains scoreChain o findings ↔ ∃ fs, IsAttackChain findings o fs ∧
      c.steps.map some = fs.map stepOf ∧ c = mkChain scoreChain o c.steps := by
  rw [rankedChains, mem_sortBy, mem_map]
  constructor
  · rintro ⟨steps, hsteps, rfl⟩
    obtain ⟨fs, hchain, heq⟩ := mem_candidates.mp hsteps
    exact ⟨fs, hchain, heq, rfl⟩
  · rintro ⟨fs, hchain, heq, hc⟩
    exact ⟨c.steps, mem_candidates.mpr ⟨fs, hchain, heq⟩, hc.symm⟩

theorem nodup_rankedChains (hids : (findings.map (·.id)).Nodup)
    (hloop : ∀ a, a ∉ o.reachable a) :
    ((rankedChains scoreChain o findings).map Chain.ids).Nodup := by
  have hperm : ((rankedChains scoreChain o findings).map Chain.ids).Perm
      (((candidates findings o).map (mkChain scoreChain o)).map Chain.ids) :=
    (sortBy_perm _ _).map _
  rw [hperm.nodup_iff, map_map]
  exact nodup_candidates hids hloop

theorem chains_of_enumerated (h : (enumerated findings o).2 = false) :
    (buildChains scoreChain o findings).chains =
      sliceTo o.maxChains (rankedChains scoreChain o findings) := by
  have hall : (enumerated findings o).1 = candidates findings o := collect_eq h
  rw [buildChains, hall]
  rfl

/-- **What is returned was ranked.** -/
theorem mem_rankedChains_of_mem {c : Chain} (h : c ∈ (buildChains scoreChain o findings).chains) :
    c ∈ rankedChains scoreChain o findings := by
  obtain ⟨k, hk⟩ := sliceTo_eq_take o.maxChains
    (sortBy Chain.key ((enumerated findings o).1.map (mkChain scoreChain o)))
  rw [buildChains, hk] at h
  have hmem := mem_of_mem_take h
  obtain ⟨steps, hsteps, rfl⟩ := mem_map.mp ((mem_sortBy _).mp hmem)
  have hcandidate : steps ∈ candidates findings o := collect_prefix.subset hsteps
  exact (mem_sortBy _).mpr (mem_map_of_mem hcandidate)

theorem chains_of_not_truncated (h : (buildChains scoreChain o findings).truncated = false) :
    (buildChains scoreChain o findings).chains = rankedChains scoreChain o findings := by
  simp only [buildChains, Bool.or_eq_false_iff, decide_eq_false_iff_not, not_lt] at h
  obtain ⟨hfull, hlen⟩ := h
  rw [chains_of_enumerated hfull]
  have hall : (enumerated findings o).1 = candidates findings o := collect_eq hfull
  rw [hall] at hlen
  exact sliceTo_of_length_le hlen

theorem IsRun.exists_profile {fs : List FindingView} (h : IsRun findings o fs) {f : FindingView}
    (hf : f ∈ fs) : ∃ p, profileFor f = some p := by
  obtain ⟨pre, post, hfs⟩ := append_of_mem hf
  by_cases hpre : pre = []
  · rw [hpre, nil_append] at hfs
    obtain ⟨-, p, hp, -⟩ := h.starts f (by rw [hfs, head?_cons])
    exact ⟨p, hp⟩
  · obtain ⟨⟨p, hp, -⟩, -⟩ := h.later pre f hpre ⟨post, by rw [hfs]; simp⟩
    exact ⟨p, hp⟩

theorem IsRun.exists_steps {fs : List FindingView} (h : IsRun findings o fs) :
    ∃ steps : List Step, steps.map some = fs.map stepOf := by
  refine exists_map_some fun f hf => ?_
  obtain ⟨p, hp⟩ := h.exists_profile hf
  exact ⟨step f f.assetId p, by rw [stepOf, hp, Option.map_some]⟩

/-- **The chains that are returned** are attack chains; a result that is not truncated has them all,
each of them once. -/
theorem buildChains_exact (hids : (findings.map (·.id)).Nodup) (hloop : ∀ a, a ∉ o.reachable a) :
    (∀ c ∈ (buildChains scoreChain o findings).chains,
      ∃ fs, IsAttackChain findings o fs ∧ c.steps.map some = fs.map stepOf) ∧
    ((buildChains scoreChain o findings).truncated = false →
      (∀ fs, IsAttackChain findings o fs →
        ∃ c ∈ (buildChains scoreChain o findings).chains, c.steps.map some = fs.map stepOf) ∧
      ((buildChains scoreChain o findings).chains.map Chain.ids).Nodup) := by
  refine ⟨fun c hc => ?_, fun h => ⟨fun fs hfs => ?_, ?_⟩⟩
  · obtain ⟨fs, hchain, heq, -⟩ := mem_rankedChains.mp (mem_rankedChains_of_mem hc)
    exact ⟨fs, hchain, heq⟩
  · obtain ⟨steps, hsteps⟩ := hfs.exists_steps
    rw [chains_of_not_truncated h]
    exact ⟨mkChain scoreChain o steps, mem_rankedChains.mpr ⟨fs, hfs, hsteps, rfl⟩, hsteps⟩
  · rw [chains_of_not_truncated h]
    exact nodup_rankedChains hids hloop

/-! ### The order of the findings -/

theorem keyInj_findings (hids : (findings.map (·.id)).Nodup) : KeyInj FindingView.key findings := by
  intro f hf g hg hkey
  have hid : f.id = g.id := congrArg (fun k : ℤ ×ₗ Str => (ofLex k).2) hkey
  exact inj_on_of_nodup_map hids hf hg hid

/-- **The result does not depend on the order of the findings.** -/
theorem buildChains_perm (hids : (findings.map (·.id)).Nodup) (h : findings.Perm findings') :
    buildChains scoreChain o findings = buildChains scoreChain o findings' := by
  have hsort := sortBy_perm_eq (keyInj_findings hids) h
  have hassets : byAsset findings = byAsset findings' := by
    funext a
    rw [byAsset, byAsset, hsort]
  have hhops : hops findings o = hops findings' o := by
    funext w
    simp only [hops, candidatesAt, hassets]
  have hcandidates : candidates findings o = candidates findings' o := by
    simp only [candidates, starts, extend, hassets, hhops]
  rw [buildChains, buildChains, enumerated, enumerated, hcandidates, unmapped, unmapped, hsort]

/-- **The ranked result**: the same for every order of the findings, and the first of all attack
chains, ranked; none that is left out ranks before one that is returned. -/
theorem buildChains_ranked (hids : (findings.map (·.id)).Nodup) (h : findings.Perm findings')
    (hfull : (enumerated findings o).2 = false) :
    buildChains scoreChain o findings = buildChains scoreChain o findings' ∧
    (∃ ranked : List Chain,
      (∀ c, c ∈ ranked ↔ ∃ fs, IsAttackChain findings o fs ∧ c.steps.map some = fs.map stepOf ∧
        c = mkChain scoreChain o c.steps) ∧
      ranked.Pairwise (fun c d => c.key ≤ d.key) ∧
      ((∀ a, a ∉ o.reachable a) → (ranked.map Chain.ids).Nodup) ∧
      (buildChains scoreChain o findings).chains = sliceTo o.maxChains ranked) ∧
    ∀ fs c, IsAttackChain findings o fs → c.steps.map some = fs.map stepOf →
      c = mkChain scoreChain o c.steps → c ∉ (buildChains scoreChain o findings).chains →
      ∀ d ∈ (buildChains scoreChain o findings).chains, d.key ≤ c.key := by
  refine ⟨buildChains_perm hids h, ⟨rankedChains scoreChain o findings, fun c => mem_rankedChains,
    pairwise_sortBy _ _, nodup_rankedChains hids, chains_of_enumerated hfull⟩, ?_⟩
  intro fs c hfs hsteps hc hout d hd
  have hmem : c ∈ rankedChains scoreChain o findings := mem_rankedChains.mpr ⟨fs, hfs, hsteps, hc⟩
  obtain ⟨k, hk⟩ := sliceTo_eq_take o.maxChains (rankedChains scoreChain o findings)
  rw [chains_of_enumerated hfull, hk] at hout hd
  exact key_le_of_take hd ((mem_sortBy _).mp hmem) hout

end Build

/-! ### A gateway with three findings -/

/-- A gateway that anyone can reach, that runs commands and that holds a credential. -/
def gatewayFindings : List FindingView :=
  [{ id := "f1", assetId := "gateway", cweId := some "CWE-284" },
   { id := "f2", assetId := "gateway", cweId := some "CWE-78" },
   { id := "f3", assetId := "gateway", cweId := some "CWE-798" }]

/-- The gateway is an entry, and reaches nothing. -/
def gatewayOptions : Options where
  reachable := fun _ => []
  entryAssets := ["gateway"]

/-- The scores of the gateway's chains. -/
def gatewayScore (steps : List Step) (_ : Str) : Score :=
  if steps.length = 3 then ⟨77, 90, 75⟩
  else if (steps.head?.map (·.findingId)) = some "f1".toList then ⟨81, 90, 81⟩
  else ⟨86, 90, 83⟩

/-- **The first step may add nothing**: a finding that grants network access starts a chain, though
network access was held already. -/
theorem first_step_adds_nothing :
    (gatewayFindings.map (·.id)).Nodup ∧ (∀ a, a ∉ gatewayOptions.reachable a) ∧
    ¬ ∀ c ∈ (buildChains gatewayScore gatewayOptions gatewayFindings).chains,
      ∀ fs ⊆ gatewayFindings, c.steps.map some = fs.map stepOf →
        ∀ pre f, pre ++ [f] <+: fs → Adds pre f := by
  refine ⟨by decide, fun _ => not_mem_nil, fun h => ?_⟩
  have hchain : ∃ c ∈ (buildChains gatewayScore gatewayOptions gatewayFindings).chains,
      c.steps.map some = (gatewayFindings.take 2).map stepOf := by decide
  obtain ⟨c, hc, hsteps⟩ := hchain
  obtain ⟨f, rest, hfindings⟩ := exists_cons_of_ne_nil (show gatewayFindings ≠ [] by decide)
  have hpre : [] ++ [f] <+: gatewayFindings.take 2 := by
    rw [hfindings]
    exact ⟨rest.take 1, rfl⟩
  obtain ⟨p, hp, hadds⟩ := h c hc _ (take_subset _ _) hsteps [] f hpre
  have hnothing : ∀ g ∈ gatewayFindings.take 1,
      (profileFor g).all fun p => expand p.grants ⊆ heldAfter [] := by decide
  have hfirst := hnothing f (by rw [hfindings]; exact mem_cons_self)
  rw [hp, Option.all_some, decide_eq_true_eq] at hfirst
  exact hadds hfirst

/-- The chains of the gateway. -/
theorem buildChains_exact_gateway :
    (buildChains gatewayScore gatewayOptions gatewayFindings).truncated = false ∧
    (∀ c ∈ (buildChains gatewayScore gatewayOptions gatewayFindings).chains,
      ∃ fs, IsAttackChain gatewayFindings gatewayOptions fs ∧
        c.steps.map some = fs.map stepOf) ∧
    (∀ fs, IsAttackChain gatewayFindings gatewayOptions fs →
      ∃ c ∈ (buildChains gatewayScore gatewayOptions gatewayFindings).chains,
        c.steps.map some = fs.map stepOf) ∧
    ((buildChains gatewayScore gatewayOptions gatewayFindings).chains.map Chain.ids).Nodup :=
  have hall := @buildChains_exact gatewayScore gatewayOptions gatewayFindings (by decide)
    fun _ => not_mem_nil
  have hfull : (buildChains gatewayScore gatewayOptions gatewayFindings).truncated = false := by
    decide
  ⟨hfull, hall.1, hall.2 hfull⟩

/-- The ranking of the gateway's chains, cut off after two of them. -/
theorem buildChains_ranked_gateway :
    let o : Options := { gatewayOptions with maxChains := 2 }
    (buildChains gatewayScore o gatewayFindings).chains.map Chain.ids =
      [["f2".toList, "f3".toList], ["f1".toList, "f2".toList]] ∧
    buildChains gatewayScore o gatewayFindings = buildChains gatewayScore o gatewayFindings.reverse ∧
    (∃ ranked : List Chain,
      (∀ c, c ∈ ranked ↔ ∃ fs, IsAttackChain gatewayFindings o fs ∧
        c.steps.map some = fs.map stepOf ∧ c = mkChain gatewayScore o c.steps) ∧
      ranked.Pairwise (fun c d => c.key ≤ d.key) ∧
      ((∀ a, a ∉ o.reachable a) → (ranked.map Chain.ids).Nodup) ∧
      (buildChains gatewayScore o gatewayFindings).chains = sliceTo o.maxChains ranked) ∧
    ∀ fs c, IsAttackChain gatewayFindings o fs → c.steps.map some = fs.map stepOf →
      c = mkChain gatewayScore o c.steps →
      c ∉ (buildChains gatewayScore o gatewayFindings).chains →
      ∀ d ∈ (buildChains gatewayScore o gatewayFindings).chains, d.key ≤ c.key :=
  ⟨by decide, buildChains_ranked (by decide) (reverse_perm _).symm
    (by decide)⟩

end Guardian.AttackPaths

import Guardian.AttackGraph.Enumerate
import Guardian.Order.Bucket
import Mathlib.Data.Rat.Defs

/-!
# Chokepoints

A node is ranked by the number of exposure paths that traverse it.  That is the number of paths that
its removal cuts (`chokepoints_exact`), since the paths of the smaller graph are those that avoid
it.
-/

namespace Guardian.AttackGraph

open Python Guardian.Order List

/-- `Chokepoint`.  The fraction is the number that is rounded to a float. -/
structure Chokepoint where
  nodeId : Str
  nodeKey : Str
  nodeType : Str
  pathsCut : ℕ
  totalPaths : ℕ
  fraction : ℚ
  evidencePaths : List Path
  deriving DecidableEq

/-- `ChokepointResult`. -/
structure ChokepointResult where
  chokepoints : List Chokepoint
  totalPaths : ℕ
  truncated : Bool
  deriving DecidableEq

/-- `_EVIDENCE_SAMPLE`. -/
def evidenceSample : ℕ := 3

/-- `on_paths`: the nodes of the paths, each with the paths that traverse it. -/
def onPaths (paths : List Path) : List (Str × List Path) :=
  buckets (paths.flatMap fun p => p.nodeIds.dedup.map fun nid => (nid, p))

/-- The key of the ranking: most paths first. -/
def hitKey (byId : Str → Option NodeView) (kv : Str × List Path) : ℤ ×ₗ SortKey :=
  toLex (-(kv.2.length : ℤ), keyAt byId kv.1)

/-- **`chokepoints`.** -/
def chokepoints (nodes : List NodeView) (edges : List EdgeView) (limits : Limits) (top : ℤ) :
    ChokepointResult :=
  let byId := index nodes
  let paths := exposurePaths nodes edges limits
  let total := paths.paths.length
  let ranked := (sortBy (hitKey byId) (onPaths paths.paths)).take (max 0 top).toNat
  { chokepoints := ranked.map fun kv =>
      { nodeId := kv.1
        nodeKey := ((byId kv.1).map (·.canonicalKey)).getD []
        nodeType := ((byId kv.1).map (·.nodeType)).getD []
        pathsCut := kv.2.length
        totalPaths := total
        fraction := if total = 0 then 0 else (kv.2.length : ℚ) / total
        evidencePaths := kv.2.take evidenceSample }
    totalPaths := total
    truncated := paths.truncated }

/-! ### Removing a node -/

def nodesWithout (v : Str) (nodes : List NodeView) : List NodeView := nodes.filter (·.id ≠ v)

/-- The edges that are not incident to a node. -/
def edgesWithout (v : Str) (edges : List EdgeView) : List EdgeView :=
  edges.filter fun e => e.srcId ≠ v ∧ e.dstId ≠ v

section Without
variable {nodes : List NodeView} {edges : List EdgeView} {limits : Limits} {v : Str}

theorem index_without {i : Str} (hi : i ≠ v) : index (nodesWithout v nodes) i = index nodes i := by
  rw [index, index, nodesWithout, ← filter_reverse, find?_filter]
  congr 1
  funext n
  by_cases hn : n.id = i
  · simp [hn, hi]
  · simp [hn]

theorem sortedIds_without {ids ids' : List Str} (hids : ∀ i ∈ ids, (index nodes i).isSome)
    (h : ∀ i, i ∈ ids' ↔ i ∈ ids ∧ i ≠ v) :
    sortedIds (index (nodesWithout v nodes)) ids' =
      (sortedIds (index nodes) ids).filter (· ≠ v) := by
  have hinj := keyInj_keyAt hids
  have hinj' : KeyInj (keyAt (index nodes)) ids' := hinj.mono fun i hi => ((h i).mp hi).1
  have hkey : ∀ i ∈ ids'.dedup, keyAt (index (nodesWithout v nodes)) i = keyAt (index nodes) i := by
    intro i hi
    rw [keyAt, keyAt, index_without ((h i).mp (mem_dedup.mp hi)).2]
  have hperm : ids'.dedup.Perm (ids.dedup.filter (· ≠ v)) := by
    refine (perm_ext_iff_of_nodup (nodup_dedup _) ((nodup_dedup _).filter _)).mpr ?_
    intro i
    simp [h i]
  rw [sortedIds, sortedIds, sortBy_congr (hinj'.mono fun i hi => mem_dedup.mp hi) hkey,
    sortBy_perm_eq (hinj'.mono fun i hi => mem_dedup.mp hi) hperm,
    sortBy_filter (hinj.mono fun i hi => mem_dedup.mp hi)]

theorem buildAdjacency_without {i : Str} (hi : i ≠ v) :
    buildAdjacency (nodesWithout v nodes) (edgesWithout v edges) i =
      (buildAdjacency nodes edges i).filter (· ≠ v) := by
  refine sortedIds_without (fun j hj => ?_) fun j => ?_
  · obtain ⟨e, hmem, rfl⟩ := mem_map.mp hj
    exact (of_decide_eq_true (mem_filter.mp hmem).2).2.2.1
  · simp only [mem_map, mem_filter, decide_eq_true_eq, edgesWithout]
    constructor
    · rintro ⟨e, ⟨⟨he, -, hdst⟩, hrel, hsrcs, hdsts, rfl⟩, rfl⟩
      rw [index_without hi] at hsrcs
      rw [index_without hdst] at hdsts
      exact ⟨⟨e, ⟨he, hrel, hsrcs, hdsts, rfl⟩, rfl⟩, hdst⟩
    · rintro ⟨⟨e, ⟨he, hrel, hsrcs, hdsts, rfl⟩, rfl⟩, hdst⟩
      refine ⟨e, ⟨⟨he, hi, hdst⟩, hrel, ?_, ?_, rfl⟩, rfl⟩
      · rwa [index_without hi]
      · rwa [index_without hdst]

theorem sources_without :
    sortedIds (index (nodesWithout v nodes)) (entryIds (nodesWithout v nodes)) =
      (sortedIds (index nodes) (entryIds nodes)).filter (· ≠ v) := by
  refine sortedIds_without (fun i hi => ?_) fun i => ?_
  · obtain ⟨n, hn, -, hid⟩ := mem_entryIds.mp hi
    exact index_isSome.mpr ⟨n, hn, hid⟩
  · simp only [mem_entryIds, nodesWithout, mem_filter, decide_eq_true_eq]
    constructor
    · rintro ⟨n, ⟨hn, hne⟩, hnet, rfl⟩
      exact ⟨⟨n, hn, hnet, rfl⟩, hne⟩
    · rintro ⟨⟨n, hn, hnet, rfl⟩, hne⟩
      exact ⟨n, ⟨hn, hne⟩, hnet, rfl⟩

theorem mem_sensitiveIds_without {i : Str} :
    i ∈ sensitiveIds (nodesWithout v nodes) ↔ i ∈ sensitiveIds nodes ∧ i ≠ v := by
  simp only [mem_sensitiveIds, nodesWithout, mem_filter, decide_eq_true_eq]
  constructor
  · rintro ⟨n, ⟨hn, hne⟩, hsens, rfl⟩
    exact ⟨⟨n, hn, hsens, rfl⟩, hne⟩
  · rintro ⟨⟨n, hn, hsens, rfl⟩, hne⟩
    exact ⟨n, ⟨hn, hne⟩, hsens, rfl⟩

def avoids (v : Str) (e : Entry) : Bool := decide (v ∉ e.2)

theorem pushed_without {e : Entry} (hend : e.1 ∈ e.2) (h : avoids v e = true) :
    pushed (buildAdjacency (nodesWithout v nodes) (edgesWithout v edges)) limits e =
      (pushed (buildAdjacency nodes edges) limits e).filter (avoids v) := by
  have hv : v ∉ e.2 := of_decide_eq_true h
  have hne : e.1 ≠ v := fun heq => hv (heq ▸ hend)
  unfold pushed extensions
  split_ifs
  · rfl
  · rw [buildAdjacency_without hne, filter_map, filter_filter, filter_filter]
    congr 1
    refine filter_congr fun nb _ => ?_
    simp [avoids, hv, eq_comm, Bool.and_comm]

theorem avoids_of_mem_pushed {adj : Str → List Str} {e f : Entry} (hf : f ∈ pushed adj limits e)
    (h : avoids v f = true) : avoids v e = true := by
  obtain ⟨-, -, -, heq⟩ := mem_pushed.mp hf
  simp only [avoids, decide_eq_true_eq, heq, mem_append, not_or] at h ⊢
  exact h.1

theorem end_mem_of_mem_pushed {adj : Str → List Str} {e f : Entry} (hf : f ∈ pushed adj limits e) :
    f.1 ∈ f.2 := by
  obtain ⟨-, -, -, heq⟩ := mem_pushed.mp hf
  rw [heq]
  exact mem_append_right _ (mem_singleton_self _)

/-- **The smaller graph's search** looks at the paths that avoid the node. -/
theorem lookedAt_without :
    lookedAt (nodesWithout v nodes) (edgesWithout v edges) limits =
      (lookedAt nodes edges limits).filter (avoids v) := by
  unfold lookedAt
  rw [sources_without, filter_flatMap]
  generalize sortedIds (index nodes) (entryIds nodes) = sources
  induction sources with
  | nil => rfl
  | cons s sources ih =>
    have htree : s ≠ v →
        visits (buildAdjacency (nodesWithout v nodes) (edgesWithout v edges)) limits (s, [s]) =
          (visits (buildAdjacency nodes edges) limits (s, [s])).filter (avoids v) := fun hs =>
      filter_unfold (fun e => e.1 ∈ e.2) (fun _ _ => avoids_of_mem_pushed)
        (fun _ _ _ => end_mem_of_mem_pushed) (fun _ => pushed_without) _
        (mem_singleton_self s) (by simp [avoids, hs.symm])
    have hcut : s = v →
        (visits (buildAdjacency nodes edges) limits (s, [s])).filter (avoids v) = [] := fun hs =>
      filter_unfold_eq_nil (fun _ _ => avoids_of_mem_pushed) (by simp [avoids, hs]) _
    rw [filter_cons, flatMap_cons]
    by_cases hs : s = v
    · simp [hs, ← ih, ← hcut hs]
    · simp [hs, ← ih, ← htree hs]

/-- **The smaller graph's paths** are those that avoid the node. -/
theorem found_without :
    found (nodesWithout v nodes) (edgesWithout v edges) limits =
      (found nodes edges limits).filter fun p => v ∉ p := by
  have hend : ∀ e ∈ lookedAt nodes edges limits, e.1 ∈ e.2 := by
    intro e he
    obtain ⟨s, -, hvisit⟩ := mem_flatMap.mp he
    exact mem_of_getLast? (mem_visits.mp hvisit).2.1
  rw [found, found, lookedAt_without, filter_filter, filter_map, filter_filter]
  congr 1
  refine filter_congr fun e he => ?_
  simp only [mem_sensitiveIds_without, avoids, Function.comp_apply, ← Bool.decide_and]
  refine decide_eq_decide.mpr ⟨fun h => ⟨h.2, h.1.1⟩, fun h => ⟨⟨h.2, ?_⟩, h.1⟩⟩
  rintro rfl
  exact h.1 (hend e he)

/-- **The enumeration over the graph without a node**, if the one over the graph was not cut off. -/
theorem exposurePaths_without (h : (exposurePaths nodes edges limits).truncated = false) :
    let rest := exposurePaths (nodesWithout v nodes) (edgesWithout v edges) limits
    rest.truncated = false ∧ (exposurePaths nodes edges limits).paths.countP (fun p => v ∈ p.nodeIds)
      + rest.paths.length = (exposurePaths nodes edges limits).paths.length := by
  rcases lt_or_ge 0 limits.maxPaths with hmax | hmax
  · obtain ⟨hfew, hless, hpaths⟩ := paths_of_not_truncated hmax h
    obtain ⟨hdone', -⟩ := exposurePaths_spec (nodesWithout v nodes) (edgesWithout v edges) hmax
    have hlooked := (filter_sublist (p := avoids v)
      (l := lookedAt nodes edges limits)).length_le
    have hfound := (filter_sublist (p := fun p => decide (v ∉ p))
      (l := found nodes edges limits)).length_le
    rw [← lookedAt_without] at hlooked
    rw [← found_without] at hfound
    obtain ⟨htrunc, hpaths'⟩ := hdone' ⟨by omega, by omega⟩
    refine ⟨htrunc, ?_⟩
    have hcount := (found nodes edges limits).length_eq_countP_add_countP fun p => decide (v ∈ p)
    have hsort : (exposurePaths nodes edges limits).paths.countP (fun p => v ∈ p.nodeIds) =
        (found nodes edges limits).countP fun p => v ∈ p := by
      rw [hpaths, (sortBy_perm _ _).countP_eq, countP_map]
      rfl
    rw [hsort, hpaths, hpaths', length_sortBy, length_sortBy, length_map, length_map,
      found_without, ← countP_eq_length_filter, hcount]
    simp
  · have hempty := exposurePaths_of_maxPaths nodes edges hmax
    have hempty' := exposurePaths_of_maxPaths (nodesWithout v nodes) (edgesWithout v edges) hmax
    simp [hempty, hempty']

end Without

/-! ### The ranking -/

/-- `on_paths.get(v, [])`. -/
def hits (paths : List Path) (v : Str) : List Path :=
  (((onPaths paths).find? (·.1 = v)).map Prod.snd).getD []

/-- **The right answer to a request for some chokepoints**: as many nodes on paths as are asked for,
or all of them, and none that is left out is on more paths. -/
structure IsRanking (nodes : List NodeView) (count : Str → ℕ) (top : ℕ)
    (cs : List Chokepoint) : Prop where
  nodup : (cs.map (·.nodeId)).Nodup
  counted : ∀ c ∈ cs, c.pathsCut = count c.nodeId ∧ 0 < count c.nodeId
  highest : ∀ c ∈ cs, ∀ v ∉ cs.map (·.nodeId), count v ≤ count c.nodeId
  sorted : cs.Pairwise fun c d => d.pathsCut ≤ c.pathsCut
  length : cs.length = min top (nodes.countP fun n => 0 < count n.id)

section Ranking
variable {paths : List Path}

theorem mem_onPaths {v : Str} {ps : List Path} :
    (v, ps) ∈ onPaths paths ↔ ps = paths.filter (v ∈ ·.nodeIds) ∧ ps ≠ [] := by
  have hvalues : valuesOf v (paths.flatMap fun p => p.nodeIds.dedup.map fun nid => (nid, p)) =
      paths.filter (v ∈ ·.nodeIds) := by
    rw [valuesOf_flatMap fun p : Path => nodup_dedup p.nodeIds]
    simp only [mem_dedup]
  rw [onPaths, mem_buckets, hvalues]

theorem nodup_onPaths : ((onPaths paths).map Prod.fst).Nodup := nodup_keys_buckets _

/-- **The paths of a node** are those that hold it. -/
theorem hits_eq (v : Str) : hits paths v = paths.filter (v ∈ ·.nodeIds) := by
  unfold hits
  cases hfind : (onPaths paths).find? (·.1 = v) with
  | none =>
    rw [find?_eq_none] at hfind
    by_contra hne
    exact hfind _ (mem_onPaths.mpr ⟨rfl, fun hnil => hne hnil.symm⟩) (decide_eq_true rfl)
  | some b =>
    have hkey : b.1 = v := by simpa using find?_some hfind
    have hmem : (b.1, b.2) ∈ onPaths paths := mem_of_find?_eq_some hfind
    rw [hkey] at hmem
    exact (mem_onPaths.mp hmem).1

theorem length_of_mem_onPaths {b : Str × List Path} (h : b ∈ onPaths paths) :
    b.2.length = (hits paths b.1).length ∧ 0 < b.2.length := by
  obtain ⟨heq, hne⟩ := mem_onPaths.mp (show (b.1, b.2) ∈ onPaths paths from h)
  rw [hits_eq, ← heq]
  exact ⟨rfl, length_pos_of_ne_nil hne⟩

theorem mem_keys_onPaths {v : Str} :
    v ∈ (onPaths paths).map Prod.fst ↔ 0 < (hits paths v).length := by
  rw [mem_map]
  constructor
  · rintro ⟨b, hb, rfl⟩
    have := length_of_mem_onPaths hb
    omega
  · intro hpos
    refine ⟨(v, hits paths v), ?_, rfl⟩
    exact mem_onPaths.mpr ⟨hits_eq v, ne_nil_of_length_pos hpos⟩

end Ranking

section Exact
variable {nodes : List NodeView} {edges : List EdgeView} {limits : Limits}

theorem mem_nodes_of_mem_path (h : (exposurePaths nodes edges limits).truncated = false) {p : Path}
    (hp : p ∈ (exposurePaths nodes edges limits).paths) {v : Str} (hv : v ∈ p.nodeIds) :
    ∃ n ∈ nodes, n.id = v := by
  rcases lt_or_ge 0 limits.maxPaths with hmax | hmax
  · have hfound := (perm_found hmax h).mem_iff.mp (mem_map_of_mem hp)
    obtain ⟨e, he, heq⟩ := mem_map.mp hfound
    obtain ⟨s, hs, hvisit⟩ := mem_flatMap.mp (mem_of_mem_filter he)
    obtain ⟨n, hn, -, rfl⟩ := mem_entryIds.mp (mem_sortedIds.mp hs)
    have hwalk := (mem_visits.mp hvisit).1
    rw [heq] at hwalk
    exact hwalk.invariant (fun a b _ hab => (mem_buildAdjacency.mp hab).choose_spec.2.2.2.2.2)
      ⟨n, hn, rfl⟩ hv
  · rw [exposurePaths_of_maxPaths _ _ hmax] at hp
    cases hp

theorem length_onPaths (hids : (nodes.map (·.id)).Nodup)
    (h : (exposurePaths nodes edges limits).truncated = false) :
    let paths := (exposurePaths nodes edges limits).paths
    (onPaths paths).length = nodes.countP fun n => 0 < (hits paths n.id).length := by
  intro paths
  have hperm : ((onPaths paths).map Prod.fst).Perm
      ((nodes.map (·.id)).filter fun i => 0 < (hits paths i).length) := by
    refine (perm_ext_iff_of_nodup nodup_onPaths (hids.filter _)).mpr fun v => ?_
    rw [mem_keys_onPaths, mem_filter, decide_eq_true_eq]
    refine ⟨fun hpos => ⟨?_, hpos⟩, And.right⟩
    rw [hits_eq] at hpos
    obtain ⟨p, hp⟩ := exists_mem_of_ne_nil _ (ne_nil_of_length_pos hpos)
    obtain ⟨hmem, hv⟩ := mem_filter.mp hp
    exact mem_map.mpr (mem_nodes_of_mem_path h hmem (of_decide_eq_true hv))
  have hlen := hperm.length_eq
  rw [length_map, ← countP_eq_length_filter, countP_map] at hlen
  exact hlen

/-- **The ranking is right.** -/
theorem isRanking_chokepoints (hids : (nodes.map (·.id)).Nodup)
    (h : (exposurePaths nodes edges limits).truncated = false) (top : ℤ) :
    IsRanking nodes (fun v => (hits (exposurePaths nodes edges limits).paths v).length)
      (max 0 top).toNat (chokepoints nodes edges limits top).chokepoints := by
  set paths := (exposurePaths nodes edges limits).paths with hpaths
  set ranked := sortBy (hitKey (index nodes)) (onPaths paths) with hranked
  have hcs : (chokepoints nodes edges limits top).chokepoints.map (·.nodeId) =
      (ranked.take (max 0 top).toNat).map Prod.fst := by
    simp only [chokepoints, map_map]
    rfl
  have hkept : ∀ c ∈ (chokepoints nodes edges limits top).chokepoints,
      ∃ b ∈ ranked.take (max 0 top).toNat, b ∈ onPaths paths ∧ c.nodeId = b.1 ∧
        c.pathsCut = b.2.length := by
    intro c hc
    obtain ⟨b, hb, rfl⟩ := mem_map.mp hc
    exact ⟨b, hb, (mem_sortBy _).mp (mem_of_mem_take hb), rfl, rfl⟩
  refine ⟨?_, fun c hc => ?_, fun c hc v hv => ?_, ?_, ?_⟩
  · rw [hcs]
    have hperm : (ranked.map Prod.fst).Perm ((onPaths paths).map Prod.fst) :=
      (sortBy_perm _ _).map _
    exact (hperm.nodup_iff.mpr nodup_onPaths).sublist ((take_sublist _ _).map _)
  · obtain ⟨b, -, hmem, hid, hcut⟩ := hkept c hc
    have := length_of_mem_onPaths hmem
    rw [hid, hcut]
    exact ⟨this.1, this.1 ▸ this.2⟩
  · obtain ⟨b, hb, hmem, hid, -⟩ := hkept c hc
    rw [hid, ← (length_of_mem_onPaths hmem).1]
    rcases Nat.eq_zero_or_pos (hits paths v).length with hzero | hpos
    · exact hzero ▸ Nat.zero_le _
    · obtain ⟨d, hd, rfl⟩ := mem_map.mp (mem_keys_onPaths.mpr hpos)
      have hout : d ∉ ranked.take (max 0 top).toNat := fun hin =>
        hv (hcs ▸ mem_map_of_mem hin)
      have hle := key_le_of_take hb hd hout
      have hfst := Prod.Lex.monotone_fst _ _ hle
      have hneg : -(b.2.length : ℤ) ≤ -(d.2.length : ℤ) := hfst
      rw [← (length_of_mem_onPaths hd).1]
      omega
  · have hpair := (pairwise_sortBy (hitKey (index nodes)) (onPaths paths)).sublist
      (take_sublist (max 0 top).toNat _)
    rw [chokepoints, pairwise_map]
    refine hpair.imp fun {b d} hle => ?_
    have hneg : -(b.2.length : ℤ) ≤ -(d.2.length : ℤ) := Prod.Lex.monotone_fst _ _ hle
    dsimp only
    omega
  · have hlen := length_onPaths hids h
    simp only [chokepoints, length_map, length_take, length_sortBy]
    rw [← hpaths] at hlen ⊢
    rw [hlen]

/-- **The chokepoints of an enumeration that was not cut off**: a node counts the paths that its
removal cuts, and the ranking holds the nodes that cut most. -/
theorem chokepoints_exact (hids : (nodes.map (·.id)).Nodup)
    (h : (exposurePaths nodes edges limits).truncated = false) :
    let paths := (exposurePaths nodes edges limits).paths
    (∀ v, let rest := exposurePaths (nodesWithout v nodes) (edgesWithout v edges) limits
      rest.truncated = false ∧ (hits paths v).length + rest.paths.length = paths.length) ∧
    ∀ top, IsRanking nodes (fun v => (hits paths v).length) (max 0 top).toNat
      (chokepoints nodes edges limits top).chokepoints := by
  refine ⟨fun v => ?_, isRanking_chokepoints hids h⟩
  dsimp only
  rw [hits_eq, ← countP_eq_length_filter]
  exact exposurePaths_without h

end Exact

/-- The removal of the gateway's host cuts its one path. -/
theorem chokepoints_exact_gateway :
    let paths := (exposurePaths gatewayNodes gatewayEdges {}).paths
    (hits paths "n2").length = 1 ∧
    (∀ v, let rest := exposurePaths (nodesWithout v gatewayNodes) (edgesWithout v gatewayEdges) {}
      rest.truncated = false ∧ (hits paths v).length + rest.paths.length = paths.length) ∧
    ∀ top, IsRanking gatewayNodes (fun v => (hits paths v).length) (max 0 top).toNat
      (chokepoints gatewayNodes gatewayEdges {} top).chokepoints :=
  ⟨by decide, chokepoints_exact (by decide) (by decide)⟩

end Guardian.AttackGraph

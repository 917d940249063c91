import Guardian.Order.Ranking
import Guardian.Python.Text
import Mathlib.Data.Prod.Lex

/-!
# The graph of an estate

The discovery pipeline leaves nodes and edges.  The analysis reads them through an index by id and an
adjacency whose lists are sorted by the keys of the nodes.
-/

namespace Guardian.AttackGraph

open Python Guardian.Order List

/-- `Limits`. -/
structure Limits where
  maxDepth : ℤ := 6
  maxPaths : ℤ := 100
  maxNodes : ℤ := 10000
  deriving DecidableEq

/-- `NodeView`, as far as the analysis reads it. -/
structure NodeView where
  id : Str
  nodeType : Str
  canonicalKey : Str
  exposureScore : ℤ := 0
  state : Str := "active"
  internetReachable : Bool := false
  customerCriticality : Option Str := none
  findingMaxRank : ℤ := 0
  deriving DecidableEq

/-- The keys by which nodes are sorted. -/
abbrev SortKey : Type := Str ×ₗ Str ×ₗ Str

/-- `NodeView.sort_key`. -/
def NodeView.sortKey (n : NodeView) : SortKey := toLex (n.nodeType, toLex (n.canonicalKey, n.id))

/-- `EdgeView`. -/
structure EdgeView where
  srcId : Str
  relation : Str
  dstId : Str
  deriving DecidableEq

/-- `REACHABILITY_RELATIONS`. -/
def reachabilityRelations : List Str := ["resolves_to", "hosts"]

/-- `EXPOSURE_SENSITIVE_THRESHOLD`. -/
def exposureSensitiveThreshold : ℤ := 50

/-- `_HIGH_SEVERITY_RANK`. -/
def highSeverityRank : ℤ := 3

/-- `is_sensitive`. -/
def isSensitive (n : NodeView) : Bool :=
  decide (exposureSensitiveThreshold ≤ n.exposureScore) || decide (n.state = "shadow".toList) ||
    decide (n.customerCriticality = some "high".toList) ||
    decide (highSeverityRank ≤ n.findingMaxRank)

/-- `_index`: of two nodes with one id, the last one counts. -/
def index (nodes : List NodeView) (i : Str) : Option NodeView := nodes.reverse.find? (·.id = i)

/-- `by_id[i].sort_key()`.  Every id that is looked up is one of a node. -/
def keyAt (byId : Str → Option NodeView) (i : Str) : SortKey :=
  ((byId i).map NodeView.sortKey).getD (toLex ([], toLex ([], [])))

/-- `sorted(set(ids), key=lambda i: by_id[i].sort_key())`. -/
def sortedIds (byId : Str → Option NodeView) (ids : List Str) : List Str :=
  sortBy (keyAt byId) ids.dedup

/-- **`build_adjacency`**, without the relations of attack paths: `adj.get(i, [])`. -/
def buildAdjacency (nodes : List NodeView) (edges : List EdgeView) (i : Str) : List Str :=
  let byId := index nodes
  sortedIds byId ((edges.filter fun e =>
    e.relation ∈ reachabilityRelations ∧ (byId e.srcId).isSome ∧ (byId e.dstId).isSome ∧
      e.srcId = i).map (·.dstId))

/-- `entry_ids`. -/
def entryIds (nodes : List NodeView) : List Str :=
  ((sortBy NodeView.sortKey nodes).filter (·.internetReachable)).map (·.id)

/-- `sensitive_ids`. -/
def sensitiveIds (nodes : List NodeView) : List Str :=
  ((sortBy NodeView.sortKey nodes).filter isSensitive).map (·.id)

/-! ### The index -/

variable {nodes nodes' : List NodeView} {edges edges' : List EdgeView}

theorem id_of_index {i : Str} {n : NodeView} (h : index nodes i = some n) : n ∈ nodes ∧ n.id = i := by
  have hmem := mem_of_find?_eq_some h
  have hid := find?_some h
  rw [decide_eq_true_eq] at hid
  exact ⟨mem_reverse.mp hmem, hid⟩

theorem index_isSome {i : Str} : (index nodes i).isSome ↔ ∃ n ∈ nodes, n.id = i := by
  simp [index, find?_isSome]

theorem index_eq_some (hids : (nodes.map (·.id)).Nodup) {i : Str} {n : NodeView} :
    index nodes i = some n ↔ n ∈ nodes ∧ n.id = i := by
  refine ⟨id_of_index, fun ⟨hmem, hid⟩ => ?_⟩
  obtain ⟨m, hm⟩ := Option.isSome_iff_exists.mp (index_isSome.mpr ⟨n, hmem, hid⟩)
  obtain ⟨hmem', hid'⟩ := id_of_index hm
  have heq : m = n := inj_on_of_nodup_map hids hmem' hmem (hid'.trans hid.symm)
  rw [hm, heq]

theorem index_perm (hids : (nodes.map (·.id)).Nodup) (h : nodes.Perm nodes') :
    index nodes = index nodes' := by
  have hids' : (nodes'.map (·.id)).Nodup := (h.map _).nodup_iff.mp hids
  funext i
  refine Option.ext fun n => ?_
  rw [index_eq_some hids, index_eq_some hids', h.mem_iff]

theorem keyInj_keyAt {ids : List Str} (hids : ∀ i ∈ ids, (index nodes i).isSome) :
    KeyInj (keyAt (index nodes)) ids := by
  intro i hi j hj hkey
  obtain ⟨m, hm⟩ := Option.isSome_iff_exists.mp (hids i hi)
  obtain ⟨n, hn⟩ := Option.isSome_iff_exists.mp (hids j hj)
  rw [keyAt, keyAt, hm, hn] at hkey
  have hid : m.id = n.id := congrArg (fun k : SortKey => (ofLex (ofLex k).2).2) hkey
  rw [← (id_of_index hm).2, ← (id_of_index hn).2, hid]

theorem keyInj_sortKey (hids : (nodes.map (·.id)).Nodup) : KeyInj NodeView.sortKey nodes := by
  intro m hm n hn hkey
  have hid : m.id = n.id := congrArg (fun k : SortKey => (ofLex (ofLex k).2).2) hkey
  exact inj_on_of_nodup_map hids hm hn hid

/-! ### Neighbours, entries and targets -/

/-- **An edge that an exposure path may take.** -/
def Reaches (nodes : List NodeView) (edges : List EdgeView) (i j : Str) : Prop :=
  ∃ e ∈ edges, e.relation ∈ reachabilityRelations ∧ e.srcId = i ∧ e.dstId = j ∧
    (∃ n ∈ nodes, n.id = i) ∧ ∃ n ∈ nodes, n.id = j

/-- **The neighbours** of a node are those that an edge leads to. -/
theorem mem_buildAdjacency {i j : Str} :
    j ∈ buildAdjacency nodes edges i ↔ Reaches nodes edges i j := by
  simp only [buildAdjacency, sortedIds, mem_sortBy, mem_dedup, mem_map, mem_filter,
    decide_eq_true_eq, index_isSome, Reaches]
  constructor
  · rintro ⟨e, ⟨he, hrel, hsrc, hdst, rfl⟩, rfl⟩
    exact ⟨e, he, hrel, rfl, rfl, hsrc, hdst⟩
  · rintro ⟨e, he, hrel, rfl, rfl, hsrc, hdst⟩
    exact ⟨e, ⟨he, hrel, hsrc, hdst, rfl⟩, rfl⟩

theorem nodup_sortedIds (byId : Str → Option NodeView) (ids : List Str) :
    (sortedIds byId ids).Nodup := nodup_sortBy _ (nodup_dedup ids)

theorem nodup_buildAdjacency (i : Str) : (buildAdjacency nodes edges i).Nodup :=
  nodup_sortedIds _ _

theorem mem_sortedIds {byId : Str → Option NodeView} {ids : List Str} {i : Str} :
    i ∈ sortedIds byId ids ↔ i ∈ ids := by
  rw [sortedIds, mem_sortBy, mem_dedup]

theorem sortedIds_congr {ids ids' : List Str} (hids : ∀ i ∈ ids, (index nodes i).isSome)
    (h : ∀ i, i ∈ ids ↔ i ∈ ids') :
    sortedIds (index nodes) ids = sortedIds (index nodes) ids' := by
  have hperm : ids.dedup.Perm ids'.dedup :=
    (perm_ext_iff_of_nodup (nodup_dedup _) (nodup_dedup _)).mpr fun i => by
      rw [mem_dedup, mem_dedup, h i]
  exact sortBy_perm_eq ((keyInj_keyAt hids).mono fun i hi => mem_dedup.mp hi) hperm

/-- **The adjacency does not depend on the order of the nodes and edges.** -/
theorem buildAdjacency_perm (hids : (nodes.map (·.id)).Nodup) (hn : nodes.Perm nodes')
    (he : edges.Perm edges') : buildAdjacency nodes edges = buildAdjacency nodes' edges' := by
  funext i
  unfold buildAdjacency
  rw [← index_perm hids hn]
  refine sortedIds_congr (fun j hj => ?_) fun j => ?_
  · obtain ⟨e, hmem, rfl⟩ := mem_map.mp hj
    exact (of_decide_eq_true (mem_filter.mp hmem).2).2.2.1
  · exact ((he.filter _).map _).mem_iff

theorem mem_entryIds {i : Str} :
    i ∈ entryIds nodes ↔ ∃ n ∈ nodes, n.internetReachable = true ∧ n.id = i := by
  simp only [entryIds, mem_map, mem_filter, mem_sortBy, and_assoc]

theorem mem_sensitiveIds {i : Str} :
    i ∈ sensitiveIds nodes ↔ ∃ n ∈ nodes, isSensitive n = true ∧ n.id = i := by
  simp only [sensitiveIds, mem_map, mem_filter, mem_sortBy, and_assoc]

theorem entryIds_perm (hids : (nodes.map (·.id)).Nodup) (h : nodes.Perm nodes') :
    entryIds nodes = entryIds nodes' := by
  rw [entryIds, entryIds, sortBy_perm_eq (keyInj_sortKey hids) h]

theorem sensitiveIds_perm (hids : (nodes.map (·.id)).Nodup) (h : nodes.Perm nodes') :
    sensitiveIds nodes = sensitiveIds nodes' := by
  rw [sensitiveIds, sensitiveIds, sortBy_perm_eq (keyInj_sortKey hids) h]

end Guardian.AttackGraph

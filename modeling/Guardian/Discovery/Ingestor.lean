import Guardian.Order.Table
import Guardian.Triage.Record

/-!
# The graph of a tenant, and the runs that write it

A run turns the evidence of its providers into nodes and edges.  A node is identified by its type
and its canonical key; a further observation is merged into the row that is there.  The results hold
for every rule of canonical keys and every score of the attributes.
-/

namespace Guardian.Discovery

open Python Guardian.Order List

/-! ### Evidence -/

/-- `NodeType`. -/
inductive NodeType
  | domain
  | subdomain
  | ipAddress
  | netblock
  | service
  | cloudResource
  | asset
  | finding
  deriving DecidableEq

/-- `EdgeRelation`. -/
inductive EdgeRelation
  | subdomainOf
  | resolvesTo
  | hosts
  | routesTo
  | exposes
  | enables
  | contains
  | trusts
  | serves
  deriving DecidableEq

/-- `DiscoverySource`. -/
inductive DiscoverySource
  | ctLog
  | passiveDns
  | dnsResolver
  | asnRir
  | cloudEnum
  | portScan
  | manual
  | inferred
  deriving DecidableEq

/-- `DiscoveredEdge`. -/
structure DiscoveredEdge where
  relation : EdgeRelation
  dstType : NodeType
  dstKey : Str
  confidence : ℤ

/-- A confidence between 0 and 100. -/
def Percent : Type := {n : ℤ // 0 ≤ n ∧ n ≤ 100}

/-- What `__post_init__` makes of a confidence. -/
def clamp (n : ℤ) : Percent := ⟨max 0 (min 100 n), by omega, by omega⟩

/-- `DiscoveredAsset`. -/
structure DiscoveredAsset where
  nodeType : NodeType
  canonicalKey : Str
  source : DiscoverySource
  confidence : Percent
  ownershipConfidence : Percent
  attributes : Json.Dict
  edges : List DiscoveredEdge

/-- `edge_target`. -/
def edgeTarget (edge : DiscoveredEdge) (source : DiscoverySource) : DiscoveredAsset where
  nodeType := edge.dstType
  canonicalKey := edge.dstKey
  source := source
  confidence := clamp edge.confidence
  ownershipConfidence := clamp 0
  attributes := []
  edges := []

section Normalize
variable (canon : NodeType → Str → Str)

/-- **`normalize`.** -/
def normalize (asset : DiscoveredAsset) : DiscoveredAsset :=
  { asset with
    canonicalKey := canon asset.nodeType asset.canonicalKey
    edges := asset.edges.map fun e => { e with dstKey := canon e.dstType e.dstKey } }

/-- The observations of an item of evidence: the asset itself, then what its edges lead to. -/
def observed (raw : DiscoveredAsset) : List DiscoveredAsset :=
  let asset := normalize canon raw
  asset :: asset.edges.map fun e => normalize canon (edgeTarget e asset.source)

end Normalize

/-! ### The graph -/

/-- `AssetState`. -/
inductive AssetState
  | candidate
  | active
  | shadow
  | inactive
  deriving DecidableEq

/-- A row of `graph_nodes`. -/
structure GraphNode where
  id : ℕ
  tenantId : ℕ
  nodeType : NodeType
  canonicalKey : Str
  assetId : Option ℕ
  metadata : Json.Dict
  confidence : ℤ
  ownershipConfidence : ℤ
  exposureScore : ℕ
  exposureRationale : List Str
  state : AssetState
  firstSeenAt : Option ℕ
  lastSeenAt : Option ℕ
  discoveryRunId : Option ℕ

/-- The state of an edge. -/
inductive EdgeState
  | active
  | stale
  | removed
  deriving DecidableEq

/-- A row of `graph_edges`. -/
structure GraphEdge where
  tenantId : ℕ
  srcType : NodeType
  srcId : ℕ
  relation : EdgeRelation
  dstType : NodeType
  dstId : ℕ
  state : EdgeState
  source : Option DiscoverySource
  confidence : ℤ
  firstSeenAt : Option ℕ
  lastSeenAt : Option ℕ
  discoveryRunId : Option ℕ
  deriving DecidableEq

/-- The columns of `uq_graph_node_identity`. -/
abbrev Identity : Type := ℕ × NodeType × Str

def GraphNode.identity (n : GraphNode) : Identity := (n.tenantId, n.nodeType, n.canonicalKey)

/-- The columns of `uq_graph_edge_identity`. -/
def GraphEdge.identity (e : GraphEdge) : ℕ × NodeType × ℕ × EdgeRelation × NodeType × ℕ :=
  (e.tenantId, e.srcType, e.srcId, e.relation, e.dstType, e.dstId)

/-- **The graph**, with the next id that is generated. -/
structure Graph where
  nodes : List GraphNode
  edges : List GraphEdge
  nextId : ℕ

/-- What an ingestor is bound to: the tenant, the run, and the clock. -/
structure DbGraphIngestor where
  tenantId : ℕ
  runId : ℕ
  now : ℕ

/-! ### Merging -/

/-- `{**old, **new}`. -/
def mergeDict (old new : Json.Dict) : Json.Dict :=
  old.map (fun e => (e.1, (new.lookup e.1).getD e.2)) ++
    new.filter fun e => (old.lookup e.1).isNone

/-- `_derive_state`. -/
def deriveState (ownershipConfidence : ℤ) (internetReachable hasAsset : Bool) : AssetState :=
  if hasAsset then .active
  else if internetReachable ∧ 60 ≤ ownershipConfidence then .shadow
  else .candidate

/-- `bool(attributes.get("internet_reachable"))`. -/
def internetReachable (attributes : Json.Dict) : Bool :=
  ((Json.get attributes "internet_reachable").map Triage.truthy).getD false

section Ingestor
variable (canon : NodeType → Str → Str) (exposureFor : Json.Dict → ℕ × List Str)
  (ingestor : DbGraphIngestor)

/-- The identity under which an observation is stored. -/
def identityOf (asset : DiscoveredAsset) : Identity :=
  (ingestor.tenantId, asset.nodeType, canon asset.nodeType asset.canonicalKey)

/-- The row of a node that is new. -/
def newNode (asset : DiscoveredAsset) (id : ℕ) : GraphNode where
  id := id
  tenantId := ingestor.tenantId
  nodeType := asset.nodeType
  canonicalKey := canon asset.nodeType asset.canonicalKey
  assetId := none
  metadata := asset.attributes
  confidence := asset.confidence.1
  ownershipConfidence := asset.ownershipConfidence.1
  exposureScore := (exposureFor asset.attributes).1
  exposureRationale := (exposureFor asset.attributes).2
  state := deriveState asset.ownershipConfidence.1 (internetReachable asset.attributes) false
  firstSeenAt := some ingestor.now
  lastSeenAt := some ingestor.now
  discoveryRunId := some ingestor.runId

/-- What an observation is merged into. -/
def mergeNode (asset : DiscoveredAsset) (existing : GraphNode) : GraphNode :=
  let merged := mergeDict existing.metadata asset.attributes
  let own := max existing.ownershipConfidence asset.ownershipConfidence.1
  { existing with
    metadata := merged
    confidence := max existing.confidence asset.confidence.1
    ownershipConfidence := own
    exposureScore := (exposureFor merged).1
    exposureRationale := (exposureFor merged).2
    state :=
      if existing.state ≠ .active ∨ existing.assetId = none then
        deriveState own (internetReachable merged) existing.assetId.isSome
      else existing.state
    lastSeenAt := some ingestor.now
    discoveryRunId := some ingestor.runId }

/-- What an observation makes of the row of its identity. -/
def writeNode (asset : DiscoveredAsset) (id : ℕ) : Option GraphNode → GraphNode
  | none => newNode canon exposureFor ingestor asset id
  | some existing => mergeNode exposureFor ingestor asset existing

/-- **`upsert_node`.** -/
def upsertNode (asset : DiscoveredAsset) (g : Graph) : Graph × ℕ :=
  let k := identityOf canon ingestor asset
  let write := writeNode canon exposureFor ingestor asset g.nextId
  let nodes := amend GraphNode.identity k write g.nodes
  match rowOf GraphNode.identity k g.nodes with
  | none => ({ g with nodes, nextId := g.nextId + 1 }, g.nextId)
  | some existing => ({ g with nodes }, existing.id)

/-- What `link` writes: a new edge, or the edge that is there, seen again. -/
def writeEdge (edge : GraphEdge) : Option GraphEdge → GraphEdge
  | none => edge
  | some existing =>
    { existing with
      state := .active
      lastSeenAt := edge.lastSeenAt
      confidence := max existing.confidence edge.confidence
      discoveryRunId := edge.discoveryRunId }

/-- **`link`.** -/
def link (srcId : ℕ) (asset : DiscoveredAsset) (edge : DiscoveredEdge) (dstId : ℕ) (g : Graph) :
    Graph :=
  let row : GraphEdge :=
    { tenantId := ingestor.tenantId
      srcType := asset.nodeType
      srcId
      relation := edge.relation
      dstType := edge.dstType
      dstId
      state := .active
      source := some asset.source
      confidence := edge.confidence
      firstSeenAt := some ingestor.now
      lastSeenAt := some ingestor.now
      discoveryRunId := some ingestor.runId }
  { g with edges := amend GraphEdge.identity row.identity (writeEdge row) g.edges }

/-! ### Runs -/

/-- A run under way: the graph, and the ids of the nodes that it has resolved. -/
structure Ingestion where
  graph : Graph
  nodeCache : List ((NodeType × Str) × ℕ)

def DiscoveredAsset.cacheKey (asset : DiscoveredAsset) : NodeType × Str :=
  (asset.nodeType, asset.canonicalKey)

/-- **`_resolve`.** -/
def resolve (asset : DiscoveredAsset) (s : Ingestion) : Ingestion × ℕ :=
  match s.nodeCache.lookup asset.cacheKey with
  | some id => (s, id)
  | none =>
    let (graph, id) := upsertNode canon exposureFor ingestor asset s.graph
    (⟨graph, (asset.cacheKey, id) :: s.nodeCache⟩, id)

/-- One round of the loop over the edges. -/
def ingestEdge (asset : DiscoveredAsset) (srcId : ℕ) (s : Ingestion) (edge : DiscoveredEdge) :
    Ingestion :=
  let (s', dstId) :=
    resolve canon exposureFor ingestor (normalize canon (edgeTarget edge asset.source)) s
  { s' with graph := link ingestor srcId asset edge dstId s'.graph }

/-- **`_ingest`.** -/
def ingest (s : Ingestion) (raw : DiscoveredAsset) : Ingestion :=
  let asset := normalize canon raw
  let (s', srcId) := resolve canon exposureFor ingestor asset s
  asset.edges.foldl (ingestEdge canon exposureFor ingestor asset srcId) s'

/-- The evidence of a run, item by item. -/
def ingestAll (evidence : List DiscoveredAsset) (g : Graph) : Graph :=
  (evidence.foldl (ingest canon exposureFor ingestor) ⟨g, []⟩).graph

/-- What `mark_stale_edges` makes of an edge.  An edge without a run is not compared. -/
def markEdge (tenantId runId : ℕ) (e : GraphEdge) : GraphEdge :=
  if e.tenantId = tenantId ∧ e.state = .active ∧ (∃ r ∈ e.discoveryRunId, r ≠ runId) then
    { e with state := .stale }
  else e

/-- **`mark_stale_edges`.** -/
def markStaleEdges (tenantId runId : ℕ) (g : Graph) : Graph :=
  { g with edges := g.edges.map (markEdge tenantId runId) }

end Ingestor

/-! ### What an observation does -/

section Upsert
variable {canon : NodeType → Str → Str} {exposureFor : Json.Dict → ℕ × List Str}
  {ingestor : DbGraphIngestor}

theorem nodes_upsertNode (asset : DiscoveredAsset) (g : Graph) :
    (upsertNode canon exposureFor ingestor asset g).1.nodes =
      amend GraphNode.identity (identityOf canon ingestor asset)
        (writeNode canon exposureFor ingestor asset g.nextId) g.nodes := by
  unfold upsertNode
  dsimp only
  split <;> rfl

/-- **An observation is merged into the row of its identity**, and into no other. -/
theorem rowOf_upsertNode (asset : DiscoveredAsset) (g : Graph) (k : Identity) :
    rowOf GraphNode.identity k (upsertNode canon exposureFor ingestor asset g).1.nodes =
      if k = identityOf canon ingestor asset then
        some (writeNode canon exposureFor ingestor asset g.nextId
          (rowOf GraphNode.identity k g.nodes))
      else rowOf GraphNode.identity k g.nodes := by
  rw [nodes_upsertNode, rowOf_amend]
  · by_cases hk : k = identityOf canon ingestor asset
    · rw [if_pos hk, if_pos hk, hk]
    · rw [if_neg hk, if_neg hk]
  · intro r hr
    cases r with
    | none => rfl
    | some existing => exact hr existing rfl

/-- The observations that a cache lets through: the first one of each key. -/
def firstOfEach (seen : List (NodeType × Str)) : List DiscoveredAsset → List DiscoveredAsset
  | [] => []
  | o :: os =>
    if o.cacheKey ∈ seen then firstOfEach seen os
    else o :: firstOfEach (o.cacheKey :: seen) os

/-- Observations one after the other. -/
def upsertAll (canon : NodeType → Str → Str) (exposureFor : Json.Dict → ℕ × List Str)
    (ingestor : DbGraphIngestor) (os : List DiscoveredAsset) (g : Graph) : Graph :=
  os.foldl (fun g o => (upsertNode canon exposureFor ingestor o g).1) g

/-- Two graphs have the same nodes. -/
def SameNodes (g g' : Graph) : Prop := g.nodes = g'.nodes ∧ g.nextId = g'.nextId

theorem SameNodes.upsertNode {g g' : Graph} (h : SameNodes g g') (o : DiscoveredAsset) :
    SameNodes (upsertNode canon exposureFor ingestor o g).1
      (upsertNode canon exposureFor ingestor o g').1 := by
  unfold Discovery.upsertNode
  rw [h.1, h.2]
  dsimp only
  split <;> exact ⟨rfl, rfl⟩

/-- What a cache lets through, and what is in it afterwards. -/
structure Through (canon : NodeType → Str → Str) (exposureFor : Json.Dict → ℕ × List Str)
    (ingestor : DbGraphIngestor) (s s' : Ingestion) (os : List DiscoveredAsset) : Prop where
  nodes : SameNodes s'.graph
    (upsertAll canon exposureFor ingestor (firstOfEach (s.nodeCache.map Prod.fst) os) s.graph)
  cache : ∀ rest, firstOfEach (s.nodeCache.map Prod.fst) (os ++ rest) =
    firstOfEach (s.nodeCache.map Prod.fst) os ++ firstOfEach (s'.nodeCache.map Prod.fst) rest

theorem SameNodes.upsertAll {g g' : Graph} (h : SameNodes g g') (os : List DiscoveredAsset) :
    SameNodes (upsertAll canon exposureFor ingestor os g)
      (upsertAll canon exposureFor ingestor os g') := by
  induction os generalizing g g' with
  | nil => exact h
  | cons o os ih => exact ih (h.upsertNode o)

theorem SameNodes.trans {g g' g'' : Graph} (h : SameNodes g g') (h' : SameNodes g' g'') :
    SameNodes g g'' :=
  ⟨h.1.trans h'.1, h.2.trans h'.2⟩

theorem Through.trans {s s' s'' : Ingestion} {os os' : List DiscoveredAsset}
    (h : Through canon exposureFor ingestor s s' os)
    (h' : Through canon exposureFor ingestor s' s'' os') :
    Through canon exposureFor ingestor s s'' (os ++ os') := by
  refine ⟨?_, fun rest => ?_⟩
  · rw [h.cache, upsertAll, foldl_append]
    exact h'.nodes.trans (h.nodes.upsertAll _)
  · rw [append_assoc, h.cache, h'.cache, h.cache os', append_assoc]

/-- **Resolving lets one observation through**, or finds it in the cache. -/
theorem through_resolve (o : DiscoveredAsset) (s : Ingestion) :
    Through canon exposureFor ingestor s (resolve canon exposureFor ingestor o s).1 [o] := by
  unfold resolve
  rcases hlookup : s.nodeCache.lookup o.cacheKey with _ | id
  · have hnot : o.cacheKey ∉ s.nodeCache.map Prod.fst := by
      rw [lookup_eq_none_iff] at hlookup
      intro hmem
      obtain ⟨e, he, hkey⟩ := mem_map.mp hmem
      simpa [hkey] using hlookup e he
    refine ⟨?_, fun rest => ?_⟩
    · rw [firstOfEach, if_neg hnot]
      exact ⟨rfl, rfl⟩
    · rw [singleton_append, firstOfEach, if_neg hnot, firstOfEach, if_neg hnot]
      rfl
  · have hmem : o.cacheKey ∈ s.nodeCache.map Prod.fst := by
      by_contra hnot
      have : s.nodeCache.lookup o.cacheKey = none := by
        rw [lookup_eq_none_iff]
        intro e he
        have : o.cacheKey ≠ e.1 := fun h => hnot (h ▸ mem_map_of_mem he)
        simpa using this
      rw [hlookup] at this
      cases this
    refine ⟨?_, fun rest => ?_⟩
    · rw [firstOfEach, if_pos hmem]
      exact ⟨rfl, rfl⟩
    · rw [singleton_append, firstOfEach, if_pos hmem, firstOfEach, if_pos hmem]
      rfl

theorem through_ingestEdge (asset : DiscoveredAsset) (srcId : ℕ) (edge : DiscoveredEdge)
    (s : Ingestion) :
    Through canon exposureFor ingestor s (ingestEdge canon exposureFor ingestor asset srcId s edge)
      [normalize canon (edgeTarget edge asset.source)] := by
  have h : Through canon exposureFor ingestor s
      (resolve canon exposureFor ingestor (normalize canon (edgeTarget edge asset.source)) s).1
      [normalize canon (edgeTarget edge asset.source)] := through_resolve _ s
  exact ⟨h.nodes, h.cache⟩

theorem through_ingest (raw : DiscoveredAsset) (s : Ingestion) :
    Through canon exposureFor ingestor s (ingest canon exposureFor ingestor s raw)
      (observed canon raw) := by
  have hedges : ∀ (srcId : ℕ) (edges : List DiscoveredEdge) (s : Ingestion),
      Through canon exposureFor ingestor s
        (edges.foldl (ingestEdge canon exposureFor ingestor (normalize canon raw) srcId) s)
        (edges.map fun e => normalize canon (edgeTarget e (normalize canon raw).source)) := by
    intro srcId edges
    induction edges with
    | nil =>
      intro s
      exact ⟨⟨rfl, rfl⟩, fun rest => rfl⟩
    | cons e es ih =>
      intro s
      exact (through_ingestEdge (normalize canon raw) srcId e s).trans (ih _)
  exact (through_resolve (normalize canon raw) s).trans (hedges _ _ _)

/-- **The nodes after a run** are those after the observations that its cache lets through. -/
theorem nodes_ingestAll (evidence : List DiscoveredAsset) (g : Graph) :
    SameNodes (ingestAll canon exposureFor ingestor evidence g)
      (upsertAll canon exposureFor ingestor
        (firstOfEach [] (evidence.flatMap (observed canon))) g) := by
  have hall : ∀ (evidence : List DiscoveredAsset) (s : Ingestion),
      Through canon exposureFor ingestor s (evidence.foldl (ingest canon exposureFor ingestor) s)
        (evidence.flatMap (observed canon)) := by
    intro evidence
    induction evidence with
    | nil =>
      intro s
      exact ⟨⟨rfl, rfl⟩, fun rest => rfl⟩
    | cons raw evidence ih =>
      intro s
      rw [flatMap_cons]
      exact (through_ingest raw s).trans (ih _)
  exact (hall evidence ⟨g, []⟩).nodes

end Upsert

end Guardian.Discovery

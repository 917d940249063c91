import Guardian.AttackGraph.Chokepoint
import Mathlib.Algebra.Ring.Int.Defs

/-!
# The blast radius

A breadth-first search collects the nodes that a node reaches.  Its result, the exposure paths and
the chokepoints are read from sorted lists only (`analysis_perm`).
-/

namespace Guardian.AttackGraph

open Python Guardian.Order

/-- `ReachResult`. -/
structure ReachResult where
  nodeIds : List Str
  truncated : Bool
  deriving DecidableEq

/-- `BlastRadius`. -/
structure BlastRadius where
  rootId : Str
  rootKey : Str
  affectedNodes : ℕ
  sensitiveNodes : ℕ
  exposurePaths : ℕ
  weightedImpact : ℤ
  affectedIds : List Str
  sensitiveIds : List Str
  truncated : Bool
  deriving DecidableEq

/-- The variables of the loops of `reachable_from`. -/
structure Spread where
  visited : List Str
  order : List Str
  queue : List (Str × ℤ)
  truncated : Bool

section Loops
variable (adj : Str → List Str) (limits : Limits)

/-- **The inner loop of `reachable_from`** over the neighbours of a node. -/
def spreadTo (depth : ℤ) : List Str → Spread → Spread
  | [], st => st
  | nb :: nbs, st =>
    if nb ∈ st.visited then spreadTo depth nbs st
    else
      let st' := { st with
        visited := nb :: st.visited
        order := st.order ++ [nb]
        queue := st.queue ++ [(nb, depth + 1)] }
      if limits.maxNodes ≤ (st'.order.length : ℤ) then { st' with truncated := true }
      else spreadTo depth nbs st'

/-- **The outer loop of `reachable_from`**: the number is that of the nodes it may still take off the
queue. -/
def spread : ℕ → Spread → Spread
  | 0, st => if st.queue = [] then st else { st with truncated := true }
  | left + 1, st =>
    match st.queue with
    | [] => st
    | (node, depth) :: queue =>
      let st := { st with queue := queue }
      if limits.maxDepth ≤ depth then spread left st
      else
        let st' := spreadTo limits depth (adj node) st
        if st'.truncated then st' else spread left st'

end Loops

/-- **`reachable_from`.** -/
def reachableFrom (nodes : List NodeView) (edges : List EdgeView) (limits : Limits) (srcId : Str) :
    ReachResult :=
  let byId := index nodes
  if (byId srcId).isNone then ⟨[], false⟩
  else
    let st := spread (buildAdjacency nodes edges) limits limits.maxNodes.toNat
      ⟨[srcId], [], [(srcId, 0)], false⟩
    { nodeIds := sortBy (keyAt byId) st.order
      truncated := st.truncated }

/-- **`blast_radius`.** -/
def blastRadius (nodes : List NodeView) (edges : List EdgeView) (limits : Limits) (rootId : Str) :
    BlastRadius :=
  let byId := index nodes
  match byId rootId with
  | none => ⟨rootId, [], 0, 0, 0, 0, [], [], false⟩
  | some root =>
    let reach := reachableFrom nodes edges limits rootId
    let sensitive := reach.nodeIds.filter fun i => (byId i).any isSensitive
    let paths := AttackGraph.exposurePaths nodes edges limits
    { rootId := rootId
      rootKey := root.canonicalKey
      affectedNodes := reach.nodeIds.length
      sensitiveNodes := sensitive.length
      exposurePaths := (paths.paths.filter (rootId ∈ ·.nodeIds)).length
      weightedImpact := (reach.nodeIds.map fun i => ((byId i).map (·.exposureScore)).getD 0).sum
      affectedIds := reach.nodeIds
      sensitiveIds := sensitive
      truncated := reach.truncated || paths.truncated }

/-! ### The order of the nodes and edges -/

section Order
variable {nodes nodes' : List NodeView} {edges edges' : List EdgeView}
  (hids : (nodes.map (·.id)).Nodup) (hn : nodes.Perm nodes') (he : edges.Perm edges')

include hids hn he

theorem exposurePaths_perm (limits : Limits) :
    exposurePaths nodes edges limits = exposurePaths nodes' edges' limits := by
  rw [exposurePaths, exposurePaths, buildAdjacency_perm hids hn he, index_perm hids hn,
    sensitiveIds_perm hids hn, entryIds_perm hids hn]

theorem reachableFrom_perm (limits : Limits) (srcId : Str) :
    reachableFrom nodes edges limits srcId = reachableFrom nodes' edges' limits srcId := by
  rw [reachableFrom, reachableFrom, buildAdjacency_perm hids hn he, index_perm hids hn]

theorem blastRadius_perm (limits : Limits) (rootId : Str) :
    blastRadius nodes edges limits rootId = blastRadius nodes' edges' limits rootId := by
  rw [blastRadius, blastRadius, reachableFrom_perm hids hn he, exposurePaths_perm hids hn he,
    index_perm hids hn]

theorem chokepoints_perm (limits : Limits) (top : ℤ) :
    chokepoints nodes edges limits top = chokepoints nodes' edges' limits top := by
  rw [chokepoints, chokepoints, exposurePaths_perm hids hn he, index_perm hids hn]

/-- **The analysis does not depend on the order of the nodes and edges**, whether or not it was cut
off. -/
theorem analysis_perm (limits : Limits) :
    exposurePaths nodes edges limits = exposurePaths nodes' edges' limits ∧
    (∀ rootId, blastRadius nodes edges limits rootId = blastRadius nodes' edges' limits rootId) ∧
    ∀ top, chokepoints nodes edges limits top = chokepoints nodes' edges' limits top :=
  ⟨exposurePaths_perm hids hn he limits, blastRadius_perm hids hn he limits,
    chokepoints_perm hids hn he limits⟩

end Order

/-- The gateway's graph, read the other way round and cut off after one path. -/
theorem analysis_perm_gateway :
    let limits : Limits := { maxPaths := 1 }
    (exposurePaths gatewayNodes gatewayEdges limits).truncated = true ∧
    exposurePaths gatewayNodes gatewayEdges limits =
      exposurePaths gatewayNodes.reverse gatewayEdges.reverse limits ∧
    (∀ rootId, blastRadius gatewayNodes gatewayEdges limits rootId =
      blastRadius gatewayNodes.reverse gatewayEdges.reverse limits rootId) ∧
    ∀ top, chokepoints gatewayNodes gatewayEdges limits top =
      chokepoints gatewayNodes.reverse gatewayEdges.reverse limits top :=
  ⟨by decide, analysis_perm (by decide) (List.reverse_perm _).symm
    (List.reverse_perm _).symm _⟩

end Guardian.AttackGraph

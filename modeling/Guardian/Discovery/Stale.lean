import Guardian.Discovery.Ingestor
import Guardian.Transition.Run

/-!
# Edges that were not observed again

A run looks at one scope of the tenant, and at its end every active edge of the tenant that another
run was the last to observe is marked stale.  `along_sweepsWithin_iff` says when these are edges of
its scope.
-/

namespace Guardian.Discovery

open Python Guardian.Order Transition List

/-! ### Runs and scopes -/

/-- `DiscoveryRun`. -/
structure DiscoveryRun where
  id : ℕ
  tenantId : ℕ
  customerId : Option ℕ
  scopeId : Option ℕ
  seeds : Json.Dict

/-- What a run covers: a customer, and the scope that it was started for or else targets of its
own. -/
def DiscoveryRun.scope (run : DiscoveryRun) : Option ℕ × (ℕ ⊕ Json.Dict) :=
  (run.customerId, run.scopeId.elim (.inr run.seeds) .inl)

/-- The identity of a relation that an enricher derives. -/
structure InferredLink where
  srcType : NodeType
  srcId : ℕ
  relation : EdgeRelation
  dstType : NodeType
  dstId : ℕ

/-- What an enricher writes: an edge without a run, or the edge that is there, active again. -/
def writeInferred (tenantId now : ℕ) (link : InferredLink) : Option GraphEdge → GraphEdge
  | none =>
    { tenantId
      srcType := link.srcType
      srcId := link.srcId
      relation := link.relation
      dstType := link.dstType
      dstId := link.dstId
      state := .active
      source := some .inferred
      confidence := 100
      firstSeenAt := some now
      lastSeenAt := some now
      discoveryRunId := none }
  | some existing => { existing with state := .active, lastSeenAt := some now }

/-- `_upsert_contains` and `_upsert_edge`, as far as the edge is concerned. -/
def inferEdge (tenantId now : ℕ) (g : Graph) (link : InferredLink) : Graph :=
  let write := writeInferred tenantId now link
  { g with edges := amend GraphEdge.identity (write none).identity write g.edges }

/-! ### Histories -/

/-- The runs that there are, and the graph. -/
structure World where
  runs : List DiscoveryRun
  graph : Graph

/-- What happens: a run is created, it is carried out, a tool that does not sweep ingests what it
found as a run of its own, an enricher derives edges. -/
inductive Event
  | create (run : DiscoveryRun)
  | discover (runId now : ℕ) (evidence : List DiscoveredAsset) (netblocks : List InferredLink)
  | tool (run : DiscoveryRun) (now : ℕ) (evidence : List DiscoveredAsset)
  | enrich (tenantId now : ℕ) (links : List InferredLink)

def World.run (w : World) (runId : ℕ) : Option DiscoveryRun := rowOf DiscoveryRun.id runId w.runs

section Step
variable (canon : NodeType → Str → Str) (exposureFor : Json.Dict → ℕ × List Str)

/-- The graph after the evidence of a run, before the sweep. -/
def ingested (run : DiscoveryRun) (now : ℕ) (evidence : List DiscoveredAsset) (g : Graph) : Graph :=
  ingestAll canon exposureFor ⟨run.tenantId, run.id, now⟩ evidence g

/-- **`run_discovery`**, from the evidence that came back. -/
def runDiscovery (run : DiscoveryRun) (now : ℕ) (evidence : List DiscoveredAsset)
    (netblocks : List InferredLink) (g : Graph) : Graph :=
  netblocks.foldl (inferEdge run.tenantId now)
    (markStaleEdges run.tenantId run.id (ingested canon exposureFor run now evidence g))

/-- **A step.** -/
def step (w : World) : Event → World
  | .create run =>
    match w.run run.id with
    | none => { w with runs := run :: w.runs }
    | some _ => w
  | .discover runId now evidence netblocks =>
    match w.run runId with
    | none => w
    | some run =>
      { w with graph := runDiscovery canon exposureFor run now evidence netblocks w.graph }
  | .tool run now evidence =>
    match w.run run.id with
    | none => ⟨run :: w.runs, ingested canon exposureFor run now evidence w.graph⟩
    | some _ => w
  | .enrich tenantId now links => { w with graph := links.foldl (inferEdge tenantId now) w.graph }

end Step

/-! ### What is known of edges -/

section Edges
variable {canon : NodeType → Str → Str} {exposureFor : Json.Dict → ℕ × List Str}
  {ingestor : DbGraphIngestor} {Q : GraphEdge → Prop}

theorem edges_resolve (o : DiscoveredAsset) (s : Ingestion) :
    (resolve canon exposureFor ingestor o s).1.graph.edges = s.graph.edges := by
  unfold resolve
  split
  · rfl
  · dsimp only [upsertNode]
    split <;> rfl

/-- **After the evidence of a run** all edges have a property that the edges before had, and that
whatever the run has observed has. -/
theorem forall_edges_ingestAll (evidence : List DiscoveredAsset) {g : Graph}
    (hg : ∀ e ∈ g.edges, Q e)
    (hnew : ∀ e : GraphEdge, e.tenantId = ingestor.tenantId →
      e.discoveryRunId = some ingestor.runId → Q e) :
    ∀ e ∈ (ingestAll canon exposureFor ingestor evidence g).edges, Q e := by
  have hlink : ∀ (srcId : ℕ) (asset : DiscoveredAsset) (edge : DiscoveredEdge) (dstId : ℕ)
      (g : Graph), (∀ e ∈ g.edges, Q e) → ∀ e ∈ (link ingestor srcId asset edge dstId g).edges,
        Q e := by
    intro srcId asset edge dstId g hg e he
    rcases mem_amend he with he | ⟨r, hr, rfl⟩
    · exact hg e he
    · cases r with
      | none => exact hnew _ rfl rfl
      | some existing => exact hnew _ (congrArg Prod.fst (hr existing rfl).2) rfl
  have hresolved : ∀ (o : DiscoveredAsset) (s : Ingestion), (∀ e ∈ s.graph.edges, Q e) →
      ∀ e ∈ (resolve canon exposureFor ingestor o s).1.graph.edges, Q e := by
    intro o s hs
    rwa [edges_resolve]
  have hedge : ∀ (asset : DiscoveredAsset) (srcId : ℕ) (edges : List DiscoveredEdge)
      (s : Ingestion), (∀ e ∈ s.graph.edges, Q e) →
        ∀ e ∈ (edges.foldl (ingestEdge canon exposureFor ingestor asset srcId) s).graph.edges,
          Q e := by
    intro asset srcId edges
    induction edges with
    | nil => exact fun s hs => hs
    | cons edge edges ih =>
      intro s hs
      exact ih _ (hlink _ _ _ _ _ (hresolved (normalize canon (edgeTarget edge asset.source)) s hs))
  have hall : ∀ (evidence : List DiscoveredAsset) (s : Ingestion), (∀ e ∈ s.graph.edges, Q e) →
      ∀ e ∈ (evidence.foldl (ingest canon exposureFor ingestor) s).graph.edges, Q e := by
    intro evidence
    induction evidence with
    | nil => exact fun s hs => hs
    | cons raw evidence ih =>
      intro s hs
      exact ih _ (hedge _ _ _ _ (hresolved (normalize canon raw) s hs))
  exact hall evidence ⟨g, []⟩ hg

/-- **After an enrichment** all edges have a property that derived edges have, and that the edge
keeps when it is active again. -/
theorem forall_edges_inferred (tenantId now : ℕ) (links : List InferredLink) {g : Graph}
    (hg : ∀ e ∈ g.edges, Q e) (hnone : ∀ link, Q (writeInferred tenantId now link none))
    (hsome : ∀ link e, Q e → Q (writeInferred tenantId now link (some e))) :
    ∀ e ∈ (links.foldl (inferEdge tenantId now) g).edges, Q e := by
  induction links generalizing g with
  | nil => exact hg
  | cons l links ih =>
    refine ih fun e he => ?_
    rcases mem_amend he with he | ⟨r, hr, rfl⟩
    · exact hg e he
    · cases r with
      | none => exact hnone l
      | some existing => exact hsome l existing (hg existing (hr existing rfl).1)

end Edges

/-! ### The sweep -/

theorem markEdge_ne {tenantId runId : ℕ} {e : GraphEdge} (h : markEdge tenantId runId e ≠ e) :
    e.tenantId = tenantId ∧ e.state = .active ∧ ∃ r ∈ e.discoveryRunId, r ≠ runId := by
  by_contra hnot
  exact h (if_neg hnot)

theorem markEdge_eq_iff {tenantId runId : ℕ} {e : GraphEdge} :
    markEdge tenantId runId e = e ↔
      ¬ (e.tenantId = tenantId ∧ e.state = .active ∧ ∃ r ∈ e.discoveryRunId, r ≠ runId) := by
  constructor
  · intro h hmarked
    have hstale := congrArg GraphEdge.state h
    rw [markEdge, if_pos hmarked, hmarked.2.1] at hstale
    cases hstale
  · exact fun h => if_neg h

/-- A run was the last to observe an edge. -/
def LastSeenBy (e : GraphEdge) (run : DiscoveryRun) : Prop := e.discoveryRunId = some run.id

section Histories
variable (canon : NodeType → Str → Str) (exposureFor : Json.Dict → ℕ × List Str)

/-- **A run keeps to its scope**: whatever the sweep changes was last seen in the scope of the run,
and an edge that was last seen in another one stays as it is. -/
structure KeepsToScope (runs : List DiscoveryRun) (run : DiscoveryRun) (g : Graph) : Prop where
  changed : ∀ e ∈ g.edges, markEdge run.tenantId run.id e ≠ e →
    ∃ other ∈ runs, LastSeenBy e other ∧ other.scope = run.scope
  elsewhere : ∀ e ∈ g.edges, ∀ other ∈ runs, LastSeenBy e other → other.scope ≠ run.scope →
    markEdge run.tenantId run.id e = e

/-- Every run that is carried out keeps to its scope. -/
def SweepsWithin (w : World) (e : Event) : Prop :=
  ∀ runId now evidence netblocks, e = .discover runId now evidence netblocks →
    ∀ run ∈ w.run runId,
      KeepsToScope w.runs run (ingested canon exposureFor run now evidence w.graph)

/-- **The run leaves no active edge of another scope behind**: of the active edges of the tenant,
each one that a run of another scope was the last to observe is observed again. -/
def LeavesNoOther (w : World) (e : Event) : Prop :=
  ∀ runId now evidence netblocks, e = .discover runId now evidence netblocks →
    ∀ run ∈ w.run runId, ∀ edge ∈ (ingested canon exposureFor run now evidence w.graph).edges,
      edge.tenantId = run.tenantId → edge.state = .active →
        ∀ other ∈ w.runs, LastSeenBy edge other → other.scope = run.scope

/-- **Every edge was observed by a run that there is**, and ids tell the runs apart. -/
structure Registered (w : World) : Prop where
  ids : ∀ r ∈ w.runs, ∀ r' ∈ w.runs, r.id = r'.id → r = r'
  seen : ∀ e ∈ w.graph.edges, e.discoveryRunId = none ∨ ∃ run ∈ w.runs, LastSeenBy e run

variable {canon exposureFor}

theorem keepsToScope_iff {runs : List DiscoveryRun} {run : DiscoveryRun} {g : Graph}
    (hrun : run ∈ runs) (hids : ∀ r ∈ runs, ∀ r' ∈ runs, r.id = r'.id → r = r')
    (hseen : ∀ e ∈ g.edges, e.discoveryRunId = none ∨ ∃ run ∈ runs, LastSeenBy e run) :
    KeepsToScope runs run g ↔ ∀ edge ∈ g.edges, edge.tenantId = run.tenantId →
      edge.state = .active → ∀ other ∈ runs, LastSeenBy edge other → other.scope = run.scope := by
  constructor
  · intro h e he htenant hactive other hother hlast
    by_contra hscope
    have hstays := h.elsewhere e he other hother hlast hscope
    refine markEdge_eq_iff.mp hstays ⟨htenant, hactive, other.id, hlast, fun hid => hscope ?_⟩
    rw [hids other hother run hrun hid]
  · intro h
    refine ⟨fun e he hne => ?_, fun e he other hother hlast hscope => ?_⟩
    · obtain ⟨htenant, hactive, r, hr, -⟩ := markEdge_ne hne
      rcases hseen e he with hnone | ⟨other, hother, hlast⟩
      · rw [hnone] at hr
        cases hr
      · exact ⟨other, hother, hlast, h e he htenant hactive other hother hlast⟩
    · by_contra hne
      obtain ⟨htenant, hactive, -⟩ := markEdge_ne hne
      exact hscope (h e he htenant hactive other hother hlast)

theorem of_run {w : World} {runId : ℕ} {run : DiscoveryRun} (h : run ∈ w.run runId) :
    run ∈ w.runs ∧ run.id = runId :=
  of_rowOf h

theorem Registered.ingested {w : World} (h : Registered w) {run : DiscoveryRun}
    {runs : List DiscoveryRun} (hrun : run ∈ runs) (hsub : w.runs ⊆ runs) (now : ℕ)
    (evidence : List DiscoveredAsset) :
    ∀ e ∈ (ingested canon exposureFor run now evidence w.graph).edges,
      e.discoveryRunId = none ∨ ∃ run ∈ runs, LastSeenBy e run := by
  refine forall_edges_ingestAll evidence (fun e he => ?_) fun e _ hlast => Or.inr ⟨run, hrun, hlast⟩
  exact (h.seen e he).imp_right fun ⟨r, hr, hlast⟩ => ⟨r, hsub hr, hlast⟩

theorem Registered.cons {w : World} (h : Registered w) {run : DiscoveryRun}
    (hnew : w.run run.id = none) :
    ∀ r ∈ run :: w.runs, ∀ r' ∈ run :: w.runs, r.id = r'.id → r = r' := by
  have hfresh : ∀ r ∈ w.runs, r.id ≠ run.id := fun r hr => by
    simpa using find?_eq_none.mp hnew r hr
  intro r hr r' hr' hid
  rcases mem_cons.mp hr with hrun | hold <;> rcases mem_cons.mp hr' with hrun' | hold'
  · rw [hrun, hrun']
  · exact absurd hid.symm (hrun ▸ hfresh r' hold')
  · exact absurd hid (hrun' ▸ hfresh r hold)
  · exact h.ids r hold r' hold' hid

theorem seen_inferred {runs : List DiscoveryRun} {g : Graph}
    (h : ∀ e ∈ g.edges, e.discoveryRunId = none ∨ ∃ run ∈ runs, LastSeenBy e run)
    (tenantId now : ℕ) (links : List InferredLink) :
    ∀ e ∈ (links.foldl (inferEdge tenantId now) g).edges,
      e.discoveryRunId = none ∨ ∃ run ∈ runs, LastSeenBy e run :=
  forall_edges_inferred tenantId now links h (fun _ => Or.inl rfl) fun _ _ he => he

/-- **Every step keeps the edges registered.** -/
theorem Registered.step {w : World} (h : Registered w) (e : Event) :
    Registered (step canon exposureFor w e) := by
  cases e with
  | create run =>
    rw [Discovery.step]
    split
    · rename_i hnew
      exact ⟨h.cons hnew, fun e he => (h.seen e he).imp_right fun ⟨r, hr, hlast⟩ =>
        ⟨r, mem_cons_of_mem _ hr, hlast⟩⟩
    · exact h
  | discover runId now evidence netblocks =>
    rw [Discovery.step]
    split
    · exact h
    · rename_i run hrun
      refine ⟨h.ids, seen_inferred (fun e he => ?_) _ _ _⟩
      obtain ⟨e', he', rfl⟩ := mem_map.mp he
      have hseen := h.ingested (of_run hrun).1 (List.Subset.refl _) now evidence e' he'
      unfold markEdge
      split
      · exact hseen
      · exact hseen
  | tool run now evidence =>
    rw [Discovery.step]
    split
    · rename_i hnew
      exact ⟨h.cons hnew, h.ingested mem_cons_self (subset_cons_self _ _) now evidence⟩
    · exact h
  | enrich tenantId now links => exact ⟨h.ids, seen_inferred h.seen tenantId now links⟩

/-- **In a history every run keeps to its scope** if and only if every run leaves no active edge of
another scope behind. -/
theorem along_sweepsWithin_iff {w : World} (h : Registered w) (es : List Event) :
    Along (step canon exposureFor) (SweepsWithin canon exposureFor) w es ↔
      Along (step canon exposureFor) (LeavesNoOther canon exposureFor) w es := by
  refine along_iff (I := Registered) (fun w e hw => ?_) (fun w e hw _ => hw.step e) h es
  unfold SweepsWithin LeavesNoOther
  refine forall_congr' fun runId => forall_congr' fun now => forall_congr' fun evidence =>
    forall_congr' fun netblocks => forall_congr' fun he => forall_congr' fun run =>
    forall_congr' fun hrun => ?_
  have hmem := (of_run hrun).1
  exact keepsToScope_iff hmem hw.ids (hw.ingested hmem (List.Subset.refl _) now evidence)

end Histories

section Sample

/-- The run of a customer over a scope of its own. -/
def runOfCustomer (n : ℕ) : DiscoveryRun := ⟨n, 0, some n, some n, []⟩

/-- A subdomain, and the address that it resolves to. -/
def resolvesSample (host address : Str) : DiscoveredAsset where
  nodeType := .subdomain
  canonicalKey := host
  source := .dnsResolver
  confidence := clamp 90
  ownershipConfidence := clamp 90
  attributes := []
  edges := [⟨.resolvesTo, .ipAddress, address, 90⟩]

/-- A tenant of two customers: a run for the one, then a run for the other. -/
def twoCustomers : List Event :=
  [.create (runOfCustomer 1), .create (runOfCustomer 2),
    .discover 1 0 [resolvesSample "www.example.com" "192.0.2.1"] [],
    .discover 2 1 [resolvesSample "www.example.org" "192.0.2.2"] []]

/-- The steps, with keys that are canonical and nothing exposed. -/
def stepSample : World → Event → World := step (fun _ key => key) fun _ => (0, [])

theorem along_sweepsWithin_iff_sample :
    Along stepSample (SweepsWithin (fun _ key => key) fun _ => (0, [])) ⟨[], [], [], 0⟩
      (twoCustomers.take 3) := by
  have hempty : Registered ⟨[], [], [], 0⟩ :=
    ⟨fun r hr => absurd hr not_mem_nil, fun e he => absurd he not_mem_nil⟩
  refine (along_sweepsWithin_iff hempty _).mpr ⟨?_, ?_, ?_, trivial⟩
  · rintro runId now evidence netblocks he
    cases he
  · rintro runId now evidence netblocks he
    cases he
  · rintro runId now evidence netblocks he run hrun edge hedge - - other hother hlast
    cases he
    have hseen : ∀ edge ∈ (ingested (fun _ key => key) (fun _ => (0, [])) (runOfCustomer 1) 0
        [resolvesSample "www.example.com" "192.0.2.1"] ⟨[], [], 0⟩).edges,
        edge.discoveryRunId = some 1 := by
      decide
    cases hrun
    have hid := (hseen edge hedge).symm.trans hlast
    rcases mem_cons.mp hother with rfl | hother
    · cases hid
    · rcases mem_cons.mp hother with rfl | hother
      · rfl
      · cases hother

/-- **A run for another customer** marks the edge of the first one stale. -/
theorem twoCustomers_not_within :
    ¬ Along stepSample (SweepsWithin (fun _ key => key) fun _ => (0, [])) ⟨[], [], [], 0⟩
      twoCustomers := by
  rintro ⟨-, -, -, hlast, -⟩
  have hkeeps := hlast 2 1 _ _ rfl (runOfCustomer 2) rfl
  have hstays := hkeeps.elsewhere _ (mem_of_getElem? (i := 0) rfl) (runOfCustomer 1)
    (mem_of_getElem? (i := 1) rfl) rfl (fun h => by cases h)
  exact absurd hstays (by decide)

end Sample

end Guardian.Discovery

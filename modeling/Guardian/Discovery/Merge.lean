import Guardian.Discovery.Ingestor
import Guardian.Order.Overlay

/-!
# What a run makes of its observations

The merge policy takes the later value of an attribute and the stronger of two confidences.  A run
resolves a node once and keeps its id, so only the first observation of a key reaches the row.
`mergesAll_iff` says when that is enough.
-/

namespace Guardian.Discovery

open Python Guardian.Order List

/-! ### The merge policy -/

/-- What is shown of an identity: its attributes, and how sure they are. -/
@[ext]
structure Shown where
  attributes : Str → Option Json
  confidence : Option ℤ
  ownershipConfidence : Option ℤ

/-- An identity that was not observed. -/
def Shown.nothing : Shown := ⟨fun _ => none, none, none⟩

/-- The stronger of two confidences. -/
def strongest (known : Option ℤ) (n : ℤ) : Option ℤ := some (known.elim n (max · n))

/-- **An observation merged into what is known.** -/
def absorb (known : Shown) (o : DiscoveredAsset) : Shown where
  attributes a := (o.attributes.lookup a).or (known.attributes a)
  confidence := strongest known.confidence o.confidence.1
  ownershipConfidence := strongest known.ownershipConfidence o.ownershipConfidence.1

/-- The merge of observations, one after the other. -/
def mergeOf (known : Shown) (os : List DiscoveredAsset) : Shown := os.foldl absorb known

def GraphNode.shown (n : GraphNode) : Shown :=
  ⟨fun a => n.metadata.lookup a, some n.confidence, some n.ownershipConfidence⟩

def shownAt (k : Identity) (g : Graph) : Shown :=
  (rowOf GraphNode.identity k g.nodes).elim Shown.nothing GraphNode.shown

/-- An observation has something to say of an attribute. -/
def carries (a : Str) (o : DiscoveredAsset) : Bool := (o.attributes.lookup a).isSome

theorem attributes_mergeOf (known : Shown) (os : List DiscoveredAsset) (a : Str) :
    (mergeOf known os).attributes a =
      (latest (carries a) os).elim (known.attributes a) (·.attributes.lookup a) := by
  induction os using reverseRecOn with
  | nil => rfl
  | append_singleton os o ih =>
    rw [mergeOf, foldl_concat, latest_concat]
    change (o.attributes.lookup a).or ((mergeOf known os).attributes a) = _
    rw [ih]
    rcases h : o.attributes.lookup a with _ | v <;> simp [carries, h]

/-- A confidence is no higher than what is known. -/
def Below (c : ℤ) (known : Option ℤ) : Prop := ∃ d ∈ known, c ≤ d

theorem below_strongest {c : ℤ} {known : Option ℤ} {n : ℤ} :
    Below c (strongest known n) ↔ Below c known ∨ c ≤ n := by
  cases known <;> simp [Below, strongest]

theorem eq_iff_below {known known' : Option ℤ} :
    known = known' ↔ ∀ c, Below c known ↔ Below c known' := by
  refine ⟨fun h c => by rw [h], fun h => ?_⟩
  rcases known with _ | d <;> rcases known' with _ | d'
  · rfl
  · simpa [Below] using (h d').mpr ⟨d', rfl, le_rfl⟩
  · simpa [Below] using (h d).mp ⟨d, rfl, le_rfl⟩
  · have hle : d ≤ d' := by simpa [Below] using (h d).mp ⟨d, rfl, le_rfl⟩
    have hge : d' ≤ d := by simpa [Below] using (h d').mpr ⟨d', rfl, le_rfl⟩
    rw [le_antisymm hle hge]

/-- A confidence of the merge is the strongest of what was known and of the observations. -/
theorem below_mergeOf {f : Shown → Option ℤ} {g : DiscoveredAsset → ℤ}
    (hf : ∀ known o, f (absorb known o) = strongest (f known) (g o)) (known : Shown)
    (os : List DiscoveredAsset) (c : ℤ) :
    Below c (f (mergeOf known os)) ↔ Below c (f known) ∨ ∃ o ∈ os, c ≤ g o := by
  induction os generalizing known with
  | nil => simp [mergeOf]
  | cons o os ih =>
    change Below c (f (mergeOf (absorb known o) os)) ↔ _
    rw [ih, hf]
    simp [below_strongest, or_assoc]

theorem below_passed_iff {known : Option ℤ} {f : DiscoveredAsset → ℤ}
    {all passed : List DiscoveredAsset} (hsub : passed ⊆ all) :
    (∀ c, (Below c known ∨ ∃ o ∈ passed, c ≤ f o) ↔ (Below c known ∨ ∃ o ∈ all, c ≤ f o)) ↔
      ∀ o ∈ all, Below (f o) known ∨ ∃ p ∈ passed, f o ≤ f p := by
  constructor
  · exact fun h o ho => (h (f o)).mpr (Or.inr ⟨o, ho, le_rfl⟩)
  · intro h c
    constructor
    · exact Or.imp_right fun ⟨o, ho, hle⟩ => ⟨o, hsub ho, hle⟩
    · rintro (hknown | ⟨o, ho, hle⟩)
      · exact Or.inl hknown
      · rcases h o ho with ⟨d, hd, hod⟩ | ⟨p, hp, hop⟩
        · exact Or.inl ⟨d, hd, hle.trans hod⟩
        · exact Or.inr ⟨p, hp, hle.trans hop⟩

/-- **What is passed on says as much as all**: no observation is surer than what is known and what
is passed on, and the latest one to carry an attribute agrees with the latest one passed on. -/
structure Conveys (known : Shown) (all passed : List DiscoveredAsset) : Prop where
  confidence : ∀ o ∈ all, Below o.confidence.1 known.confidence ∨
    ∃ p ∈ passed, o.confidence.1 ≤ p.confidence.1
  ownership : ∀ o ∈ all, Below o.ownershipConfidence.1 known.ownershipConfidence ∨
    ∃ p ∈ passed, o.ownershipConfidence.1 ≤ p.ownershipConfidence.1
  attributes : ∀ a, ∀ o ∈ latest (carries a) all, o.attributes.lookup a =
    (latest (carries a) passed).elim (known.attributes a) (·.attributes.lookup a)

/-- **What is passed on shows the merge of all** exactly when it says as much. -/
theorem mergeOf_eq_iff {known : Shown} {all passed : List DiscoveredAsset} (hsub : passed ⊆ all) :
    mergeOf known passed = mergeOf known all ↔ Conveys known all passed := by
  have hconfidence : (mergeOf known passed).confidence = (mergeOf known all).confidence ↔
      ∀ o ∈ all, Below o.confidence.1 known.confidence ∨
        ∃ p ∈ passed, o.confidence.1 ≤ p.confidence.1 := by
    rw [eq_iff_below]
    simp only [below_mergeOf (f := Shown.confidence) fun _ _ => rfl]
    exact below_passed_iff hsub
  have hownership : (mergeOf known passed).ownershipConfidence =
      (mergeOf known all).ownershipConfidence ↔
        ∀ o ∈ all, Below o.ownershipConfidence.1 known.ownershipConfidence ∨
          ∃ p ∈ passed, o.ownershipConfidence.1 ≤ p.ownershipConfidence.1 := by
    rw [eq_iff_below]
    simp only [below_mergeOf (f := Shown.ownershipConfidence) fun _ _ => rfl]
    exact below_passed_iff hsub
  constructor
  · intro h
    refine ⟨hconfidence.mp (by rw [h]), hownership.mp (by rw [h]), fun a o ho => ?_⟩
    have ha := congrArg (Shown.attributes · a) h
    simp only [attributes_mergeOf] at ha
    rw [ha, Option.mem_def.mp ho]
    rfl
  · intro h
    refine Shown.ext (funext fun a => ?_) (hconfidence.mpr h.confidence)
      (hownership.mpr h.ownership)
    rw [attributes_mergeOf, attributes_mergeOf]
    rcases hall : latest (carries a) all with _ | o
    · have hnone : latest (carries a) passed = none :=
        latest_eq_none.mpr fun o ho => latest_eq_none.mp hall o (hsub ho)
      rw [hnone]
    · exact (h.attributes a o hall).symm

/-! ### Rows show the merge -/

theorem lookup_map_snd (f : Str → Json → Json) (d : Json.Dict) (a : Str) :
    (d.map fun e => (e.1, f e.1 e.2)).lookup a = (d.lookup a).map (f a) := by
  induction d with
  | nil => rfl
  | cons e d ih =>
    obtain ⟨b, v⟩ := e
    by_cases h : a = b
    · simp [h]
    · have hne : (a == b) = false := by simpa using h
      simp [lookup_cons, hne, ih]

theorem lookup_filter_none (old new : Json.Dict) (a : Str) (h : old.lookup a = none) :
    (new.filter fun e => (old.lookup e.1).isNone).lookup a = new.lookup a := by
  induction new with
  | nil => rfl
  | cons e new ih =>
    obtain ⟨b, v⟩ := e
    by_cases ha : a = b
    · rw [← ha, filter_cons_of_pos (by simp [h]), lookup_cons, lookup_cons]
      simp
    · have hne : (a == b) = false := by simpa using ha
      rw [filter_cons]
      split <;> simp [lookup_cons, hne, ih]

theorem lookup_mergeDict (old new : Json.Dict) (a : Str) :
    (mergeDict old new).lookup a = (new.lookup a).or (old.lookup a) := by
  rw [mergeDict, lookup_append, lookup_map_snd fun key v => (new.lookup key).getD v]
  rcases hold : old.lookup a with _ | v
  · rw [lookup_filter_none old new a hold]
    simp
  · rcases new.lookup a with _ | w <;> rfl

section Run
variable {canon : NodeType → Str → Str} {exposureFor : Json.Dict → ℕ × List Str}
  {ingestor : DbGraphIngestor}

/-- **An observation is merged** into what is shown of its identity. -/
theorem shownAt_upsertNode (o : DiscoveredAsset) (g : Graph) (k : Identity) :
    shownAt k (upsertNode canon exposureFor ingestor o g).1 =
      if k = identityOf canon ingestor o then absorb (shownAt k g) o else shownAt k g := by
  unfold shownAt
  rw [rowOf_upsertNode]
  split
  · rcases rowOf GraphNode.identity k g.nodes with _ | existing
    · ext a <;> simp [writeNode, newNode, GraphNode.shown, absorb, strongest, Shown.nothing]
    · exact Shown.ext (funext fun a => lookup_mergeDict existing.metadata o.attributes a) rfl rfl
  · rfl

/-- Observations of an identity. -/
def observationsOf (canon : NodeType → Str → Str) (ingestor : DbGraphIngestor) (k : Identity)
    (os : List DiscoveredAsset) : List DiscoveredAsset :=
  os.filter fun o => k = identityOf canon ingestor o

/-- **Observations one after the other** show the merge of all of them. -/
theorem shownAt_upsertAll (os : List DiscoveredAsset) (g : Graph) (k : Identity) :
    shownAt k (upsertAll canon exposureFor ingestor os g) =
      mergeOf (shownAt k g) (observationsOf canon ingestor k os) := by
  induction os generalizing g with
  | nil => rfl
  | cons o os ih =>
    change shownAt k (upsertAll canon exposureFor ingestor os
      (upsertNode canon exposureFor ingestor o g).1) = _
    rw [ih, shownAt_upsertNode]
    by_cases h : k = identityOf canon ingestor o
    · have hcons : observationsOf canon ingestor k (o :: os) =
          o :: observationsOf canon ingestor k os := filter_cons_of_pos (by simpa using h)
      rw [if_pos h, hcons]
      rfl
    · have hcons : observationsOf canon ingestor k (o :: os) = observationsOf canon ingestor k os :=
        filter_cons_of_neg (by simpa using h)
      rw [if_neg h, hcons]

theorem firstOfEach_sublist (seen : List (NodeType × Str)) (os : List DiscoveredAsset) :
    (firstOfEach seen os).Sublist os := by
  induction os generalizing seen with
  | nil => exact Sublist.refl _
  | cons o os ih =>
    rw [firstOfEach]
    split
    · exact (ih _).cons o
    · exact (ih _).cons_cons o

/-- **A run shows, of every identity, the merge of all its observations.** -/
def MergesAll (canon : NodeType → Str → Str) (exposureFor : Json.Dict → ℕ × List Str)
    (ingestor : DbGraphIngestor) (evidence : List DiscoveredAsset) (g : Graph) : Prop :=
  ∀ k, shownAt k (ingestAll canon exposureFor ingestor evidence g) =
    mergeOf (shownAt k g) (observationsOf canon ingestor k (evidence.flatMap (observed canon)))

end Run

section Sample

/-- A subdomain, and the address that it resolves to. -/
def subdomainSample : DiscoveredAsset where
  nodeType := .subdomain
  canonicalKey := "www.example.com"
  source := .dnsResolver
  confidence := clamp 90
  ownershipConfidence := clamp 90
  attributes := []
  edges := [⟨.resolvesTo, .ipAddress, "192.0.2.1", 90⟩]

/-- The address, observed in its own right. -/
def addressSample : DiscoveredAsset where
  nodeType := .ipAddress
  canonicalKey := "192.0.2.1"
  source := .asnRir
  confidence := clamp 95
  ownershipConfidence := clamp 80
  attributes := [("asn", .str "AS64500")]
  edges := []

/-- The run with the subdomain first, from an empty graph. -/
def runSample (evidence : List DiscoveredAsset) : Graph :=
  ingestAll (fun _ key => key) (fun _ => (0, [])) ⟨0, 0, 0⟩ evidence ⟨[], [], 0⟩

end Sample

end Guardian.Discovery

import Guardian.AttackPaths.Capability
import Guardian.Order.Unfold
import Mathlib.Data.Prod.Lex

/-!
# Chaining findings

A depth-first search extends the chains of findings that start at the entries.  The chains are
scored, ranked and cut.
-/

namespace Guardian.AttackPaths

open Python Guardian.Order List

/-- `Step`. -/
structure Step where
  findingId : Str
  assetId : Str
  nodeId : Str
  title : Str
  severity : Str
  cweId : Option Str
  grants : List Str
  reliability : ℤ
  rationale : Str
  deriving DecidableEq

/-- `score_chain`'s result. -/
structure Score where
  likelihood : ℤ
  impact : ℤ
  score : ℤ
  deriving DecidableEq

/-- `Chain`. -/
structure Chain where
  steps : List Step
  entryNodeId : Str
  entryKey : Str
  likelihood : ℤ
  impact : ℤ
  score : ℤ
  deriving DecidableEq

/-- `ChainResult`. -/
structure ChainResult where
  chains : List Chain
  truncated : Bool
  unmapped : List Str
  deriving DecidableEq

/-- The keyword arguments of `build_chains`.  A set is given by a list of its members. -/
structure Options where
  reachable : Str → List Str
  entryAssets : List Str
  entryKeys : Str → Option Str := fun _ => none
  criticality : Str → Option Str := fun _ => none
  maxLength : ℤ := 4
  maxChains : ℤ := 50
  maxEnumerated : ℤ := 2000

/-- `sorted(s)` of a set of strings. -/
def sortedSet (s : List Str) : List Str := sortBy id s.dedup

theorem mem_sortedSet {s : List Str} {a : Str} : a ∈ sortedSet s ↔ a ∈ s := by
  rw [sortedSet, mem_sortBy, mem_dedup]

theorem nodup_sortedSet (s : List Str) : (sortedSet s).Nodup := nodup_sortBy _ (nodup_dedup s)

/-- `l[:n]`. -/
def sliceTo {α : Type*} (n : ℤ) (l : List α) : List α :=
  if 0 ≤ n then l.take n.toNat else l.take (l.length - (-n).toNat)

theorem sliceTo_of_length_le {α : Type*} {n : ℤ} {l : List α} (h : (l.length : ℤ) ≤ n) :
    sliceTo n l = l := by
  have hpos : 0 ≤ n := by omega
  rw [sliceTo, if_pos hpos, take_of_length_le (by omega)]

theorem sliceTo_eq_take {α : Type*} (n : ℤ) (l : List α) : ∃ k, sliceTo n l = l.take k := by
  unfold sliceTo
  split_ifs
  · exact ⟨_, rfl⟩
  · exact ⟨_, rfl⟩

theorem map_filterMap_sublist {α β γ : Type*} {f : α → Option β} {g : β → γ} {h : α → γ}
    (hf : ∀ a b, f a = some b → g b = h a) (l : List α) :
    ((l.filterMap f).map g).Sublist (l.map h) := by
  induction l with
  | nil => exact .slnil
  | cons a l ih =>
    cases hfa : f a with
    | none => simpa [hfa] using ih.cons (h a)
    | some b => simpa [hfa, hf a b hfa] using ih

theorem exists_map_some {α β : Type*} {f : α → Option β} {l : List α}
    (h : ∀ a ∈ l, ∃ b, f a = some b) : ∃ bs : List β, bs.map some = l.map f := by
  induction l with
  | nil => exact ⟨[], rfl⟩
  | cons a l ih =>
    obtain ⟨b, hb⟩ := h a mem_cons_self
    obtain ⟨bs, hbs⟩ := ih fun c hc => h c (mem_cons_of_mem _ hc)
    exact ⟨b :: bs, by rw [map_cons, map_cons, hb, hbs]⟩

/-! ### The search -/

/-- The key by which findings are sorted. -/
def FindingView.key (f : FindingView) : ℤ ×ₗ Str := toLex (-f.riskScore, f.id)

/-- `_step`. -/
def step (f : FindingView) (asset : Str) (p : Profile) : Step where
  findingId := f.id
  assetId := asset
  nodeId := f.nodeId
  title := f.title
  severity := f.severity
  cweId := f.cweId
  grants := sortedValues p.grants
  reliability := p.reliability
  rationale := p.rationale

/-- The arguments of `walk`. -/
structure Walk where
  steps : List Step
  held : Finset Capability
  currentAsset : Str
  used : List Str

/-- The arguments of the call that a candidate leads to. -/
def Walk.then (w : Walk) (asset : Str) (f : FindingView) (p : Profile) : Walk where
  steps := w.steps ++ [step f asset p]
  held := expand (w.held ∪ p.grants)
  currentAsset := asset
  used := w.used ++ [f.id]

section Search
variable (findings : List FindingView) (o : Options)

/-- `by_asset.get(asset, [])`. -/
def byAsset (asset : Str) : List FindingView :=
  (sortBy FindingView.key findings).filter fun f => (profileFor f).isSome ∧ f.assetId = asset

/-- `unmapped`, before it is sorted. -/
def unmapped : List Str :=
  ((sortBy FindingView.key findings).filter fun f => (profileFor f).isNone).map (·.id)

/-- `candidates` in `walk`: the findings on the asset, and on those that it reaches. -/
def candidatesAt (w : Walk) : List (Str × FindingView) :=
  (byAsset findings w.currentAsset).map (fun f => (w.currentAsset, f)) ++
    if Capability.lateralMovement ∈ w.held ∨ Capability.codeExecution ∈ w.held ∨
        Capability.networkAccess ∈ w.held then
      (sortedSet (o.reachable w.currentAsset)).flatMap fun neighbour =>
        (byAsset findings neighbour).map fun f => (neighbour, f)
    else []

/-- The loop body of `walk`. -/
def advance (w : Walk) (c : Str × FindingView) : Option Walk :=
  if c.2.id ∈ w.used then none
  else
    match profileFor c.2 with
    | none => none
    | some p =>
      if ¬ p.requires ⊆ w.held then none
      else if expand p.grants \ w.held = ∅ then none
      else some (w.then c.1 c.2 p)

/-- The calls that a call of `walk` makes. -/
def hops (w : Walk) : List Walk :=
  if o.maxLength ≤ (w.steps.length : ℤ) then []
  else (candidatesAt findings o w).filterMap (advance w)

/-- The first call of `walk` in `_extend`. -/
def startWalk (start : FindingView) (asset : Str) : Option Walk :=
  (profileFor start).map fun first =>
    { steps := [step start asset first]
      held := expand (net ∪ first.grants)
      currentAsset := asset
      used := [start.id] }

/-- **`_extend`.** -/
def extend (start : FindingView) (asset : Str) : List (List Step) :=
  match startWalk start asset with
  | none => []
  | some w =>
    ((unfold (hops findings o) o.maxLength.toNat w).map (·.steps)).filter fun c => 2 ≤ c.length

/-- `starts`. -/
def starts (entry : Str) : List FindingView :=
  (byAsset findings entry).filter fun f =>
    (profileFor f).any fun p => p.requires \ net = ∅

/-- The chains that the loops of `build_chains` run over. -/
def candidates : List (List Step) :=
  (sortedSet o.entryAssets).flatMap fun entry =>
    (starts findings entry).flatMap fun start => extend findings o start entry

end Search

/-- The body of the loops: a chain that is too many ends them. -/
def collect (maxEnumerated : ℤ) (kept : List (List Step)) :
    List (List Step) → List (List Step) × Bool
  | [] => (kept, false)
  | c :: cs =>
    if maxEnumerated ≤ (kept.length : ℤ) then (kept, true)
    else collect maxEnumerated (kept ++ [c]) cs

/-- The candidates and `enumeration_truncated` after the loops. -/
def enumerated (findings : List FindingView) (o : Options) : List (List Step) × Bool :=
  collect o.maxEnumerated [] (candidates findings o)

def Chain.ids (c : Chain) : List Str := c.steps.map (·.findingId)

/-- The key by which chains are sorted. -/
def Chain.key (c : Chain) : ℤ ×ₗ ℤ ×ₗ List Str :=
  toLex (-c.score, toLex (-(c.steps.length : ℤ), c.ids))

section Build
variable (scoreChain : List Step → Str → Score) (o : Options)

/-- The chain of some steps. -/
def mkChain (steps : List Step) : Chain :=
  let entry := (steps.head?.map (·.assetId)).getD []
  let last := (steps.getLast?.map (·.assetId)).getD []
  let s := scoreChain steps ((o.criticality last).getD "medium")
  { steps := steps
    entryNodeId := entry
    entryKey := (o.entryKeys entry).getD entry
    likelihood := s.likelihood
    impact := s.impact
    score := s.score }

/-- **`build_chains`.**  The score is a function of the steps and of how critical the last asset
is. -/
def buildChains (findings : List FindingView) : ChainResult :=
  let found := enumerated findings o
  let chains := sortBy Chain.key (found.1.map (mkChain scoreChain o))
  { chains := sliceTo o.maxChains chains
    truncated := found.2 || decide (o.maxChains < (chains.length : ℤ))
    unmapped := sortBy id (unmapped findings) }

end Build

/-! ### Attack chains -/

/-- The step that a finding is, where it was found. -/
def stepOf (f : FindingView) : Option Step := (profileFor f).map (step f f.assetId)

/-- A move stays on the asset or follows an edge. -/
def Moves (o : Options) (f g : FindingView) : Prop :=
  g.assetId = f.assetId ∨ g.assetId ∈ o.reachable f.assetId

/-- The finding adds a capability to those held after some others. -/
def Adds (fs : List FindingView) (g : FindingView) : Prop :=
  ∃ p, profileFor g = some p ∧ ¬ expand p.grants ⊆ heldAfter fs

/-- What is held after some findings meets the requirements of another. -/
def Meets (fs : List FindingView) (g : FindingView) : Prop :=
  ∃ p, profileFor g = some p ∧ p.requires ⊆ heldAfter fs

/-- **The conditions on a chain**, but for its length.  The first finding has to require at most
network access on an entry asset, a later one has to be met and to add something. -/
structure IsRun (findings : List FindingView) (o : Options) (fs : List FindingView) : Prop where
  reported : ∀ f ∈ fs, f ∈ findings
  starts : ∀ f, fs.head? = some f →
    f.assetId ∈ o.entryAssets ∧ ∃ p, profileFor f = some p ∧ p.requires ⊆ net
  later : ∀ pre f, pre ≠ [] → pre ++ [f] <+: fs → Meets pre f ∧ Adds pre f
  moves : fs.IsChain (Moves o)
  once : (fs.map (·.id)).Nodup

/-- **An attack chain.** -/
structure IsAttackChain (findings : List FindingView) (o : Options) (fs : List FindingView) : Prop
    extends IsRun findings o fs where
  two_le : 2 ≤ fs.length
  length_le : (fs.length : ℤ) ≤ o.maxLength

/-! ### One step of the search -/

section Search
variable {findings : List FindingView} {o : Options}

theorem mem_byAsset {a : Str} {f : FindingView} :
    f ∈ byAsset findings a ↔ f ∈ findings ∧ (profileFor f).isSome ∧ f.assetId = a := by
  simp [byAsset]

theorem mem_map_byAsset {a : Str} {c : Str × FindingView} :
    c ∈ (byAsset findings a).map (fun f => (a, f)) ↔
      (c.2 ∈ findings ∧ (profileFor c.2).isSome) ∧ c.2.assetId = a ∧ c.1 = c.2.assetId := by
  rw [mem_map]
  constructor
  · rintro ⟨f, hf, rfl⟩
    obtain ⟨hmem, hsome, rfl⟩ := mem_byAsset.mp hf
    exact ⟨⟨hmem, hsome⟩, rfl, rfl⟩
  · rintro ⟨⟨hmem, hsome⟩, rfl, hasset⟩
    exact ⟨c.2, mem_byAsset.mpr ⟨hmem, hsome, rfl⟩, Prod.ext hasset.symm rfl⟩

/-- **The candidates** of a call: the findings that a move leads to. -/
theorem mem_candidatesAt {w : Walk} (hnet : Capability.networkAccess ∈ w.held)
    {c : Str × FindingView} :
    c ∈ candidatesAt findings o w ↔ (c.2 ∈ findings ∧ (profileFor c.2).isSome) ∧
      (c.2.assetId = w.currentAsset ∨ c.2.assetId ∈ o.reachable w.currentAsset) ∧
      c.1 = c.2.assetId := by
  rw [candidatesAt, if_pos (Or.inr (Or.inr hnet)), mem_append, mem_flatMap,
    mem_map_byAsset]
  simp only [mem_map_byAsset, mem_sortedSet]
  grind

/-- **What a candidate leads to.** -/
theorem advance_eq_some {w t : Walk} {c : Str × FindingView} :
    advance w c = some t ↔ c.2.id ∉ w.used ∧ ∃ p, profileFor c.2 = some p ∧ p.requires ⊆ w.held ∧
      ¬ expand p.grants ⊆ w.held ∧ t = w.then c.1 c.2 p := by
  unfold advance
  split_ifs with hused
  · simp [hused]
  · cases hp : profileFor c.2 with
    | none => simp
    | some p =>
      simp only [hused, not_false_eq_true, true_and, Option.some.injEq, exists_eq_left',
        Finset.sdiff_eq_empty_iff_subset]
      split_ifs with hmet hadds
      · simp [hmet, hadds]
      · simp [hmet, hadds, eq_comm]
      · simp [hmet]

/-- The state of the search after it has used some findings. -/
structure Tracks (fs : List FindingView) (w : Walk) : Prop where
  steps : w.steps.map some = fs.map stepOf
  held : w.held = heldAfter fs
  asset : fs.getLast?.map (·.assetId) = some w.currentAsset
  used : w.used = fs.map (·.id)

theorem Tracks.length_eq {fs : List FindingView} {w : Walk} (h : Tracks fs w) :
    w.steps.length = fs.length := by
  have := congrArg List.length h.steps
  simpa using this

/-- A run is extended by a finding that a move leads to, that is met, new and adds something. -/
theorem isRun_concat {fs : List FindingView} {f g : FindingView} (hf : fs.getLast? = some f) :
    IsRun findings o (fs ++ [g]) ↔ IsRun findings o fs ∧ g ∈ findings ∧ g.id ∉ fs.map (·.id) ∧
      Meets fs g ∧ Adds fs g ∧ Moves o f g := by
  have hne : fs ≠ [] := by
    rintro rfl
    cases hf
  have hhead : (fs ++ [g]).head? = fs.head? := head?_append_of_ne_nil _ hne
  constructor
  · intro h
    have hlater := h.later fs g hne (prefix_refl _)
    have hmoves := h.moves
    rw [isChain_append, hf] at hmoves
    have honce := h.once
    rw [map_append, nodup_append] at honce
    refine ⟨⟨fun x hx => h.reported x (mem_append_left _ hx), fun x hx => ?_,
      fun pre x hpre hinit => ?_, hmoves.1, honce.1⟩, ?_, fun hmem => ?_, hlater.1, hlater.2, ?_⟩
    · exact h.starts x (hhead.trans hx)
    · exact h.later pre x hpre (hinit.trans (prefix_append _ _))
    · exact h.reported g (mem_append_right _ (mem_singleton_self g))
    · exact honce.2.2 _ hmem _ (mem_singleton_self _) rfl
    · exact hmoves.2.2 f rfl g rfl
  · rintro ⟨h, hg, hnew, hmeets, hadds, hmove⟩
    refine ⟨fun x hx => ?_, fun x hx => ?_, fun pre x hpre hinit => ?_, ?_, ?_⟩
    · rcases mem_append.mp hx with hx | hx
      · exact h.reported x hx
      · rw [mem_singleton.mp hx]
        exact hg
    · exact h.starts x (hhead.symm.trans hx)
    · rcases prefix_concat_iff.mp hinit with heq | hold
      · obtain ⟨rfl, hx⟩ := append_inj' heq rfl
        obtain rfl : x = g := by simpa using hx
        exact ⟨hmeets, hadds⟩
      · exact h.later pre x hpre hold
    · rw [isChain_append, hf]
      refine ⟨h.moves, .singleton g, ?_⟩
      rintro x hx y hy
      obtain rfl := Option.some.inj hx
      obtain rfl := Option.some.inj hy
      exact hmove
    · rw [map_append, nodup_append]
      refine ⟨h.once, nodup_singleton _, ?_⟩
      rintro a ha b hb rfl
      rw [map_singleton, mem_singleton] at hb
      exact hnew (hb ▸ ha)

theorem Tracks.then {fs : List FindingView} {w : Walk} {g : FindingView} {p : Profile}
    (hw : Tracks fs w) (hp : profileFor g = some p) : Tracks (fs ++ [g]) (w.then g.assetId g p) := by
  have hgranted : granted g = p.grants := by simp [granted, hp]
  refine ⟨?_, ?_, ?_, ?_⟩
  · rw [Walk.then, map_append, map_append, hw.steps]
    simp [stepOf, hp]
  · rw [heldAfter_concat, hgranted, Walk.then, hw.held]
  · rw [getLast?_concat]
    rfl
  · rw [Walk.then, map_append, hw.used]
    rfl

/-- **The calls that the search makes** extend the run by one finding. -/
theorem mem_hops {fs : List FindingView} {w t : Walk} (hw : Tracks fs w)
    (hrun : IsRun findings o fs) :
    t ∈ hops findings o w ↔ (w.steps.length : ℤ) < o.maxLength ∧
      ∃ g p, profileFor g = some p ∧ IsRun findings o (fs ++ [g]) ∧ t = w.then g.assetId g p := by
  have hnet : Capability.networkAccess ∈ w.held := hw.held ▸ networkAccess_mem_heldAfter fs
  obtain ⟨f, hf, hfa⟩ := Option.map_eq_some_iff.mp hw.asset
  unfold hops
  split_ifs with hfull
  · simp [hfull]
  rw [mem_filterMap]
  constructor
  · rintro ⟨c, hc, hadvance⟩
    obtain ⟨⟨hmem, -⟩, hmove, hasset⟩ := (mem_candidatesAt hnet).mp hc
    obtain ⟨hnew, p, hp, hmeets, hadds, rfl⟩ := advance_eq_some.mp hadvance
    rw [hw.held] at hmeets hadds
    rw [hw.used] at hnew
    rw [← hfa] at hmove
    have hnext : IsRun findings o (fs ++ [c.2]) :=
      (isRun_concat hf).mpr ⟨hrun, hmem, hnew, ⟨p, hp, hmeets⟩, ⟨p, hp, hadds⟩, hmove⟩
    exact ⟨not_le.mp hfull, c.2, p, hp, hnext, by rw [hasset]⟩
  · rintro ⟨-, g, p, hp, hnext, rfl⟩
    obtain ⟨-, hmem, hnew, ⟨q, hq, hmeets⟩, ⟨r, hr, hadds⟩, hmove⟩ := (isRun_concat hf).mp hnext
    obtain rfl : p = q := Option.some.inj (hp.symm.trans hq)
    obtain rfl : p = r := Option.some.inj (hp.symm.trans hr)
    rw [← hw.held] at hmeets hadds
    rw [← hw.used] at hnew
    rw [Moves, hfa] at hmove
    have hsome : (profileFor g).isSome := by simp [hp]
    exact ⟨(g.assetId, g), (mem_candidatesAt hnet).mpr ⟨⟨hmem, hsome⟩, hmove, rfl⟩,
      advance_eq_some.mpr ⟨hnew, p, hp, hmeets, hadds, rfl⟩⟩

end Search

/-! ### The whole search -/

section Candidates
variable (findings : List FindingView) (o : Options)

/-- The first calls of `walk`. -/
def roots : List Walk :=
  (sortedSet o.entryAssets).flatMap fun entry =>
    (starts findings entry).filterMap fun start => startWalk start entry

variable {findings o}

/-- **The candidates** are the chains of the trees of the roots. -/
theorem candidates_eq :
    candidates findings o = (((roots findings o).flatMap
      (unfold (hops findings o) o.maxLength.toNat)).map (·.steps)).filter fun c => 2 ≤ c.length := by
  have hstart : ∀ entry start, extend findings o start entry =
      (((startWalk start entry).toList.flatMap
        (unfold (hops findings o) o.maxLength.toNat)).map (·.steps)).filter
          fun c => 2 ≤ c.length := by
    intro entry start
    unfold extend
    cases startWalk start entry <;> simp
  simp only [candidates, roots, hstart, filterMap_eq_flatMap_toList, flatMap_assoc,
    map_flatMap, filter_flatMap]

/-- A root has used a finding that may start a chain. -/
theorem mem_roots {w : Walk} :
    w ∈ roots findings o ↔ ∃ f p, profileFor f = some p ∧ IsRun findings o [f] ∧
      startWalk f f.assetId = some w := by
  simp only [roots, mem_flatMap, mem_filterMap, mem_sortedSet, starts, mem_filter,
    mem_byAsset]
  constructor
  · rintro ⟨entry, hentry, f, ⟨⟨hmem, -, rfl⟩, hreq⟩, hstart⟩
    obtain ⟨p, hp, hnet⟩ := (Option.any_eq_true _ _).mp hreq
    rw [decide_eq_true_eq, Finset.sdiff_eq_empty_iff_subset] at hnet
    refine ⟨f, p, hp, ⟨?_, ?_, ?_, .singleton f, nodup_singleton _⟩, hstart⟩
    · simpa using hmem
    · rintro g hg
      obtain rfl := Option.some.inj hg
      exact ⟨hentry, p, hp, hnet⟩
    · intro pre g hpre hinit
      have hlen := hinit.length_le
      have hpos := length_pos_of_ne_nil hpre
      simp only [length_append, length_singleton] at hlen
      omega
  · rintro ⟨f, p, hp, hrun, hstart⟩
    obtain ⟨hentry, q, hq, hnet⟩ := hrun.starts f rfl
    have hsome : (profileFor f).isSome := by simp [hp]
    refine ⟨f.assetId, hentry, f, ⟨⟨hrun.reported f (mem_singleton_self f), hsome, rfl⟩, ?_⟩,
      hstart⟩
    rw [Option.any_eq_true]
    exact ⟨q, hq, decide_eq_true (Finset.sdiff_eq_empty_iff_subset.mpr hnet)⟩

theorem tracks_startWalk {f : FindingView} {w : Walk} (h : startWalk f f.assetId = some w) :
    Tracks [f] w := by
  obtain ⟨p, hp, rfl⟩ := Option.map_eq_some_iff.mp h
  have hgranted : granted f = p.grants := by simp [granted, hp]
  refine ⟨?_, ?_, rfl, rfl⟩
  · simp [stepOf, hp]
  · simp [heldAfter, hgranted]

/-- **The search runs through the runs** that are not too long. -/
theorem tracks_of_mem_tree {w : Walk}
    (h : w ∈ (roots findings o).flatMap (unfold (hops findings o) o.maxLength.toNat)) :
    ∃ fs, IsRun findings o fs ∧ Tracks fs w ∧ (2 ≤ fs.length → (fs.length : ℤ) ≤ o.maxLength) := by
  obtain ⟨root, hroot, hw⟩ := mem_flatMap.mp h
  obtain ⟨f, p, -, hrun, hstart⟩ := mem_roots.mp hroot
  obtain ⟨k, -, hsteps⟩ := mem_unfold.mp hw
  have hfirst : 2 ≤ [f].length → ([f].length : ℤ) ≤ o.maxLength := fun hlen => by
    rw [length_singleton] at hlen
    omega
  refine hsteps.invariant (P := fun w => ∃ fs, IsRun findings o fs ∧ Tracks fs w ∧
    (2 ≤ fs.length → (fs.length : ℤ) ≤ o.maxLength)) (fun w t hw ht => ?_)
    ⟨[f], hrun, tracks_startWalk hstart, hfirst⟩
  obtain ⟨fs, hrun, htracks, -⟩ := hw
  obtain ⟨hroom, g, p, hp, hnext, rfl⟩ := (mem_hops htracks hrun).mp ht
  refine ⟨fs ++ [g], hnext, htracks.then hp, fun _ => ?_⟩
  rw [htracks.length_eq] at hroom
  rw [length_append, length_singleton]
  omega

theorem IsRun.of_concat {fs : List FindingView} {g : FindingView} (hne : fs ≠ [])
    (h : IsRun findings o (fs ++ [g])) : IsRun findings o fs :=
  ((isRun_concat (getLast?_eq_some_getLast hne)).mp h).1

/-- **A run that is not too long** is one that the search comes to. -/
theorem exists_steps_of_isRun {fs : List FindingView} (hne : fs ≠ []) (hrun : IsRun findings o fs)
    (hlen : (fs.length : ℤ) ≤ o.maxLength) :
    ∃ root ∈ roots findings o, ∃ w,
      Steps (hops findings o) (fs.length - 1) root w ∧ Tracks fs w := by
  induction fs using reverseRecOn with
  | nil => exact absurd rfl hne
  | append_singleton fs g ih =>
    rcases eq_nil_or_concat fs with rfl | ⟨pre, f, hfs⟩
    · obtain ⟨-, p, hp, -⟩ := hrun.starts g rfl
      have hstart : startWalk g g.assetId = some _ := Option.map_eq_some_iff.mpr ⟨p, hp, rfl⟩
      exact ⟨_, mem_roots.mpr ⟨g, p, hp, hrun, hstart⟩, _, .refl _, tracks_startWalk hstart⟩
    · have hpre : fs ≠ [] := by simp [hfs]
      have hpos : 0 < fs.length := length_pos_of_ne_nil hpre
      rw [length_append, length_singleton] at hlen
      obtain ⟨root, hroot, w, hsteps, htracks⟩ := ih hpre (hrun.of_concat hpre) (by omega)
      obtain ⟨p, hp, -⟩ := (hrun.later fs g hpre (prefix_refl _)).1
      have hroom : (w.steps.length : ℤ) < o.maxLength := by
        rw [htracks.length_eq]
        omega
      have hhop := (mem_hops htracks (hrun.of_concat hpre)).mpr ⟨hroom, g, p, hp, hrun, rfl⟩
      have hcount : (fs ++ [g]).length - 1 = fs.length - 1 + 1 := by
        rw [length_append, length_singleton]
        omega
      exact ⟨root, hroot, _, hcount ▸ hsteps.tail hhop, htracks.then hp⟩

/-- **The candidates are the attack chains.** -/
theorem mem_candidates {steps : List Step} :
    steps ∈ candidates findings o ↔
      ∃ fs, IsAttackChain findings o fs ∧ steps.map some = fs.map stepOf := by
  rw [candidates_eq, mem_filter, mem_map, decide_eq_true_eq]
  constructor
  · rintro ⟨⟨w, hw, rfl⟩, hlong⟩
    obtain ⟨fs, hrun, htracks, hlen⟩ := tracks_of_mem_tree hw
    rw [htracks.length_eq] at hlong
    exact ⟨fs, ⟨hrun, hlong, hlen hlong⟩, htracks.steps⟩
  · rintro ⟨fs, ⟨hrun, hlong, hlen⟩, hsteps⟩
    have hne : fs ≠ [] := ne_nil_of_length_pos (by omega)
    obtain ⟨root, hroot, w, hreach, htracks⟩ := exists_steps_of_isRun hne hrun hlen
    have heq : w.steps = steps :=
      map_injective_iff.mpr (Option.some_injective Step) (htracks.steps.trans hsteps.symm)
    refine ⟨⟨w, mem_flatMap.mpr ⟨root, hroot, mem_unfold.mpr ⟨_, by omega, hreach⟩⟩, heq⟩, ?_⟩
    rw [← heq, htracks.length_eq]
    exact hlong

/-! ### Every chain once -/

/-- The ids of the steps of a call. -/
def Walk.ids (w : Walk) : List Str := w.steps.map (·.findingId)

theorem ids_of_mem_hops {w t : Walk} (h : t ∈ hops findings o w) :
    ∃ c ∈ candidatesAt findings o w, t.ids = w.ids ++ [c.2.id] := by
  unfold hops at h
  split_ifs at h
  · cases h
  · obtain ⟨c, hc, hadvance⟩ := mem_filterMap.mp h
    obtain ⟨-, p, -, -, -, rfl⟩ := advance_eq_some.mp hadvance
    exact ⟨c, hc, by simp [Walk.ids, Walk.then, step]⟩

variable (hids : (findings.map (·.id)).Nodup)

include hids

theorem nodup_map_byAsset (a : Str) :
    ((byAsset findings a).map (·.id)).Nodup := by
  have hperm : ((sortBy FindingView.key findings).map (·.id)).Perm (findings.map (·.id)) :=
    (sortBy_perm _ _).map _
  exact (hperm.nodup_iff.mpr hids).sublist (filter_sublist.map _)

theorem nodup_flatMap_byAsset {assets : List Str} (h : assets.Nodup) :
    (assets.flatMap fun a => (byAsset findings a).map (·.id)).Nodup := by
  refine nodup_flatMap.mpr ⟨fun a _ => nodup_map_byAsset hids a, ?_⟩
  refine h.imp fun {a b} hne i hi hj => ?_
  obtain ⟨f, hf, rfl⟩ := mem_map.mp hi
  obtain ⟨g, hg, hid⟩ := mem_map.mp hj
  obtain ⟨hfm, -, rfl⟩ := mem_byAsset.mp hf
  obtain ⟨hgm, -, rfl⟩ := mem_byAsset.mp hg
  have heq : g = f := inj_on_of_nodup_map hids hgm hfm hid
  exact hne (by rw [heq])

/-- **A call has every candidate once**, if no asset reaches itself. -/
theorem nodup_candidatesAt (hloop : ∀ a, a ∉ o.reachable a) (w : Walk) :
    ((candidatesAt findings o w).map (·.2.id)).Nodup := by
  have hassets : (w.currentAsset :: sortedSet (o.reachable w.currentAsset)).Nodup :=
    nodup_cons.mpr ⟨fun h => hloop _ (mem_sortedSet.mp h), nodup_sortedSet _⟩
  have hall := nodup_flatMap_byAsset hids hassets
  rw [flatMap_cons] at hall
  unfold candidatesAt
  split_ifs
  · rw [map_append, map_map, map_flatMap]
    simpa only [map_map, Function.comp_def] using hall
  · rw [append_nil, map_map]
    exact nodup_map_byAsset hids _

theorem nodup_hops (hloop : ∀ a, a ∉ o.reachable a) (w : Walk) :
    ((hops findings o w).map Walk.ids).Nodup := by
  unfold hops
  split_ifs
  · exact nodup_nil
  · have hone : ∀ c t, advance w c = some t → t.ids = w.ids ++ [c.2.id] := by
      intro c t ht
      obtain ⟨-, p, -, -, -, rfl⟩ := advance_eq_some.mp ht
      simp [Walk.ids, Walk.then, step]
    refine Nodup.sublist (map_filterMap_sublist hone _) ?_
    have hnodup := nodup_candidatesAt hids hloop w
    have hmap := hnodup.map (f := fun i => w.ids ++ [i]) fun i j hij => by simpa using hij
    rwa [map_map] at hmap

theorem nodup_roots : ((roots findings o).map Walk.ids).Nodup := by
  have hone : ∀ entry start w, startWalk start entry = some w → w.ids = [start.id] := by
    intro entry start w hw
    obtain ⟨p, -, rfl⟩ := Option.map_eq_some_iff.mp hw
    rfl
  have hall := (nodup_flatMap_byAsset hids (nodup_sortedSet o.entryAssets)).map
    (f := fun i => [i]) singleton_injective
  rw [map_flatMap] at hall
  refine Nodup.sublist ?_ hall
  rw [roots, map_flatMap]
  refine Sublist.flatMap_right _ fun entry _ => ?_
  rw [map_map]
  exact (map_filterMap_sublist (hone entry) _).trans (filter_sublist.map _)

/-- **The candidates hold every chain once**, if no asset reaches itself. -/
theorem nodup_candidates (hloop : ∀ a, a ∉ o.reachable a) :
    ((candidates findings o).map (·.map (·.findingId))).Nodup := by
  have htree : (((roots findings o).flatMap
      (unfold (hops findings o) o.maxLength.toNat)).map Walk.ids).Nodup := by
    refine nodup_unfold_roots Walk.ids dropLast List.length
      (fun w t ht => ?_) (fun w t ht => ?_) (nodup_hops hids hloop) (nodup_roots hids)
      fun w hw t ht => ?_
    · obtain ⟨c, -, hc⟩ := ids_of_mem_hops ht
      rw [hc, dropLast_concat]
    · obtain ⟨c, -, hc⟩ := ids_of_mem_hops ht
      rw [hc, length_append, length_singleton]
    · obtain ⟨f, -, -, -, hf⟩ := mem_roots.mp hw
      obtain ⟨g, -, -, -, hg⟩ := mem_roots.mp ht
      obtain ⟨-, -, rfl⟩ := Option.map_eq_some_iff.mp hf
      obtain ⟨-, -, rfl⟩ := Option.map_eq_some_iff.mp hg
      rfl
  rw [candidates_eq]
  have hsub := (filter_sublist (p := fun c : List Step => decide (2 ≤ c.length))
    (l := ((roots findings o).flatMap (unfold (hops findings o) o.maxLength.toNat)).map
      (·.steps))).map (·.map (·.findingId))
  refine Nodup.sublist hsub ?_
  rw [map_map]
  exact htree

end Candidates

end Guardian.AttackPaths

import Guardian.AttackGraph.Graph
import Guardian.Order.Unfold
import Mathlib.Data.List.Chain

/-!
# The enumeration of exposure paths

A depth-first search extends the paths that start at the entries.  It stops when it has found enough
paths or has looked at too many, and then says so.  Otherwise it has found exactly the exposure
paths (`exposurePaths_exact`).
-/

namespace Guardian.AttackGraph

open Python Guardian.Order List

/-- `Path`. -/
structure Path where
  nodeIds : List Str
  nodeKeys : List Str
  deriving DecidableEq

/-- `PathResult`. -/
structure PathResult where
  paths : List Path
  truncated : Bool
  deriving DecidableEq

/-- The key by which paths are sorted. -/
def Path.key (p : Path) : ℕ ×ₗ List Str := toLex (p.nodeIds.length, p.nodeKeys)

/-- `_mk_path`. -/
def mkPath (byId : Str → Option NodeView) (path : List Str) : Path where
  nodeIds := path
  nodeKeys := path.map fun i => ((byId i).map (·.canonicalKey)).getD []

/-- A path on the stack, with the node that it ends at. -/
abbrev Entry : Type := Str × List Str

/-- The variables of the loops of `_enumerate`. -/
structure Search where
  results : List Path
  seen : List (List Str)
  truncated : Bool

section Loops
variable (adj : Str → List Str) (byId : Str → Option NodeView) (targets : List Str)
  (limits : Limits)

/-- The paths that a path is extended to: no node comes twice. -/
def extensions (e : Entry) : List Entry :=
  ((adj e.1).filter fun nb => nb ∉ e.2).map fun nb => (nb, e.2 ++ [nb])

/-- What is pushed: nothing on a path that is long enough. -/
def pushed (e : Entry) : List Entry :=
  if limits.maxDepth ≤ (e.2.length : ℤ) - 1 then [] else extensions adj e

/-- The path is a new one that ends at a target. -/
def IsHit (e : Entry) (st : Search) : Prop := e.1 ∈ targets ∧ e.2 ∉ st.seen

instance (e : Entry) (st : Search) : Decidable (IsHit targets e st) := by
  unfold IsHit; infer_instance

/-- What looking at a path does to the results. -/
def Search.record (st : Search) (e : Entry) : Search :=
  if IsHit targets e st then
    { st with seen := e.2 :: st.seen, results := st.results ++ [mkPath byId e.2] }
  else st

def Search.Full (st : Search) : Prop := limits.maxPaths ≤ (st.results.length : ℤ)

instance (st : Search) : Decidable (st.Full limits) := by unfold Search.Full; infer_instance

/-- **The inner loop of `_enumerate`**: the number is that of the paths it may still look at, the
top of the stack comes first. -/
def searchFrom : ℕ → List Entry → Search → ℕ × Search
  | left, [], st => (left, st)
  | 0, _ :: _, st => (0, { st with truncated := true })
  | left + 1, e :: stack, st =>
    if st.Full limits then (left + 1, { st with truncated := true })
    else
      let st' := st.record byId targets e
      if IsHit targets e st ∧ st'.Full limits then (left, { st' with truncated := true })
      else searchFrom left (pushed adj limits e ++ stack) st'

/-- **The outer loop of `_enumerate`.** -/
def searchAll : List Str → ℕ → Search → Search
  | [], _, st => st
  | s :: sources, left, st =>
    if st.truncated = true ∨ st.Full limits then st
    else
      let (left', st') := searchFrom adj byId targets limits left [(s, [s])] st
      searchAll sources left' st'

/-- The search before its first path. -/
def Search.start : Search := ⟨[], [], false⟩

/-- **`_enumerate`.** -/
def enumerate (sources : List Str) : PathResult :=
  let st := searchAll adj byId targets limits (sortedIds byId sources) limits.maxNodes.toNat .start
  { paths := sortBy Path.key st.results
    truncated := st.truncated }

end Loops

/-- **`exposure_paths`.** -/
def exposurePaths (nodes : List NodeView) (edges : List EdgeView) (limits : Limits) : PathResult :=
  enumerate (buildAdjacency nodes edges) (index nodes) (sensitiveIds nodes) limits (entryIds nodes)

/-! ### What the search looks at

The paths that the search looks at are those of its trees.  It stops early exactly when they are too
many, or when they give too many results. -/

section Visits
variable {adj : Str → List Str} {byId : Str → Option NodeView} {targets : List Str}
  {limits : Limits}

/-- The steps that are left to a path. -/
def room (limits : Limits) (e : Entry) : ℕ := limits.maxDepth.toNat - (e.2.length - 1)

/-- The paths that are looked at from a path on. -/
def visits (adj : Str → List Str) (limits : Limits) (e : Entry) : List Entry :=
  unfold (pushed adj limits) (room limits e) e

theorem length_of_mem_pushed {e f : Entry} (h : f ∈ pushed adj limits e) :
    f.2.length = e.2.length + 1 := by
  unfold pushed extensions at h
  split_ifs at h
  · cases h
  · obtain ⟨nb, -, rfl⟩ := mem_map.mp h
    simp

theorem visits_eq {e : Entry} (he : e.2 ≠ []) :
    visits adj limits e = e :: (pushed adj limits e).flatMap (visits adj limits) := by
  have hpos : 0 < e.2.length := length_pos_of_ne_nil he
  unfold visits
  cases hroom : room limits e with
  | zero =>
    have hdeep : limits.maxDepth ≤ (e.2.length : ℤ) - 1 := by
      unfold room at hroom
      omega
    simp [unfold, pushed, hdeep]
  | succ n =>
    rw [unfold]
    congr 1
    refine flatMap_congr fun f hf => ?_
    have hlen := length_of_mem_pushed hf
    have : room limits f = n := by
      unfold room at hroom ⊢
      omega
    rw [this]

/-- The search after it has looked at some paths. -/
def Search.after (byId : Str → Option NodeView) (targets : List Str) (st : Search)
    (es : List Entry) : Search := es.foldl (fun st e => st.record byId targets e) st

@[simp] theorem Search.truncated_record (st : Search) (e : Entry) :
    (st.record byId targets e).truncated = st.truncated := by
  unfold Search.record
  split_ifs <;> rfl

variable (byId targets) in
theorem Search.length_record (st : Search) (e : Entry) :
    (st.record byId targets e).results.length =
      st.results.length + if IsHit targets e st then 1 else 0 := by
  unfold Search.record
  split_ifs <;> simp

@[simp] theorem Search.after_nil (st : Search) : st.after byId targets [] = st := rfl

@[simp] theorem Search.after_cons (st : Search) (e : Entry) (es : List Entry) :
    st.after byId targets (e :: es) = (st.record byId targets e).after byId targets es := rfl

theorem Search.after_append (st : Search) (es fs : List Entry) :
    st.after byId targets (es ++ fs) = (st.after byId targets es).after byId targets fs :=
  foldl_append

@[simp] theorem Search.truncated_after (st : Search) (es : List Entry) :
    (st.after byId targets es).truncated = st.truncated := by
  induction es generalizing st with
  | nil => rfl
  | cons e es ih => rw [Search.after_cons, ih, Search.truncated_record]

variable (byId targets) in
theorem Search.length_le_after (st : Search) (es : List Entry) :
    st.results.length ≤ (st.after byId targets es).results.length := by
  induction es generalizing st with
  | nil => exact le_rfl
  | cons e es ih =>
    have h1 := st.length_record byId targets e
    have h2 := ih (st.record byId targets e)
    rw [Search.after_cons]
    omega

/-- **The search is not cut off** when it looks at some paths: they are not too many, and do not
give too many results. -/
def Complete (byId : Str → Option NodeView) (targets : List Str) (limits : Limits) (left : ℕ)
    (es : List Entry) (st : Search) : Prop :=
  es.length ≤ left ∧ ¬ (st.after byId targets es).Full limits

variable (adj byId targets) in
/-- **The inner loop** looks at the trees of the paths on its stack. -/
theorem searchFrom_spec (left : ℕ) (stack : List Entry) (st : Search)
    (hstack : ∀ e ∈ stack, e.2 ≠ []) (hst : st.truncated = false) (hroom : ¬ st.Full limits) :
    let es := stack.flatMap (visits adj limits)
    (Complete byId targets limits left es st →
      searchFrom adj byId targets limits left stack st =
        (left - es.length, st.after byId targets es)) ∧
    (¬ Complete byId targets limits left es st →
      (searchFrom adj byId targets limits left stack st).2.truncated = true) := by
  induction left generalizing stack st with
  | zero =>
    cases stack with
    | nil => exact ⟨fun _ => rfl, fun h => absurd ⟨le_rfl, hroom⟩ h⟩
    | cons e stack =>
      refine ⟨fun h => ?_, fun _ => rfl⟩
      have hlen := h.1
      rw [flatMap_cons, visits_eq (hstack e mem_cons_self)] at hlen
      simp at hlen
  | succ left ih =>
    cases stack with
    | nil => exact ⟨fun _ => rfl, fun h => absurd ⟨Nat.zero_le _, hroom⟩ h⟩
    | cons e stack =>
      have he := hstack e mem_cons_self
      have hnext : ∀ f ∈ pushed adj limits e ++ stack, f.2 ≠ [] := by
        intro f hf
        rcases mem_append.mp hf with hf | hf
        · have hlen := length_of_mem_pushed hf
          exact ne_nil_of_length_pos (by omega)
        · exact hstack f (mem_cons_of_mem _ hf)
      have hvisits : (e :: stack).flatMap (visits adj limits) =
          e :: (pushed adj limits e ++ stack).flatMap (visits adj limits) := by
        rw [flatMap_cons, visits_eq he, flatMap_append, cons_append]
      have hloop : searchFrom adj byId targets limits (left + 1) (e :: stack) st =
          if IsHit targets e st ∧ (st.record byId targets e).Full limits then
            (left, { st.record byId targets e with truncated := true })
          else searchFrom adj byId targets limits left (pushed adj limits e ++ stack)
            (st.record byId targets e) := by
        rw [searchFrom, if_neg hroom]
      have hcomplete : ∀ es, Complete byId targets limits (left + 1) (e :: es) st ↔
          Complete byId targets limits left es (st.record byId targets e) := by
        intro es
        simp [Complete]
      rw [hvisits, hloop]
      simp only [hcomplete, length_cons, Nat.add_sub_add_right, Search.after_cons]
      by_cases hfull : (st.record byId targets e).Full limits
      · have hhit : IsHit targets e st := by
          by_contra hmiss
          have hlen := st.length_record byId targets e
          unfold Search.Full at hroom hfull
          rw [if_neg hmiss] at hlen
          omega
        rw [if_pos ⟨hhit, hfull⟩]
        refine ⟨fun h => absurd ?_ h.2, fun _ => rfl⟩
        have hlen := (st.record byId targets e).length_le_after byId targets
          ((pushed adj limits e ++ stack).flatMap (visits adj limits))
        unfold Search.Full at hfull ⊢
        omega
      · rw [if_neg fun h => hfull h.2]
        exact ih _ _ hnext ((st.truncated_record e).trans hst) hfull

variable (adj byId targets limits) in
/-- **The outer loop** looks at the trees of the sources. -/
theorem searchAll_spec (sources : List Str) (left : ℕ) (st : Search) (hst : st.truncated = false)
    (hroom : ¬ st.Full limits) :
    let es := sources.flatMap fun s => visits adj limits (s, [s])
    (Complete byId targets limits left es st →
      searchAll adj byId targets limits sources left st = st.after byId targets es) ∧
    (¬ Complete byId targets limits left es st →
      (searchAll adj byId targets limits sources left st).truncated = true) := by
  induction sources generalizing left st with
  | nil => exact ⟨fun _ => rfl, fun h => absurd ⟨Nat.zero_le _, hroom⟩ h⟩
  | cons s sources ih =>
    have hgo : ¬ (st.truncated = true ∨ st.Full limits) := by simp [hst, hroom]
    have hstack : ∀ e ∈ [((s, [s]) : Entry)], e.2 ≠ [] := by simp
    obtain ⟨hdone, hcut⟩ := searchFrom_spec adj byId targets left
      [(s, [s])] st hstack hst hroom
    simp only [flatMap_cons, flatMap_nil, append_nil] at hdone hcut
    simp only [flatMap_cons, searchAll, if_neg hgo]
    by_cases hfirst : Complete byId targets limits left (visits adj limits (s, [s])) st
    · have hsplit : ∀ es, Complete byId targets limits left (visits adj limits (s, [s]) ++ es) st ↔
          Complete byId targets limits (left - (visits adj limits (s, [s])).length) es
            (st.after byId targets (visits adj limits (s, [s]))) := by
        intro es
        have hlen := hfirst.1
        simp only [Complete, length_append, Search.after_append]
        constructor
        · exact fun h => ⟨by omega, h.2⟩
        · exact fun h => ⟨by omega, h.2⟩
      rw [hdone hfirst, hsplit, Search.after_append]
      exact ih _ _ ((st.truncated_after _).trans hst) hfirst.2
    · have hno : ¬ Complete byId targets limits left
          (visits adj limits (s, [s]) ++ sources.flatMap fun s => visits adj limits (s, [s])) st := by
        rintro ⟨hlen, hfew⟩
        refine hfirst ⟨?_, fun hfull => hfew ?_⟩
        · rw [length_append] at hlen
          omega
        · rw [Search.after_append]
          have hle := (st.after byId targets (visits adj limits (s, [s]))).length_le_after
            byId targets (sources.flatMap fun s => visits adj limits (s, [s]))
          unfold Search.Full at hfull ⊢
          omega
      have htrue := hcut hfirst
      refine ⟨fun h => absurd h hno, fun _ => ?_⟩
      cases sources with
      | nil => exact htrue
      | cons s' sources => simp [searchAll, htrue]

end Visits

/-! ### Simple paths -/

section Walks
variable {adj : Str → List Str} {limits : Limits}

/-- **A simple path** from a node, along the adjacency. -/
structure IsWalk (adj : Str → List Str) (s : Str) (p : List Str) : Prop where
  head : p.head? = some s
  nodup : p.Nodup
  chain : p.IsChain fun a b => b ∈ adj a

theorem IsWalk.ne_nil {s : Str} {p : List Str} (h : IsWalk adj s p) : p ≠ [] := by
  rintro rfl
  cases h.head

theorem isWalk_singleton {s t : Str} : IsWalk adj s [t] ↔ t = s :=
  ⟨fun h => Option.some.inj h.head, fun h => ⟨h ▸ rfl, nodup_singleton t, .singleton t⟩⟩

theorem IsWalk.invariant {P : Str → Prop} (hstep : ∀ a b, P a → b ∈ adj a → P b) {s : Str}
    {p : List Str} (h : IsWalk adj s p) (hs : P s) {v : Str} (hv : v ∈ p) : P v := by
  obtain ⟨hhead, -, hchain⟩ := h
  cases p with
  | nil => cases hv
  | cons a p =>
    obtain rfl := Option.some.inj hhead
    have hall := hchain.induction P (a :: p) (fun x y hxy hx => hstep x y hx hxy) fun _ => hs
    exact hall v hv

/-- A simple path is extended by a neighbour of its last node that it does not hold. -/
theorem isWalk_concat {s x nb : Str} {p : List Str} (hx : p.getLast? = some x) :
    IsWalk adj s (p ++ [nb]) ↔ IsWalk adj s p ∧ nb ∈ adj x ∧ nb ∉ p := by
  have hne : p ≠ [] := by
    rintro rfl
    cases hx
  have hhead : (p ++ [nb]).head? = p.head? := head?_append_of_ne_nil _ hne
  have hchain : (p ++ [nb]).IsChain (fun a b => b ∈ adj a) ↔
      p.IsChain (fun a b => b ∈ adj a) ∧ nb ∈ adj x := by
    rw [isChain_append, hx]
    simp
  have hnodup : (p ++ [nb]).Nodup ↔ p.Nodup ∧ nb ∉ p := by
    rw [nodup_append]
    constructor
    · rintro ⟨hp, -, hdis⟩
      exact ⟨hp, fun hmem => hdis nb hmem nb (mem_singleton_self nb) rfl⟩
    · rintro ⟨hp, hnot⟩
      refine ⟨hp, nodup_singleton nb, ?_⟩
      rintro a ha b hb rfl
      rw [mem_singleton] at hb
      exact hnot (hb ▸ ha)
  constructor
  · intro h
    obtain ⟨hp, hmem⟩ := hnodup.mp h.nodup
    obtain ⟨hc, hadj⟩ := hchain.mp h.chain
    exact ⟨⟨hhead ▸ h.head, hp, hc⟩, hadj, hmem⟩
  · rintro ⟨h, hadj, hmem⟩
    exact ⟨hhead.trans h.head, hnodup.mpr ⟨h.nodup, hmem⟩, hchain.mpr ⟨h.chain, hadj⟩⟩

theorem mem_pushed {e f : Entry} :
    f ∈ pushed adj limits e ↔ (e.2.length : ℤ) - 1 < limits.maxDepth ∧
      f.1 ∈ adj e.1 ∧ f.1 ∉ e.2 ∧ f.2 = e.2 ++ [f.1] := by
  unfold pushed extensions
  split_ifs with hdeep
  · simp only [not_mem_nil, false_iff]
    rintro ⟨h, -⟩
    omega
  · rw [mem_map]
    constructor
    · rintro ⟨nb, hnb, rfl⟩
      rw [mem_filter, decide_eq_true_eq] at hnb
      exact ⟨by omega, hnb.1, hnb.2, rfl⟩
    · rintro ⟨-, hadj, hnot, heq⟩
      refine ⟨f.1, mem_filter.mpr ⟨hadj, decide_eq_true hnot⟩, ?_⟩
      rw [← heq]

/-- **The paths that are looked at** from a source: the simple paths that are not too long. -/
theorem mem_visits {s : Str} {e : Entry} :
    e ∈ visits adj limits (s, [s]) ↔
      IsWalk adj s e.2 ∧ e.2.getLast? = some e.1 ∧ e.2.length - 1 ≤ limits.maxDepth.toNat := by
  have hroom : room limits (s, [s]) = limits.maxDepth.toNat := by simp [room]
  rw [visits, mem_unfold, hroom]
  constructor
  · rintro ⟨k, hk, hsteps⟩
    have hlen : e.2.length = 1 + k := by
      have := hsteps.size_eq Prod.snd List.length fun s t ht => length_of_mem_pushed ht
      simpa using this
    have hgood := hsteps.invariant (P := fun e => IsWalk adj s e.2 ∧ e.2.getLast? = some e.1)
      (fun e f he hf => by
        obtain ⟨-, hadj, hnot, heq⟩ := mem_pushed.mp hf
        rw [heq]
        exact ⟨(isWalk_concat he.2).mpr ⟨he.1, hadj, hnot⟩, getLast?_concat⟩)
      ⟨isWalk_singleton.mpr rfl, rfl⟩
    exact ⟨hgood.1, hgood.2, by omega⟩
  · rintro ⟨hwalk, hlast, hlen⟩
    refine ⟨e.2.length - 1, hlen, ?_⟩
    obtain ⟨x, p⟩ := e
    dsimp only at hwalk hlast hlen ⊢
    induction p using reverseRecOn generalizing x with
    | nil => cases hlast
    | append_singleton p nb ih =>
      rw [getLast?_concat, Option.some.injEq] at hlast
      subst hlast
      cases hp : p.getLast? with
      | none =>
        rw [getLast?_eq_none_iff] at hp
        subst hp
        obtain rfl := isWalk_singleton.mp hwalk
        exact .refl _
      | some y =>
        have hpos : 0 < p.length := by
          refine length_pos_of_ne_nil ?_
          rintro rfl
          cases hp
        obtain ⟨hwalk', hadj, hnot⟩ := (isWalk_concat hp).mp hwalk
        rw [length_append, length_singleton] at hlen ⊢
        have hsteps := ih y hwalk' hp (by omega)
        have hstep : (nb, p ++ [nb]) ∈ pushed adj limits (y, p) :=
          mem_pushed.mpr ⟨by dsimp only; omega, hadj, hnot, rfl⟩
        have hcount : p.length + 1 - 1 = (p.length - 1) + 1 := by omega
        rw [hcount]
        exact hsteps.tail hstep

theorem dropLast_of_mem_pushed {e f : Entry} (h : f ∈ pushed adj limits e) :
    f.2.dropLast = e.2 := by
  rw [(mem_pushed.mp h).2.2.2, dropLast_concat]

theorem nodup_pushed (hadj : ∀ i, (adj i).Nodup) (e : Entry) :
    ((pushed adj limits e).map Prod.snd).Nodup := by
  unfold pushed extensions
  split_ifs
  · exact nodup_nil
  · rw [map_map]
    refine ((hadj e.1).filter _).map fun a b hab => ?_
    simpa using hab

theorem nodup_visits (hadj : ∀ i, (adj i).Nodup) {sources : List Str} (hsources : sources.Nodup) :
    ((sources.flatMap fun s => visits adj limits (s, [s])).map Prod.snd).Nodup := by
  have hroots : (sources.map fun s => ((s, [s]) : Entry)).flatMap
      (unfold (pushed adj limits) limits.maxDepth.toNat) =
      sources.flatMap fun s => visits adj limits (s, [s]) := by
    rw [flatMap_map]
    rfl
  rw [← hroots]
  refine nodup_unfold_roots Prod.snd dropLast List.length
    (fun _ _ ht => dropLast_of_mem_pushed ht) (fun _ _ ht => length_of_mem_pushed ht)
    (nodup_pushed hadj) ?_ fun a ha b hb => ?_
  · rw [map_map]
    exact hsources.map fun a b hab => by simpa using hab
  · obtain ⟨s, -, rfl⟩ := mem_map.mp ha
    obtain ⟨t, -, rfl⟩ := mem_map.mp hb
    rfl

end Walks

/-! ### The exposure paths -/

theorem Search.results_after (byId : Str → Option NodeView) (targets : List Str) {es : List Entry}
    (st : Search) (hes : (es.map Prod.snd).Nodup) (hseen : ∀ e ∈ es, e.2 ∉ st.seen) :
    (st.after byId targets es).results =
      st.results ++ (es.filter fun e => e.1 ∈ targets).map fun e => mkPath byId e.2 := by
  induction es generalizing st with
  | nil => simp
  | cons e es ih =>
    rw [map_cons, nodup_cons] at hes
    obtain ⟨hnew, hes⟩ := hes
    have hfresh : e.2 ∉ st.seen := hseen e mem_cons_self
    have hrest : ∀ f ∈ es, f.2 ∉ (st.record byId targets e).seen := by
      intro f hf
      have hold := hseen f (mem_cons_of_mem _ hf)
      have hne : f.2 ≠ e.2 := fun heq => hnew (heq ▸ mem_map_of_mem hf)
      unfold Search.record
      split_ifs
      · simp [hne, hold]
      · exact hold
    rw [Search.after_cons, ih _ hes hrest, filter_cons]
    unfold Search.record
    by_cases htarget : e.1 ∈ targets
    · rw [if_pos ⟨htarget, hfresh⟩]
      simp [htarget]
    · rw [if_neg fun h => htarget h.1]
      simp [htarget]

section Exposure
variable (nodes : List NodeView) (edges : List EdgeView) (limits : Limits)

/-- The paths that `exposure_paths` looks at, if nothing stops it. -/
def lookedAt : List Entry :=
  (sortedIds (index nodes) (entryIds nodes)).flatMap fun s =>
    visits (buildAdjacency nodes edges) limits (s, [s])

/-- Those of them that end at a target. -/
def found : List (List Str) :=
  ((lookedAt nodes edges limits).filter fun e => e.1 ∈ sensitiveIds nodes).map Prod.snd

/-- **An exposure path**: a simple path over the exposure relations, with not too many edges, from a
node that the internet reaches to a target. -/
structure IsExposurePath (p : List Str) : Prop where
  entry : ∃ n ∈ nodes, n.internetReachable = true ∧ p.head? = some n.id
  target : ∃ n ∈ nodes, isSensitive n = true ∧ p.getLast? = some n.id
  nodup : p.Nodup
  chain : p.IsChain (Reaches nodes edges)
  depth : (p.length : ℤ) - 1 ≤ limits.maxDepth

variable {nodes edges limits}

variable (nodes edges limits) in
theorem nodup_lookedAt : ((lookedAt nodes edges limits).map Prod.snd).Nodup :=
  nodup_visits (fun _ => nodup_buildAdjacency _) (nodup_sortedIds _ _)

theorem nodup_found : (found nodes edges limits).Nodup :=
  (nodup_lookedAt nodes edges limits).sublist (filter_sublist.map _)

/-- **What is found are the exposure paths.** -/
theorem mem_found (hdepth : 0 ≤ limits.maxDepth) {p : List Str} :
    p ∈ found nodes edges limits ↔ IsExposurePath nodes edges limits p := by
  simp only [found, lookedAt, mem_map, mem_filter, decide_eq_true_eq, mem_flatMap,
    mem_visits, sortedIds, mem_sortBy, mem_dedup, mem_entryIds, mem_sensitiveIds]
  constructor
  · rintro ⟨e, ⟨⟨s, ⟨n, hn, hnet, rfl⟩, hwalk, hlast, hlen⟩, m, hm, hsens, hid⟩, rfl⟩
    have hpos := length_pos_of_ne_nil hwalk.ne_nil
    exact ⟨⟨n, hn, hnet, hwalk.head⟩, ⟨m, hm, hsens, hid ▸ hlast⟩, hwalk.nodup,
      hwalk.chain.imp fun _ _ => mem_buildAdjacency.mp, by omega⟩
  · rintro ⟨⟨n, hn, hnet, hhead⟩, ⟨m, hm, hsens, hlast⟩, hnodup, hchain, hlen⟩
    refine ⟨(m.id, p), ⟨⟨n.id, ⟨n, hn, hnet, rfl⟩, ⟨hhead, hnodup, ?_⟩, hlast, ?_⟩,
      m, hm, hsens, rfl⟩, rfl⟩
    · exact hchain.imp fun _ _ => mem_buildAdjacency.mpr
    · dsimp only
      omega

variable (nodes edges) in
/-- **What `exposure_paths` returns**: what is found, unless there is too much to look at or too
much is found. -/
theorem exposurePaths_spec (hmax : 1 ≤ limits.maxPaths) :
    let complete := (lookedAt nodes edges limits).length ≤ limits.maxNodes.toNat ∧
      ((found nodes edges limits).length : ℤ) < limits.maxPaths
    (complete → (exposurePaths nodes edges limits).truncated = false ∧
      (exposurePaths nodes edges limits).paths =
        sortBy Path.key ((found nodes edges limits).map (mkPath (index nodes)))) ∧
    (¬ complete → (exposurePaths nodes edges limits).truncated = true) := by
  have hroom : ¬ Search.start.Full limits := by
    unfold Search.Full Search.start
    simp only [length_nil]
    omega
  have hresults := Search.results_after (index nodes) (sensitiveIds nodes) .start
    (nodup_lookedAt nodes edges limits) fun _ _ => not_mem_nil
  have hfound : (Search.start.after (index nodes) (sensitiveIds nodes)
      (lookedAt nodes edges limits)).results =
        (found nodes edges limits).map (mkPath (index nodes)) := by
    rw [hresults, found, map_map]
    rfl
  obtain ⟨hdone, hcut⟩ := searchAll_spec (buildAdjacency nodes edges) (index nodes)
    (sensitiveIds nodes) limits (sortedIds (index nodes) (entryIds nodes)) limits.maxNodes.toNat
    .start rfl hroom
  have hcomplete : Complete (index nodes) (sensitiveIds nodes) limits limits.maxNodes.toNat
      (lookedAt nodes edges limits) .start ↔
      (lookedAt nodes edges limits).length ≤ limits.maxNodes.toNat ∧
        ((found nodes edges limits).length : ℤ) < limits.maxPaths := by
    rw [Complete, Search.Full, hfound, length_map, not_le]
  refine ⟨fun h => ?_, fun h => ?_⟩
  · have heq := hdone (hcomplete.mpr h)
    refine ⟨?_, ?_⟩
    · exact (congrArg Search.truncated heq).trans (Search.truncated_after _ _)
    · rw [← hfound]
      exact congrArg (fun st : Search => sortBy Path.key st.results) heq
  · exact hcut fun hc => h (hcomplete.mp hc)

variable (nodes edges) in
theorem exposurePaths_of_maxPaths (hmax : limits.maxPaths ≤ 0) :
    exposurePaths nodes edges limits = ⟨[], false⟩ := by
  have hfull : Search.start.Full limits := by
    unfold Search.Full Search.start
    simpa using hmax
  have hnone : ∀ (adj : Str → List Str) (byId : Str → Option NodeView) (targets sources : List Str)
      (left : ℕ), searchAll adj byId targets limits sources left .start = .start := by
    intro adj byId targets sources left
    cases sources with
    | nil => rfl
    | cons s sources => rw [searchAll, if_pos (Or.inr hfull)]
  simp only [exposurePaths, enumerate, hnone]
  rfl

theorem paths_of_not_truncated (hmax : 1 ≤ limits.maxPaths)
    (h : (exposurePaths nodes edges limits).truncated = false) :
    (lookedAt nodes edges limits).length ≤ limits.maxNodes.toNat ∧
      ((found nodes edges limits).length : ℤ) < limits.maxPaths ∧
      (exposurePaths nodes edges limits).paths =
        sortBy Path.key ((found nodes edges limits).map (mkPath (index nodes))) := by
  obtain ⟨hdone, hcut⟩ := exposurePaths_spec nodes edges hmax
  have hcomplete : (lookedAt nodes edges limits).length ≤ limits.maxNodes.toNat ∧
      ((found nodes edges limits).length : ℤ) < limits.maxPaths := by
    by_contra hno
    rw [hcut hno] at h
    cases h
  exact ⟨hcomplete.1, hcomplete.2, (hdone hcomplete).2⟩

theorem perm_found (hmax : 1 ≤ limits.maxPaths)
    (h : (exposurePaths nodes edges limits).truncated = false) :
    ((exposurePaths nodes edges limits).paths.map (·.nodeIds)).Perm (found nodes edges limits) := by
  rw [(paths_of_not_truncated hmax h).2.2]
  refine ((sortBy_perm _ _).map _).trans ?_
  rw [map_map]
  exact Perm.of_eq (map_id _)

/-- **An enumeration that was not cut off** has found exactly the exposure paths, each of them
once. -/
theorem exposurePaths_exact (hdepth : 1 ≤ limits.maxDepth) (hmax : 1 ≤ limits.maxPaths)
    (h : (exposurePaths nodes edges limits).truncated = false) :
    ((exposurePaths nodes edges limits).paths.map (·.nodeIds)).Nodup ∧
      ∀ p, p ∈ (exposurePaths nodes edges limits).paths.map (·.nodeIds) ↔
        IsExposurePath nodes edges limits p := by
  have hperm := perm_found hmax h
  refine ⟨hperm.nodup_iff.mpr nodup_found, fun p => ?_⟩
  rw [hperm.mem_iff, mem_found (by omega)]

end Exposure

/-- The graph of a gateway that resolves to two hosts, one of them with a high exposure. -/
def gatewayNodes : List NodeView :=
  [{ id := "n2", nodeType := "ip", canonicalKey := "198.51.100.7" },
   { id := "n1", nodeType := "domain", canonicalKey := "shop.example",
     internetReachable := true },
   { id := "n3", nodeType := "service", canonicalKey := "db:5432",
     exposureScore := 80 }]

/-- Its edges: one of them is there twice, and one is not for exposure paths. -/
def gatewayEdges : List EdgeView :=
  [⟨"n2", "hosts", "n3"⟩, ⟨"n1", "resolves_to", "n2"⟩,
   ⟨"n1", "hosts", "n2"⟩, ⟨"n1", "serves_api", "n3"⟩]

/-- The enumeration over the gateway's graph. -/
theorem exposurePaths_exact_gateway :
    (exposurePaths gatewayNodes gatewayEdges {}).paths.map (·.nodeIds) =
        [["n1".toList, "n2".toList, "n3".toList]] ∧
      ((exposurePaths gatewayNodes gatewayEdges {}).paths.map (·.nodeIds)).Nodup ∧
      ∀ p, p ∈ (exposurePaths gatewayNodes gatewayEdges {}).paths.map (·.nodeIds) ↔
        IsExposurePath gatewayNodes gatewayEdges {} p :=
  ⟨by decide, exposurePaths_exact (by decide) (by decide) (by decide)⟩

end Guardian.AttackGraph

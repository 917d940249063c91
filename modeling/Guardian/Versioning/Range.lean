import Guardian.Versioning.Compare
import Guardian.Order.Latch
import Mathlib.Data.List.ReduceOption
import Mathlib.Data.List.Sort

/-!
# Event ranges

`inEventRange` evaluates a list of OSV events: the points at which a package becomes affected
(`introduced`) or stops to be (`fixed`, `limit`, `last_affected`).  It moves the points that stand
for the beginning of time to the front, and then scans the points in the order they came in.
-/

namespace Guardian.Versioning

open Python Guardian.Order List

variable (R : Runtime)

/-! ### Events and points -/

/-- The kinds of events, in the order in which an event is asked for them. -/
inductive Kind
  | introduced
  | fixed
  | lastAffected
  | limit
  deriving DecidableEq

/-- An event: the text of the value under each of the four keys, where the key is there. -/
structure Event where
  introduced : Option Str
  fixed : Option Str
  lastAffected : Option Str
  limit : Option Str

/-- The first of the four keys an event has. -/
def Event.first (e : Event) : Option (Kind × Str) :=
  e.introduced.map (Kind.introduced, ·) <|> e.fixed.map (Kind.fixed, ·) <|>
    e.lastAffected.map (Kind.lastAffected, ·) <|> e.limit.map (Kind.limit, ·)

/-- The event with one key. -/
def Event.single : Kind × Str → Option Event
  | (.introduced, raw) => some ⟨some raw, none, none, none⟩
  | (.fixed, raw) => some ⟨none, some raw, none, none⟩
  | (.lastAffected, raw) => some ⟨none, none, some raw, none⟩
  | (.limit, raw) => some ⟨none, none, none, some raw⟩

/-- Where a point stands: at the beginning of time (`NEG_INF`), or at a version. -/
inductive PointKey
  | start
  | key (k : Key)

/-- The texts that stand for the beginning of time. -/
def IsStart (kind : Kind) (raw : Str) : Prop := kind = .introduced ∧ (raw = ['0'] ∨ raw = [])

instance (kind : Kind) (raw : Str) : Decidable (IsStart kind raw) := by
  unfold IsStart
  infer_instance

/-- The point of one event; `none` is an entry that is no dictionary. -/
def eventPoint (eco : Ecosystem) (event : Option Event) :
    Except Fault (Option (PointKey × Kind)) :=
  match event.bind Event.first with
  | none => return none
  | some (kind, raw) =>
    if IsStart kind raw then return some (.start, kind)
    else do return some (.key (← versionKey R raw (.inl eco)), kind)

/-- `_event_points`. -/
def eventPoints (events : List (Option Event)) (eco : Ecosystem) :
    Except Fault (List (PointKey × Kind)) := do
  let points ← events.mapM (eventPoint R eco)
  return points.reduceOption

/-- The sort key of `_sortable`. -/
def sortRank : PointKey × Kind → ℤ
  | (.start, _) => -1
  | (.key _, _) => 0

/-- `_sortable`. -/
def sortable (points : List (PointKey × Kind)) : List (PointKey × Kind) :=
  points.insertionSort fun p q => sortRank p ≤ sortRank q

/-! ### The scan -/

/-- `_le`. -/
def atOrBelow (vkey : Key) : PointKey → Except Fault Bool
  | .start => .ok true
  | .key k => onTypeError ((!·) <$> vkey.lt R k) (.ok false)

/-- `_lt`. -/
def below (vkey : Key) : PointKey → Except Fault Bool
  | .start => .ok true
  | .key k => onTypeError (k.lt R vkey) (.ok false)

/-- The first loop. -/
def scanStep (vkey : Key) (affected : Bool) (p : PointKey × Kind) : Except Fault Bool :=
  match p.2 with
  | .introduced => do return if ← atOrBelow R vkey p.1 then true else affected
  | .fixed | .limit => do return if ← atOrBelow R vkey p.1 then false else affected
  | .lastAffected => do
    if ← below R vkey p.1 then return if ← atOrBelow R vkey p.1 then affected else false
    else return affected

/-- The second loop: anything above a `last_affected` is not affected. -/
def lastStep (vkey : Key) (affected : Bool) : PointKey × Kind → Except Fault Bool
  | (.key k, .lastAffected) => do
    return if ← onTypeError (k.lt R vkey) (.ok false) then false else affected
  | _ => .ok affected

/-- `in_event_range`. -/
def inEventRange (version : Str) (events : List (Option Event)) (ecosystem : Ecosystem ⊕ Str) :
    Except Fault Bool := do
  let eco := Ecosystem.of R ecosystem
  let points ← eventPoints R events eco
  if points.isEmpty then return false
  let vkey ← versionKey R version (.inl eco)
  let ordered := sortable points
  let affected ← ordered.foldlM (scanStep R vkey) false
  ordered.foldlM (lastStep R vkey) affected

/-! ### The order of the scan -/

/-- The point is the beginning of time. -/
def isStart : PointKey × Kind → Bool
  | (.start, _) => true
  | (.key _, _) => false

theorem sortRank_le_iff (p q : PointKey × Kind) :
    sortRank p ≤ sortRank q ↔ isStart p = true ∨ isStart q = false := by
  obtain ⟨_ | _, _⟩ := p <;> obtain ⟨_ | _, _⟩ := q <;> simp [sortRank, isStart]

theorem orderedInsert_of_forall {A : Type*} (r : A → A → Prop) [DecidableRel r] {a : A}
    {l : List A} (h : ∀ b ∈ l, r a b) : l.orderedInsert r a = a :: l := by
  cases l with
  | nil => rfl
  | cons b l => rw [orderedInsert, if_pos (h b (by simp))]

theorem orderedInsert_append {A : Type*} (r : A → A → Prop) [DecidableRel r] {a : A}
    {l m : List A} (h : ∀ b ∈ l, ¬ r a b) :
    (l ++ m).orderedInsert r a = l ++ m.orderedInsert r a := by
  induction l with
  | nil => rfl
  | cons b l ih =>
    rw [cons_append, orderedInsert, if_neg (h b (by simp)),
      ih fun c hc => h c (by simp [hc]), cons_append]

/-- **`_sortable` moves the beginning of time to the front**, and that is all it does. -/
theorem sortable_eq (points : List (PointKey × Kind)) :
    sortable points = points.filter isStart ++ points.filter (!isStart ·) := by
  unfold sortable
  induction points with
  | nil => rfl
  | cons p ps ih =>
    rw [insertionSort_cons, ih]
    rcases hp : isStart p with _ | _
    · have hstart : ∀ q ∈ ps.filter isStart, ¬ sortRank p ≤ sortRank q := by
        intro q hq
        rw [sortRank_le_iff, hp, (mem_filter.mp hq).2]
        simp
      have hrest : ∀ q ∈ ps.filter (!isStart ·), sortRank p ≤ sortRank q := by
        intro q hq
        have hq' := (mem_filter.mp hq).2
        rw [sortRank_le_iff]
        exact Or.inr (by simpa using hq')
      rw [orderedInsert_append _ hstart, orderedInsert_of_forall _ hrest]
      simp [hp]
    · rw [orderedInsert_of_forall _ fun q _ => (sortRank_le_iff p q).mpr (Or.inl hp)]
      simp [hp]

/-! ### What the comparisons say -/

/-- What the two comparisons of a point with the version say. -/
structure Reading where
  kind : Kind
  atOrBelow : Bool
  below : Bool

namespace Reading

/-- What the first loop does at a point. -/
def switch (r : Reading) : Option Bool :=
  match r.kind with
  | .introduced => if r.atOrBelow then some true else none
  | .fixed | .limit => if r.atOrBelow then some false else none
  | .lastAffected => if r.below && !r.atOrBelow then some false else none

/-- The version is above a `last_affected`. -/
def isPast (r : Reading) : Bool := decide (r.kind = .lastAffected) && r.below

end Reading

/-- **The verdict** of the two loops. -/
def verdict (rs : List Reading) : Bool :=
  latch Reading.switch false rs && !rs.any Reading.isPast

variable {R}

/-- The reading of a point, where its two comparisons end. -/
def Reads (R : Runtime) (vkey : Key) (p : PointKey × Kind) (r : Reading) : Prop :=
  r.kind = p.2 ∧ atOrBelow R vkey p.1 = .ok r.atOrBelow ∧ below R vkey p.1 = .ok r.below

/-- The point stands at the beginning of time or has a key of the ecosystem. -/
def PointOf (eco : Ecosystem) (p : PointKey × Kind) : Prop :=
  (p.1 = .start ∧ p.2 = .introduced) ∨ ∃ k, p.1 = .key k ∧ KeyOf eco k

variable {p : PointKey × Kind} {eco : Ecosystem} {vkey : Key} {ps points : List (PointKey × Kind)}

/-- **The two comparisons of a point with the version** both end, and a point below the version is
at or below it; or neither ends. -/
theorem reading_cases (hv : KeyOf eco vkey) (hp : PointOf eco p) :
    (∃ r, Reads R vkey p r ∧ (r.below = true → r.atOrBelow = true)) ∨
      (atOrBelow R vkey p.1 = .error .diverges ∧ below R vkey p.1 = .error .diverges) := by
  obtain ⟨key, kind⟩ := p
  obtain ⟨hstart, -⟩ | ⟨k, hkey, hk⟩ := hp
  · dsimp only at hstart
    subst hstart
    exact Or.inl ⟨⟨kind, true, true⟩, ⟨rfl, rfl, rfl⟩, fun _ => rfl⟩
  · dsimp only at hkey
    subst hkey
    unfold Reads
    simp only [atOrBelow, below]
    obtain ⟨x, y, hx, hy, hxy⟩ | ⟨hx, hy⟩ | ⟨hx, hy⟩ := Key.lt_cases (R := R) hv hk
    · rw [hx, hy]
      refine Or.inl ⟨⟨kind, !x, y⟩, ⟨rfl, rfl, rfl⟩, fun h => ?_⟩
      cases x
      · rfl
      · cases hxy.symm.trans h
    · rw [hx, hy]
      exact Or.inl ⟨⟨kind, false, false⟩, ⟨rfl, rfl, rfl⟩, fun h => h⟩
    · rw [hx, hy]
      exact Or.inr ⟨rfl, rfl⟩

theorem scanStep_diverges {affected : Bool} (hle : atOrBelow R vkey p.1 = .error .diverges)
    (hlt : below R vkey p.1 = .error .diverges) :
    scanStep R vkey affected p = .error .diverges := by
  unfold scanStep
  rw [hle, hlt]
  rcases p with ⟨_, _ | _ | _ | _⟩ <;> rfl

theorem scanStep_eq {r : Reading} (h : Reads R vkey p r)
    (affected : Bool) : scanStep R vkey affected p = .ok (r.switch.getD affected) := by
  obtain ⟨hkind, hle, hlt⟩ := h
  unfold scanStep Reading.switch
  rw [← hkind, hle, hlt]
  rcases r with ⟨_ | _ | _ | _, _ | _, _ | _⟩ <;> rfl

theorem foldlM_scanStep {rs : List Reading}
    (h : List.Forall₂ (Reads R vkey) ps rs) (affected : Bool) :
    ps.foldlM (scanStep R vkey) affected = .ok (latch Reading.switch affected rs) := by
  induction h generalizing affected with
  | nil => rfl
  | cons hp _ ih =>
    rw [foldlM_cons, scanStep_eq hp, latch_cons]
    exact ih _

theorem lastStep_eq {r : Reading} (h : Reads R vkey p r)
    (hp : isStart p = true → p.2 = .introduced) (affected : Bool) :
    lastStep R vkey affected p = .ok (affected && !r.isPast) := by
  obtain ⟨hkind, -, hlt⟩ := h
  obtain ⟨key, kind⟩ := p
  obtain ⟨kind', le, lt⟩ := r
  dsimp only at hkind hlt
  subst hkind
  cases key with
  | start =>
    obtain rfl := hp rfl
    simp [lastStep, Reading.isPast]
  | key k =>
    cases kind'
    case lastAffected =>
      have hlt' : onTypeError (k.lt R vkey) (.ok false) = .ok lt := hlt
      rw [lastStep, hlt']
      cases lt <;> cases affected <;> rfl
    all_goals simp [lastStep, Reading.isPast]

theorem foldlM_lastStep {rs : List Reading} (h : List.Forall₂ (Reads R vkey) ps rs)
    (hps : ∀ p ∈ ps, isStart p = true → p.2 = .introduced) (affected : Bool) :
    ps.foldlM (lastStep R vkey) affected = .ok (affected && !rs.any Reading.isPast) := by
  induction h generalizing affected with
  | nil => simp; rfl
  | cons hp _ ih =>
    rw [foldlM_cons, lastStep_eq hp (hps _ (by simp)), any_cons]
    show foldlM _ _ _ = _
    rw [ih fun p hp => hps p (by simp [hp])]
    simp [Bool.and_assoc]

variable (R) in
/-- The comparisons of the point with the version end. -/
def Ends (vkey : Key) (p : PointKey × Kind) : Prop := ∃ r, Reads R vkey p r

variable (R) in
/-- What the comparisons of a point with the version say. -/
def readingOf (vkey : Key) (p : PointKey × Kind) : Reading :=
  ⟨p.2, decide (atOrBelow R vkey p.1 = .ok true), decide (below R vkey p.1 = .ok true)⟩

theorem reads_readingOf (h : Ends R vkey p) :
    Reads R vkey p (readingOf R vkey p) := by
  obtain ⟨r, hkind, hle, hlt⟩ := h
  refine ⟨rfl, ?_, ?_⟩
  · rw [hle]
    unfold readingOf
    cases hr : r.atOrBelow <;> simp [hle, hr]
  · rw [hlt]
    unfold readingOf
    cases hr : r.below <;> simp [hlt, hr]

theorem readingOf_of_reads {r : Reading} (h : Reads R vkey p r) : readingOf R vkey p = r := by
  obtain ⟨kind, le, lt⟩ := r
  obtain ⟨hkind, hle, hlt⟩ := h
  dsimp only at hkind hle hlt
  unfold readingOf
  rw [hle, hlt, ← hkind]
  cases le <;> cases lt <;> rfl

theorem forall₂_reads (h : ∀ p ∈ ps, Ends R vkey p) :
    List.Forall₂ (Reads R vkey) ps (ps.map (readingOf R vkey)) := by
  rw [List.forall₂_map_right_iff, List.forall₂_same]
  exact fun p hp => reads_readingOf (h p hp)

theorem atOrBelow_of_below
    (hv : KeyOf eco vkey) (hp : PointOf eco p) (h : below R vkey p.1 = .ok true) :
    atOrBelow R vkey p.1 = .ok true := by
  obtain ⟨r, ⟨-, hle, hlt⟩, himp⟩ | ⟨-, hlt⟩ := reading_cases (R := R) hv hp
  · rw [h, Except.ok.injEq] at hlt
    rw [hle, himp hlt.symm]
  · rw [h] at hlt
    cases hlt

theorem foldlM_scanStep_diverges
    (hv : KeyOf eco vkey) (hps : ∀ p ∈ ps, PointOf eco p) (h : ¬ ∀ p ∈ ps, Ends R vkey p)
    (affected : Bool) : ps.foldlM (scanStep R vkey) affected = .error .diverges := by
  induction ps generalizing affected with
  | nil => exact absurd (by simp) h
  | cons p ps ih =>
    rw [foldlM_cons]
    obtain ⟨r, hr, -⟩ | ⟨hle, hlt⟩ := reading_cases (R := R) hv (hps p (by simp))
    · rw [scanStep_eq hr]
      refine ih (fun q hq => hps q (by simp [hq])) (fun hq => h ?_) _
      intro q hmem
      rcases mem_cons.mp hmem with rfl | hmem
      · exact ⟨r, hr⟩
      · exact hq q hmem
    · rw [scanStep_diverges hle hlt]
      rfl

/-! ### The points of the events -/

theorem eventPoint_mem {event : Option Event}
    (h : eventPoint R eco event = .ok (some p)) : PointOf eco p := by
  unfold eventPoint at h
  split at h
  · cases h
  · split_ifs at h with hstart
    · cases h
      exact Or.inl ⟨rfl, hstart.1⟩
    · obtain ⟨k, hk, h⟩ := bind_eq_ok.mp h
      cases h
      exact Or.inr ⟨k, rfl, versionKey_mem hk⟩

theorem onlyValueError_eventPoint (eco : Ecosystem) (event : Option Event) :
    OnlyValueError (eventPoint R eco event) := by
  unfold eventPoint
  split
  · exact onlyValueError_ok _
  · split_ifs
    · exact onlyValueError_ok _
    · exact onlyValueError_bind (onlyValueError_versionKey _ _) fun k => onlyValueError_ok _

theorem onlyValueError_eventPoints (events : List (Option Event)) (eco : Ecosystem) :
    OnlyValueError (eventPoints R events eco) :=
  onlyValueError_bind (onlyValueError_mapM (onlyValueError_eventPoint eco) events)
    fun _ => onlyValueError_ok _

theorem eventPoints_mem {events : List (Option Event)} (h : eventPoints R events eco = .ok points) :
    ∀ p ∈ points, PointOf eco p := by
  obtain ⟨opts, hopts, h⟩ := bind_eq_ok.mp h
  cases h
  intro p hp
  rw [reduceOption_mem_iff] at hp
  obtain ⟨e, -, he⟩ := exists_of_mem_mapM hopts _ hp
  exact eventPoint_mem he

theorem eventPoints_perm {events events' : List (Option Event)} (hperm : events.Perm events')
    (h : eventPoints R events eco = .ok points) :
    ∃ points', eventPoints R events' eco = .ok points' ∧ points.Perm points' := by
  obtain ⟨opts, hopts, h⟩ := bind_eq_ok.mp h
  cases h
  obtain ⟨opts', hopts', hp⟩ := mapM_perm hperm hopts
  exact ⟨opts'.reduceOption, bind_eq_ok.mpr ⟨opts', hopts', rfl⟩, hp.filterMap id⟩

theorem exists_perm_last {events : List (Option Event)} (h : eventPoints R events eco = .ok points)
    (hp : p ∈ points) :
    ∃ events' ps, events.Perm events' ∧ eventPoints R events' eco = .ok (ps ++ [p]) ∧
      points.Perm (ps ++ [p]) := by
  obtain ⟨opts, hopts, h⟩ := bind_eq_ok.mp h
  cases h
  rw [reduceOption_mem_iff] at hp
  obtain ⟨e, hmem, he⟩ := exists_of_mem_mapM hopts _ hp
  obtain ⟨before, after, rfl⟩ := append_of_mem hmem
  obtain ⟨m, hperm⟩ : ∃ m, (before ++ e :: after).Perm (m ++ [e]) :=
    ⟨before ++ after, perm_middle.trans (perm_append_singleton e _).symm⟩
  obtain ⟨opts', hopts', hoperm⟩ := mapM_perm hperm hopts
  obtain ⟨ms, hms, rfl⟩ : ∃ ms, m.mapM (eventPoint R eco) = .ok ms ∧ opts' = ms ++ [some p] := by
    rw [mapM_append] at hopts'
    obtain ⟨ms, hms, hopts'⟩ := bind_eq_ok.mp hopts'
    rw [mapM_cons, he] at hopts'
    cases hopts'
    exact ⟨ms, hms, rfl⟩
  refine ⟨m ++ [e], ms.reduceOption, hperm, bind_eq_ok.mpr ⟨_, hopts', ?_⟩, ?_⟩
  · rw [reduceOption_append]
    rfl
  · have hred := hoperm.filterMap id
    change opts.reduceOption.Perm (ms ++ [some p]).reduceOption at hred
    rw [reduceOption_append] at hred
    exact hred

end Guardian.Versioning

import Guardian.Versioning.Constraint
import Guardian.Versioning.Range

/-!
# What an advisory affects

`versionAffected` asks the criteria of an affected entry one after the other.  Its docstring gives
them an order: the ranges, the constraint, the list of versions, the single version, and the whole
package if none of them says anything (`documented`).  `versionAffected_iff` says when the two
orders agree.
-/

namespace Guardian.Versioning

open Python

variable (R : Runtime)

/-! ### Entries -/

/-- A range: its events, where there is a list of them, and the texts of its constraints, empty
where there is none. -/
structure AffectedRange where
  events : Option (List (Option Event))
  constraint : Str
  range : Str

/-- What stands under `versions`: a list, empty where there is nothing, or something else. -/
inductive Versions
  | list (vs : List Str)
  | other
  deriving DecidableEq

/-- **An affected entry.**  `ranges` is empty where there is no list of ranges, `none` in it is an
item that is no dictionary; a text is empty where there is none. -/
structure AffectedEntry where
  ecosystem : Str
  ranges : List (Option AffectedRange)
  versions : Versions
  version : Str
  constraint : Str

/-- `ecosystem or entry.get("ecosystem")`, normalised. -/
def AffectedEntry.eco (entry : AffectedEntry) (ecosystem : Option (Ecosystem ⊕ Str)) : Ecosystem :=
  match ecosystem with
  | some (.inl eco) => eco
  | some (.inr name) => normalizeEcosystem R (if name = [] then entry.ecosystem else name)
  | none => normalizeEcosystem R entry.ecosystem

/-- The constraint of a range: `rng.get("constraint") or rng.get("range")`. -/
def AffectedRange.bounds (r : AffectedRange) : Str :=
  if r.constraint = [] then r.range else r.constraint

/-! ### The function -/

/-- One range of the loop. -/
def rangeAffected (eco : Ecosystem) (version : Str) (r : AffectedRange) : Except Fault Bool := do
  if r.events.getD [] ≠ [] then
    if ← inEventRange R version (r.events.getD []) (.inl eco) then return true
  if r.bounds ≠ [] then
    if ← satisfiesConstraint R version r.bounds (.inl eco) then return true
  return false

/-- The loop over the ranges. -/
def rangesAffected (eco : Ecosystem) (version : Str) :
    List (Option AffectedRange) → Except Fault Bool
  | [] => .ok false
  | none :: rs => rangesAffected eco version rs
  | some r :: rs => do
    if ← rangeAffected R eco version r then return true else rangesAffected eco version rs

/-- `any(compare(version, str(v), eco_enum) == 0 for v in versions)` -/
def listAffected (eco : Ecosystem) (version : Str) : List Str → Except Fault Bool
  | [] => .ok false
  | v :: vs => do
    if (← compare R version v (.inl eco)) = 0 then return true else listAffected eco version vs

def AffectedEntry.pins (entry : AffectedEntry) : Prop :=
  entry.versions ≠ .list [] ∨ entry.version ≠ []

instance (entry : AffectedEntry) : Decidable entry.pins := by
  unfold AffectedEntry.pins
  infer_instance

/-- What comes after the ranges. -/
def afterRanges (eco : Ecosystem) (version : Str) (entry : AffectedEntry) : Except Fault Bool :=
  match entry.versions with
  | .list (v :: vs) => listAffected R eco version (v :: vs)
  | _ =>
    if entry.version ≠ [] then do return decide ((← compare R version entry.version (.inl eco)) = 0)
    else if entry.constraint ≠ [] then satisfiesConstraint R version entry.constraint (.inl eco)
    else .ok true

/-- `version_affected`. -/
def versionAffected (entry : AffectedEntry) (version : Str)
    (ecosystem : Option (Ecosystem ⊕ Str)) : Except Fault Bool := do
  let eco := entry.eco R ecosystem
  let version := strip R version
  if version = [] then return false
  if entry.ranges ≠ [] then
    if ← rangesAffected R eco version entry.ranges then return true
    if ¬ entry.pins then return false
  afterRanges R eco version entry

/-! ### What the criteria say -/

/-- What two criteria say that are to be met by one of them at least. -/
def eitherVerdict : Option Bool → Option Bool → Option Bool := Option.merge (· || ·)

/-- What the events of a range say: nothing, if none of them has a key. -/
def eventsVerdict (eco : Ecosystem) (version : Str) (events : List (Option Event)) :
    Except Fault (Option Bool) :=
  if events.any fun e => (e.bind Event.first).isSome then
    some <$> inEventRange R version events (.inl eco)
  else .ok none

/-- What a range says, by its events or by its constraint. -/
def rangeVerdict (eco : Ecosystem) (version : Str) (r : AffectedRange) :
    Except Fault (Option Bool) := do
  let byEvents ← eventsVerdict R eco version (r.events.getD [])
  if byEvents = some true then return some true
  return eitherVerdict byEvents (← constraintVerdict R eco version r.bounds)

/-- **What the ranges say**, those that can be evaluated. -/
def rangesVerdict (eco : Ecosystem) (version : Str) :
    List (Option AffectedRange) → Except Fault (Option Bool)
  | [] => .ok none
  | none :: rs => rangesVerdict eco version rs
  | some r :: rs => do
    let first ← rangeVerdict R eco version r
    if first = some true then return some true
    return eitherVerdict first (← rangesVerdict eco version rs)

/-- What the list of versions says. -/
def versionsVerdict (eco : Ecosystem) (version : Str) (entry : AffectedEntry) :
    Except Fault (Option Bool) :=
  match entry.versions with
  | .list (v :: vs) => some <$> listAffected R eco version (v :: vs)
  | _ => .ok none

/-- What the single version says. -/
def versionVerdict (eco : Ecosystem) (version : Str) (entry : AffectedEntry) :
    Except Fault (Option Bool) :=
  if entry.version = [] then .ok none
  else do return some (decide ((← compare R version entry.version (.inl eco)) = 0))

/-- The first criterion that says something decides. -/
def firstVerdict : List (Except Fault (Option Bool)) → Except Fault (Option Bool)
  | [] => .ok none
  | verdict :: rest => do
    match ← verdict with
    | some b => return some b
    | none => firstVerdict rest

/-- What the list of versions or the single version says. -/
def listedVerdict (eco : Ecosystem) (version : Str) (entry : AffectedEntry) :
    Except Fault (Option Bool) :=
  firstVerdict [versionsVerdict R eco version entry, versionVerdict R eco version entry]

/-- **The verdict of the docstring**: the ranges, the constraint, the list of versions and the
single version in this order, a criterion that cannot be evaluated leaving the verdict to the
next; and the whole package is affected if none says anything.  No version is no match. -/
def documented (entry : AffectedEntry) (version : Str)
    (ecosystem : Option (Ecosystem ⊕ Str)) : Except Fault Bool :=
  let eco := entry.eco R ecosystem
  let version := strip R version
  if version = [] then .ok false
  else (·.getD true) <$> firstVerdict
    [rangesVerdict R eco version entry.ranges, constraintVerdict R eco version entry.constraint,
      versionsVerdict R eco version entry, versionVerdict R eco version entry]

variable {R}

/-! ### The ranges -/

theorem inEventRange_keyless {eco : Ecosystem} {version : Str} {events : List (Option Event)}
    (h : ∀ e ∈ events, (e.bind Event.first).isSome = false) :
    inEventRange R version events (.inl eco) = .ok false := by
  have hpoints : ∀ events : List (Option Event), (∀ e ∈ events, e.bind Event.first = none) →
      events.mapM (eventPoint R eco) = .ok (events.map fun _ => none) := by
    intro events h
    induction events with
    | nil => rfl
    | cons e events ih =>
      have hpoint : eventPoint R eco e = .ok none := by
        unfold eventPoint
        rw [h e (by simp)]
        rfl
      rw [List.mapM_cons, hpoint, ih fun e he => h e (by simp [he])]
      rfl
  have hnone : ((events.map fun _ => (none : Option (PointKey × Kind))).reduceOption) = [] := by
    simp [List.reduceOption]
  unfold inEventRange eventPoints
  dsimp only [Ecosystem.of]
  rw [hpoints events fun e he => by simpa using h e he]
  show (if (List.reduceOption _).isEmpty then _ else _) = _
  rw [hnone]
  rfl

theorem eventsVerdict_eq (eco : Ecosystem) (version : Str) (events : List (Option Event)) :
    inEventRange R version events (.inl eco) =
      (·.getD false) <$> eventsVerdict R eco version events := by
  unfold eventsVerdict
  split_ifs with h
  · rcases inEventRange R version events (.inl eco) with _ | _ <;> rfl
  · refine inEventRange_keyless fun e he => ?_
    rw [Bool.not_eq_true, List.any_eq_false] at h
    simpa using h e he

theorem guarded_bind {p : Prop} [Decidable p] {x : Except Fault (Option Bool)}
    {y : Except Fault Bool} (hx : ¬ p → x = .ok none) :
    (if p then ((·.getD false) <$> x) >>= fun b => if b = true then pure true else y else y) =
      x >>= fun o => if o = some true then pure true else y := by
  by_cases hp : p
  · rw [if_pos hp]
    rcases x with f | _ | _ | _ <;> rfl
  · rw [if_neg hp, hx hp]
    rfl

theorem rangeAffected_eq (eco : Ecosystem) (version : Str) (r : AffectedRange) :
    rangeAffected R eco version r = (·.getD false) <$> rangeVerdict R eco version r := by
  unfold rangeAffected rangeVerdict
  dsimp only
  rw [eventsVerdict_eq, satisfiesConstraint_eq, guarded_bind, guarded_bind]
  · rcases eventsVerdict R eco version (r.events.getD []) with f | _ | _ | _ <;> try rfl
    all_goals
      rcases constraintVerdict R eco version r.bounds with f | _ | _ | _ <;> rfl
  · intro h
    rw [not_not] at h
    rw [h]
    rfl
  · intro h
    rw [not_not] at h
    rw [h]
    rfl

theorem rangesAffected_eq (eco : Ecosystem) (version : Str) (rs : List (Option AffectedRange)) :
    rangesAffected R eco version rs = (·.getD false) <$> rangesVerdict R eco version rs := by
  induction rs with
  | nil => rfl
  | cons r rs ih =>
    cases r with
    | none => exact ih
    | some r =>
      rw [rangesAffected, rangesVerdict, rangeAffected_eq, ih]
      rcases rangeVerdict R eco version r with f | _ | (_ | _) <;> try rfl
      all_goals
        rcases rangesVerdict R eco version rs with f | _ | (_ | _) <;> rfl

/-! ### The other criteria -/

theorem listedVerdict_of_not_pins {eco : Ecosystem} {version : Str} {entry : AffectedEntry}
    (h : ¬ entry.pins) : listedVerdict R eco version entry = .ok none := by
  unfold AffectedEntry.pins at h
  rw [not_or, not_not, not_not] at h
  unfold listedVerdict versionsVerdict versionVerdict
  rw [h.1, h.2]
  rfl

/-- A verdict, or what comes after a criterion that says nothing. -/
def orElseAsk (next : Except Fault Bool) : Option Bool → Except Fault Bool
  | some b => .ok b
  | none => next

theorem afterRanges_eq (eco : Ecosystem) (version : Str) (entry : AffectedEntry) :
    afterRanges R eco version entry =
      listedVerdict R eco version entry >>= orElseAsk
        (if entry.constraint = [] then .ok true
        else (·.getD false) <$> constraintVerdict R eco version entry.constraint) := by
  unfold afterRanges listedVerdict versionsVerdict versionVerdict
  rw [satisfiesConstraint_eq]
  rcases entry.versions with (_ | ⟨v, vs⟩) | _
  case list.cons =>
    dsimp only
    rcases listAffected R eco version (v :: vs) with _ | _ <;> rfl
  all_goals
    by_cases hv : entry.version = []
    · by_cases hc : entry.constraint = [] <;> simp only [hv, hc, ne_eq, not_true_eq_false,
        not_false_eq_true, if_true, if_false] <;> rfl
    · simp only [hv, ne_eq, not_false_eq_true, if_true, if_false]
      rcases compare R version entry.version (.inl eco) with _ | _ <;> rfl

/-- **`documented` asks in the order of the docstring.** -/
theorem documented_eq (entry : AffectedEntry) (version : Str)
    (ecosystem : Option (Ecosystem ⊕ Str)) (hv : strip R version ≠ []) :
    documented R entry version ecosystem =
      rangesVerdict R (entry.eco R ecosystem) (strip R version) entry.ranges >>= orElseAsk
        (constraintVerdict R (entry.eco R ecosystem) (strip R version) entry.constraint >>=
          orElseAsk (listedVerdict R (entry.eco R ecosystem) (strip R version) entry >>=
            orElseAsk (.ok true))) := by
  unfold documented
  dsimp only
  rw [if_neg hv]
  unfold listedVerdict
  simp only [firstVerdict]
  generalize rangesVerdict R _ _ _ = r, constraintVerdict R _ _ _ = c, versionsVerdict R _ _ _ = l,
    versionVerdict R _ _ _ = v
  rcases r with f | _ | _ <;> try rfl
  rcases c with f | _ | _ <;> try rfl
  rcases l with f | _ | _ <;> try rfl
  rcases v with f | _ | _ <;> rfl

theorem versionAffected_eq (entry : AffectedEntry) (version : Str)
    (ecosystem : Option (Ecosystem ⊕ Str)) (hv : strip R version ≠ []) :
    versionAffected R entry version ecosystem =
      rangesVerdict R (entry.eco R ecosystem) (strip R version) entry.ranges >>= fun r =>
        if r = some true then .ok true
        else if entry.ranges ≠ [] ∧ ¬ entry.pins then .ok false
        else listedVerdict R (entry.eco R ecosystem) (strip R version) entry >>= orElseAsk
          (if entry.constraint = [] then .ok true
          else (·.getD false) <$>
            constraintVerdict R (entry.eco R ecosystem) (strip R version) entry.constraint) := by
  unfold versionAffected
  dsimp only
  rw [if_neg hv, rangesAffected_eq, afterRanges_eq]
  by_cases hr : entry.ranges = []
  · rw [if_neg (not_not.mpr hr), hr]
    simp only [ne_eq, not_true_eq_false, false_and, if_false]
    rfl
  · rw [if_pos hr]
    simp only [hr, ne_eq, not_false_eq_true, true_and]
    rcases rangesVerdict R _ _ _ with f | _ | _ | _ <;> rfl

/-! ### Where the orders agree -/

variable (R) in
/-- **The two orders come to the same verdict.**  Either some range says that the version is
affected.  Or the ranges say that it is not, and the entry names no versions, or not this one.  Or
the ranges say nothing: then, where the entry has ranges and names no versions, the constraint is
to say that the version is not affected; where it names versions, the constraint is to say nothing
or the same; and where it has neither, the constraint is to say something or not to be there. -/
def OrdersAgree (eco : Ecosystem) (version : Str) (entry : AffectedEntry) : Prop :=
  let listed := listedVerdict R eco version entry
  let constraint := constraintVerdict R eco version entry.constraint
  match rangesVerdict R eco version entry.ranges with
  | .error _ | .ok (some true) => True
  | .ok (some false) =>
    entry.pins → listed = .ok (some false) ∨
      listed = .ok none ∧ entry.constraint ≠ [] ∧ (·.getD false) <$> constraint = .ok false
  | .ok none =>
    if entry.ranges ≠ [] ∧ ¬ entry.pins then constraint = .ok (some false)
    else if listed = .ok none then entry.constraint = [] ∨ constraint ≠ .ok none
    else constraint = .ok none ∨ constraint = listed

theorem listed_first_iff {p : Prop} [Decidable p] {c l : Except Fault (Option Bool)}
    (hc : p → c = .ok none) :
    (l >>= orElseAsk (if p then .ok true else (·.getD false) <$> c)) =
        (c >>= orElseAsk (l >>= orElseAsk (.ok true))) ↔
      if l = .ok none then p ∨ c ≠ .ok none else c = .ok none ∨ c = l := by
  by_cases hp : p
  · rw [hc hp, if_pos hp]
    rcases l with f | _ | _ | _ <;> simp [bind, Except.bind, orElseAsk, hp]
  · rw [if_neg hp]
    rcases l with f | _ | _ | _ <;> rcases c with f' | _ | _ | _ <;>
      simp [bind, Except.bind, orElseAsk, hp, Functor.map, Except.map, eq_comm]

/-- **`version_affected` decides by the order of its docstring** exactly where the version is blank
or the two orders come to the same verdict. -/
theorem versionAffected_iff (entry : AffectedEntry) (version : Str)
    (ecosystem : Option (Ecosystem ⊕ Str)) :
    versionAffected R entry version ecosystem = documented R entry version ecosystem ↔
      strip R version = [] ∨
        OrdersAgree R (entry.eco R ecosystem) (strip R version) entry := by
  by_cases hv : strip R version = []
  · simp only [versionAffected, documented, hv, if_true, true_or, iff_true]
    rfl
  rw [versionAffected_eq entry version ecosystem hv, documented_eq entry version ecosystem hv,
    or_iff_right hv]
  unfold OrdersAgree
  generalize entry.eco R ecosystem = eco, strip R version = v
  have hranges : entry.ranges = [] → rangesVerdict R eco v entry.ranges = .ok none :=
    fun h => by rw [h]; rfl
  have hconstraint : entry.constraint = [] →
      constraintVerdict R eco v entry.constraint = .ok none := fun h => by rw [h]; rfl
  have hlisted : ¬ entry.pins → listedVerdict R eco v entry = .ok none := listedVerdict_of_not_pins
  generalize rangesVerdict R eco v entry.ranges = r at *
  generalize constraintVerdict R eco v entry.constraint = c at *
  generalize listedVerdict R eco v entry = l at *
  rcases r with f | _ | _ | _
  · exact iff_of_true rfl trivial
  · -- the ranges say nothing
    change (if _ then _ else _) = _ ↔ _
    dsimp only
    by_cases hcase : entry.ranges ≠ [] ∧ ¬ entry.pins
    · rw [if_pos hcase, if_pos hcase, hlisted hcase.2]
      rcases c with f | _ | _ | _ <;> simp [bind, Except.bind, orElseAsk]
    · rw [if_neg hcase, if_neg hcase]
      exact listed_first_iff hconstraint
  · -- the ranges say that the version is not affected
    change (if _ then _ else _) = Except.ok false ↔ _
    dsimp only
    have hr : entry.ranges ≠ [] := fun h => by cases hranges h
    by_cases hp : entry.pins
    · rw [if_neg fun h => h.2 hp]
      by_cases hc : entry.constraint = [] <;>
        rcases l with f | _ | _ | _ <;> simp [bind, Except.bind, orElseAsk, hc, hp]
    · rw [if_pos ⟨hr, hp⟩]
      exact iff_of_true rfl fun h => absurd h hp
  · exact iff_of_true rfl trivial

/-- An npm entry with a constraint and a list with one version. -/
def constrainedEntry : AffectedEntry :=
  ⟨"npm", [], .list ["1.0.0"], [], ">=1.0.0,<2.0.0"⟩

/-- An npm entry with a constraint and a range without events. -/
def eventlessEntry : AffectedEntry :=
  ⟨"npm", [some ⟨some [], [], []⟩], .list [], [], "<2.0.0"⟩

/-- **A constraint that is met is not asked**: after a list of versions without this one, and after
a range that cannot be evaluated. -/
theorem constraint_not_asked :
    versionAffected .ascii constrainedEntry "1.5.0" none = .ok false ∧
      documented .ascii constrainedEntry "1.5.0" none = .ok true ∧
      versionAffected .ascii eventlessEntry "1.5.0" none = .ok false ∧
      documented .ascii eventlessEntry "1.5.0" none = .ok true := by
  decide +kernel

end Guardian.Versioning

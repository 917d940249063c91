import Guardian.Python.Fnmatch

/-!
# Reading an IAM policy

A policy is a list of statements.  A pair of an action and a resource is granted if no statement
denies it and some statement allows it.
-/

namespace Guardian.Cloud

open Python

/-- `Statement`, as far as a decision reads it. -/
structure Statement where
  effect : Str
  actions : List Str
  notActions : List Str
  resources : List Str
  notResources : List Str
  deriving DecidableEq

section Policy
variable (R : Runtime)

/-- `Statement.allows`. -/
def Statement.allows (s : Statement) : Bool := lower R s.effect = "allow"

/-- **`matches`.** -/
def matchesPattern (pattern value : Str) : Bool := fnmatch (lower R value) (lower R pattern)

/-- **`statement_allows`.** -/
def statementAllows (s : Statement) (action resource : Str) : Bool :=
  if ¬ s.allows R then false
  else if s.notActions ≠ [] ∧ s.notActions.any (matchesPattern R · action) then false
  else if s.notActions = [] ∧ ¬ s.actions.any (matchesPattern R · action) then false
  else if s.notResources ≠ [] then ! s.notResources.any (matchesPattern R · resource)
  else if s.resources = [] then false
  else s.resources.any (matchesPattern R · resource)

/-- One round of the loop in `denies`. -/
def statementDenies (s : Statement) (action resource : Str) : Bool :=
  if s.allows R then false
  else
    let actionHit :=
      if s.notActions ≠ [] then ! s.notActions.any (matchesPattern R · action)
      else s.actions.any (matchesPattern R · action)
    if ¬ actionHit then false
    else if s.resources ≠ [] ∧ ¬ s.resources.any (matchesPattern R · resource) then false
    else true

/-- **`denies`.** -/
def denies (statements : List Statement) (action resource : Str) : Bool :=
  statements.any (statementDenies R · action resource)

/-- **`grants`.** -/
def grants (statements : List Statement) (action resource : Str) : Bool :=
  if denies R statements action resource then false
  else statements.any (statementAllows R · action resource)

/-! ### How a statement is read -/

/-- How the actions of a statement are read. -/
def readsAction (s : Statement) (action : Str) : Bool :=
  if s.notActions = [] then s.actions.any (matchesPattern R · action)
  else ! s.notActions.any (matchesPattern R · action)

/-- How the resources of a statement are read: an Allow looks at both lists, a Deny at one. -/
def readsResource (s : Statement) (resource : Str) : Bool :=
  if s.allows R then
    if s.notResources = [] then s.resources.any (matchesPattern R · resource)
    else ! s.notResources.any (matchesPattern R · resource)
  else decide (s.resources = []) || s.resources.any (matchesPattern R · resource)

/-- A statement is read as covering a pair. -/
def Statement.reads (s : Statement) (action resource : Str) : Bool :=
  readsAction R s action && readsResource R s resource

variable {R}

theorem statementAllows_eq (s : Statement) (action resource : Str) :
    statementAllows R s action resource = (s.allows R && s.reads R action resource) := by
  unfold statementAllows Statement.reads readsAction readsResource
  by_cases hallows : s.allows R = true
  · by_cases hna : s.notActions = []
    · by_cases ha : s.actions.any (matchesPattern R · action) = true
      · by_cases hnr : s.notResources = []
        · by_cases hr : s.resources = [] <;> simp [hallows, hna, ha, hnr, hr]
        · simp [hallows, hna, ha, hnr]
      · simp [hallows, hna, ha]
    · by_cases hb : s.notActions.any (matchesPattern R · action) = true
      · simp [hallows, hna, hb]
      · by_cases hnr : s.notResources = []
        · by_cases hr : s.resources = [] <;> simp [hallows, hna, hb, hnr, hr]
        · simp [hallows, hna, hb, hnr]
  · simp [hallows]

theorem statementDenies_eq (s : Statement) (action resource : Str) :
    statementDenies R s action resource = (! s.allows R && s.reads R action resource) := by
  unfold statementDenies Statement.reads readsAction readsResource
  by_cases hallows : s.allows R = true
  · simp [hallows]
  · have hresource : (if s.resources ≠ [] ∧ ¬ s.resources.any (matchesPattern R · resource) then
        false else true) =
          (decide (s.resources = []) || s.resources.any (matchesPattern R · resource)) := by
      by_cases hr : s.resources = []
      · simp [hr]
      · by_cases hm : s.resources.any (matchesPattern R · resource) = true
        · simp [hm]
        · rw [if_pos ⟨hr, hm⟩]
          simpa [hr] using hm
    rw [if_neg hallows]
    dsimp only
    rw [hresource]
    by_cases hna : s.notActions = []
    · by_cases ha : s.actions.any (matchesPattern R · action) = true
      · simp [hallows, hna, ha]
      · simp [hallows, hna, ha]
    · by_cases hb : s.notActions.any (matchesPattern R · action) = true
      · simp [hallows, hna, hb]
      · simp [hallows, hna, hb]

/-- **The decision**: no other statement is read as covering the pair, and some Allow is. -/
theorem grants_iff (statements : List Statement) (action resource : Str) :
    grants R statements action resource = true ↔
      (∀ s ∈ statements, s.allows R = false → s.reads R action resource = false) ∧
        ∃ s ∈ statements, s.allows R = true ∧ s.reads R action resource = true := by
  have hdenies : denies R statements action resource = true ↔
      ∃ s ∈ statements, s.allows R = false ∧ s.reads R action resource = true := by
    simp [denies, statementDenies_eq]
  have hallows : statements.any (statementAllows R · action resource) = true ↔
      ∃ s ∈ statements, s.allows R = true ∧ s.reads R action resource = true := by
    simp [statementAllows_eq]
  unfold grants
  split
  · rename_i hden
    obtain ⟨s, hs, hdeny, hreads⟩ := hdenies.mp hden
    refine iff_of_false (by simp) fun h => ?_
    rw [h.1 s hs hdeny] at hreads
    cases hreads
  · rename_i hden
    rw [hallows]
    refine (and_iff_right fun s hs hdeny => ?_).symm
    by_contra hreads
    exact hden (hdenies.mpr ⟨s, hs, hdeny, by simpa using hreads⟩)

end Policy

end Guardian.Cloud

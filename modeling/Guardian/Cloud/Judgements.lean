import Guardian.Cloud.Policy
import Guardian.Order.Ranking

/-!
# Three judgements about a policy

Besides the decision about one pair there are two about the whole policy: whether it makes an
administrator, and through which actions its holder can help itself to more.  They look at the
statements in their own ways.  `judgements_iff` says when none of the three contradicts another.
-/

namespace Guardian.Cloud

open Python Guardian.Order List

/-! ### The judgements -/

/-- `ESCALATION_ACTIONS`. -/
def escalationActions : List Str :=
  ["iam:createpolicyversion", "iam:setdefaultpolicyversion", "iam:attachuserpolicy",
    "iam:attachgrouppolicy", "iam:attachrolepolicy", "iam:putuserpolicy", "iam:putgrouppolicy",
    "iam:putrolepolicy", "iam:createaccesskey", "iam:createloginprofile",
    "iam:updateloginprofile", "iam:updateassumerolepolicy", "iam:passrole", "sts:assumerole",
    "lambda:createfunction", "lambda:updatefunctioncode", "glue:updatedevendpoint",
    "cloudformation:createstack", "datapipeline:createpipeline", "ec2:runinstances"].map
    String.toList

/-- Every action, or every resource. -/
def every : Str := "*"

section Judgements
variable (R : Runtime)

/-- A list has the wildcard, or there is nothing but a list of exceptions. -/
def everything (listed excluded : List Str) : Bool :=
  every ∈ listed ∨ (excluded ≠ [] ∧ listed = [])

/-- A statement is taken for full control. -/
def Statement.fullControl (s : Statement) : Bool :=
  s.allows R && everything s.actions s.notActions && everything s.resources s.notResources

/-- **`is_admin`.** -/
def isAdmin (statements : List Statement) : Bool :=
  statements.any fun s => s.fullControl R && ! denies R statements "iam:*" every

/-- A statement is taken for one whose resource is unconstrained. -/
def Statement.unconstrained (s : Statement) : Bool := every ∈ s.resources ∨ s.notResources ≠ []

/-- What the loops of `escalation_paths` find. -/
def found (statements : List Statement) : List Str :=
  escalationActions.filter fun action => statements.any fun s =>
    statementAllows R s action every && ! denies R statements action every && s.unconstrained

/-- **`escalation_paths`.** -/
def escalationPaths (statements : List Statement) : List Str := sortBy id (found R statements)

/-! ### What is claimed of them -/

/-- **The judgements never contradict each other**: an administrator is granted every escalation
that is not denied, and the escalations that are found are those that are granted. -/
structure Agree (statements : List Statement) : Prop where
  admin : isAdmin R statements = true → ∀ action ∈ escalationActions,
    denies R statements action every = false → grants R statements action every = true
  paths : ∀ action, action ∈ escalationPaths R statements ↔
    action ∈ escalationActions ∧ grants R statements action every = true

/-- A statement that is taken for full control makes an exception of an action, or of the
wildcard. -/
def Statement.excepts (s : Statement) (action : Str) : Bool :=
  s.notActions.any (matchesPattern R · action) || s.notResources.any (matchesPattern R · every)

/-- **The statements are spelled as the judgements expect it**: an escalation that a statement of
full control excepts is allowed by another one or denied, and one that a statement allows on
resources that are spelled in another way than `*` is allowed by another one on `*` or denied. -/
structure Spelled (statements : List Statement) : Prop where
  excepted : denies R statements "iam:*" every = false →
    ∀ s ∈ statements, s.fullControl R = true → ∀ action ∈ escalationActions,
      s.excepts R action = true → denies R statements action every = false →
        ∃ t ∈ statements, if t.fullControl R then t.excepts R action = false
          else statementAllows R t action every = true
  otherwise : ∀ s ∈ statements, s.unconstrained = false → ∀ action ∈ escalationActions,
    statementAllows R s action every = true → denies R statements action every = false →
      ∃ t ∈ statements, t.unconstrained = true ∧ statementAllows R t action every = true

variable {R} {statements : List Statement} {action : Str}

/-! ### What a statement of full control allows -/

theorem matchesPattern_every (value : Str) : matchesPattern R every value = true := by
  have hevery : lower R every = every := lower_of_ascii (by decide)
  unfold matchesPattern
  rw [hevery, fnmatch_eq_glob (by decide), every, String.toList_ofList]
  unfold glob
  rw [if_pos rfl, any_eq_true]
  exact ⟨[], (mem_tails _ _).mpr nil_suffix, rfl⟩

theorem any_matchesPattern_of_mem {patterns : List Str} (h : every ∈ patterns) (value : Str) :
    patterns.any (matchesPattern R · value) = true :=
  any_eq_true.mpr ⟨every, h, matchesPattern_every value⟩

/-- **A statement of full control** allows what it does not except. -/
theorem statementAllows_of_fullControl {s : Statement} (h : s.fullControl R = true) :
    statementAllows R s action every = ! s.excepts R action := by
  simp only [Statement.fullControl, everything, Bool.and_eq_true, decide_eq_true_eq] at h
  obtain ⟨⟨hallows, hactions⟩, hresources⟩ := h
  rw [statementAllows_eq, hallows, Bool.true_and, Statement.reads, Statement.excepts, Bool.not_or]
  congr 1
  · unfold readsAction
    split_ifs with hnone
    · rw [hnone]
      have hmem := hactions.resolve_right fun hexcluded => hexcluded.1 hnone
      simp [any_matchesPattern_of_mem hmem]
    · rfl
  · unfold readsResource
    rw [if_pos hallows]
    split_ifs with hnone
    · rw [hnone]
      have hmem := hresources.resolve_right fun hexcluded => hexcluded.1 hnone
      simp [any_matchesPattern_of_mem hmem]
    · rfl

theorem grants_iff_allows (hdenies : denies R statements action every = false) :
    grants R statements action every = true ↔
      ∃ s ∈ statements, statementAllows R s action every = true := by
  unfold grants
  rw [hdenies, if_neg Bool.false_ne_true, any_eq_true]

theorem denies_of_grants (h : grants R statements action every = true) :
    denies R statements action every = false := by
  unfold grants at h
  split_ifs at h with hdenies
  simpa using hdenies

theorem isAdmin_iff :
    isAdmin R statements = true ↔
      denies R statements "iam:*" every = false ∧
        ∃ s ∈ statements, s.fullControl R = true := by
  simp only [isAdmin, any_eq_true, Bool.and_eq_true, Bool.not_eq_true']
  exact ⟨fun ⟨s, hs, hcontrol, hdenies⟩ => ⟨hdenies, s, hs, hcontrol⟩,
    fun ⟨hdenies, s, hs, hcontrol⟩ => ⟨s, hs, hcontrol, hdenies⟩⟩

theorem mem_escalationPaths :
    action ∈ escalationPaths R statements ↔
      action ∈ escalationActions ∧ denies R statements action every = false ∧
        ∃ s ∈ statements, statementAllows R s action every = true ∧ s.unconstrained = true := by
  simp only [escalationPaths, mem_sortBy, found, mem_filter, any_eq_true,
    Bool.and_eq_true, Bool.not_eq_true', and_assoc]
  refine and_congr_right fun _ => ?_
  constructor
  · rintro ⟨s, hs, hallows, hdenies, hu⟩
    exact ⟨hdenies, s, hs, hallows, hu⟩
  · rintro ⟨hdenies, s, hs, hallows, hu⟩
    exact ⟨s, hs, hallows, hdenies, hu⟩

/-! ### Agreement -/

theorem allows_iff_spelled (t : Statement) :
    (if t.fullControl R then t.excepts R action = false
      else statementAllows R t action every = true) ↔ statementAllows R t action every = true := by
  split_ifs with hcontrol
  · rw [statementAllows_of_fullControl hcontrol, Bool.not_eq_true']
  · exact Iff.rfl

/-- **The judgements never contradict each other** exactly if the statements are spelled as they
expect it. -/
theorem judgements_iff (statements : List Statement) :
    Agree R statements ↔ Spelled R statements := by
  constructor
  · intro h
    refine ⟨fun hiam s hs hcontrol action haction _ hdenies => ?_,
      fun s hs _ action haction hallows hdenies => ?_⟩
    · have hadmin := isAdmin_iff.mpr ⟨hiam, s, hs, hcontrol⟩
      have hgrants := h.admin hadmin action haction hdenies
      obtain ⟨t, ht, hallows⟩ := (grants_iff_allows hdenies).mp hgrants
      exact ⟨t, ht, (allows_iff_spelled t).mpr hallows⟩
    · have hgrants := (grants_iff_allows hdenies).mpr ⟨s, hs, hallows⟩
      obtain ⟨-, -, t, ht, hallows', hu⟩ :=
        mem_escalationPaths.mp ((h.paths action).mpr ⟨haction, hgrants⟩)
      exact ⟨t, ht, hu, hallows'⟩
  · intro h
    refine ⟨fun hadmin action haction hdenies => ?_, fun action => ?_⟩
    · obtain ⟨hiam, s, hs, hcontrol⟩ := isAdmin_iff.mp hadmin
      rw [grants_iff_allows hdenies]
      cases hexcepts : s.excepts R action
      · refine ⟨s, hs, ?_⟩
        rw [statementAllows_of_fullControl hcontrol, hexcepts]
        rfl
      · obtain ⟨t, ht, hallows⟩ := h.excepted hiam s hs hcontrol action haction hexcepts hdenies
        exact ⟨t, ht, (allows_iff_spelled t).mp hallows⟩
    · rw [mem_escalationPaths]
      refine and_congr_right fun haction => ⟨?_, fun hgrants => ?_⟩
      · rintro ⟨hdenies, s, hs, hallows, -⟩
        exact (grants_iff_allows hdenies).mpr ⟨s, hs, hallows⟩
      · have hdenies := denies_of_grants hgrants
        obtain ⟨s, hs, hallows⟩ := (grants_iff_allows hdenies).mp hgrants
        cases hu : s.unconstrained
        · obtain ⟨t, ht, hu', hallows'⟩ := h.otherwise s hs hu action haction hallows hdenies
          exact ⟨hdenies, t, ht, hallows', hu'⟩
        · exact ⟨hdenies, s, hs, hallows, hu⟩

end Judgements

def allButIam : List Statement :=
  [⟨"Allow", [], ["iam:*"], [every], []⟩]

/-- Roles are passed on whatever resource. -/
def passAnyRole : List Statement :=
  [⟨"Allow", ["iam:PassRole"], [], ["**"], []⟩]

/-- **An administrator who may do nothing in IAM**, and an escalation that is granted and not
found. -/
theorem allButIam_contradicts :
    ¬ Agree .ascii allButIam ∧ ¬ Agree .ascii passAnyRole := by
  refine ⟨fun h => ?_, fun h => ?_⟩
  · have hgrants := h.admin (by decide) "iam:passrole" (by decide)
      (by decide)
    exact absurd hgrants (by decide)
  · have hfound := (h.paths "iam:passrole").mpr ⟨by decide, by decide⟩
    exact absurd (mem_escalationPaths.mp hfound).2.2 (by decide)

end Guardian.Cloud

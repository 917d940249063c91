import Guardian.K8s.Rules
import Guardian.Order.Table
import Mathlib.Data.Prod.Lex

/-!
# The reach of bindings

`rbac_reachability` joins every binding to the grants of the role that it names, through an index in
which the last definition of a role overwrites the others.  `reachability_sound_iff` says when the
join answers for all of them.
-/

namespace Guardian.K8s

open Python Python.Yaml Guardian.Order List

/-! ### Roles -/

/-- The verbs, the resources and the groups of a rule. -/
structure Grant where
  verbs : List Str
  resources : List Str
  apiGroups : List Str
  deriving DecidableEq

/-- A key of the index. -/
inductive RoleKey
  | clusterRole (name : Str)
  | role («namespace» name : Str)
  deriving DecidableEq

/-- How a role was found. -/
inductive Via
  | manifest
  | builtin
  deriving DecidableEq

/-- The index, in the order in which it is filled. -/
abbrev RoleIndex := List (RoleKey × List Grant)

/-- `doc.namespace or "default"`. -/
def Document.scope (doc : Document) : Str :=
  if doc.namespace = [] then "default" else doc.namespace

/-- The key that a document stands under, if it is a role. -/
def Document.definedKey (doc : Document) : Option RoleKey :=
  if doc.kind = "ClusterRole" then some (.clusterRole doc.name)
  else if doc.kind = "Role" then some (.role doc.scope doc.name)
  else none

section Join
variable (L : Library)

/-- One rule of a role. -/
def roleRule : Yaml → Except Fault (Option Grant)
  | .dict rule => do
    let verbs ← lowered L (get rule "verbs")
    let resources ← lowered L (get rule "resources")
    let groups ← lowered L (get rule "apiGroups")
    return some ⟨verbs, resources, groups⟩
  | _ => .ok none

/-- `_role_rules`. -/
def roleRules (body : Dict) : Except Fault (List Grant) := do
  let items ← (get body "rules").each
  let grants ← items.mapM (roleRule L)
  return grants.reduceOption

/-- What a document adds to the index. -/
def indexEntry (doc : Document) : Except Fault (Option (RoleKey × List Grant)) :=
  match doc.definedKey with
  | none => .ok none
  | some k => do
    let grants ← roleRules L doc.body
    return some (k, grants)

/-- **`_index_roles`.** -/
def indexRoles (documents : List Document) : Except Fault RoleIndex := do
  let entries ← documents.mapM (indexEntry L)
  return entries.reduceOption

/-- `index[key]`: the last entry of a key. -/
def lookupRole (index : RoleIndex) (k : RoleKey) : Option (List Grant) :=
  (lastBy Prod.fst k index).map Prod.snd

/-- The verbs of the grants on most things. -/
def manageVerbs : List Str :=
  ["get", "list", "watch", "create", "update",
    "patch", "delete"]

/-- The grants on secrets and on running pods. -/
def editGrants : List Grant :=
  [⟨manageVerbs, ["secrets"], [[]]⟩,
    ⟨["get", "create"], ["pods/exec", "pods/attach"], [[]]⟩]

/-- `_WELL_KNOWN_CLUSTER_ROLES`. -/
def wellKnownClusterRoles : List (Str × List Grant) :=
  [("cluster-admin", [⟨[['*']], [['*']], [['*']]⟩]),
    ("admin", editGrants ++ [⟨manageVerbs, ["rolebindings", "roles"],
      ["rbac.authorization.k8s.io"]⟩]),
    ("edit", editGrants),
    ("view", [⟨["get", "list", "watch"],
      ["pods", "services", "configmaps", "deployments",
        "replicasets", "statefulsets"], [[]]⟩])]

/-- The key of the role that a binding names, if its kind and its name are those of a role. -/
def roleKey (kind name scope : Str) : Option RoleKey :=
  if name = [] then none
  else if kind = "ClusterRole" then some (.clusterRole name)
  else if kind = "Role" then some (.role scope name)
  else none

/-- The grants of a built-in role. -/
def builtinGrants : RoleKey → Option (List Grant)
  | .clusterRole name => wellKnownClusterRoles.lookup name
  | .role _ _ => none

/-- **`_resolve_role`.** -/
def resolveRole (index : RoleIndex) (kind name scope : Str) : Option (List Grant × Via) := do
  let k ← roleKey kind name scope
  match lookupRole index k with
  | some grants => return (grants, .manifest)
  | none =>
    let grants ← builtinGrants k
    return (grants, .builtin)

/-! ### Dangerous reach -/

/-- The reasons for which a role gives dangerous reach. -/
inductive Reach
  | wildcard
  | secrets
  | escalation
  | exec
  | impersonate
  deriving DecidableEq

/-- `_REACH_ORDER`. -/
def reachOrder : List Reach := [.wildcard, .secrets, .escalation, .exec, .impersonate]

/-- `_READ_VERBS`. -/
def readVerbs : List Str := ["get", "list", "watch"]

/-- `_EXEC_RESOURCES`. -/
def execResources : List Str := ["pods/exec", "pods/attach"]

def execVerbs : List Str := ["get", "create"]

/-- `_BIND_RESOURCES`. -/
def bindResources : List Str :=
  ["rolebindings", "clusterrolebindings", "roles", "clusterroles"]

/-- `_BIND_WRITE`. -/
def bindWrite : List Str := writeVerbs

def grantVerbs : List Str := ["bind", "escalate"]

/-- The common members, or `{"*"}`. -/
def orStar (found : List Str) : List Str := if found = [] then [['*']] else found

/-- What `note` is told of a grant: the verbs and the resources for a reason. -/
def noted (g : Grant) (reason : Reach) : Option (List Str × List Str) :=
  let among (set members : List Str) := set.filter (· ∈ members)
  let verbsWild := decide (['*'] ∈ g.verbs)
  let resourcesWild := decide (['*'] ∈ g.resources)
  match reason with
  | .wildcard => if verbsWild || resourcesWild then some (g.verbs, g.resources) else none
  | .secrets =>
    let read := among g.verbs readVerbs
    let onSecrets := decide ("secrets".toList ∈ g.resources)
    if (onSecrets || resourcesWild) && (!read.isEmpty || verbsWild) then
      some (orStar read, if onSecrets then ["secrets"] else [['*']])
    else none
  | .exec =>
    let pods := among g.resources execResources
    let verbs := among g.verbs execVerbs
    if (!pods.isEmpty || resourcesWild) && (!verbs.isEmpty || verbsWild) then
      some (orStar verbs, orStar pods)
    else none
  | .impersonate =>
    let named := decide ("impersonate".toList ∈ g.verbs)
    if named || verbsWild then
      some (if named then ["impersonate"] else [['*']], g.resources)
    else none
  | .escalation =>
    let roles := among g.resources bindResources
    if !(among g.verbs grantVerbs).isEmpty ||
        !roles.isEmpty && !(among g.verbs bindWrite).isEmpty then
      some (among g.verbs (bindWrite ++ grantVerbs),
        if roles = [] then if resourcesWild then [['*']] else [] else roles)
    else none

/-- **`_reach_reasons`**, in the order of the reasons: the verbs and the resources of each. -/
def reachReasons (grants : List Grant) : List (Reach × List Str × List Str) :=
  reachOrder.filterMap fun reason =>
    match grants.filterMap (noted · reason) with
    | [] => none
    | found => some (reason, sortBy id (found.flatMap (·.1)).dedup,
        sortBy id (found.flatMap (·.2)).dedup)

/-! ### Issues -/

/-- The rules that read several documents. -/
inductive CrossRule
  | bindingReach
  | unresolvedRole
  deriving DecidableEq

/-- The id of a rule. -/
def CrossRule.id : CrossRule → Str
  | .bindingReach => "rbac-binding-reach"
  | .unresolvedRole => "rbac-unresolved-role"

/-- An issue of a binding, with its evidence. -/
structure CrossIssue where
  rule : CrossRule
  title : Str
  subject : Str
  binding : Str
  roleRef : Str
  resolvedVia : Option Via
  clusterWide : Bool
  reasons : List (Reach × List Str × List Str)
  deriving DecidableEq

/-- `_REACH_TEXT`. -/
def Reach.text : Reach → Str
  | .wildcard =>
    "wildcard verbs or resources — control of every object the rule matches"
  | .secrets => "read access to Secrets — credential theft"
  | .escalation =>
    "the ability to grant privileges — writing role bindings, or the bind/escalate verb"
  | .exec => "exec or attach into running pods — code execution on live workloads"
  | .impersonate =>
    "the impersonate verb — acting as any user, group or service account"

/-- A kind and a name, or the name alone. -/
def slashed (kind name : Str) : Str := if kind = [] then name else kind ++ '/' :: name

/-- `_reach_issue`. -/
def reachIssue (binding : Document) (roleKind roleName : Str) (via : Via)
    (subjectKind subjectName : Str) (reasons : List (Reach × List Str × List Str)) :
    CrossIssue where
  rule := .bindingReach
  title := slashed subjectKind subjectName ++ " reaches " ++ roleKind ++ '/' :: roleName ++
    " granting " ++ (reasons.head?.map fun r => r.1.text).getD []
  subject := slashed subjectKind subjectName
  binding := binding.label
  roleRef := roleKind ++ '/' :: roleName
  resolvedVia := some via
  clusterWide := decide (binding.kind = "ClusterRoleBinding")
  reasons := reasons

/-- `_unresolved_role_issue`. -/
def unresolvedRoleIssue (binding : Document) (roleKind roleName : Str) : CrossIssue where
  rule := .unresolvedRole
  title := "Role `" ++ slashed roleKind roleName ++ "` referenced by binding `" ++
    binding.label ++ "` is not in scan scope"
  subject := slashed roleKind roleName
  binding := binding.label
  roleRef := slashed roleKind roleName
  resolvedVia := none
  clusterWide := false
  reasons := []

/-- One subject of a binding. -/
def subjectReach (binding : Document) (roleKind roleName : Str) (via : Via)
    (reasons : List (Reach × List Str × List Str)) : Yaml → Except Fault (Option CrossIssue)
  | .dict subject => do
    let kind ← (get subject "kind").textOr L.write
    let name ← (get subject "name").textOr L.write
    return some (reachIssue binding roleKind roleName via kind name reasons)
  | _ => .ok none

/-- The `roleRef` of a binding. -/
def Document.roleRef (doc : Document) : Dict := (get doc.body "roleRef").entries?.getD []

/-- One round of the loop over the documents. -/
def bindingReach (index : RoleIndex) (doc : Document) : Except Fault (List CrossIssue) :=
  if doc.kind ∉ bindingKinds then .ok []
  else do
    let kind ← (get doc.roleRef "kind").textOr L.write
    let name ← (get doc.roleRef "name").textOr L.write
    match resolveRole index kind name doc.scope with
    | none => return [unresolvedRoleIssue doc kind name]
    | some (grants, via) =>
      let reasons := reachReasons grants
      if reasons = [] then return []
      let items ← (get doc.body "subjects").each
      let issues ← items.mapM (subjectReach L doc kind name via reasons)
      return issues.reduceOption

/-- The key by which the results are sorted. -/
def resultKey (p : Document × CrossIssue) : Str ×ₗ Str ×ₗ Str ×ₗ Str :=
  toLex (p.1.label, toLex (p.2.subject, toLex (p.2.rule.id, p.2.title)))

/-- **`rbac_reachability`.** -/
def rbacReachability (documents : List Document) :
    Except Fault (List (Document × CrossIssue)) := do
  let index ← indexRoles L documents
  let results ← documents.mapM fun doc => do
    let issues ← bindingReach L index doc
    return issues.map fun issue => (doc, issue)
  return sortBy resultKey results.flatten

/-! ### Every definition counts -/

/-- A document defines a role with these grants. -/
def Defines (documents : List Document) (k : RoleKey) (grants : List Grant) : Prop :=
  ∃ doc ∈ documents, doc.definedKey = some k ∧ roleRules L doc.body = .ok grants

/-- **The grants of a role in scope**: those of its definitions, or of the built-in role if there is
none. -/
def InScope (documents : List Document) (k : RoleKey) (grants : List Grant) : Prop :=
  Defines L documents k grants ∨
    (∀ doc ∈ documents, doc.definedKey ≠ some k) ∧ builtinGrants k = some grants

/-- A binding names a role by a kind and a name. -/
structure Refers (doc : Document) (kind name : Str) : Prop where
  kind_mem : doc.kind ∈ bindingKinds
  kind_eq : (get doc.roleRef "kind").textOr L.write = .ok kind
  name_eq : (get doc.roleRef "name").textOr L.write = .ok name

/-- The subjects of a binding that are mappings. -/
def subjectMappings (doc : Document) : List Dict :=
  match (get doc.body "subjects").each with
  | .ok items => items.filterMap entries?
  | .error _ => []

/-- An issue says that a subject has dangerous reach through the binding. -/
def ReachOf (doc : Document) (kind name : Str) (subject : Dict) (issue : CrossIssue) : Prop :=
  ∃ via subjectKind subjectName reasons, reasons ≠ [] ∧
    (get subject "kind").textOr L.write = .ok subjectKind ∧
    (get subject "name").textOr L.write = .ok subjectName ∧
    issue = reachIssue doc kind name via subjectKind subjectName reasons

/-- **The issues answer for a binding**: one for each subject if a definition in scope is
dangerous, one if there is no definition, and no other. -/
structure Answered (documents : List Document) (doc : Document) (kind name : Str)
    (found : List CrossIssue) : Prop where
  dangerous : ∀ k ∈ roleKey kind name doc.scope,
    (∃ grants, InScope L documents k grants ∧ reachReasons grants ≠ []) →
      List.Forall₂ (ReachOf L doc kind name) (subjectMappings doc) found
  harmless : ∀ k ∈ roleKey kind name doc.scope, (∃ grants, InScope L documents k grants) →
    (∀ grants, InScope L documents k grants → reachReasons grants = []) → found = []
  unresolved : (∀ k ∈ roleKey kind name doc.scope, ∀ grants, ¬ InScope L documents k grants) →
    found = [unresolvedRoleIssue doc kind name]

/-- **The issues join the bindings to the roles**: those of each document answer for it. -/
def Joined (documents : List Document) (issues : List (Document × CrossIssue)) : Prop :=
  ∃ out : Document → List CrossIssue,
    issues.Perm (documents.flatMap fun doc => (out doc).map fun issue => (doc, issue)) ∧
      ∀ doc ∈ documents, (doc.kind ∉ bindingKinds → out doc = []) ∧
        (doc.kind ∈ bindingKinds → ∃ kind name, Refers L doc kind name ∧
          Answered L documents doc kind name (out doc))

/-- **The join is sound**: it answers for every binding, and in every order of the documents. -/
def Sound (documents : List Document) : Prop :=
  ∃ issues, rbacReachability L documents = .ok issues ∧ Joined L documents issues ∧
    ∀ documents', documents.Perm documents' →
      ∃ issues', rbacReachability L documents' = .ok issues' ∧ issues'.Perm issues

/-- **The definitions of a role agree** on the reach that they give, if a subject is bound to it;
and the roles, the references, and the subjects of dangerous roles can be read. -/
structure Agreeing (documents : List Document) : Prop where
  roles : ∀ doc ∈ documents, doc.definedKey ≠ none → Returns (roleRules L doc.body)
  references : ∀ doc ∈ documents, doc.kind ∈ bindingKinds →
    Returns ((get doc.roleRef "kind").textOr L.write) ∧
      Returns ((get doc.roleRef "name").textOr L.write)
  subjects : ∀ doc ∈ documents, ∀ kind name, Refers L doc kind name →
    ∀ k ∈ roleKey kind name doc.scope, ∀ grants, InScope L documents k grants →
      reachReasons grants ≠ [] →
        ReturnsA (fun items => ∀ v ∈ items, SubjectReads L v) (get doc.body "subjects").each
  agree : ∀ doc ∈ documents, ∀ kind name, Refers L doc kind name →
    ∀ k ∈ roleKey kind name doc.scope, subjectMappings doc ≠ [] →
      ∀ grants grants', Defines L documents k grants → Defines L documents k grants' →
        reachReasons grants = reachReasons grants'

/-! ### The index -/

variable {L} {documents documents' : List Document} {index index' : RoleIndex} {doc : Document}
  {k : RoleKey} {grants grants' : List Grant} {kind name : Str}

theorem returns_indexEntry_iff : Returns (indexEntry L doc) ↔
    (doc.definedKey ≠ none → Returns (roleRules L doc.body)) := by
  unfold indexEntry
  cases doc.definedKey with
  | none => exact iff_of_true (returns_ok _) fun h => absurd rfl h
  | some k =>
    rw [returns_bind_pure_iff]
    exact ⟨fun h _ => h, fun h => h (by simp)⟩

theorem indexEntry_eq_some_iff :
    indexEntry L doc = .ok (some (k, grants)) ↔
      doc.definedKey = some k ∧ roleRules L doc.body = .ok grants := by
  unfold indexEntry
  cases doc.definedKey with
  | none => simp
  | some k' =>
    constructor
    · intro h
      obtain ⟨g, hg, heq⟩ := bind_eq_ok.mp h
      cases heq
      exact ⟨rfl, hg⟩
    · rintro ⟨hk, hg⟩
      cases hk
      exact bind_eq_ok.mpr ⟨grants, hg, rfl⟩

theorem returns_indexRoles_iff : Returns (indexRoles L documents) ↔
    ∀ doc ∈ documents, doc.definedKey ≠ none → Returns (roleRules L doc.body) := by
  unfold indexRoles
  rw [returns_bind_pure_iff, returns_mapM_iff]
  simp only [returns_indexEntry_iff]

theorem mem_indexRoles (h : indexRoles L documents = .ok index) :
    (k, grants) ∈ index ↔ Defines L documents k grants := by
  obtain ⟨entries, hentries, heq⟩ := bind_eq_ok.mp h
  cases heq
  rw [reduceOption_mem_iff]
  constructor
  · intro hmem
    obtain ⟨doc, hdoc, hentry⟩ := exists_of_mem_mapM hentries _ hmem
    exact ⟨doc, hdoc, indexEntry_eq_some_iff.mp hentry⟩
  · rintro ⟨doc, hdoc, hdefines⟩
    obtain ⟨entry, hmem, hentry⟩ := exists_of_mem_mapM_left hentries doc hdoc
    rw [indexEntry_eq_some_iff.mpr hdefines, Except.ok.injEq] at hentry
    rwa [hentry]

theorem defines_of_lookupRole (h : indexRoles L documents = .ok index)
    (hlookup : lookupRole index k = some grants) : Defines L documents k grants := by
  obtain ⟨⟨k', g⟩, hlast, heq⟩ := Option.map_eq_some_iff.mp hlookup
  obtain ⟨hmem, hk⟩ := of_lastBy hlast
  cases heq
  cases hk
  exact (mem_indexRoles h).mp hmem

theorem lookupRole_eq_none_iff (h : indexRoles L documents = .ok index) :
    lookupRole index k = none ↔ ∀ doc ∈ documents, doc.definedKey ≠ some k := by
  unfold lookupRole
  rw [Option.map_eq_none_iff, lastBy_eq_none_iff]
  constructor
  · intro hnone doc hdoc hk
    obtain ⟨g, hg⟩ := returns_indexRoles_iff.mp ⟨index, h⟩ doc hdoc (by simp [hk])
    exact hnone (k, g) ((mem_indexRoles h).mpr ⟨doc, hdoc, hk, hg⟩) rfl
  · rintro hnone ⟨k', g⟩ hmem rfl
    obtain ⟨doc, hdoc, hk, -⟩ := (mem_indexRoles h).mp hmem
    exact hnone doc hdoc hk

theorem inScope_of_resolveRole (h : indexRoles L documents = .ok index) {scope : Str} {via : Via}
    (hk : roleKey kind name scope = some k)
    (hresolve : resolveRole index kind name scope = some (grants, via)) :
    InScope L documents k grants := by
  unfold resolveRole at hresolve
  rw [hk, Option.bind_eq_bind, Option.bind_some] at hresolve
  rcases hlookup : lookupRole index k with _ | g
  · rw [hlookup] at hresolve
    obtain ⟨g, hg, heq⟩ := Option.bind_eq_some_iff.mp hresolve
    cases heq
    exact Or.inr ⟨(lookupRole_eq_none_iff h).mp hlookup, hg⟩
  · rw [hlookup] at hresolve
    cases hresolve
    exact Or.inl (defines_of_lookupRole h hlookup)

theorem resolveRole_eq_none_iff (h : indexRoles L documents = .ok index) {scope : Str} :
    resolveRole index kind name scope = none ↔
      ∀ k ∈ roleKey kind name scope, ∀ grants, ¬ InScope L documents k grants := by
  unfold resolveRole
  rcases hk : roleKey kind name scope with _ | k
  · simp
  · simp only [Option.bind_eq_bind, Option.bind_some, Option.mem_some_iff, forall_eq']
    rcases hlookup : lookupRole index k with _ | g
    · have hnone := (lookupRole_eq_none_iff h).mp hlookup
      constructor
      · intro hbuiltin grants hscope
        rcases hscope with ⟨doc, hdoc, hk, -⟩ | ⟨-, hgrants⟩
        · exact hnone doc hdoc hk
        · rw [hgrants] at hbuiltin
          cases hbuiltin
      · intro hscope
        rcases hgrants : builtinGrants k with _ | g
        · rfl
        · exact absurd (Or.inr ⟨hnone, hgrants⟩) (hscope g)
    · exact iff_of_false (by simp) fun hscope =>
        hscope g (Or.inl (defines_of_lookupRole h hlookup))

/-- **Any definition may come last**, and is then the one that the index holds. -/
theorem exists_lookupRole (hroles : Returns (indexRoles L documents))
    (hdefines : Defines L documents k grants) :
    ∃ documents', documents.Perm documents' ∧ ∃ index', indexRoles L documents' = .ok index' ∧
      lookupRole index' k = some grants := by
  obtain ⟨doc, hdoc, hk, hgrants⟩ := hdefines
  obtain ⟨pre, post, rfl⟩ := append_of_mem hdoc
  have hperm : (pre ++ doc :: post).Perm ((pre ++ post) ++ [doc]) :=
    perm_middle.trans (perm_append_singleton doc (pre ++ post)).symm
  have hrest : Returns ((pre ++ post).mapM (indexEntry L)) := by
    rw [returns_mapM_iff]
    intro d hd
    rw [returns_indexEntry_iff]
    exact returns_indexRoles_iff.mp hroles d (hperm.mem_iff.mpr (mem_append_left _ hd))
  obtain ⟨entries, hentries⟩ := hrest
  refine ⟨_, hperm, entries.reduceOption ++ [(k, grants)], ?_, ?_⟩
  · unfold indexRoles
    rw [mapM_append, hentries, ok_bind, mapM_cons,
      indexEntry_eq_some_iff.mpr ⟨hk, hgrants⟩, ok_bind, mapM_nil]
    exact congrArg Except.ok (reduceOption_append _ _)
  · unfold lookupRole lastBy
    rw [reverse_append]
    simp

/-! ### The bindings -/

section Binding
variable {via : Via} {reasons : List (Reach × List Str × List Str)} {found : List CrossIssue}

theorem returns_subjectReach_iff {v : Yaml} :
    Returns (subjectReach L doc kind name via reasons v) ↔ SubjectReads L v := by
  unfold SubjectReads
  cases v with
  | dict subject =>
    simp only [subjectReach, returns_bind_iff_returnsA, returnsA_const_iff, returns_pure_iff,
      and_true, Yaml.dict.injEq, forall_eq']
  | _ => exact iff_of_true (returns_ok _) fun _ h => nomatch h

theorem forall₂_subjectReach (hne : reasons ≠ []) {items : List Yaml}
    {issues : List (Option CrossIssue)}
    (h : items.mapM (subjectReach L doc kind name via reasons) = .ok issues) :
    List.Forall₂ (ReachOf L doc kind name) (items.filterMap entries?) issues.reduceOption := by
  induction items generalizing issues with
  | nil =>
    cases h
    exact .nil
  | cons v items ih =>
    obtain ⟨issue, rest, hissue, hrest, rfl⟩ := mapM_cons_eq_ok.mp h
    cases v with
    | dict subject =>
      rw [subjectReach] at hissue
      obtain ⟨subjectKind, hkind, hissue⟩ := bind_eq_ok.mp hissue
      obtain ⟨subjectName, hname, hissue⟩ := bind_eq_ok.mp hissue
      cases hissue
      have hmapping : (dict subject :: items).filterMap entries? =
          subject :: items.filterMap entries? := rfl
      rw [hmapping, reduceOption_cons_of_some]
      exact .cons ⟨via, subjectKind, subjectName, reasons, hne, hkind, hname, rfl⟩ (ih hrest)
    | _ =>
      cases hissue
      rw [reduceOption_cons_of_none]
      exact ih hrest

theorem bindingReach_eq (href : Refers L doc kind name) : bindingReach L index doc =
    match resolveRole index kind name doc.scope with
    | none => .ok [unresolvedRoleIssue doc kind name]
    | some (grants, via) =>
      if reachReasons grants = [] then .ok []
      else (get doc.body "subjects").each >>= fun items =>
        (items.mapM (subjectReach L doc kind name via (reachReasons grants))) >>= fun issues =>
          .ok issues.reduceOption := by
  unfold bindingReach
  rw [if_neg (not_not_intro href.kind_mem), href.kind_eq, ok_bind, href.name_eq, ok_bind]
  rfl

theorem exists_refers (hkind : doc.kind ∈ bindingKinds) (h : Returns (bindingReach L index doc)) :
    ∃ kind name, Refers L doc kind name := by
  unfold bindingReach at h
  rw [if_neg (not_not_intro hkind)] at h
  obtain ⟨kind, hkind', h⟩ := returns_bind_iff_returnsA.mp h
  obtain ⟨name, hname, -⟩ := returns_bind_iff_returnsA.mp h
  exact ⟨kind, name, hkind, hkind', hname⟩

/-- **The subjects of a dangerous role** are run over, and have an issue each. -/
theorem bindingReach_dangerous (href : Refers L doc kind name)
    (hresolve : resolveRole index kind name doc.scope = some (grants, via))
    (hne : reachReasons grants ≠ []) :
    bindingReach L index doc = .ok found → List.Forall₂ (ReachOf L doc kind name)
      (subjectMappings doc) found := by
  rw [bindingReach_eq href, hresolve]
  simp only [if_neg hne]
  intro h
  obtain ⟨items, hitems, h⟩ := bind_eq_ok.mp h
  obtain ⟨issues, hissues, h⟩ := bind_eq_ok.mp h
  cases h
  unfold subjectMappings
  rw [hitems]
  exact forall₂_subjectReach hne hissues

theorem returns_bindingReach_iff (href : Refers L doc kind name)
    (hresolve : resolveRole index kind name doc.scope = some (grants, via))
    (hne : reachReasons grants ≠ []) : Returns (bindingReach L index doc) ↔
      ReturnsA (fun items => ∀ v ∈ items, SubjectReads L v) (get doc.body "subjects").each := by
  rw [bindingReach_eq href, hresolve]
  simp only [if_neg hne]
  rw [returns_bind_iff_returnsA]
  refine returnsA_congr fun items => ?_
  refine returns_bind_pure_iff.trans ?_
  rw [returns_mapM_iff]
  simp only [returns_subjectReach_iff]

end Binding

/-! ### When the definitions agree -/

/-- **Definitions that agree** come to one reach, also when the role is built in. -/
theorem Agreeing.reasons_eq (h : Agreeing L documents) (hdoc : doc ∈ documents)
    (href : Refers L doc kind name) (hk : roleKey kind name doc.scope = some k)
    (hne : subjectMappings doc ≠ []) (hgrants : InScope L documents k grants)
    (hgrants' : InScope L documents k grants') : reachReasons grants = reachReasons grants' := by
  rcases hgrants with hgrants | ⟨hnone, hgrants⟩
  · rcases hgrants' with hgrants' | ⟨hnone, -⟩
    · exact h.agree doc hdoc kind name href k hk hne grants grants' hgrants hgrants'
    · obtain ⟨d, hd, hdk, -⟩ := hgrants
      exact absurd hdk (hnone d hd)
  · rcases hgrants' with ⟨d, hd, hdk, -⟩ | ⟨-, hgrants'⟩
    · exact absurd hdk (hnone d hd)
    · rw [Option.some.inj (hgrants.symm.trans hgrants')]

theorem Agreeing.refers (h : Agreeing L documents) (hdoc : doc ∈ documents)
    (hkind : doc.kind ∈ bindingKinds) : ∃ kind name, Refers L doc kind name := by
  obtain ⟨⟨kind, hk⟩, name, hn⟩ := h.references doc hdoc hkind
  exact ⟨kind, name, hkind, hk, hn⟩

theorem Agreeing.returns_bindingReach (h : Agreeing L documents)
    (hindex : indexRoles L documents = .ok index) (hdoc : doc ∈ documents) :
    Returns (bindingReach L index doc) := by
  by_cases hkind : doc.kind ∈ bindingKinds
  · obtain ⟨kind, name, href⟩ := h.refers hdoc hkind
    rcases hresolve : resolveRole index kind name doc.scope with _ | ⟨grants, via⟩
    · rw [bindingReach_eq href, hresolve]
      exact returns_ok _
    · by_cases hne : reachReasons grants = []
      · rw [bindingReach_eq href, hresolve]
        simp only [if_pos hne]
        exact returns_ok _
      · rw [returns_bindingReach_iff href hresolve hne]
        obtain ⟨k, hk⟩ : ∃ k, roleKey kind name doc.scope = some k := by
          by_contra hnone
          rw [resolveRole, Option.eq_none_iff_forall_ne_some.mpr fun k hk => hnone ⟨k, hk⟩]
            at hresolve
          cases hresolve
        exact h.subjects doc hdoc kind name href k hk grants
          (inScope_of_resolveRole hindex hk hresolve) hne
  · unfold bindingReach
    rw [if_pos hkind]
    exact returns_ok _

theorem bindingReach_of_no_subject {via : Via} {found : List CrossIssue}
    (href : Refers L doc kind name)
    (hresolve : resolveRole index kind name doc.scope = some (grants, via))
    (hempty : subjectMappings doc = []) (h : bindingReach L index doc = .ok found) :
    found = [] := by
  by_cases hne : reachReasons grants = []
  · rw [bindingReach_eq href, hresolve] at h
    simp only [if_pos hne] at h
    exact (Except.ok.inj h).symm
  · have hall := bindingReach_dangerous href hresolve hne h
    rw [hempty] at hall
    exact List.forall₂_nil_left_iff.mp hall

/-- **The answer of the loop** to a binding. -/
theorem Agreeing.answered (h : Agreeing L documents) (hindex : indexRoles L documents = .ok index)
    (hdoc : doc ∈ documents) (href : Refers L doc kind name) {found : List CrossIssue}
    (hfound : bindingReach L index doc = .ok found) :
    Answered L documents doc kind name found := by
  rcases hresolve : resolveRole index kind name doc.scope with _ | ⟨g, via⟩
  · have hnone := (resolveRole_eq_none_iff hindex).mp hresolve
    rw [bindingReach_eq href, hresolve] at hfound
    cases hfound
    exact ⟨fun k hk ⟨g, hg, _⟩ => absurd hg (hnone k hk g),
      fun k hk ⟨g, hg⟩ => absurd hg (hnone k hk g), fun _ => rfl⟩
  · refine ⟨fun k hk hdangerous => ?_, fun k hk _ hharmless => ?_, fun hnone => ?_⟩
    · obtain ⟨g', hg', hne⟩ := hdangerous
      by_cases hempty : subjectMappings doc = []
      · rw [hempty, bindingReach_of_no_subject href hresolve hempty hfound]
        exact .nil
      · have hg := inScope_of_resolveRole hindex hk hresolve
        rw [h.reasons_eq hdoc href hk hempty hg' hg] at hne
        exact bindingReach_dangerous href hresolve hne hfound
    · rw [bindingReach_eq href, hresolve] at hfound
      simp only [if_pos (hharmless g (inScope_of_resolveRole hindex hk hresolve))] at hfound
      exact (Except.ok.inj hfound).symm
    · rw [(resolveRole_eq_none_iff hindex).mpr hnone] at hresolve
      cases hresolve

/-! ### The order of the documents -/

theorem defines_perm (hperm : documents.Perm documents') :
    Defines L documents k grants ↔ Defines L documents' k grants :=
  exists_congr fun _ => and_congr_left fun _ => hperm.mem_iff

theorem inScope_perm (hperm : documents.Perm documents') :
    InScope L documents k grants ↔ InScope L documents' k grants := by
  unfold InScope
  rw [defines_perm hperm]
  simp only [hperm.mem_iff]

theorem Agreeing.of_perm (h : Agreeing L documents) (hperm : documents.Perm documents') :
    Agreeing L documents' where
  roles doc hdoc := h.roles doc (hperm.mem_iff.mpr hdoc)
  references doc hdoc := h.references doc (hperm.mem_iff.mpr hdoc)
  subjects doc hdoc kind name href k hk grants hgrants :=
    h.subjects doc (hperm.mem_iff.mpr hdoc) kind name href k hk grants
      ((inScope_perm hperm).mpr hgrants)
  agree doc hdoc kind name href k hk hne grants grants' hgrants hgrants' :=
    h.agree doc (hperm.mem_iff.mpr hdoc) kind name href k hk hne grants grants'
      ((defines_perm hperm).mpr hgrants) ((defines_perm hperm).mpr hgrants')

theorem resolveRole_of_lookup {scope : Str} (hk : roleKey kind name scope = some k)
    (hlookup : lookupRole index k = some grants) :
    resolveRole index kind name scope = some (grants, .manifest) := by
  unfold resolveRole
  rw [hk, Option.bind_eq_bind, Option.bind_some, hlookup]
  rfl

theorem resolveRole_congr {scope : Str}
    (h : ∀ k ∈ roleKey kind name scope, lookupRole index k = none ∧ lookupRole index' k = none) :
    resolveRole index kind name scope = resolveRole index' kind name scope := by
  unfold resolveRole
  cases hk : roleKey kind name scope with
  | none => rfl
  | some k =>
    obtain ⟨hnone, hnone'⟩ := h k hk
    rw [Option.bind_eq_bind, Option.bind_some, Option.bind_eq_bind, Option.bind_some, hnone, hnone']

/-- **Definitions that agree** make the answer to a binding independent of their order. -/
theorem Agreeing.bindingReach_perm (h : Agreeing L documents) (hperm : documents.Perm documents')
    (hindex : indexRoles L documents = .ok index)
    (hindex' : indexRoles L documents' = .ok index') (hdoc : doc ∈ documents) :
    bindingReach L index doc = bindingReach L index' doc := by
  by_cases hkind : doc.kind ∈ bindingKinds
  swap
  · unfold bindingReach
    rw [if_pos hkind, if_pos hkind]
  obtain ⟨kind, name, href⟩ := h.refers hdoc hkind
  by_cases hdefined : ∃ k ∈ roleKey kind name doc.scope, lookupRole index k ≠ none
  · obtain ⟨k, hk, hlookup⟩ := hdefined
    have hlookup' : lookupRole index' k ≠ none := by
      intro hnone
      refine hlookup ((lookupRole_eq_none_iff hindex).mpr fun d hd => ?_)
      exact (lookupRole_eq_none_iff hindex').mp hnone d (hperm.mem_iff.mp hd)
    obtain ⟨g, hg⟩ := Option.ne_none_iff_exists'.mp hlookup
    obtain ⟨g', hg'⟩ := Option.ne_none_iff_exists'.mp hlookup'
    have hresolve := resolveRole_of_lookup hk hg
    have hresolve' := resolveRole_of_lookup hk hg'
    by_cases hempty : subjectMappings doc = []
    · obtain ⟨found, hfound⟩ := h.returns_bindingReach hindex hdoc
      obtain ⟨found', hfound'⟩ :=
        (h.of_perm hperm).returns_bindingReach hindex' (hperm.mem_iff.mp hdoc)
      rw [hfound, hfound', bindingReach_of_no_subject href hresolve hempty hfound,
        bindingReach_of_no_subject href hresolve' hempty hfound']
    · have hreasons : reachReasons g = reachReasons g' :=
        h.agree doc hdoc kind name href k hk hempty g g' (defines_of_lookupRole hindex hg)
          ((defines_perm hperm).mpr (defines_of_lookupRole hindex' hg'))
      rw [bindingReach_eq href, bindingReach_eq href, hresolve, hresolve']
      simp only [hreasons]
  · rw [bindingReach_eq href, bindingReach_eq href, resolveRole_congr fun k hk => ⟨?_, ?_⟩]
    · by_contra hlookup
      exact hdefined ⟨k, hk, hlookup⟩
    · rw [lookupRole_eq_none_iff hindex']
      intro d hd
      have hnone : lookupRole index k = none := by
        by_contra hlookup
        exact hdefined ⟨k, hk, hlookup⟩
      exact (lookupRole_eq_none_iff hindex).mp hnone d (hperm.mem_iff.mpr hd)

/-- The results of a document, each with the document. -/
def anchored (L : Library) (index : RoleIndex) (doc : Document) :
    Except Fault (List (Document × CrossIssue)) := do
  let issues ← bindingReach L index doc
  return issues.map fun issue => (doc, issue)

theorem rbacReachability_eq (hindex : indexRoles L documents = .ok index) :
    rbacReachability L documents = documents.mapM (anchored L index) >>= fun results =>
      .ok (sortBy resultKey results.flatten) := by
  unfold rbacReachability
  rw [hindex, ok_bind]
  rfl

variable {issues : List (Document × CrossIssue)}

theorem exists_index (h : rbacReachability L documents = .ok issues) :
    ∃ index results, indexRoles L documents = .ok index ∧
      documents.mapM (anchored L index) = .ok results ∧
      issues = sortBy resultKey results.flatten := by
  obtain ⟨index, hindex, -⟩ := bind_eq_ok.mp h
  rw [rbacReachability_eq hindex] at h
  obtain ⟨results, hresults, heq⟩ := bind_eq_ok.mp h
  exact ⟨index, results, hindex, hresults, (Except.ok.inj heq).symm⟩

/-- **The issues do not depend on the order of the documents** if the definitions agree. -/
theorem Agreeing.reachability_perm (h : Agreeing L documents)
    (hperm : documents.Perm documents')
    (hissues : rbacReachability L documents = .ok issues) :
    ∃ issues', rbacReachability L documents' = .ok issues' ∧ issues'.Perm issues := by
  obtain ⟨index, results, hindex, hresults, rfl⟩ := exists_index hissues
  obtain ⟨index', hindex'⟩ : Returns (indexRoles L documents') :=
    returns_indexRoles_iff.mpr (h.of_perm hperm).roles
  obtain ⟨results', hresults', hresultsPerm⟩ := mapM_perm hperm hresults
  have hsame : documents'.mapM (anchored L index') = .ok results' := by
    rw [← hresults']
    refine mapM_congr_mem fun doc hdoc => ?_
    unfold anchored
    rw [h.bindingReach_perm hperm hindex hindex' (hperm.mem_iff.mpr hdoc)]
  refine ⟨sortBy resultKey results'.flatten, ?_, ?_⟩
  · rw [rbacReachability_eq hindex', hsame, ok_bind]
  · exact (sortBy_perm _ _).trans (hresultsPerm.symm.flatten.trans (sortBy_perm _ _).symm)

/-- The issues of a document, if it can be read. -/
def foundOf (L : Library) (index : RoleIndex) (doc : Document) : List CrossIssue :=
  match bindingReach L index doc with
  | .ok found => found
  | .error _ => []

theorem bindingReach_foundOf (h : Returns (bindingReach L index doc)) :
    bindingReach L index doc = .ok (foundOf L index doc) := by
  obtain ⟨found, hfound⟩ := h
  unfold foundOf
  rw [hfound]

/-- **The join answers for every binding** if the definitions agree. -/
theorem Agreeing.joined (h : Agreeing L documents) :
    ∃ issues, rbacReachability L documents = .ok issues ∧ Joined L documents issues := by
  obtain ⟨index, hindex⟩ : Returns (indexRoles L documents) := returns_indexRoles_iff.mpr h.roles
  have hresults : documents.mapM (anchored L index) =
      .ok (documents.map fun doc => (foundOf L index doc).map fun issue => (doc, issue)) := by
    rw [mapM_congr_mem (g := fun doc =>
      pure ((foundOf L index doc).map fun issue => (doc, issue))) fun doc hdoc => ?_]
    · exact mapM_pure
    · unfold anchored
      rw [bindingReach_foundOf (h.returns_bindingReach hindex hdoc)]
      rfl
  refine ⟨_, by rw [rbacReachability_eq hindex, hresults, ok_bind], foundOf L index, ?_,
    fun doc hdoc => ⟨fun hkind => ?_, fun hkind => ?_⟩⟩
  · rw [flatMap_def]
    exact sortBy_perm _ _
  · unfold foundOf bindingReach
    rw [if_pos hkind]
  · obtain ⟨kind, name, href⟩ := h.refers hdoc hkind
    exact ⟨kind, name, href, h.answered hindex hdoc href
      (bindingReach_foundOf (h.returns_bindingReach hindex hdoc))⟩

theorem returns_of_reachability (hindex : indexRoles L documents = .ok index)
    (h : rbacReachability L documents = .ok issues) (hdoc : doc ∈ documents) :
    Returns (bindingReach L index doc) := by
  rw [rbacReachability_eq hindex] at h
  obtain ⟨results, hresults, -⟩ := bind_eq_ok.mp h
  have hanchored := returns_mapM_iff.mp ⟨results, hresults⟩ doc hdoc
  exact returns_bind_pure_iff.mp hanchored

theorem mem_reachability (hindex : indexRoles L documents = .ok index)
    (h : rbacReachability L documents = .ok issues) {issue : CrossIssue} :
    (doc, issue) ∈ issues ↔
      doc ∈ documents ∧ ∃ found, bindingReach L index doc = .ok found ∧ issue ∈ found := by
  rw [rbacReachability_eq hindex] at h
  obtain ⟨results, hresults, heq⟩ := bind_eq_ok.mp h
  cases heq
  rw [mem_sortBy, mem_flatten]
  constructor
  · rintro ⟨result, hresult, hmem⟩
    obtain ⟨d, hd, hround⟩ := exists_of_mem_mapM hresults result hresult
    obtain ⟨found, hfound, heq⟩ := bind_eq_ok.mp hround
    cases heq
    obtain ⟨i, hi, heq⟩ := mem_map.mp hmem
    cases heq
    exact ⟨hd, found, hfound, hi⟩
  · rintro ⟨hdoc, found, hfound, hissue⟩
    obtain ⟨result, hresult, hround⟩ := exists_of_mem_mapM_left hresults doc hdoc
    refine ⟨result, hresult, ?_⟩
    unfold anchored at hround
    rw [hfound, ok_bind] at hround
    cases hround
    exact mem_map_of_mem hissue

theorem exists_reason {via : Via} {found : List CrossIssue} (href : Refers L doc kind name)
    (hresolve : resolveRole index kind name doc.scope = some (grants, via))
    (hfound : bindingReach L index doc = .ok found) :
    ∀ issue ∈ found, issue.reasons = reachReasons grants := by
  rw [bindingReach_eq href, hresolve] at hfound
  by_cases hne : reachReasons grants = []
  · simp only [if_pos hne] at hfound
    cases hfound
    simp
  · simp only [if_neg hne] at hfound
    obtain ⟨items, -, hfound⟩ := bind_eq_ok.mp hfound
    obtain ⟨issues, hissues, hfound⟩ := bind_eq_ok.mp hfound
    cases hfound
    intro issue hissue
    obtain ⟨v, -, hv⟩ := exists_of_mem_mapM hissues _ (reduceOption_mem_iff.mp hissue)
    cases v with
    | dict subject =>
      rw [subjectReach] at hv
      obtain ⟨subjectKind, -, hv⟩ := bind_eq_ok.mp hv
      obtain ⟨subjectName, -, hv⟩ := bind_eq_ok.mp hv
      cases hv
      rfl
    | _ => cases hv

theorem exists_issue (hsound : Sound L documents) (hdoc : doc ∈ documents)
    (href : Refers L doc kind name) (hk : roleKey kind name doc.scope = some k)
    (hne : subjectMappings doc ≠ []) (hdefines : Defines L documents k grants)
    (hdangerous : reachReasons grants ≠ [])
    (hissues : rbacReachability L documents = .ok issues) :
    ∃ issue, (doc, issue) ∈ issues ∧ issue.reasons = reachReasons grants := by
  obtain ⟨issues', hissues', -, hall⟩ := hsound
  obtain rfl : issues = issues' := Except.ok.inj (hissues.symm.trans hissues')
  obtain ⟨index, -, hindex, -⟩ := exists_index hissues
  obtain ⟨documents', hperm, index', hindex', hlookup⟩ := exists_lookupRole ⟨index, hindex⟩ hdefines
  obtain ⟨issues', hissues', hissuesPerm⟩ := hall documents' hperm
  obtain ⟨found, hfound⟩ := returns_of_reachability hindex' hissues' (hperm.mem_iff.mp hdoc)
  have hresolve := resolveRole_of_lookup hk hlookup
  have hfound₂ := bindingReach_dangerous href hresolve hdangerous hfound
  have hfoundne : found ≠ [] := by
    rintro rfl
    exact hne (List.forall₂_nil_right_iff.mp hfound₂)
  obtain ⟨issue, hissue⟩ := exists_mem_of_ne_nil _ hfoundne
  refine ⟨issue, hissuesPerm.mem_iff.mp ((mem_reachability hindex' hissues').mpr
    ⟨hperm.mem_iff.mp hdoc, found, hfound, hissue⟩), ?_⟩
  exact exists_reason href hresolve hfound issue hissue

/-- **The last definition of a role may be any** if the join is sound: they come to one reach. -/
theorem Sound.reasons_eq (hsound : Sound L documents) (hdoc : doc ∈ documents)
    (href : Refers L doc kind name) (hk : roleKey kind name doc.scope = some k)
    (hne : subjectMappings doc ≠ []) (hgrants : Defines L documents k grants)
    (hgrants' : Defines L documents k grants') (hdangerous : reachReasons grants ≠ []) :
    reachReasons grants = reachReasons grants' := by
  obtain ⟨issues, hissues, -, hall⟩ := id hsound
  obtain ⟨issue, hissue, hreasons⟩ :=
    exists_issue hsound hdoc href hk hne hgrants hdangerous hissues
  -- the issue is also there when the other definition comes last
  obtain ⟨index, -, hindex, -⟩ := exists_index hissues
  obtain ⟨documents', hperm, index', hindex', hlookup⟩ :=
    exists_lookupRole ⟨index, hindex⟩ hgrants'
  obtain ⟨issues', hissues', hissuesPerm⟩ := hall documents' hperm
  obtain ⟨-, found, hfound, hmem⟩ :=
    (mem_reachability hindex' hissues').mp (hissuesPerm.mem_iff.mpr hissue)
  rw [← hreasons, exists_reason href (resolveRole_of_lookup hk hlookup) hfound issue hmem]

theorem Sound.agreeing (hsound : Sound L documents) : Agreeing L documents := by
  obtain ⟨issues, hissues, -, hall⟩ := id hsound
  obtain ⟨index, -, hindex, -⟩ := exists_index hissues
  refine ⟨returns_indexRoles_iff.mp ⟨index, hindex⟩, fun doc hdoc hkind => ?_,
    fun doc hdoc kind name href k hk grants hgrants hdangerous => ?_,
    fun doc hdoc kind name href k hk hne grants grants' hgrants hgrants' => ?_⟩
  · obtain ⟨kind, name, href⟩ :=
      exists_refers hkind (returns_of_reachability hindex hissues hdoc)
    exact ⟨⟨kind, href.kind_eq⟩, name, href.name_eq⟩
  · rcases hgrants with hgrants | ⟨hnone, hbuiltin⟩
    · obtain ⟨documents', hperm, index', hindex', hlookup⟩ :=
        exists_lookupRole ⟨index, hindex⟩ hgrants
      obtain ⟨issues', hissues', -⟩ := hall documents' hperm
      exact (returns_bindingReach_iff href (resolveRole_of_lookup hk hlookup) hdangerous).mp
        (returns_of_reachability hindex' hissues' (hperm.mem_iff.mp hdoc))
    · have hresolve : resolveRole index kind name doc.scope = some (grants, .builtin) := by
        unfold resolveRole
        rw [hk, Option.bind_eq_bind, Option.bind_some, (lookupRole_eq_none_iff hindex).mpr hnone,
          hbuiltin]
        rfl
      exact (returns_bindingReach_iff href hresolve hdangerous).mp
        (returns_of_reachability hindex hissues hdoc)
  · by_cases hdangerous : reachReasons grants = []
    · by_cases hdangerous' : reachReasons grants' = []
      · rw [hdangerous, hdangerous']
      · exact (hsound.reasons_eq hdoc href hk hne hgrants' hgrants hdangerous').symm
    · exact hsound.reasons_eq hdoc href hk hne hgrants hgrants' hdangerous

end Join

/-- **When the join is sound.** -/
theorem reachability_sound_iff (L : Library) (documents : List Document) :
    Sound L documents ↔ Agreeing L documents := by
  constructor
  · exact Sound.agreeing
  · intro h
    obtain ⟨issues, hissues, hjoined⟩ := h.joined
    exact ⟨issues, hissues, hjoined, fun _ hperm => h.reachability_perm hperm hissues⟩

/-! ### A role that is defined twice -/

/-- A definition of one role, with what it grants. -/
def definition (rules : List Yaml) : Document where
  kind := "ClusterRole"
  name := ['r']
  «namespace» := []
  body := [(.str "rules", .list rules)]

/-- A binding of the role to a subject. -/
def boundRole : Document where
  kind := "ClusterRoleBinding"
  name := ['b']
  «namespace» := []
  body := [(.str "roleRef", .dict [(.str "kind", .str "ClusterRole"),
      (.str "name", .str ['r'])]),
    (.str "subjects", .list [.dict []])]

def wildcardRule : Yaml :=
  .dict [(.str "verbs", .list [.str ['*']]), (.str "resources", .list [.str ['*']])]

theorem roleRef_boundRole : boundRole.roleRef =
    [(.str "kind", .str "ClusterRole"), (.str "name", .str ['r'])] := by
  unfold Document.roleRef boundRole
  rw [get_cons_self]
  rfl

theorem subjectMappings_boundRole : subjectMappings boundRole = [[]] := by
  unfold subjectMappings boundRole
  rw [get_cons_of_ne _ _ (by simp), get_cons_self]
  rfl

theorem refers_boundRole (L : Library) : Refers L boundRole "ClusterRole" ['r'] where
  kind_mem := mem_cons_of_mem _ (mem_singleton_self _)
  kind_eq := by
    rw [roleRef_boundRole, get_cons_self]
    rfl
  name_eq := by
    rw [roleRef_boundRole, get_cons_of_ne _ _ (by simp), get_cons_self]
    rfl

theorem defines_definition {L : Library} {documents : List Document} (rules : List Yaml)
    {grants : List Grant} (h : definition rules ∈ documents)
    (hrules : roleRules L (definition rules).body = .ok grants) :
    Defines L documents (.clusterRole ['r']) grants := by
  have hkind : (definition rules).kind = "ClusterRole" := rfl
  exact ⟨definition rules, h, if_pos hkind, hrules⟩

/-- **A role that grants everything passes** if a harmless definition of it comes later. -/
theorem overwritten_role_passes :
    ¬ ∀ (L : Library) (documents : List Document), Sound L documents := by
  intro h
  let L : Library := ⟨.ascii, fun _ => .ok [], id, fun _ => none⟩
  have hagreeing := (h L [definition [wildcardRule], definition [], boundRole]).agreeing
  have hsame := hagreeing.agree boundRole (by simp) "ClusterRole" ['r']
    (refers_boundRole L) (.clusterRole ['r']) (by rw [roleKey, if_neg (by simp), if_pos rfl]; rfl)
    (by simp [subjectMappings_boundRole]) [⟨[['*']], [['*']], []⟩] []
    (defines_definition [wildcardRule] (by simp) rfl) (defines_definition [] (by simp) rfl)
  exact absurd hsame (by decide)

end Guardian.K8s

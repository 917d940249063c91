import Guardian.Findings.Scoring
import Guardian.Order.Ranking
import Guardian.Python.Regex
import Guardian.Python.Yaml
import Mathlib.Data.List.ReduceOption

/-!
# The rules for one manifest

`analyse` runs every rule over one document.  The rules call `get`, `items` and `str` on what they
find in it, and run loops over it, whatever it is.  `returns_analyse_iff` gives the documents on
which nothing is raised.
-/

namespace Guardian.K8s

open Python Python.Yaml Findings Guardian.Order

/-! ### Documents -/

/-- `Document`. -/
structure Document where
  kind : Str
  name : Str
  «namespace» : Str
  body : Dict

/-- `label`. -/
def Document.label (doc : Document) : Str :=
  (if doc.namespace = [] then [] else doc.namespace ++ ['/']) ++ doc.kind ++ '/' :: doc.name

/-- The library that the rules call. -/
structure Library where
  runtime : Runtime
  write : Yaml → Except Fault Str
  upper : Str → Str
  b64decode : Str → Option Str

/-- The rules that find an issue in a document. -/
inductive Rule
  | hostNetwork
  | hostProcess
  | hostIpc
  | tokenAutomount
  | hostPath
  | privileged
  | privilegeEscalation
  | runAsRoot
  | dangerousCapabilities
  | seccompProfile
  | apparmorUnconfined
  | capabilitiesDropAll
  | writableRoot
  | hostPort
  | mutableImage
  | noResourceLimits
  | rbacWildcard
  | rbacEscalation
  | rbacClusterAdmin
  | rbacEveryone
  | rbacDefaultSa
  | manifestSecret
  | configmapCredential
  | envCredential
  | serviceExposed
  | ingressNoTls
  | netpolOpenIngress
  | netpolOpenEgress
  deriving DecidableEq

/-- `Issue`: the rule, what its title names, and what it is about. -/
structure Issue where
  rule : Rule
  severity : Severity
  named : List Str
  subject : Yaml

/-! ### Pod specs -/

/-- `PLACEHOLDER`. -/
def placeholder : Str := "GUARDIAN_TEMPLATED"

/-- `WORKLOAD_KINDS`. -/
def workloadKinds : List Str :=
  ["Pod", "Deployment", "StatefulSet", "DaemonSet",
    "ReplicaSet", "Job", "CronJob", "ReplicationController"]

/-- The template of the pods of a workload. -/
def podTemplate (spec : Dict) : Except Fault Yaml :=
  match get spec "template", get spec "jobTemplate" with
  | .null, .dict job => do
    let inner ← (get job "spec").mapping
    return get inner "template"
  | template, _ => .ok template

/-- The part of a pod or of the template of the pods, if it is a dictionary. -/
def podPart (key : String) (body : Dict) : Except Fault (Option Dict) :=
  match get body "spec" with
  | .dict spec => do
    let template ← podTemplate spec
    return template.entries?.bind fun d => (get d key).entries?
  | _ => .ok none

/-- **`pod_spec`.** -/
def podSpec (body : Dict) : Except Fault (Option Dict) :=
  if (get body "kind").isText "Pod" then .ok (get body "spec").entries?
  else podPart "spec" body

/-- `pod_metadata`. -/
def podMetadata (body : Dict) : Except Fault Dict :=
  if (get body "kind").isText "Pod" then .ok ((get body "metadata").entries?.getD [])
  else do
    let metadata ← podPart "metadata" body
    return metadata.getD []

/-- The sections of a pod that hold containers. -/
def sections : List String := ["containers", "initContainers", "ephemeralContainers"]

/-- `containers`. -/
def containers (pod : Dict) : Except Fault (List (Str × Dict)) := do
  let found ← sections.mapM fun key => do
    let items ← (get pod key).each
    return items.filterMap fun item => item.entries?.map fun d => (key.toList, d)
  return found.flatten

/-- `effective_security`: a value of the container stands before that of the pod. -/
def effectiveSecurity (pod container : Dict) : Dict :=
  let podLevel := (get pod "securityContext").entries?.getD []
  match (get container "securityContext").orElse (.dict []) with
  | .dict own => own ++ podLevel.filter fun kv => !kv.1.isText "capabilities"
  | _ => podLevel

/-! ### Workloads -/

section Rules
variable (L : Library)

/-- `str(v)`. -/
def str (v : Yaml) : Except Fault Str := v.text L.write

/-- An issue that stands for itself. -/
def issue (rule : Rule) (severity : Severity) (named : List Str) (subject : Str) : Issue :=
  ⟨rule, severity, named, .str subject⟩

def issueIf (test : Bool) (found : Issue) : List Issue := if test then [found] else []

/-- `_PRIVILEGED_HOST_PATHS`, without the root. -/
def privilegedHostPaths : List Str :=
  ["/etc", "/var/run/docker.sock", "/var/run/containerd",
    "/var/lib/kubelet", "/proc", "/sys", "/dev", "/root",
    "/var/log"]

/-- `_is_sensitive_host_path`. -/
def isSensitiveHostPath (path : Str) : Bool :=
  let normalized := rstripChar '/' path
  normalized.isEmpty ||
    privilegedHostPaths.any fun target =>
      decide (normalized = target ∨ target ++ ['/'] <+: normalized)

/-- One volume. -/
def volumeIssues : Yaml → Except Fault (List Issue)
  | .dict volume =>
    if (get volume "hostPath").truthy then do
      let d ← (get volume "hostPath").getOf
      let path := get d "path"
      if path.truthy then
        let text ← str L path
        return [⟨.hostPath, if isSensitiveHostPath text then .critical else .medium, [text],
          (find volume "name").getD (.str [])⟩]
      else return []
    else return []
  | _ => .ok []

/-- `DANGEROUS_CAPABILITIES`. -/
def dangerousCapabilities : List Str :=
  ["ALL", "SYS_ADMIN", "NET_ADMIN", "SYS_PTRACE",
    "SYS_MODULE", "SYS_BOOT", "SYS_RAWIO", "DAC_READ_SEARCH",
    "DAC_OVERRIDE", "BPF", "PERFMON", "NET_RAW"]

/-- The capabilities that are worst. -/
def worstCapabilities : List Str := ["ALL", "SYS_ADMIN", "SYS_MODULE"]

/-- The capabilities that are added, or dropped. -/
def capabilities (security : Dict) (key : String) : Except Fault (List Str) := do
  let d ← (get security "capabilities").mapping
  let names ← (get d key).texts L.write
  return names.map L.upper

/-- The capabilities that a container adds. -/
def addedIssues (security : Dict) (named place : Str) : Except Fault (List Issue) := do
  let added ← capabilities L security "add"
  let dangerous := dangerousCapabilities.filter (· ∈ added)
  let severity := if worstCapabilities.any (· ∈ dangerous) then Severity.critical else .high
  return issueIf (!dangerous.isEmpty)
    (issue .dangerousCapabilities severity (named :: sortBy id dangerous) place)

/-- `str(annotations.get(key, ""))`, without blanks and in lower case. -/
def annotationText (annotations : Yaml) (key : Str) : Except Fault Str := do
  let d ← annotations.getOf
  let text ← str L ((find d key).getD (.str []))
  return lower L.runtime (strip L.runtime text)

/-- `_SECCOMP_ANNOTATION`. -/
def seccompAnnotation : Str := "seccomp.security.alpha.kubernetes.io/pod"

/-- The annotation confines the containers of the pod. -/
def legacyOk (legacy : Str) : Bool :=
  decide (legacy = "runtime/default" ∨ legacy = "docker/default" ∨
    "localhost/" <+: legacy)

/-- The value stands for what a template fills in. -/
def templated : Yaml → Bool
  | .str s => decide (placeholder <:+: s)
  | _ => false

/-- The type of a profile. -/
def profileType : Yaml → Yaml
  | .dict d => get d "type"
  | _ => .null

/-- `v not in _SECCOMP_CONFINED`. -/
def unconfined (v : Yaml) : Except Fault Bool :=
  if v.lookable then
    .ok (!(v.isText "RuntimeDefault" || v.isText "Localhost"))
  else .error .typeError

/-- The seccomp profile of a container. -/
def seccompIssues (security : Dict) (annotations : Yaml) (named place : Str) :
    Except Fault (List Issue) :=
  let seccomp := get security "seccompProfile"
  if templated seccomp then .ok []
  else do
    let legacy ← annotationText L annotations seccompAnnotation
    let missing ← unconfined (profileType seccomp)
    return issueIf (missing && !legacyOk legacy) (issue .seccompProfile .medium [named] place)

/-- `_APPARMOR_ANNOTATION_PREFIX`. -/
def apparmorAnnotationPrefix : Str := "container.apparmor.security.beta.kubernetes.io/"

/-- The AppArmor profile of a container. -/
def apparmorIssues (security : Dict) (annotations : Yaml) (named place : Str) :
    Except Fault (List Issue) := do
  let set := (profileType (get security "appArmorProfile")).isText "Unconfined"
  let text ← annotationText L annotations (apparmorAnnotationPrefix ++ named)
  return issueIf (set || decide (text = "unconfined"))
    (issue .apparmorUnconfined .medium [named] place)

/-- The capabilities that a container drops. -/
def droppedIssues (security : Dict) (named place : Str) : Except Fault (List Issue) :=
  if (get security "privileged").isTrue then .ok []
  else do
    let dropped ← capabilities L security "drop"
    return issueIf (decide ("ALL".toList ∉ dropped))
      (issue .capabilitiesDropAll .medium [named] place)

/-- One port of a container. -/
def portIssues (named place : Str) : Yaml → Except Fault (List Issue)
  | .dict port =>
    if (get port "hostPort").truthy then do
      let text ← str L (get port "hostPort")
      return [issue .hostPort .medium [text, named] place]
    else .ok []
  | _ => .ok []

/-- The image of a container. -/
def imageIssues (container : Dict) (named place : Str) : Except Fault (List Issue) := do
  let image ← (get container "image").textOr L.write
  return issueIf
    (decide (image ≠ [] ∧ ¬ placeholder <:+: image ∧ ¬ "@sha256:" <:+: image))
    (issue .mutableImage .low [named] place)

/-- The limits of a container. -/
def limitIssues (container : Dict) (named place : Str) : Except Fault (List Issue) := do
  let d ← (get container "resources").mapping
  return issueIf (!(get d "limits").truthy) (issue .noResourceLimits .low [named] place)

/-- **`_container_issues`.** -/
def containerIssues (pod : Dict) (annotations : Yaml) (p : Str × Dict) :
    Except Fault (List Issue) := do
  let named ← str L ((find p.2 "name").getD (.str "container"))
  let place := p.1 ++ ':' :: named
  let security := effectiveSecurity pod p.2
  let privileged := (get security "privileged").isTrue
  let user := get security "runAsUser"
  let added ← addedIssues L security named place
  let seccomp ← seccompIssues L security annotations named place
  let apparmor ← apparmorIssues L security annotations named place
  let dropped ← droppedIssues L security named place
  let items ← (get p.2 "ports").each
  let ports ← items.mapM (portIssues L named place)
  let image ← imageIssues L p.2 named place
  let limits ← limitIssues p.2 named place
  return issueIf privileged (issue .privileged .critical [named] place) ++
    issueIf (!(get security "allowPrivilegeEscalation").isFalse && !privileged)
      (issue .privilegeEscalation .medium [named] place) ++
    issueIf (!(get security "runAsNonRoot").isTrue && (user.isNone || user.isZero))
      (issue .runAsRoot .medium [named] place) ++
    added ++ seccomp ++ apparmor ++ dropped ++
    issueIf (!(get security "readOnlyRootFilesystem").isTrue)
      (issue .writableRoot .low [named] place) ++
    ports.flatten ++ image ++ limits

/-- **`workload_issues`.** -/
def workloadIssues (doc : Document) : Except Fault (List Issue) :=
  if doc.kind ∉ workloadKinds then .ok []
  else do
    match ← podSpec doc.body with
    | none => return []
    | some pod =>
      if pod.isEmpty then return []
      let items ← (get pod "volumes").each
      let volumes ← items.mapM (volumeIssues L)
      let metadata ← podMetadata doc.body
      let annotations := (get metadata "annotations").orElse (.dict [])
      let found ← containers pod
      let inContainers ← found.mapM (containerIssues L pod annotations)
      return issueIf (get pod "hostNetwork").isTrue (issue .hostNetwork .high [] []) ++
        issueIf (get pod "hostPID").isTrue (issue .hostProcess .high [] []) ++
        issueIf (get pod "hostIPC").isTrue (issue .hostIpc .high [] []) ++
        issueIf (!(get pod "automountServiceAccountToken").isFalse)
          (issue .tokenAutomount .medium [] []) ++
        volumes.flatten ++ inContainers.flatten

/-! ### Roles and bindings -/

/-- `{str(v).lower() for v in values or []}`. -/
def lowered (values : Yaml) : Except Fault (List Str) := do
  let names ← values.texts L.write
  return names.map (lower L.runtime)

/-- `_WRITE_VERBS`. -/
def writeVerbs : List Str :=
  ["create", "update", "patch", "delete",
    "deletecollection", ['*']]

/-- `_ESCALATION_RESOURCES`. -/
def escalationResources : List Str :=
  ["secrets", "pods/exec", "pods/attach", "pods/portforward",
    "clusterrolebindings", "rolebindings", "clusterroles", "roles",
    "serviceaccounts/token", "nodes/proxy",
    "certificatesigningrequests/approval", ['*']]

/-- One rule of a role. -/
def roleRuleIssues (doc : Document) : Yaml → Except Fault (List Issue)
  | .dict rule => do
    let verbs ← lowered L (get rule "verbs")
    let resources ← lowered L (get rule "resources")
    let _ ← lowered L (get rule "apiGroups")
    let escalating := escalationResources.filter (· ∈ resources)
    if ['*'] ∈ verbs ∧ ['*'] ∈ resources then
      return [issue .rbacWildcard .critical [doc.kind] doc.name]
    else
      let reaches := verbs.any (· ∈ writeVerbs) || decide ("get".toList ∈ verbs) ||
        decide ("list".toList ∈ verbs)
      let severity := if doc.kind = "ClusterRole" then Severity.critical else .high
      return issueIf (!escalating.isEmpty && reaches) (issue .rbacEscalation severity
        (doc.kind :: sortBy id verbs.dedup ++ sortBy id escalating) doc.name)
  | _ => .ok []

/-- `_role_issues`. -/
def roleIssues (doc : Document) : Except Fault (List Issue) := do
  let items ← (get doc.body "rules").each
  let found ← items.mapM (roleRuleIssues L doc)
  return found.flatten

/-- `_EVERYONE`. -/
def everyone : List Str :=
  ["system:anonymous", "system:unauthenticated", "system:authenticated"]

/-- One subject of a binding. -/
def subjectIssues (roleName : Str) : Yaml → Except Fault (List Issue)
  | .dict subject => do
    let kind ← (get subject "kind").textOr L.write
    let name ← (get subject "name").textOr L.write
    let label := kind ++ '/' :: name
    return issueIf (decide (roleName = "cluster-admin"))
        (issue .rbacClusterAdmin .critical [label, roleName] label) ++
      issueIf (decide (lower L.runtime name ∈ everyone))
        (issue .rbacEveryone .critical [name] label) ++
      issueIf (decide (kind = "ServiceAccount" ∧ name = "default"))
        (issue .rbacDefaultSa .high [roleName] label)
  | _ => .ok []

/-- `_binding_issues`. -/
def bindingIssues (doc : Document) : Except Fault (List Issue) := do
  let role ← (get doc.body "roleRef").mapping
  let roleName ← (get role "name").textOr L.write
  let subjects ← (get doc.body "subjects").each
  let found ← subjects.mapM (subjectIssues L roleName)
  return found.flatten

def roleKinds : List Str := ["Role", "ClusterRole"]

def bindingKinds : List Str := ["RoleBinding", "ClusterRoleBinding"]

/-- **`rbac_issues`.** -/
def rbacIssues (doc : Document) : Except Fault (List Issue) :=
  if doc.kind ∈ roleKinds then roleIssues L doc
  else if doc.kind ∈ bindingKinds then bindingIssues L doc
  else .ok []

/-! ### Credentials -/

/-- A word in a pattern without case. -/
def word (s : String) : Regex := .word Regex.ignoreCase s.toList

/-- `_PLACEHOLDER_VALUES`. -/
def placeholderValues : Regex :=
  .seq .bos (.seq (.alts [word "changeme", word "placeholder", word "example", word "redacted",
    .seq (word "xx") (.plus (word "x")), word "test", word "dummy", word "todo",
    .seq (word "<") (.seq (.plus (.cls (· != '>'))) (word ">")),
    .seq (.cls (· == '$')) (.seq (.cls (· == '{')) (.seq (.plus (.cls (· != '}')))
      (.cls (· == '}')))),
    word "guardian_templated"]) .eol)

/-- `[_-]?` -/
def joint : Regex := .opt (.cls fun c => c == '_' || c == '-')

/-- `_SECRET_KEY`. -/
def secretKey : Regex :=
  .alts [word "password", word "passwd", word "secret", word "token",
    .seq (word "api") (.seq joint (word "key")), .seq (word "access") (.seq joint (word "key")),
    .seq (word "private") (.seq joint (word "key")), word "credential"]

/-- `_is_placeholder`. -/
def isPlaceholder (value : Str) : Bool :=
  let stripped := strip L.runtime value
  stripped.isEmpty || (placeholderValues.rematch stripped).isSome ||
    decide (placeholder <:+: stripped)

/-- One entry of the `data` of a secret. -/
def dataIssues (kv : Yaml × Yaml) : Except Fault (List Issue) := do
  let value ← str L kv.2
  match L.b64decode value with
  | none => return []
  | some decoded =>
    if isPlaceholder L decoded then return []
    let key ← str L kv.1
    return [⟨.manifestSecret, .high, [key], kv.1⟩]

/-- One entry of the `stringData` of a secret. -/
def stringDataIssues (kv : Yaml × Yaml) : Except Fault (List Issue) := do
  let value ← str L kv.2
  if isPlaceholder L value then return []
  let key ← str L kv.1
  return [⟨.manifestSecret, .high, [key], kv.1⟩]

/-- One entry of a configuration. -/
def configIssues (kv : Yaml × Yaml) : Except Fault (List Issue) := do
  let key ← str L kv.1
  if !secretKey.search key then return []
  let value ← str L kv.2
  return issueIf (!isPlaceholder L value) ⟨.configmapCredential, .high, [key], kv.1⟩

/-- One variable of the environment of a container. -/
def envIssues (p : Str × Dict) : Yaml → Except Fault (List Issue)
  | .dict env =>
    if (find env "value").isNone then .ok []
    else do
      let key ← (get env "name").textOr L.write
      let value ← (get env "value").textOr L.write
      if !secretKey.search key || isPlaceholder L value || value.isEmpty then return []
      let name ← str L ((find p.2 "name").getD (.str []))
      return [issue .envCredential .high [key] (p.1 ++ ':' :: name ++ ':' :: key)]
  | _ => .ok []

/-- The environment of a container. -/
def environmentIssues (p : Str × Dict) : Except Fault (List Issue) := do
  let items ← (get p.2 "env").each
  let found ← items.mapM (envIssues L p)
  return found.flatten

/-- The entries under a key of the document. -/
def entriesOf (doc : Document) (key : String) (f : Yaml × Yaml → Except Fault (List Issue)) :
    Except Fault (List Issue) := do
  let d ← (get doc.body key).mapping
  let found ← d.mapM f
  return found.flatten

/-- **`secret_issues`.** -/
def secretIssues (doc : Document) : Except Fault (List Issue) :=
  if doc.kind = "Secret" then do
    let data ← entriesOf doc "data" (dataIssues L)
    let stringData ← entriesOf doc "stringData" (stringDataIssues L)
    return data ++ stringData
  else if doc.kind = "ConfigMap" then entriesOf doc "data" (configIssues L)
  else if doc.kind ∈ workloadKinds then do
    match ← podSpec doc.body with
    | none => return []
    | some pod =>
      if pod.isEmpty then return []
      let found ← containers pod
      let issues ← found.mapM (environmentIssues L)
      return issues.flatten
  else .ok []

/-! ### Networks -/

/-- A service. -/
def serviceIssues (doc : Document) : Except Fault (List Issue) := do
  let spec ← (get doc.body "spec").mapping
  let type ← str L ((get spec "type").orElse (.str "ClusterIP"))
  let exposed := decide (type = "NodePort" ∨ type = "LoadBalancer")
  let severity := if type = "NodePort" then Severity.medium else .low
  return issueIf exposed (issue .serviceExposed severity [doc.name, type] doc.name)

/-- An ingress. -/
def ingressIssues (doc : Document) : Except Fault (List Issue) := do
  let spec ← (get doc.body "spec").mapping
  return issueIf (!(get spec "tls").truthy) (issue .ingressNoTls .high [doc.name] doc.name)

/-- The value is `{}`. -/
def isEmptyDict : Yaml → Bool
  | .dict d => d.isEmpty
  | _ => false

/-- The value is `[]` or `None`. -/
def isOpen : Yaml → Bool
  | .list items => items.isEmpty
  | .null => true
  | _ => false

/-- The rules of a policy for one direction. -/
def directionIssues (doc : Document) (spec : Dict) (rule : Rule) (direction peers : String) :
    Except Fault (List Issue) := do
  let items ← (get spec direction).each
  return items.flatMap fun item =>
    match item with
    | .dict d => issueIf (isOpen (get d peers)) (issue rule .medium [doc.name] doc.name)
    | _ => []

/-- A network policy. -/
def policyIssues (doc : Document) : Except Fault (List Issue) := do
  let spec ← (get doc.body "spec").mapping
  let types ← lowered L (get spec "policyTypes")
  if isEmptyDict (get spec "podSelector") ∧ "egress".toList ∈ types ∧
      (get spec "egress").truthy = false then return []
  let ingress ← directionIssues doc spec .netpolOpenIngress "ingress" "from"
  let egress ← directionIssues doc spec .netpolOpenEgress "egress" "to"
  return ingress ++ egress

/-- **`network_issues`.** -/
def networkIssues (doc : Document) : Except Fault (List Issue) :=
  if doc.kind = "Service" then serviceIssues L doc
  else if doc.kind = "Ingress" then ingressIssues doc
  else if doc.kind = "NetworkPolicy" then policyIssues L doc
  else .ok []

/-- **`analyse`.** -/
def analyse (doc : Document) : Except Fault (List Issue) := do
  let workload ← workloadIssues L doc
  let rbac ← rbacIssues L doc
  let secret ← secretIssues L doc
  let network ← networkIssues L doc
  return workload ++ rbac ++ secret ++ network

/-! ### Documents that can be read -/

/-- `str` takes the value. -/
def Textual (v : Yaml) : Prop := Returns (str L v)

/-- `str` takes every item of the value, which is empty or can be run over. -/
def Texts (v : Yaml) : Prop := ReturnsA (fun items => ∀ x ∈ items, Textual L x) v.each

/-- The value is a dictionary, with a text under the key or nothing. -/
def Annotated (annotations : Yaml) (key : Str) : Prop :=
  ∃ d, annotations = .dict d ∧ Textual L ((find d key).getD (.str []))

/-- The capabilities are empty or a dictionary, with texts under the key. -/
def CapabilitiesRead (security : Dict) (key : String) : Prop :=
  ReturnsA (fun d => Texts L (get d key)) (get security "capabilities").mapping

/-- A host path is a dictionary, and its path a text. -/
def VolumeReads (v : Yaml) : Prop :=
  ∀ volume, v = .dict volume → (get volume "hostPath").truthy = true →
    ∃ d, get volume "hostPath" = .dict d ∧ ((get d "path").truthy = true → Textual L (get d "path"))

/-- A host port that is set can be written as a text. -/
def PortReads (v : Yaml) : Prop :=
  ∀ port, v = .dict port → (get port "hostPort").truthy = true → Textual L (get port "hostPort")

/-- **What the rules read of a container** is of the type that they take it for. -/
structure ContainerReads (pod : Dict) (annotations : Yaml) (container : Dict) : Prop where
  added : CapabilitiesRead L (effectiveSecurity pod container) "add"
  dropped : (get (effectiveSecurity pod container) "privileged").isTrue = false →
    CapabilitiesRead L (effectiveSecurity pod container) "drop"
  seccomp : templated (get (effectiveSecurity pod container) "seccompProfile") = false →
    Annotated L annotations seccompAnnotation ∧
      (profileType (get (effectiveSecurity pod container) "seccompProfile")).lookable = true
  apparmor : ReturnsA (fun named => Annotated L annotations (apparmorAnnotationPrefix ++ named))
    (str L ((find container "name").getD (.str "container")))
  ports : ReturnsA (fun items => ∀ v ∈ items, PortReads L v) (get container "ports").each
  image : Returns ((get container "image").textOr L.write)
  resources : Returns (get container "resources").mapping

/-- **What the rules read of a workload.** -/
structure WorkloadReads (body pod : Dict) : Prop where
  volumes : ReturnsA (fun items => ∀ v ∈ items, VolumeReads L v) (get pod "volumes").each
  containers : ReturnsA (fun metadata => ReturnsA (fun found => ∀ p ∈ found,
    ContainerReads L pod ((get metadata "annotations").orElse (.dict [])) p.2) (containers pod))
    (podMetadata body)

/-- The verbs, the resources and the groups of a rule are texts. -/
def RoleRuleReads (v : Yaml) : Prop :=
  ∀ rule, v = .dict rule →
    Texts L (get rule "verbs") ∧ Texts L (get rule "resources") ∧ Texts L (get rule "apiGroups")

/-- The kind and the name of a subject are texts, or empty. -/
def SubjectReads (v : Yaml) : Prop :=
  ∀ subject, v = .dict subject → Returns ((get subject "kind").textOr L.write) ∧
    Returns ((get subject "name").textOr L.write)

/-- **What the rules read of a binding.** -/
structure BindingReads (body : Dict) : Prop where
  roleRef : ReturnsA (fun role => Returns ((get role "name").textOr L.write))
    (get body "roleRef").mapping
  subjects : ReturnsA (fun items => ∀ v ∈ items, SubjectReads L v) (get body "subjects").each

/-- The value of an entry is a text, and its key, if that is no placeholder. -/
def DataReads (kv : Yaml × Yaml) : Prop :=
  ReturnsA (fun value => ∀ decoded ∈ L.b64decode value, isPlaceholder L decoded = false →
    Textual L kv.1) (str L kv.2)

/-- The same of an entry that is not encoded. -/
def StringDataReads (kv : Yaml × Yaml) : Prop :=
  ReturnsA (fun value => isPlaceholder L value = false → Textual L kv.1) (str L kv.2)

/-- The key of an entry is a text, and its value, if the key names a credential. -/
def ConfigReads (kv : Yaml × Yaml) : Prop :=
  ReturnsA (fun key => secretKey.search key = true → Textual L kv.2) (str L kv.1)

/-- A variable has the name and the value of a credential. -/
def isCredential (key value : Str) : Bool :=
  secretKey.search key && !isPlaceholder L value && !value.isEmpty

/-- The name and the value of a variable are texts, and the name of the container, if the variable
holds a credential. -/
def EnvReads (container : Dict) (v : Yaml) : Prop :=
  ∀ env, v = .dict env → (find env "value").isSome = true →
    ReturnsA (fun key => ReturnsA (fun value => isCredential L key value = true →
      Textual L ((find container "name").getD (.str []))) ((get env "value").textOr L.write))
      ((get env "name").textOr L.write)

/-- **What the rules read of the environment of the containers.** -/
def EnvironmentReads (pod : Dict) : Prop :=
  ReturnsA (fun found => ∀ p ∈ found,
    ReturnsA (fun items => ∀ v ∈ items, EnvReads L p.2 v) (get p.2 "env").each) (containers pod)

/-- A policy denies all that leaves. -/
def DeniesEgress (spec : Dict) (types : List Str) : Prop :=
  isEmptyDict (get spec "podSelector") = true ∧ "egress".toList ∈ types ∧
    (get spec "egress").truthy = false

/-- **What the rules read of a network policy.** -/
def PolicyReads (body : Dict) : Prop :=
  ReturnsA (fun spec => ReturnsA (fun types => ¬ DeniesEgress spec types →
    Returns (get spec "ingress").each ∧ Returns (get spec "egress").each)
    (lowered L (get spec "policyTypes"))) (get body "spec").mapping

/-- **The rules can read the document**: what they take for a dictionary is one, or is empty; what
they run over can be run over, or is empty; and what they write is a text. -/
structure Readable (doc : Document) : Prop where
  workload : doc.kind ∈ workloadKinds → ReturnsA (fun pod => ∀ d ∈ pod, d ≠ [] →
    WorkloadReads L doc.body d ∧ EnvironmentReads L d) (podSpec doc.body)
  role : doc.kind ∈ roleKinds →
    ReturnsA (fun items => ∀ v ∈ items, RoleRuleReads L v) (get doc.body "rules").each
  binding : doc.kind ∈ bindingKinds → BindingReads L doc.body
  secret : doc.kind = "Secret" →
    ReturnsA (fun d => ∀ kv ∈ d, DataReads L kv) (get doc.body "data").mapping ∧
      ReturnsA (fun d => ∀ kv ∈ d, StringDataReads L kv) (get doc.body "stringData").mapping
  configMap : doc.kind = "ConfigMap" →
    ReturnsA (fun d => ∀ kv ∈ d, ConfigReads L kv) (get doc.body "data").mapping
  service : doc.kind = "Service" →
    ReturnsA (fun spec => Textual L ((get spec "type").orElse (.str "ClusterIP")))
      (get doc.body "spec").mapping
  ingress : doc.kind = "Ingress" → Returns (get doc.body "spec").mapping
  policy : doc.kind = "NetworkPolicy" → PolicyReads L doc.body

variable {L}

theorem returns_texts_iff {v : Yaml} : Returns (v.texts L.write) ↔ Texts L v := by
  unfold Yaml.texts
  rw [returns_bind_iff_returnsA]
  simp only [returns_mapM_iff]
  rfl

theorem returns_annotationText_iff {annotations : Yaml} {key : Str} :
    Returns (annotationText L annotations key) ↔ Annotated L annotations key := by
  unfold annotationText
  rw [returns_bind_iff_returnsA]
  simp only [returns_bind_pure_iff, ReturnsA, getOf_eq_ok_iff]
  rfl

theorem returns_capabilities_iff {security : Dict} {key : String} :
    Returns (capabilities L security key) ↔ CapabilitiesRead L security key := by
  unfold capabilities
  rw [returns_bind_iff_returnsA]
  simp only [returns_bind_pure_iff, returns_texts_iff]
  rfl

theorem returns_volumeIssues_iff {v : Yaml} : Returns (volumeIssues L v) ↔ VolumeReads L v := by
  unfold VolumeReads
  cases v with
  | dict volume =>
    rw [volumeIssues]
    by_cases hpath : (get volume "hostPath").truthy = true
    · rw [if_pos hpath, returns_bind_iff_returnsA]
      simp only [ReturnsA, getOf_eq_ok_iff, Yaml.dict.injEq, forall_eq', hpath, true_imp_iff]
      refine exists_congr fun d => and_congr_right fun _ => ?_
      by_cases htruthy : (get d "path").truthy = true
      · rw [if_pos htruthy, returns_bind_pure_iff]
        exact ⟨fun h _ => h, fun h => h htruthy⟩
      · rw [if_neg htruthy]
        exact iff_of_true (returns_ok _) fun h => absurd h htruthy
    · rw [if_neg hpath]
      refine iff_of_true (returns_ok _) ?_
      rintro _ ⟨⟩ h
      exact absurd h hpath
  | _ => exact iff_of_true (returns_ok _) fun _ h => nomatch h

theorem returns_portIssues_iff {v : Yaml} {named place : Str} :
    Returns (portIssues L named place v) ↔ PortReads L v := by
  unfold PortReads
  cases v with
  | dict port =>
    rw [portIssues]
    by_cases hport : (get port "hostPort").truthy = true
    · rw [if_pos hport, returns_bind_pure_iff]
      simp only [Yaml.dict.injEq, forall_eq', hport, true_imp_iff]
      rfl
    · rw [if_neg hport]
      refine iff_of_true (returns_ok _) ?_
      rintro _ ⟨⟩ h
      exact absurd h hport
  | _ => exact iff_of_true (returns_ok _) fun _ h => nomatch h

theorem returns_seccompIssues_iff {security : Dict} {annotations : Yaml} {named place : Str} :
    Returns (seccompIssues L security annotations named place) ↔
      (templated (get security "seccompProfile") = false →
        Annotated L annotations seccompAnnotation ∧
          (profileType (get security "seccompProfile")).lookable = true) := by
  unfold seccompIssues
  by_cases htemplated : templated (get security "seccompProfile") = true
  · simp only [htemplated, if_true]
    exact iff_of_true (returns_ok _) fun h => nomatch h
  · have hnot : templated (get security "seccompProfile") = false := by simpa using htemplated
    have hunconfined : Returns (unconfined (profileType (get security "seccompProfile"))) ↔
        (profileType (get security "seccompProfile")).lookable = true := by
      unfold unconfined
      split_ifs with h
      · exact iff_of_true (returns_ok _) h
      · exact iff_of_false (not_returns_error _) h
    simp only [hnot, Bool.false_eq_true, if_false, true_imp_iff]
    rw [returns_bind_iff_returnsA]
    simp only [returns_bind_pure_iff, returnsA_const_iff, returns_annotationText_iff, hunconfined]

theorem returns_droppedIssues_iff {security : Dict} {named place : Str} :
    Returns (droppedIssues L security named place) ↔
      ((get security "privileged").isTrue = false → CapabilitiesRead L security "drop") := by
  unfold droppedIssues
  refine returns_unless_iff.trans (imp_congr_right fun _ => ?_)
  rw [returns_bind_pure_iff, returns_capabilities_iff]

/-- **The containers that the rules can read.** -/
theorem returns_containerIssues_iff {pod : Dict} {annotations : Yaml} {p : Str × Dict} :
    Returns (containerIssues L pod annotations p) ↔ ContainerReads L pod annotations p.2 := by
  unfold containerIssues addedIssues apparmorIssues imageIssues limitIssues
  simp only [returns_bind_iff_returnsA, returnsA_const_iff, returns_mapM_iff, returns_pure_iff,
    returns_capabilities_iff, returns_seccompIssues_iff, returns_droppedIssues_iff,
    returns_portIssues_iff, returns_annotationText_iff, and_true]
  constructor
  · rintro ⟨named, hnamed, hadded, hseccomp, happarmor, hdropped, items, hitems, hports, himage,
      hresources⟩
    exact ⟨hadded, hdropped, hseccomp, ⟨named, hnamed, happarmor⟩, ⟨items, hitems, hports⟩, himage,
      hresources⟩
  · rintro ⟨hadded, hdropped, hseccomp, ⟨named, hnamed, happarmor⟩, ⟨items, hitems, hports⟩,
      himage, hresources⟩
    exact ⟨named, hnamed, hadded, hseccomp, happarmor, hdropped, items, hitems, hports, himage,
      hresources⟩

variable {doc : Document}

/-- **What the rules of workloads can read.** -/
theorem returns_workloadIssues_iff : Returns (workloadIssues L doc) ↔
    (doc.kind ∈ workloadKinds → ReturnsA (fun pod => ∀ d ∈ pod, d ≠ [] → WorkloadReads L doc.body d)
      (podSpec doc.body)) := by
  unfold workloadIssues
  by_cases hkind : doc.kind ∈ workloadKinds
  · rw [if_neg (not_not_intro hkind), returns_bind_iff_returnsA]
    simp only [hkind, true_imp_iff]
    refine exists_congr fun pod => and_congr_right fun _ => ?_
    rcases pod with _ | _ | ⟨e, es⟩
    · simp [returns_pure_iff]
    · simp [returns_pure_iff]
    · simp only [List.isEmpty_cons, Bool.false_eq_true, if_false, returns_bind_iff_returnsA,
        returnsA_const_iff, returns_mapM_iff, returns_volumeIssues_iff,
        returns_containerIssues_iff, returns_pure_iff, and_true, Option.mem_some_iff, forall_eq',
        ne_eq, reduceCtorEq, not_false_eq_true, true_imp_iff]
      constructor
      · rintro ⟨items, hitems, hvolumes, hcontainers⟩
        exact ⟨⟨items, hitems, hvolumes⟩, hcontainers⟩
      · rintro ⟨⟨items, hitems, hvolumes⟩, hcontainers⟩
        exact ⟨items, hitems, hvolumes, hcontainers⟩
  · rw [if_pos hkind]
    exact iff_of_true (returns_ok _) fun h => absurd h hkind

theorem returns_lowered_iff {v : Yaml} : Returns (lowered L v) ↔ Texts L v := by
  unfold lowered
  rw [returns_bind_pure_iff, returns_texts_iff]

theorem returns_roleRuleIssues_iff {v : Yaml} :
    Returns (roleRuleIssues L doc v) ↔ RoleRuleReads L v := by
  unfold RoleRuleReads
  cases v with
  | dict rule =>
    have hlast : ∀ (P : Prop) [Decidable P] (a b : List Issue),
        Returns (if P then pure a else pure b : Except Fault (List Issue)) ↔ True := by
      intro P _ a b
      split_ifs <;> exact returns_pure_iff
    simp only [roleRuleIssues, returns_bind_iff_returnsA, returnsA_const_iff, hlast,
      returns_lowered_iff, and_true, Yaml.dict.injEq, forall_eq']
  | _ => exact iff_of_true (returns_ok _) fun _ h => nomatch h

theorem returns_subjectIssues_iff {roleName : Str} {v : Yaml} :
    Returns (subjectIssues L roleName v) ↔ SubjectReads L v := by
  unfold SubjectReads
  cases v with
  | dict subject =>
    simp only [subjectIssues, returns_bind_iff_returnsA, returnsA_const_iff, returns_pure_iff,
      and_true, Yaml.dict.injEq, forall_eq']
  | _ => exact iff_of_true (returns_ok _) fun _ h => nomatch h

theorem returns_bindingIssues_iff :
    Returns (bindingIssues L doc) ↔ BindingReads L doc.body := by
  unfold bindingIssues
  simp only [returns_bind_iff_returnsA, returnsA_const_iff, returns_mapM_iff,
    returns_subjectIssues_iff, returns_pure_iff, and_true]
  constructor
  · rintro ⟨role, hrole, hname, hsubjects⟩
    exact ⟨⟨role, hrole, hname⟩, hsubjects⟩
  · rintro ⟨⟨role, hrole, hname⟩, hsubjects⟩
    exact ⟨role, hrole, hname, hsubjects⟩

/-- **What the rules of roles and bindings can read.** -/
theorem returns_rbacIssues_iff : Returns (rbacIssues L doc) ↔ (doc.kind ∈ roleKinds →
        ReturnsA (fun items => ∀ v ∈ items, RoleRuleReads L v) (get doc.body "rules").each) ∧
      (doc.kind ∈ bindingKinds → BindingReads L doc.body) := by
  have hapart : doc.kind ∈ roleKinds → doc.kind ∉ bindingKinds := by
    intro h
    rcases List.mem_pair.mp h with h | h <;> rw [h] <;> decide
  unfold rbacIssues
  split_ifs with hrole hbinding
  · unfold roleIssues
    simp only [returns_bind_iff_returnsA, returns_mapM_iff, returnsA_const_iff,
      returns_roleRuleIssues_iff, returns_pure_iff, and_true, hrole, hapart hrole, true_imp_iff,
      false_imp_iff]
  · rw [returns_bindingIssues_iff]
    exact ⟨fun h => ⟨fun hrole' => absurd hrole' hrole, fun _ => h⟩, fun h => h.2 hbinding⟩
  · exact iff_of_true (returns_ok _) ⟨fun h => absurd h hrole, fun h => absurd h hbinding⟩

theorem returns_entriesOf_iff {key : String}
    {f : Yaml × Yaml → Except Fault (List Issue)} : Returns (entriesOf doc key f) ↔
      ReturnsA (fun d => ∀ kv ∈ d, Returns (f kv)) (get doc.body key).mapping := by
  unfold entriesOf
  simp only [returns_bind_iff_returnsA, returns_mapM_iff, returnsA_const_iff, returns_pure_iff,
    and_true]

theorem returns_dataIssues_iff {kv : Yaml × Yaml} :
    Returns (dataIssues L kv) ↔ DataReads L kv := by
  unfold dataIssues DataReads
  rw [returns_bind_iff_returnsA]
  refine returnsA_congr fun value => ?_
  cases L.b64decode value with
  | none => exact iff_of_true (returns_ok _) fun _ h => nomatch h
  | some decoded =>
    simp only [Option.mem_some_iff, forall_eq']
    rw [returns_unless_iff, returns_bind_pure_iff]
    rfl

theorem returns_stringDataIssues_iff {kv : Yaml × Yaml} :
    Returns (stringDataIssues L kv) ↔ StringDataReads L kv := by
  unfold stringDataIssues StringDataReads
  rw [returns_bind_iff_returnsA]
  refine returnsA_congr fun value => ?_
  rw [returns_unless_iff, returns_bind_pure_iff]
  rfl

theorem returns_configIssues_iff {kv : Yaml × Yaml} :
    Returns (configIssues L kv) ↔ ConfigReads L kv := by
  unfold configIssues ConfigReads
  rw [returns_bind_iff_returnsA]
  refine returnsA_congr fun key => ?_
  rw [returns_unless_iff, returns_bind_pure_iff, Bool.not_eq_false']
  rfl

theorem returns_envIssues_iff {p : Str × Dict} {v : Yaml} :
    Returns (envIssues L p v) ↔ EnvReads L p.2 v := by
  unfold EnvReads
  cases v with
  | dict env =>
    rw [envIssues]
    simp only [Yaml.dict.injEq, forall_eq']
    refine returns_unless_iff.trans ?_
    rw [← Option.not_isSome, Bool.not_eq_false']
    refine imp_congr_right fun _ => ?_
    rw [returns_bind_iff_returnsA]
    refine returnsA_congr fun key => ?_
    rw [returns_bind_iff_returnsA]
    refine returnsA_congr fun value => ?_
    have hnot : (!secretKey.search key || isPlaceholder L value || value.isEmpty) =
        !isCredential L key value := by
      unfold isCredential
      rw [Bool.not_and, Bool.not_and, Bool.not_not, Bool.not_not]
    rw [hnot, returns_unless_iff, returns_bind_pure_iff, Bool.not_eq_false']
    rfl
  | _ => exact iff_of_true (returns_ok _) fun _ h => nomatch h

theorem returns_environmentIssues_iff {p : Str × Dict} : Returns (environmentIssues L p) ↔
    ReturnsA (fun items => ∀ v ∈ items, EnvReads L p.2 v) (get p.2 "env").each := by
  unfold environmentIssues
  simp only [returns_bind_iff_returnsA, returns_mapM_iff, returnsA_const_iff, returns_pure_iff,
    returns_envIssues_iff, and_true]

/-- **What the rules of credentials can read.** -/
theorem returns_secretIssues_iff : Returns (secretIssues L doc) ↔ (doc.kind = "Secret" →
        ReturnsA (fun d => ∀ kv ∈ d, DataReads L kv) (get doc.body "data").mapping ∧
          ReturnsA (fun d => ∀ kv ∈ d, StringDataReads L kv) (get doc.body "stringData").mapping) ∧
      (doc.kind = "ConfigMap" →
        ReturnsA (fun d => ∀ kv ∈ d, ConfigReads L kv) (get doc.body "data").mapping) ∧
      (doc.kind ∈ workloadKinds → ReturnsA (fun pod => ∀ d ∈ pod, d ≠ [] → EnvironmentReads L d)
        (podSpec doc.body)) := by
  have hsecret : doc.kind = "Secret" → doc.kind ∉ workloadKinds := by
    rintro h
    rw [h]
    decide
  have hconfig : doc.kind = "ConfigMap" → doc.kind ∉ workloadKinds := by
    rintro h
    rw [h]
    decide
  unfold secretIssues
  split_ifs with h h' h''
  · have hother : doc.kind ≠ "ConfigMap" := by
      rw [h]
      decide
    simp only [returns_bind_iff_returnsA, returnsA_const_iff, returns_entriesOf_iff,
      returns_dataIssues_iff, returns_stringDataIssues_iff, returns_pure_iff, and_true]
    exact ⟨fun hread => ⟨fun _ => hread, fun hk => absurd hk hother,
      fun hk => absurd hk (hsecret h)⟩, fun hread => hread.1 h⟩
  · rw [returns_entriesOf_iff]
    simp only [returns_configIssues_iff]
    exact ⟨fun hread => ⟨fun hk => absurd hk h, fun _ => hread,
      fun hk => absurd hk (hconfig h')⟩, fun hread => hread.2.1 h'⟩
  · have hbody : Returns (podSpec doc.body >>= fun pod =>
        match pod with
        | none => (pure [] : Except Fault (List Issue))
        | some pod =>
          if pod.isEmpty then pure []
          else do
            let found ← containers pod
            let issues ← found.mapM (environmentIssues L)
            pure issues.flatten) ↔
          ReturnsA (fun pod => ∀ d ∈ pod, d ≠ [] → EnvironmentReads L d) (podSpec doc.body) := by
      rw [returns_bind_iff_returnsA]
      refine exists_congr fun pod => and_congr_right fun _ => ?_
      rcases pod with _ | _ | ⟨e, es⟩
      · simp [returns_pure_iff]
      · simp [returns_pure_iff]
      · simp only [List.isEmpty_cons, Bool.false_eq_true, if_false, returns_bind_iff_returnsA,
          returnsA_const_iff, returns_mapM_iff, returns_environmentIssues_iff, returns_pure_iff,
          and_true, Option.mem_some_iff, forall_eq', ne_eq, reduceCtorEq, not_false_eq_true,
          true_imp_iff]
        rfl
    exact hbody.trans ⟨fun hread => ⟨fun hk => absurd hk h, fun hk => absurd hk h',
      fun _ => hread⟩, fun hread => hread.2.2 h''⟩
  · exact iff_of_true (returns_ok _) ⟨fun hk => absurd hk h, fun hk => absurd hk h',
      fun hk => absurd hk h''⟩

theorem returns_serviceIssues_iff : Returns (serviceIssues L doc) ↔
    ReturnsA (fun spec => Textual L ((get spec "type").orElse (.str "ClusterIP")))
      (get doc.body "spec").mapping := by
  unfold serviceIssues
  rw [returns_bind_iff_returnsA]
  refine returnsA_congr fun spec => ?_
  rw [returns_bind_pure_iff]
  rfl

theorem returns_directionIssues_iff {spec : Dict} {rule : Rule}
    {direction peers : String} : Returns (directionIssues doc spec rule direction peers) ↔
      Returns (get spec direction).each := by
  unfold directionIssues
  exact returns_bind_pure_iff

theorem returns_policyIssues_iff :
    Returns (policyIssues L doc) ↔ PolicyReads L doc.body := by
  unfold policyIssues PolicyReads
  rw [returns_bind_iff_returnsA]
  refine returnsA_congr fun spec => ?_
  rw [returns_bind_iff_returnsA]
  refine returnsA_congr fun types => ?_
  split_ifs with h
  · exact iff_of_true (returns_ok _) fun hnot => absurd h hnot
  · simp only [returns_bind_iff_returnsA, returnsA_const_iff, returns_directionIssues_iff,
      returns_pure_iff, and_true]
    exact ⟨fun hread _ => hread, fun hread => hread h⟩

/-- **What the rules of networks can read.** -/
theorem returns_networkIssues_iff : Returns (networkIssues L doc) ↔ (doc.kind = "Service" →
        ReturnsA (fun spec => Textual L ((get spec "type").orElse (.str "ClusterIP")))
          (get doc.body "spec").mapping) ∧
      (doc.kind = "Ingress" → Returns (get doc.body "spec").mapping) ∧
      (doc.kind = "NetworkPolicy" → PolicyReads L doc.body) := by
  unfold networkIssues
  split_ifs with h h' h''
  · rw [returns_serviceIssues_iff, h]
    simp
  · unfold ingressIssues
    rw [returns_bind_pure_iff, h']
    simp
  · rw [returns_policyIssues_iff, h'']
    simp
  · exact iff_of_true (returns_ok _) ⟨fun hk => absurd hk h, fun hk => absurd hk h',
      fun hk => absurd hk h''⟩

end Rules

/-- **The documents that `analyse` can read.** -/
theorem returns_analyse_iff (L : Library) (doc : Document) :
    Returns (analyse L doc) ↔ Readable L doc := by
  unfold analyse
  simp only [returns_bind_iff_returnsA, returnsA_const_iff, returns_pure_iff, and_true,
    returns_workloadIssues_iff, returns_rbacIssues_iff, returns_secretIssues_iff,
    returns_networkIssues_iff]
  constructor
  · rintro ⟨hworkload, ⟨hrole, hbinding⟩, ⟨hsecret, hconfig, henv⟩, hservice, hingress, hpolicy⟩
    refine ⟨fun hkind => ?_, hrole, hbinding, hsecret, hconfig, hservice, hingress, hpolicy⟩
    obtain ⟨pod, hpod, hread⟩ := hworkload hkind
    obtain ⟨pod', hpod', hread'⟩ := henv hkind
    cases hpod.symm.trans hpod'
    exact ⟨pod, hpod, fun d hd hne => ⟨hread d hd hne, hread' d hd hne⟩⟩
  · rintro ⟨hworkload, hrole, hbinding, hsecret, hconfig, hservice, hingress, hpolicy⟩
    refine ⟨fun hkind => ?_, ⟨hrole, hbinding⟩, ⟨hsecret, hconfig, fun hkind => ?_⟩, hservice,
      hingress, hpolicy⟩
    · obtain ⟨pod, hpod, hread⟩ := hworkload hkind
      exact ⟨pod, hpod, fun d hd hne => (hread d hd hne).1⟩
    · obtain ⟨pod, hpod, hread⟩ := hworkload hkind
      exact ⟨pod, hpod, fun d hd hne => (hread d hd hne).2⟩

/-- A pod with a volume whose host path is filled in by a template. -/
def templatedHostPath : Document where
  kind := "Pod"
  name := []
  «namespace» := []
  body := [(.str "kind", .str "Pod"), (.str "spec", .dict
    [(.str "volumes", .list [.dict [(.str "hostPath", .str placeholder)]])])]

/-- **A host path that is filled in by a template** has no `get`. -/
theorem templated_hostPath_raises :
    ¬ ∀ (L : Library) (doc : Document), Returns (analyse L doc) := by
  intro h
  obtain ⟨issues, hissues⟩ := h ⟨.ascii, fun _ => .ok [], id, fun _ => none⟩ templatedHostPath
  have hraises : workloadIssues ⟨.ascii, fun _ => .ok [], id, fun _ => none⟩ templatedHostPath =
      .error .attributeError := rfl
  unfold analyse at hissues
  rw [hraises] at hissues
  cases hissues

end Guardian.K8s

import Guardian.Findings.Scoring
import Guardian.Python.Object

/-!
# The results of an engine

What an engine returns crosses to the control plane as JSON: each raw finding as a dictionary, with
the health of the engine and the components that it has listed.
-/

namespace Guardian.ScanPlane

open Python Findings List

/-! ### Findings -/

/-- `EngineKey`. -/
inductive EngineKey
  | sast | secrets | sca | dast | api | cspm | container | k8s | iac | webTls | pcapMeta
  | dnsPosture | nmap | webChecks | mlModel | cicd | aiDiscovery | mobile | ios | hostPosture
  deriving DecidableEq

namespace EngineKey

/-- `EngineKey.value`. -/
def value : EngineKey → Str
  | sast => "sast"
  | secrets => "secrets"
  | sca => "sca"
  | dast => "dast"
  | api => "api"
  | cspm => "cspm"
  | container => "container"
  | k8s => "k8s"
  | iac => "iac"
  | webTls => "web_tls"
  | pcapMeta => "pcap_meta"
  | dnsPosture => "dns_posture"
  | nmap => "nmap"
  | webChecks => "web_checks"
  | mlModel => "ml_model"
  | cicd => "cicd"
  | aiDiscovery => "ai_discovery"
  | mobile => "mobile"
  | ios => "ios"
  | hostPosture => "host_posture"

/-- The keys. -/
def all : List EngineKey :=
  [sast, secrets, sca, dast, api, cspm, container, k8s, iac, webTls, pcapMeta, dnsPosture, nmap,
    webChecks, mlModel, cicd, aiDiscovery, mobile, ios, hostPosture]

/-- `EngineKey(value)`, if there is one with that value. -/
def ofValue (v : Str) : Option EngineKey := all.find? fun k => k.value = v

theorem ofValue_value (k : EngineKey) : ofValue k.value = some k := by cases k <;> rfl

end EngineKey

theorem ofValue_severity (s : Severity) : Severity.ofValue s.value = some s := by
  cases s <;> rfl

/-- `RawFinding`.  Python does not hold its fields to their types; those that are not converted on
the way may be any object. -/
structure RawFinding where
  engine : EngineKey
  title : Str
  category : Str
  description : Str
  baseSeverity : Severity
  confidence : Str
  cweId : Object
  owaspRef : Object
  cveIds : List Object
  cvssBase : Object
  epssScore : Object
  kev : Bool
  exploitMaturity : Object
  ransomware : Bool
  location : Object.Dict
  evidence : Object.Dict
  references : Object.Dict

/-- The fields of `to_dict`. -/
def RawFinding.fields (raw : RawFinding) : List (Str × Object) :=
  [("engine", .str raw.engine.value), ("title", .str raw.title),
    ("category", .str raw.category), ("description", .str raw.description),
    ("base_severity", .str raw.baseSeverity.value),
    ("confidence", .str raw.confidence), ("cwe_id", raw.cweId),
    ("owasp_ref", raw.owaspRef), ("cve_ids", .list raw.cveIds),
    ("cvss_base", raw.cvssBase), ("epss_score", raw.epssScore),
    ("kev", .bool raw.kev), ("exploit_maturity", raw.exploitMaturity),
    ("ransomware", .bool raw.ransomware), ("location", .dict raw.location),
    ("evidence", .dict raw.evidence), ("references", .dict raw.references)]

/-- **`RawFinding.to_dict`.** -/
def RawFinding.toDict (raw : RawFinding) : Object := .record raw.fields

/-- The exceptions that the decoding raises, by their names. -/
abbrev Raised := Str

/-- What `str`, `list` and `dict` make of objects that no result has in their place. -/
structure Conversions where
  str : Object → Str
  list : Object → Except Raised (List Object)
  dict : Object → Except Raised Object.Dict

variable (C : Conversions)

/-- `str(x)`. -/
def Conversions.toStr : Object → Str
  | .str s => s
  | x => C.str x

/-- `list(x)`, and `tuple(x)`. -/
def Conversions.toList : Object → Except Raised (List Object)
  | .list items => .ok items
  | .tuple items => .ok items
  | x => C.list x

/-- `dict(x)`. -/
def Conversions.toDict : Object → Except Raised Object.Dict
  | .dict entries => .ok entries
  | x => C.dict x

/-- `d[name]`. -/
def item (d : Object.Dict) (name : String) : Except Raised Object :=
  match Object.get d name with
  | some x => .ok x
  | none => .error "KeyError"

/-- `list(d.get(name, []) or [])`. -/
def listItem (d : Object.Dict) (name : String) : Except Raised (List Object) :=
  let x := (Object.get d name).getD (.list [])
  if x.truthy then C.toList x else .ok []

/-- `dict(d.get(name, ..) or ..)`. -/
def dictItem (d : Object.Dict) (name : String) : Except Raised Object.Dict :=
  let x := (Object.get d name).getD (.dict [])
  if x.truthy then C.toDict x else .ok []

/-- The member of an enumeration with a value. -/
def member {A : Type} (ofValue : Str → Option A) : Object → Except Raised A
  | .str s =>
    match ofValue s with
    | some a => .ok a
    | none => .error "ValueError"
  | _ => .error "ValueError"

/-- What a dictionary has to be. -/
def asDict (error : Raised) : Object → Except Raised Object.Dict
  | .dict d => .ok d
  | _ => .error error

/-- **`RawFinding.from_dict`.** -/
def RawFinding.fromDict (data : Object) : Except Raised RawFinding := do
  let d ← asDict "TypeError" data
  let text := fun name fallback => C.toStr ((Object.get d name).getD (.str fallback))
  let engine ← member EngineKey.ofValue (← item d "engine")
  let title ← item d "title"
  let category ← item d "category"
  let baseSeverity ← member Severity.ofValue
    ((Object.get d "base_severity").getD (.str Severity.medium.value))
  let cveIds ← listItem C d "cve_ids"
  let location ← dictItem C d "location"
  let evidence ← dictItem C d "evidence"
  let references ← dictItem C d "references"
  return {
    engine
    title := C.toStr title
    category := C.toStr category
    description := text "description" []
    baseSeverity
    confidence := text "confidence" "medium"
    cweId := (Object.get d "cwe_id").getD .null
    owaspRef := (Object.get d "owasp_ref").getD .null
    cveIds
    cvssBase := (Object.get d "cvss_base").getD .null
    epssScore := (Object.get d "epss_score").getD .null
    kev := ((Object.get d "kev").getD (.bool false)).truthy
    exploitMaturity := (Object.get d "exploit_maturity").getD .null
    ransomware := ((Object.get d "ransomware").getD (.bool false)).truthy
    location
    evidence
    references }

variable {C}

theorem listItem_of_get {d : Object.Dict} {name : String} {items : List Object}
    (h : Object.get d name = some (.list items)) : listItem C d name = .ok items := by
  unfold listItem
  rw [h]
  cases items with
  | nil => rfl
  | cons x xs => rfl

theorem dictItem_of_get {d : Object.Dict} {name : String} {entries : Object.Dict}
    (h : Object.get d name = some (.dict entries)) : dictItem C d name = .ok entries := by
  unfold dictItem
  rw [h]
  cases entries with
  | nil => rfl
  | cons e es => rfl

theorem nodup_fields (raw : RawFinding) : (raw.fields.map Prod.fst).Nodup := by
  simp -index only [RawFinding.fields, map_cons, map_nil, String.toList_ofList]
  decide

/-- **A raw finding** is decoded to what it was. -/
theorem fromDict_toDict (raw : RawFinding) : RawFinding.fromDict C raw.toDict = .ok raw := by
  obtain ⟨d, hdict, -, hget⟩ := Object.exists_dict_of_record (nodup_fields raw)
  have hengine : Object.get d "engine" = some (.str raw.engine.value) := hget 0 rfl
  have htitle : Object.get d "title" = some (.str raw.title) := hget 1 rfl
  have hcategory : Object.get d "category" = some (.str raw.category) := hget 2 rfl
  have hdescription : Object.get d "description" = some (.str raw.description) := hget 3 rfl
  have hbaseSeverity : Object.get d "base_severity" = some (.str raw.baseSeverity.value) :=
    hget 4 rfl
  have hconfidence : Object.get d "confidence" = some (.str raw.confidence) := hget 5 rfl
  have hcweId : Object.get d "cwe_id" = some raw.cweId := hget 6 rfl
  have howaspRef : Object.get d "owasp_ref" = some raw.owaspRef := hget 7 rfl
  have hcveIds : Object.get d "cve_ids" = some (.list raw.cveIds) := hget 8 rfl
  have hcvssBase : Object.get d "cvss_base" = some raw.cvssBase := hget 9 rfl
  have hepssScore : Object.get d "epss_score" = some raw.epssScore := hget 10 rfl
  have hkev : Object.get d "kev" = some (.bool raw.kev) := hget 11 rfl
  have hexploitMaturity : Object.get d "exploit_maturity" = some raw.exploitMaturity := hget 12 rfl
  have hransomware : Object.get d "ransomware" = some (.bool raw.ransomware) := hget 13 rfl
  have hlocation : Object.get d "location" = some (.dict raw.location) := hget 14 rfl
  have hevidence : Object.get d "evidence" = some (.dict raw.evidence) := hget 15 rfl
  have hreferences : Object.get d "references" = some (.dict raw.references) := hget 16 rfl
  simp only [RawFinding.fromDict, RawFinding.toDict, hdict, asDict, item, hengine,
    htitle, hcategory, hdescription, hbaseSeverity, hconfidence, hcweId, howaspRef, hcvssBase,
    hepssScore, hkev, hexploitMaturity, hransomware,
    listItem_of_get hcveIds, dictItem_of_get hlocation, dictItem_of_get hevidence,
    dictItem_of_get hreferences, member, EngineKey.ofValue_value, ofValue_severity,
    Option.getD_some, Conversions.toStr, Object.truthy, bind, Except.bind, pure, Except.pure]

theorem exists_toDict_of_carry {raw : RawFinding} {x : Object} (h : raw.toDict.carry = some x) :
    ∃ raw' : RawFinding, x = raw'.toDict := by
  rw [RawFinding.toDict, Object.carry_record (nodup_fields raw)] at h
  simp only [RawFinding.fields, Object.carryFields, Object.carry_str, Object.carry_bool,
    Object.carry_list, Object.carry_dict, Option.bind_some, Option.map_eq_some_iff,
    Option.bind_eq_some_iff, Option.some.injEq, exists_exists_and_eq_and, exists_eq_left'] at h
  obtain ⟨_, ⟨cweId, -, _, ⟨owaspRef, -, _, ⟨cveIds, -, _, ⟨cvssBase, -, _, ⟨epssScore, -, _,
    ⟨exploitMaturity, -, _, ⟨location, -, _, ⟨evidence, -, references, -, rfl⟩, rfl⟩, rfl⟩, rfl⟩,
    rfl⟩, rfl⟩, rfl⟩, rfl⟩, rfl⟩ := h
  exact ⟨{ raw with
    cweId, owaspRef, cveIds, cvssBase, epssScore, exploitMaturity
    location := Object.ofEntries location
    evidence := Object.ofEntries evidence
    references := Object.ofEntries references }, rfl⟩

/-! ### Outcomes -/

/-- `EngineHealth`. -/
structure EngineHealth where
  ok : Bool
  detail : Str
  degraded : Bool
  missing : List Object

/-- **`EngineOutcome`**: the findings, the health, and the rows of the inventory. -/
structure EngineOutcome where
  raws : List RawFinding
  health : EngineHealth
  inventory : List (List Object)

/-- The fields of the health. -/
def EngineHealth.fields (health : EngineHealth) : List (Str × Object) :=
  [("ok", .bool health.ok), ("detail", .str health.detail),
    ("degraded", .bool health.degraded), ("missing", .list health.missing)]

/-- The fields of the bundle that `execute_engine` seals. -/
def EngineOutcome.fields (o : EngineOutcome) : List (Str × Object) :=
  [("raws", .list (o.raws.map RawFinding.toDict)),
    ("health", .record o.health.fields), ("inventory", .list (o.inventory.map .list))]

def EngineOutcome.bundle (o : EngineOutcome) : Object := .record o.fields

variable (C) in
/-- The health that `run_engine_offloaded` rebuilds. -/
def EngineHealth.ofDict (x : Object) : Except Raised EngineHealth := do
  let d ← asDict "AttributeError" x
  let missing ← listItem C d "missing"
  return {
    ok := ((Object.get d "ok").getD (.bool true)).truthy
    detail := C.toStr ((Object.get d "detail").getD (.str []))
    degraded := ((Object.get d "degraded").getD (.bool false)).truthy
    missing }

variable (C) in
/-- **What `run_engine_offloaded` rebuilds from a bundle.** -/
def EngineOutcome.ofBundle (x : Object) : Except Raised EngineOutcome := do
  let d ← asDict "AttributeError" x
  let raws ← (← C.toList ((Object.get d "raws").getD (.list []))).mapM (RawFinding.fromDict C)
  let health ← EngineHealth.ofDict C ((Object.get d "health").getD (.dict []))
  let inventory ← (← C.toList ((Object.get d "inventory").getD (.list []))).mapM C.toList
  return ⟨raws, health, inventory⟩

theorem nodup_healthFields (health : EngineHealth) : (health.fields.map Prod.fst).Nodup := by
  simp -index only [EngineHealth.fields, map_cons, map_nil, String.toList_ofList]
  decide

theorem nodup_bundleFields (o : EngineOutcome) : (o.fields.map Prod.fst).Nodup := by
  simp -index only [EngineOutcome.fields, map_cons, map_nil, String.toList_ofList]
  decide

theorem ofDict_record (health : EngineHealth) :
    EngineHealth.ofDict C (.record health.fields) = .ok health := by
  obtain ⟨d, hdict, -, hget⟩ := Object.exists_dict_of_record (nodup_healthFields health)
  have hok : Object.get d "ok" = some (.bool health.ok) := hget 0 rfl
  have hdetail : Object.get d "detail" = some (.str health.detail) := hget 1 rfl
  have hdegraded : Object.get d "degraded" = some (.bool health.degraded) := hget 2 rfl
  have hmissing : Object.get d "missing" = some (.list health.missing) := hget 3 rfl
  simp only [EngineHealth.ofDict, hdict, asDict, hok, hdetail, hdegraded,
    listItem_of_get hmissing, Option.getD_some, Conversions.toStr, Object.truthy, bind,
    Except.bind, pure, Except.pure]

theorem mapM_map {A B : Type} {encode : A → B} {decode : B → Except Raised A}
    (h : ∀ a, decode (encode a) = .ok a) (as : List A) : (as.map encode).mapM decode = .ok as := by
  induction as with
  | nil => rfl
  | cons a as ih =>
    rw [map_cons, mapM_cons, h, ih]
    rfl

/-- **An outcome** is rebuilt from its bundle. -/
theorem ofBundle_bundle (o : EngineOutcome) : EngineOutcome.ofBundle C o.bundle = .ok o := by
  obtain ⟨d, hdict, -, hget⟩ := Object.exists_dict_of_record (nodup_bundleFields o)
  have hraws : Object.get d "raws" = some (.list (o.raws.map RawFinding.toDict)) := hget 0 rfl
  have hhealth : Object.get d "health" = some (.record o.health.fields) := hget 1 rfl
  have hinventory : Object.get d "inventory" = some (.list (o.inventory.map .list)) := hget 2 rfl
  have hrow : ∀ row : List Object, C.toList (.list row) = .ok row := fun _ => rfl
  simp only [EngineOutcome.ofBundle, EngineOutcome.bundle, hdict, asDict, hraws, hhealth,
    hinventory, Option.getD_some, Conversions.toList, mapM_map fromDict_toDict, mapM_map hrow,
    ofDict_record, bind, Except.bind, pure, Except.pure]

theorem exists_of_carryAll {A : Type} {encode : A → Object}
    (h : ∀ {a : A} {x : Object}, (encode a).carry = some x → ∃ a', x = encode a') {as : List A}
    {xs : List Object} (hxs : Object.carryAll (as.map encode) = some xs) :
    ∃ as' : List A, xs = as'.map encode ∧ as'.length = as.length := by
  induction as generalizing xs with
  | nil =>
    cases hxs
    exact ⟨[], rfl, rfl⟩
  | cons a as ih =>
    rw [map_cons, Object.carryAll_cons] at hxs
    obtain ⟨y, hy, hrest⟩ := Option.bind_eq_some_iff.mp hxs
    obtain ⟨ys, hys, rfl⟩ := Option.map_eq_some_iff.mp hrest
    obtain ⟨a', rfl⟩ := h hy
    obtain ⟨as', rfl, hlength⟩ := ih hys
    exact ⟨a' :: as', rfl, congrArg Nat.succ hlength⟩

theorem exists_list_of_carry {row : List Object} {x : Object}
    (h : (Object.list row).carry = some x) : ∃ row' : List Object, x = .list row' := by
  rw [Object.carry_list] at h
  obtain ⟨row', -, rfl⟩ := Option.map_eq_some_iff.mp h
  exact ⟨row', rfl⟩

theorem exists_fields_of_carry {health : EngineHealth} {x : Object}
    (h : (Object.record health.fields).carry = some x) :
    ∃ health' : EngineHealth, x = .record health'.fields := by
  rw [Object.carry_record (nodup_healthFields health)] at h
  simp only [EngineHealth.fields, Object.carryFields, Object.carry_str, Object.carry_bool,
    Object.carry_list, Option.bind_some, Option.map_eq_some_iff, Option.bind_eq_some_iff,
    Option.some.injEq, exists_exists_and_eq_and, exists_eq_left'] at h
  obtain ⟨missing, -, rfl⟩ := h
  exact ⟨{ health with missing }, rfl⟩

/-- **What comes out of JSON for a bundle** is a bundle of as many raw findings. -/
theorem exists_bundle_of_carry {o : EngineOutcome} {x : Object} (h : o.bundle.carry = some x) :
    ∃ o' : EngineOutcome, x = o'.bundle ∧ o'.raws.length = o.raws.length := by
  rw [EngineOutcome.bundle, Object.carry_record (nodup_bundleFields o)] at h
  simp only [EngineOutcome.fields, Object.carryFields, Object.carry_list, Option.map_eq_some_iff,
    Option.bind_eq_some_iff, Option.some.injEq, exists_exists_and_eq_and, exists_eq_left'] at h
  obtain ⟨_, ⟨raws, hraws, _, ⟨health, hhealth, rows, hrows, rfl⟩, rfl⟩, rfl⟩ := h
  obtain ⟨raws', rfl, hlength⟩ := exists_of_carryAll exists_toDict_of_carry hraws
  obtain ⟨health', rfl⟩ := exists_fields_of_carry hhealth
  obtain ⟨rows', rfl, -⟩ := exists_of_carryAll exists_list_of_carry hrows
  exact ⟨⟨raws', health', rows'⟩, rfl, hlength⟩

end Guardian.ScanPlane

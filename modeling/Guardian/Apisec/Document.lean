import Guardian.Python.Regex

/-!
# Reading an OpenAPI document

A document is what the JSON or the YAML parser returns.  `parse` reduces it to what can be tested,
or raises.
-/

namespace Guardian.Apisec

open Python

/-! ### Documents -/

/-- **A document**.  A scalar other than a text, `None`, `True` and `False` is given by its `str`
and by its truth. -/
inductive Doc
  | null
  | bool (b : Bool)
  | scalar (text : Str) (truthy : Bool)
  | str (s : Str)
  | list (items : List Doc)
  | dict (entries : List (Doc × Doc))

namespace Doc

abbrev Dict := List (Doc × Doc)

/-- The truth of a value. -/
def truthy : Doc → Bool
  | .null => false
  | .bool b => b
  | .scalar _ truthy => truthy
  | .str s => !s.isEmpty
  | .list items => !items.isEmpty
  | .dict entries => !entries.isEmpty

/-- `str(v)`; `repr` is that of the lists and of the dictionaries. -/
def text (repr : Doc → Str) : Doc → Str
  | .null => "None"
  | .bool b => if b then "True" else "False"
  | .scalar text _ => text
  | .str s => s
  | v => repr v

/-- The value is the text. -/
def isText (key : Str) : Doc → Bool
  | .str s => decide (s = key)
  | _ => false

/-- The value of a key, if there is one. -/
def find (d : Dict) (key : Str) : Option Doc := (d.find? fun kv => kv.1.isText key).map (·.2)

/-- `d.get(key)`. -/
def get (d : Dict) (key : String) : Doc := (find d key.toList).getD .null

/-- `a or b`. -/
def orElse (a b : Doc) : Doc := if a.truthy then a else b

/-- The entries of a dictionary; another value has no `get` and no `items`. -/
def entries? : Doc → Option Dict
  | .dict d => some d
  | _ => none

/-- What a `for` loop runs over. -/
def iter? : Doc → Option (List Doc)
  | .list items => some items
  | .dict d => some (d.map (·.1))
  | .str s => some (s.map fun c => .str [c])
  | _ => none

/-- `v[0]`. -/
def first? : Doc → Option Doc
  | .list items => items.head?
  | .str s => s.head?.map fun c => .str [c]
  | _ => none

end Doc

open Doc

/-! ### Operations -/

/-- `Parameter`. -/
structure Parameter where
  name : Str
  place : Str
  required : Bool
  sample : Str
  schemaType : Str

/-- `Operation`. -/
structure Operation where
  method : Str
  path : Str
  operationId : Str
  summary : Str
  tags : List Str
  parameters : List Parameter
  security : List Str
  securityDeclared : Bool
  responses : List Str

/-- `Spec`. -/
structure Spec where
  servers : List Str
  schemes : Doc.Dict
  operations : List Operation
  globalSecurity : List Str
  title : Str

/-- A word in a pattern without case. -/
def word (s : String) : Regex := .word Regex.ignoreCase s.toList

/-- A pattern that ends with a word. -/
def endsIn (s : String) : Regex := .seq (.star (.cls (· != '\n'))) (word s)

/-- `_ID_NAME`. -/
def idName : Regex :=
  .seq .bos (.seq (.alts [word "id", word "uuid", word "guid", endsIn "_id", endsIn "id",
    endsIn "_uuid", endsIn "key", endsIn "_ref", word "ref", word "slug", word "number", word "no",
    word "code", word "account", word "user", word "customer", word "tenant", word "org",
    word "organisation", word "organization", word "invoice", word "order", word "document",
    word "file", word "record", word "resource", word "entity"]) .eol)

/-- `_NOT_AN_ID`. -/
def notAnId : List Str :=
  ["page", "per_page", "perpage", "limit", "offset",
    "cursor", "size", "count", "sort", "order_by",
    "orderby", "q", "query", "search", "filter",
    "fields", "expand", "include", "format", "version",
    "api_version", "locale", "lang", "timezone",
    "code_challenge"]

/-- `_PRIVILEGED`. -/
def privilegedWord : Regex :=
  .seq (.alt .bos (.cls (· ∈ ['/', '_', '-', '.'])))
    (.seq (.alts [word "admin", word "administration", word "internal", word "management",
      word "manage", word "superuser", word "root", word "system", word "ops", word "operator",
      word "audit", word "impersonate", word "debug"])
      (.alt .eol (.cls (· ∈ ['/', '_', '-', '.']))))

variable (R : Runtime)

/-- `is_object_id`. -/
def Parameter.isObjectId (parameter : Parameter) : Bool :=
  let lowered := lower R parameter.name
  decide (lowered ∉ notAnId) &&
    decide (parameter.place = "path" ∨ parameter.place = "query") &&
    (idName.rematch lowered).isSome

/-- `object_ids`. -/
def Operation.objectIds (operation : Operation) : List Parameter :=
  operation.parameters.filter (Parameter.isObjectId R)

/-- `privileged`. -/
def Operation.privileged (operation : Operation) : Bool :=
  privilegedWord.search ([' '].intercalate
    (operation.path :: operation.operationId :: operation.summary :: operation.tags))

/-! ### The parser -/

section Parse

variable (repr : Doc → Str)

/-- `_security_names`. -/
def securityNames : Doc → List Str
  | .list entries => entries.flatMap fun entry =>
    match entry with
    | .dict d => d.map fun kv => text repr kv.1
    | _ => []
  | _ => []

/-- The steps of `_resolve`. -/
def resolveFrom : List Str → Doc → Option Doc
  | [], node => some node
  | part :: parts, node =>
    match node with
    | .dict d => resolveFrom parts ((find d part).getD .null)
    | _ => none

/-- `_resolve`; an answer that is no dictionary is none. -/
def resolve (ref : Str) (components : Doc) : Option Dict :=
  if "#/" <+: ref then
    (resolveFrom ((ref.drop 2).splitOn '/')
      (.dict [(.str "components", components)])).bind entries?
  else none

/-- A parameter that is given by its dictionary. -/
def parameterOf (item : Dict) : Parameter :=
  let schema := (get item "schema").orElse (.dict [])
  let inSchema (key : String) : Doc := (schema.entries?.map (get · key)).getD .null
  let sample := match get item "example" with
    | .null => inSchema "example"
    | value => value
  { name := text repr ((get item "name").orElse (.str []))
    place := text repr ((get item "in").orElse (.str []))
    required := (get item "required").truthy
    sample := match sample with
      | .null => []
      | value => text repr value
    schemaType := text repr ((inSchema "type").orElse (.str [])) }

/-- `_parameters`. -/
def parametersOf (raw components : Doc) : Option (List Parameter) := do
  let items ← (raw.orElse (.list [])).iter?
  let parameters := items.filterMap fun item => do
    let d ← item.entries?
    match find d "$ref" with
    | none => return parameterOf repr d
    | some ref =>
      let target ← resolve (text repr ref) components
      if target = [] then none else return parameterOf repr target
  return parameters.filter fun parameter => !parameter.name.isEmpty

/-- `ALL_METHODS`. -/
def allMethods : List Str :=
  ["get", "put", "post", "delete", "options", "head",
    "patch", "trace"]

/-- The texts of what a loop over the value, or over nothing, runs over. -/
def textsOf (v : Doc) : Option (List Str) := (v.orElse (.list [])).iter?.map (·.map (text repr))

/-- One method of a path: none when it is no operation. -/
def operationOf (path : Doc) (shared : List Parameter) (components : Doc)
    (globalSecurity : List Str) : Doc × Doc → Option (Option Operation)
  | (.str method, .dict d) => do
    if lower R method ∉ allMethods then return none
    else
      let tags ← textsOf repr (get d "tags")
      let own ← parametersOf repr (get d "parameters") components
      let responses ← textsOf repr (get d "responses")
      return some
        { method := lower R method
          path := text repr path
          operationId := text repr ((get d "operationId").orElse (.str []))
          summary := text repr ((get d "summary").orElse (.str []))
          tags := tags
          parameters := shared ++ own
          security := match find d "security" with
            | none => globalSecurity
            | some security => securityNames repr security
          securityDeclared := (find d "security").isSome || !globalSecurity.isEmpty
          responses := responses }
  | (.str _, _) => some none
  | _ => none

/-- The operations of a path. -/
def operationsOf (components : Doc) (globalSecurity : List Str) :
    Doc × Doc → Option (List Operation)
  | (path, .dict item) => do
    let shared ← parametersOf repr (get item "parameters") components
    let operations ← item.mapM (operationOf R repr path shared components globalSecurity)
    return operations.reduceOption
  | _ => some []

/-- The servers of a document. -/
def serversOf (d : Dict) : Option (List Str) := do
  let items ← ((get d "servers").orElse (.list [])).iter?
  let servers := items.filterMap fun item => do
    let url := get (← item.entries?) "url"
    if url.truthy then some (text repr url) else none
  if servers = [] ∧ (get d "host").truthy then
    let scheme ← ((get d "schemes").orElse (.list [.str "https"])).first?
    let basePath := (find d "basePath").getD (.str [])
    return [text repr scheme ++ "://" ++ text repr (get d "host") ++ text repr basePath]
  else return servers

/-- **`parse`**: none when it raises. -/
def parse : Doc → Option Spec
  | .dict d => do
    let components := (get d "components").orElse (.dict [])
    let named ← components.entries?
    let schemes := (get named "securitySchemes").orElse
      ((get d "securityDefinitions").orElse (.dict []))
    let servers ← serversOf repr d
    let globalSecurity := securityNames repr (get d "security")
    let paths ← ((get d "paths").orElse (.dict [])).entries?
    let operations ← paths.mapM (operationsOf R repr components globalSecurity)
    let info ← ((get d "info").orElse (.dict [])).entries?
    return ⟨servers, schemes.entries?.getD [], operations.flatten, globalSecurity,
      text repr ((get info "title").orElse (.str []))⟩
  | _ => some ⟨[], [], [], [], []⟩

end Parse

end Guardian.Apisec

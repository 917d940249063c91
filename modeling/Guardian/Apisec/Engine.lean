import Guardian.Apisec.Document
import Guardian.Dast.Budget
import Guardian.Dast.Crawl

/-!
# The API engine

An active run sends requests in two phases: the probes of the surface, then the checks of the
operations for the principals that are configured.  What is reported about the responses is not part
of the model.
-/

namespace Guardian.Apisec

open Python Transition Dast

/-! ### The URL of an operation -/

/-- The texts with which an operation is filled in. -/
abbrev Values := List (Str × Str)

/-- `values[name] = value`. -/
def Values.set (values : Values) (name value : Str) : Values :=
  if values.any (·.1 == name) then values.map fun kv => if kv.1 = name then (name, value) else kv
  else values ++ [(name, value)]

/-- The texts to replace that are found from here on, the first `skip` characters aside. -/
def replaceFrom (old new : Str) : ℕ → Str → Str
  | _, [] => []
  | skip + 1, _ :: s => replaceFrom old new skip s
  | 0, c :: s =>
    if old <+: c :: s then new ++ replaceFrom old new (old.length - 1) s
    else c :: replaceFrom old new 0 s

/-- `s.replace(old, new)` for a text that is not empty. -/
def replace (old new s : Str) : Str := replaceFrom old new 0 s

/-- `s.strip(c)` for one character. -/
def stripChar (c : Char) (s : Str) : Str := rstripChar c (s.dropWhile (· == c))

/-- The functions that are taken as they are: `str` of lists and of dictionaries, `quote` without
safe characters, and the pattern `_DENIAL`. -/
structure ApiLibrary where
  repr : Doc → Str
  quote : Str → Str
  denial : Str → Bool

/-- The parameters that a URL has in its query. -/
def queryOf (operation : Operation) (values : Values) : Values :=
  operation.parameters.foldl (fun query parameter =>
    match values.lookup parameter.name with
    | some value =>
      if parameter.place = "query".toList then query.set parameter.name value else query
    | none => query) []

/-- The path of an operation with its templates filled in: none when one is left. -/
def pathOf (P : ApiLibrary) (operation : Operation) (values : Values) : Option Str := do
  let path ← operation.parameters.foldlM (fun path parameter =>
    if parameter.place ≠ "path".toList then some path
    else do
      let value ← values.lookup parameter.name
      return replace ('\x7b' :: parameter.name ++ ['\x7d']) (P.quote value) path) operation.path
  if '\x7b' ∈ path then none else return path

/-- **`build_url`**: none for the empty text. -/
def buildUrl (L : UrlLibrary) (P : ApiLibrary) (server : Str) (operation : Operation)
    (values : Values) : Option Str := do
  let path ← pathOf P operation values
  let url := rstripChar '/' server ++ '/' :: path.dropWhile (· == '/')
  let query := queryOf operation values
  return if query = [] then url else url ++ '?' :: urlencode L query

/-! ### The engine and its state -/

/-- What a request is sent for. -/
inductive Phase
  | probe
  | check
  deriving DecidableEq

/-- The settings of an active run. -/
structure Settings where
  probeRequests : ℤ
  maxRequests : ℤ
  rate : ℚ
  deadline : ℚ

/-- `Principal`. -/
structure Principal where
  name : Str
  headers : Headers
  objectIds : Values
  privileged : Bool

/-- What an engine is given besides the asset. -/
structure ApiEngine where
  runtime : Runtime
  urls : UrlLibrary
  library : ApiLibrary
  settings : Settings
  world : World Phase

/-- The fields of `_Budget` that change. -/
structure ProbeBudget where
  made : ℕ
  start : ℚ

/-- `ApiScanResult`, the issues aside. -/
structure ApiScanResult where
  requestsMade : ℕ
  operationsTested : ℕ
  bolaPairsTested : ℕ
  errors : List Str
  untested : List Str
  budgetExhausted : Bool
  deadlineReached : Bool

/-- What a run changes. -/
structure ApiState where
  wire : Wire Phase
  probes : ProbeBudget
  budget : Budget
  result : ApiScanResult

def ApiState.init (now : ℚ) : ApiState :=
  ⟨⟨now, 0, []⟩, ⟨0, 0⟩, .new, ⟨0, 0, 0, [], [], false, false⟩⟩

abbrev Run (A : Type) : Type := Effect Stop ApiState A

namespace ApiEngine

variable (engine : ApiEngine)

/-- The clock is read. -/
def readClock : Run ℚ := fun s =>
  let wire := engine.world.read s.wire
  (.ok wire.clock, { s with wire := wire })

/-- A call of `fetch`. -/
def fetch (url : Str) (headers : Headers) (phase : Phase) : Run Outcome := fun s =>
  let (outcome, wire) := engine.world.fetch url headers phase s.wire
  (.ok outcome, { s with wire := wire })

/-- The URL of an operation at a server. -/
def urlOf (server : Str) (operation : Operation) (values : Values) : Option Str :=
  buildUrl engine.urls engine.library server operation values

/-! ### The probes of the surface -/

/-- The paths of `_WORDLIST`. -/
def wordlist : List Str :=
  ["openapi.json", "swagger.json", "v2/api-docs", "api-docs",
    "swagger-ui.html", "swagger-ui/", "redoc",
    ".well-known/openapi.json", "actuator", "actuator/health",
    "actuator/env", "actuator/mappings", "actuator/heapdump",
    "metrics", "health", "healthz", "status", "debug",
    "admin", "internal", "console", "graphql", "graphiql"]

/-- `_Budget.spend`: no time passes in it but the sleep. -/
def spend : Run Bool := do
  let made ← .read (·.probes.made)
  if engine.settings.probeRequests ≤ made then return false
  else
    let now ← engine.readClock
    let start ← .read (·.probes.start)
    if engine.settings.deadline < now - start then return false
    else
      .update fun s =>
        let pause := if made ≠ 0 ∧ 0 < engine.settings.rate then 1 / engine.settings.rate else 0
        { s with wire.clock := s.wire.clock + pause, probes.made := made + 1 }
      return true

/-- A request of the probes; they do not catch what `fetch` raises. -/
def probe (url : Str) (headers : Headers) : Run Unit := do
  match ← engine.fetch url headers .probe with
  | .raised _ => .ofExcept (.error .requestFailed)
  | _ => return ()

/-- The loop of `_undocumented`. -/
def probeWordlist (root : Str) (documented : List Str) : List Str → Run Unit
  | [] => return ()
  | path :: paths => do
    if lower engine.runtime (stripChar '/' path) ∈ documented then
      probeWordlist root documented paths
    else if (← engine.spend) = false then return ()
    else
      engine.probe (root ++ '/' :: path) []
      probeWordlist root documented paths

/-- `_undocumented`. -/
def undocumented (baseUrl : Str) (spec : Spec) : Run Unit :=
  engine.probeWordlist (rstripChar '/' baseUrl)
    (spec.operations.map fun operation => lower engine.runtime (stripChar '/' operation.path))
    wordlist

def exampleValues (operation : Operation) : Values :=
  operation.parameters.foldl (fun values parameter =>
    if parameter.place = "path".toList ∧ parameter.sample ≠ [] then
      values.set parameter.name parameter.sample
    else values) []

/-- The loop of `_unenforced_auth`. -/
def probeAuth (baseUrl : Str) : ℕ → List Operation → Run Unit
  | _, [] => return ()
  | probed, operation :: operations => do
    if operation.method ≠ "get" ∨ operation.security = [] then
      probeAuth baseUrl probed operations
    else if 15 ≤ probed then return ()
    else
      match engine.urlOf baseUrl operation (exampleValues operation) with
      | none => probeAuth baseUrl probed operations
      | some url =>
        if (← engine.spend) = false then return ()
        else
          engine.probe url []
          probeAuth baseUrl (probed + 1) operations

/-- `_MAX_CORS_PROBES`. -/
def maxCorsProbes : ℕ := 25

/-- `CORS_PROBE_ORIGIN`. -/
def corsProbeOrigin : Str := "https://guardian-apisec-cors-probe.invalid"

/-- The loop of `_cors_and_hygiene`. -/
def probeCors (baseUrl : Str) : List Str → ℕ → List Operation → Run Unit
  | _, _, [] => return ()
  | seen, probed, operation :: operations => do
    if operation.method ≠ "get" then probeCors baseUrl seen probed operations
    else if maxCorsProbes ≤ probed then return ()
    else
      match engine.urlOf baseUrl operation (exampleValues operation) with
      | none => probeCors baseUrl seen probed operations
      | some url =>
        if url ∈ seen then probeCors baseUrl seen probed operations
        else if (← engine.spend) = false then return ()
        else
          engine.probe url [("origin", corsProbeOrigin)]
          probeCors baseUrl (url :: seen) (probed + 1) operations

/-- The base is a URL with one of the two schemes, as `startswith` sees it. -/
def FullUrl (base : Str) : Prop := "http://" <+: base ∨ "https://" <+: base

instance (base : Str) : Decidable (FullUrl base) := inferInstanceAs (Decidable (_ ∨ _))

/-- **`probe_surface`.** -/
def probeSurface (baseUrl : Str) (spec : Spec) : Run Unit := do
  if ¬ FullUrl baseUrl then return ()
  else
    let now ← engine.readClock
    .update fun s => { s with probes := ⟨0, now⟩ }
    engine.undocumented baseUrl spec
    engine.probeAuth baseUrl 0 spec.operations
    engine.probeCors baseUrl [] 0 spec.operations

/-! ### The checks of the operations -/

/-- The scanner of one run: where it sends requests, and its budget. -/
structure Checker where
  base : Str
  host : Str
  limits : BudgetLimits

/-- `self.result.errors.append`. -/
def addError (error : Str) : Run Unit :=
  .update fun s => { s with result.errors := s.result.errors ++ [error] }

/-- The result is told what the budget has come to. -/
def reportBudget : Run Unit :=
  .update fun s =>
    { s with
      result.budgetExhausted := s.budget.exhausted
      result.deadlineReached := s.budget.expired }

/-- The scope test of `_request`. -/
def inScope (checker : Checker) (url : Str) : Except Fault Bool := do
  let parsed ← urlparse engine.runtime url
  let host := lower engine.runtime ((parsed.hostname engine.runtime).getD [])
  return decide (parsed.scheme = "http" ∨ parsed.scheme = "https") &&
    decide (checker.host ≠ []) && decide (Order.Within '.' checker.host host)

/-- `self._budget.take`. -/
def take (checker : Checker) : Run Bool := do
  let now ← engine.readClock
  let (granted, clock, budget) ← .read fun s => checker.limits.take s.budget now
  .update fun s => { s with wire.clock := clock, budget := budget }
  return granted

/-- **`_request`.** -/
def request (checker : Checker) (url : Str) (headers : Headers) : Run (Option Response) := do
  let inScope ← lift (engine.inScope checker url)
  if inScope = false then
    addError ("refused out-of-scope request: " ++ url.take 200)
    return none
  else if (← engine.take checker) = false then
    reportBudget
    return none
  else
    match ← engine.fetch url headers .check with
    | .raised error =>
      addError (url.take 120 ++ ": " ++ error)
      return none
    | .noResponse =>
      addError (url.take 120 ++ ": no response")
      return none
    | .response r =>
      if r.error ≠ [] then
        addError (url.take 120 ++ ": " ++ r.error)
        return none
      else
        .update fun s => { s with result.requestsMade := s.result.requestsMade + 1 }
        return some r

/-- `_values`. -/
def valuesFor (operation : Operation) (principal : Principal) : Values :=
  operation.parameters.foldl (fun values parameter =>
    if parameter.place ≠ "path".toList ∧ parameter.place ≠ "query".toList then values
    else
      match principal.objectIds.lookup parameter.name with
      | some supplied => values.set parameter.name supplied
      | none =>
        if parameter.sample ≠ [] then values.set parameter.name parameter.sample else values) []

/-- `NONEXISTENT_ID`. -/
def nonexistentId : Str := "guardian-no-such-object-6f1c"

/-- `looks_like_denial`. -/
def looksLikeDenial (status : ℤ) (body : Str) : Bool :=
  decide (status ∈ [401, 403, 404, 302, 303, 307, 308]) || decide (400 ≤ status) ||
    engine.library.denial (body.take 2000)

/-- `_check_unauthenticated`. -/
def checkUnauthenticated (checker : Checker) (operation : Operation) (url : Str) : Run Unit :=
  if operation.security = [] ∧ operation.securityDeclared = false then return ()
  else do
    let _ ← engine.request checker url []

/-- The loop of `_check_bola` over the parameters that name an object. -/
def checkObjects (checker : Checker) (operation : Operation) (attacker owner : Principal) :
    List Parameter → Run Unit
  | [] => return ()
  | parameter :: parameters => do
    match owner.objectIds.lookup parameter.name with
    | none => checkObjects checker operation attacker owner parameters
    | some owned =>
      let values := (valuesFor operation attacker).set parameter.name owned
      match engine.urlOf checker.base operation values with
      | none => checkObjects checker operation attacker owner parameters
      | some url =>
        .update fun s => { s with result.bolaPairsTested := s.result.bolaPairsTested + 1 }
        match ← engine.request checker url attacker.headers with
        | none => checkObjects checker operation attacker owner parameters
        | some r =>
          if engine.looksLikeDenial r.status r.body = true then
            checkObjects checker operation attacker owner parameters
          else
            let _ ← engine.request checker url owner.headers
            let control := values.set parameter.name nonexistentId
            match engine.urlOf checker.base operation control with
            | none => checkObjects checker operation attacker owner parameters
            | some controlUrl =>
              let _ ← engine.request checker controlUrl attacker.headers
              checkObjects checker operation attacker owner parameters

/-- `_check_bola`. -/
def checkBola (checker : Checker) (principals : List Principal) (operation : Operation) :
    Run Unit :=
  match principals with
  | attacker :: owner :: _ =>
    engine.checkObjects checker operation attacker owner (operation.objectIds engine.runtime)
  | _ => return ()

/-- `_check_bfla`. -/
def checkBfla (checker : Checker) (principals : List Principal) (operation : Operation) :
    Run Unit :=
  if operation.privileged = false then return ()
  else
    match principals.find? (!·.privileged) with
    | none => return ()
    | some unprivileged =>
      match engine.urlOf checker.base operation (valuesFor operation unprivileged) with
      | none => return ()
      | some url => do
        match ← engine.request checker url unprivileged.headers with
        | none => return ()
        | some _ =>
          match principals.find? (·.privileged) with
          | none => return ()
          | some privileged =>
            let _ ← engine.request checker url privileged.headers

/-- `_test_operation`. -/
def testOperation (checker : Checker) (principals : List Principal) (operation : Operation) :
    Run Unit :=
  let primary := principals.head?.getD ⟨"anonymous", [], [], false⟩
  match engine.urlOf checker.base operation (valuesFor operation primary) with
  | none => return ()
  | some url => do
    .update fun s => { s with result.operationsTested := s.result.operationsTested + 1 }
    match ← engine.request checker url primary.headers with
    | none => return ()
    | some _ =>
      engine.checkUnauthenticated checker operation url
      engine.checkBola checker principals operation
      engine.checkBfla checker principals operation

/-- The loop over the operations that can be tested. -/
def testOperations (checker : Checker) (principals : List Principal) :
    List Operation → Run Unit
  | [] => return ()
  | operation :: operations => do
    engine.testOperation checker principals operation
    let stop ← .read fun s => s.budget.exhausted || s.budget.expired
    if stop = true then reportBudget
    else testOperations checker principals operations

/-- `self.result.untested.append`. -/
def addUntested (reason : Str) : Run Unit :=
  .update fun s => { s with result.untested := s.result.untested ++ [reason] }

/-- **`ApiScanner.scan`.** -/
def scan (checker : Checker) (principals : List Principal) (spec : Spec) : Run Unit := do
  if checker.base = [] then
    addError "the specification declares no server URL and none was given"
  else
    if principals.length < 2 then
      addUntested ("object-level authorization was not tested: it needs two principals " ++
        "and the identifiers each of them owns, and fewer than two were supplied")
    let testable := spec.operations.filter fun operation =>
      operation.method = "get".toList ∨ operation.method = "head".toList
    engine.testOperations checker principals testable
    let skipped := spec.operations.length - testable.length
    if skipped ≠ 0 then
      addUntested ((toString skipped).toList ++
        " operation(s) use a state-changing method and were not requested")

/-- `ApiScanner(...)`. -/
def newChecker (baseUrl : Str) (spec : Spec) : Run Checker := do
  let base := rstripChar '/' (if baseUrl = [] then spec.servers.head?.getD [] else baseUrl)
  let parsed ← lift (urlparse engine.runtime base)
  let host := lower engine.runtime ((parsed.hostname engine.runtime).getD [])
  let now ← engine.readClock
  return ⟨base, host, ⟨engine.settings.maxRequests, engine.settings.rate, engine.settings.deadline,
    now⟩⟩

/-! ### The run -/

/-- `base`: the identifier, or the first server of the document. -/
def baseOf (identifier : Str) (spec : Spec) : Str :=
  if FullUrl identifier then identifier else spec.servers.head?.getD []

/-- **`_active`.** -/
def active (identifier : Str) (principals : List Principal) (spec : Spec) : Run Unit := do
  let base := baseOf identifier spec
  if base = [] then return ()
  else
    engine.probeSurface base spec
    if principals = [] then return ()
    else
      let checker ← engine.newChecker base spec
      engine.scan checker principals spec

/-- **`run`**, without the review of the contract: a document that is empty or that `parse` raises
on sends nothing. -/
def run (identifier : Str) (document : Doc) (principals : List Principal) (now : ℚ) : ApiState :=
  match document with
  | .dict (_ :: _) =>
    match parse engine.runtime engine.library.repr document with
    | none => .init now
    | some spec => (engine.active identifier principals spec (.init now)).2
  | _ => .init now

end ApiEngine

end Guardian.Apisec

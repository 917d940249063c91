import Guardian.Dast.Budget
import Guardian.Dast.Crawl

/-!
# The active scanner

One scan of one application: the budget, the one place that sends a request, the checks, and the
order in which they run.  The application and the time that passes are those of a `World`.
-/

namespace Guardian.Dast

open Python Transition Authorization

/-- Why a request is sent: for a page at some depth of the crawl, for a check of a target, or for a
probe of the site. -/
inductive Reason
  | crawl (depth : ℕ)
  | check (fromContent : Bool)
  | site
  deriving DecidableEq

/-- The parameters of a scan. -/
structure Scanner where
  runtime : Runtime
  urls : UrlLibrary
  pages : PageLibrary
  verdicts : Verdicts
  describe : Stop → Str
  marker : Str
  authorizedHosts : List Str
  limits : BudgetLimits
  world : World Reason

/-! ### The state -/

/-- `Issue`. -/
structure Issue where
  checkId : Str
  url : Str
  parameter : Str
  payload : Str
  indicator : Str
  excerpt : Str
  confidence : Str
  status : ℤ

/-- `ScanResult`. -/
structure ScanResult where
  issues : List Issue
  requestsMade : ℕ
  targetsTested : ℕ
  parametersTested : ℕ
  crawl : Option CrawlResult
  budgetExhausted : Bool
  deadlineReached : Bool
  errors : List Str

/-- The wire to the application, and the budget. -/
structure Traffic where
  wire : Wire Reason
  budget : Budget

/-- What a scan changes. -/
structure State where
  traffic : Traffic
  result : ScanResult
  corsSeen : List Str
  csrfSeen : List Str
  cookiesSeen : List Str
  xssSubmittedViaForm : Bool

abbrev Scan (A : Type) : Type := Effect Stop State A

/-- `MAX_PARAMS_PER_TARGET`. -/
def maxParamsPerTarget : ℕ := 12

namespace Scanner

variable (scanner : Scanner)

/-- `self._hosts`. -/
def hosts : List Str := scanner.authorizedHosts.map (hostKey scanner.runtime)

/-- The state of a new scanner. -/
def init : State :=
  { traffic := ⟨⟨scanner.limits.start, 0, []⟩, .new⟩
    result := ⟨[], 0, 0, 0, none, false, false, []⟩
    corsSeen := []
    csrfSeen := []
    cookiesSeen := []
    xssSubmittedViaForm := false }

/-! ### Requests -/

/-- `self._budget.take`, at the time the clock shows. -/
def take (t : Traffic) : Bool × Traffic :=
  let wire := scanner.world.read t.wire
  let (granted, clock, budget) := scanner.limits.take t.budget wire.clock
  (granted, ⟨{ wire with clock := clock }, budget⟩)

/-- The call of `fetch` if the budget grants it. -/
def send (url : Str) (headers : Headers) (reason : Reason) : Scan (Option Outcome) := fun s =>
  match scanner.take s.traffic with
  | (false, t) => (.ok none, { s with traffic := t })
  | (true, t) =>
    let (outcome, wire) := scanner.world.fetch url headers reason t.wire
    (.ok (some outcome), { s with traffic := { t with wire := wire } })

/-- `self.result.errors.append`. -/
def addError (error : Str) : Scan Unit :=
  .update fun s => { s with result.errors := s.result.errors ++ [error] }

/-- The result is told what the budget has come to. -/
def reportBudget : Scan Unit :=
  .update fun s =>
    { s with
      result.budgetExhausted := s.traffic.budget.exhausted
      result.deadlineReached := s.traffic.budget.expired }

/-- What is kept of a response. -/
def countResponse (r : Response) : Scan Unit :=
  .update fun s =>
    let cookie := r.headers.get "set-cookie"
    { s with
      result.requestsMade := s.result.requestsMade + 1
      cookiesSeen := if cookie = [] then s.cookiesSeen else s.cookiesSeen ++ [cookie] }

/-- **`_request`.** -/
def request (url : Str) (headers : Headers) (reason : Reason) : Scan (Option Response) := do
  let inScope ← lift (sameScope scanner.runtime scanner.hosts url)
  if inScope = false then
    addError ("refused out-of-scope request: " ++ url.take 200)
    return none
  else
    match ← scanner.send url headers reason with
    | none =>
      reportBudget
      return none
    | some (.raised error) =>
      addError (url.take 120 ++ ": " ++ error)
      return none
    | some .noResponse =>
      addError (url.take 120 ++ ": no response")
      return none
    | some (.response r) =>
      if r.error ≠ [] then
        addError (url.take 120 ++ ": " ++ r.error)
        return none
      else
        countResponse r
        return some r

/-- `crawl_fetch`. -/
def crawlFetch (url : Str) (depth : ℕ) : Scan Page := do
  match ← scanner.request url [] (.crawl depth) with
  | none => .ofExcept (.error .requestFailed)
  | some r => return ⟨r.headers.get "content-type", r.body⟩

/-- `_stopped`. -/
def stopped : Scan Bool := do
  let stop ← .read fun s => s.traffic.budget.exhausted || s.traffic.budget.expired
  if stop = true then
    reportBudget
    return true
  else return false

/-- `_url_for`. -/
def urlFor (target : Target) (param : Param) (value : Str) : Except Fault Str :=
  match param.place with
  | .form => formUrl scanner.runtime scanner.urls target.url target.params param.name value
  | .query => withParam scanner.runtime scanner.urls target.url param.name value

/-- The request that submits a value in a parameter. -/
def submit (target : Target) (param : Param) (value : Str) : Scan (Option Response) := do
  scanner.request (← lift (scanner.urlFor target param value)) [] (.check target.fromContent)

/-- `_record`, if the verdict has fired. -/
def record (checkId url parameter payload : Str) (verdict : Verdict) (status : ℤ) : Scan Unit :=
  .update fun s =>
    if verdict.fired = false then s
    else
      { s with
        result.issues := s.result.issues ++ [⟨checkId, url, parameter, payload, verdict.indicator,
          verdict.excerpt.take 400, verdict.confidence, status⟩] }

/-! ### The checks of a parameter -/

/-- The loop of a check that sends its probes until one fires: whether all of them were sent and
none fired.  `note` is what the check does with each response before it is judged. -/
def probeAll (checkId : Str) (target : Target) (param : Param) (note : Scan Unit)
    (evaluate : Probe → Response → Except Fault Verdict) : List Probe → Scan Bool
  | [] => return true
  | probe :: probes => do
    match ← scanner.submit target param probe.payload with
    | none => return false
    | some r =>
      note
      let verdict ← lift (evaluate probe r)
      record checkId target.url param.name probe.payload verdict r.status
      if verdict.fired = true then return false
      else probeAll checkId target param note evaluate probes

/-- A marker that a form was sent may be stored. -/
def noteForm (param : Param) : Scan Unit :=
  .update fun s => if param.place = .form then { s with xssSubmittedViaForm := true } else s

/-- `_test_xss`. -/
def testXss (target : Target) (param : Param) : Scan Bool :=
  scanner.probeAll "xss-reflected" target param (noteForm param)
    (fun probe r => scanner.verdicts.xss scanner.marker probe.payload r.body
      (r.headers.get "content-type"))
    (xssProbes scanner.marker)

/-- `_test_sql`. -/
def testSql (target : Target) (param : Param) (baseline : Response) : Scan Unit := do
  let goOn ← scanner.probeAll "sqli-error" target param (pure ())
    (fun _ r => scanner.verdicts.sqlError r.body) sqlErrorProbes
  if goOn = false then return ()
  else
    let (trueProbe, falseProbe) := sqlBooleanProbes param.sample
    match ← scanner.submit target param trueProbe.payload,
        ← scanner.submit target param falseProbe.payload with
    | some trueResponse, some falseResponse =>
      let verdict ← lift (scanner.verdicts.sqlBoolean baseline.body trueResponse.body
        falseResponse.body trueResponse.status falseResponse.status)
      record "sqli-boolean" target.url param.name trueProbe.payload verdict
        trueResponse.status
    | _, _ => return ()

/-- The loop of `_test_time_blind`; `zip` is strict. -/
def timeBlindAll (target : Target) (param : Param) (controlMs : ℚ) :
    List Probe → List Probe → Scan Unit
  | [], [] => return ()
  | probe :: probes, confirmProbe :: confirmProbes => do
    match ← scanner.submit target param probe.payload with
    | none => return ()
    | some base =>
      if base.elapsedMs - controlMs < timeBlindSeconds * 1000 * (3 / 5) then
        timeBlindAll target param controlMs probes confirmProbes
      else
        match ← scanner.submit target param confirmProbe.payload with
        | none => return ()
        | some confirm =>
          let verdict ← lift (scanner.verdicts.timeBlind timeBlindSeconds controlMs base.elapsedMs
            confirm.elapsedMs)
          record "sqli-time-blind" target.url param.name probe.payload verdict base.status
          if verdict.fired = true then return ()
          else timeBlindAll target param controlMs probes confirmProbes
  | _, _ => lift (.error .valueError)

/-- `_test_time_blind`. -/
def testTimeBlind (target : Target) (param : Param) (baseline : Response) : Scan Unit :=
  scanner.timeBlindAll target param baseline.elapsedMs
    (timeBlindProbes param.sample timeBlindSeconds)
    (timeBlindProbes param.sample (timeBlindSeconds * 2))

/-- `_test_traversal`. -/
def testTraversal (target : Target) (param : Param) : Scan Bool :=
  scanner.probeAll "path-traversal" target param (pure ())
    (fun _ r => scanner.verdicts.traversal r.body) traversalProbes

/-- `_test_ssti`. -/
def testSsti (target : Target) (param : Param) : Scan Bool :=
  scanner.probeAll "ssti" target param (pure ())
    (fun _ r => scanner.verdicts.ssti r.body) sstiProbes

/-- `_test_command`. -/
def testCommand (target : Target) (param : Param) : Scan Bool :=
  scanner.probeAll "command-injection" target param (pure ())
    (fun probe r => scanner.verdicts.command scanner.marker probe.payload r.body)
    (commandProbes scanner.marker)

/-- `_test_redirect`. -/
def testRedirect (target : Target) (param : Param) : Scan Bool :=
  scanner.probeAll "open-redirect" target param (pure ())
    (fun _ r => scanner.verdicts.redirect r.status (r.headers.get "location"))
    redirectProbes

/-- **`_test_parameter`.** -/
def testParameter (target : Target) (param : Param) : Scan Unit := do
  match ← scanner.submit target param param.sample with
  | none => return ()
  | some baseline =>
    let _ ← scanner.testXss target param
    scanner.testSql target param baseline
    scanner.testTimeBlind target param baseline
    let _ ← scanner.testTraversal target param
    let _ ← scanner.testSsti target param
    let _ ← scanner.testCommand target param
    let _ ← scanner.testRedirect target param

/-! ### The checks of a target and of the site -/

/-- `_check_cors`, with `_test_cors`. -/
def checkCors (target : Target) : Scan Unit := do
  let key ← lift (normalize scanner.runtime scanner.urls target.url)
  let seen ← .read (·.corsSeen)
  if key ∈ seen then return ()
  else
    .update fun s => { s with corsSeen := key :: s.corsSeen }
    match ← scanner.request target.url [("origin", corsOrigin)]
        (.check target.fromContent) with
    | none => return ()
    | some r =>
      let verdict ← lift (scanner.verdicts.cors r.headers)
      record "cors-misconfig" target.url "Origin" corsOrigin verdict r.status

/-- `_check_csrf`. -/
def checkCsrf (target : Target) : Scan Unit := do
  let key ← lift (normalize scanner.runtime scanner.urls target.url)
  let seen ← .read (·.csrfSeen)
  if key ∈ seen then return ()
  else
    .update fun s => { s with csrfSeen := key :: s.csrfSeen }
    let cookies ← .read (·.cookiesSeen)
    let verdict ← lift (scanner.verdicts.csrf target.method (target.params.map (·.name)) cookies)
    record "csrf-missing-token" target.url "form" [] verdict 0

/-- `_check_session_urls`. -/
def checkSessionUrls : List Target → Scan Unit
  | [] => return ()
  | target :: targets => do
    let verdict ← lift (scanner.verdicts.sessionInUrl target.url)
    record "session-id-in-url" target.url "(url)" [] verdict 0
    if verdict.fired = true then return ()
    else checkSessionUrls targets

/-- The loop over the exposed paths: whether the scan goes on. -/
def checkExposedPaths (origin : Str) : List Str → Scan Bool
  | [] => return true
  | path :: paths => do
    let url := origin ++ '/' :: path
    match ← scanner.request url [] .site with
    | none => if (← stopped) = true then return false else checkExposedPaths origin paths
    | some r =>
      let verdict ← lift (scanner.verdicts.exposedPath path r.status r.body)
      record "exposed-sensitive-path" url "(path)" path verdict r.status
      checkExposedPaths origin paths

/-- The loop over the GraphQL endpoints: whether the scan goes on. -/
def checkGraphql (origin : Str) : List Str → Scan Bool
  | [] => return true
  | endpoint :: endpoints => do
    let url := origin ++ '/' :: endpoint
    let query := urlencode scanner.urls [("query", graphqlIntrospectionQuery)]
    match ← scanner.request (url ++ '?' :: query) [] .site with
    | none => if (← stopped) = true then return false else checkGraphql origin endpoints
    | some r =>
      let verdict ← lift (scanner.verdicts.graphqlIntrospection r.status
        (r.headers.get "content-type") r.body)
      record "graphql-introspection" url "(introspection)" graphqlIntrospectionQuery
        verdict r.status
      if verdict.fired = true then return true
      else checkGraphql origin endpoints

/-- The probe with another `Host` header. -/
def checkHostHeader (origin : Str) : Scan Unit := do
  match ← scanner.request (origin ++ ['/']) [("host", hostHeaderMarker)] .site with
  | none => return ()
  | some r =>
    let verdict ← lift (scanner.verdicts.hostHeaderInjection r.status
      (r.headers.get "location") r.body)
    record "host-header-injection" (origin ++ ['/']) "Host" hostHeaderMarker verdict
      r.status

/-- **`_check_site_probes`.** -/
def checkSiteProbes (seeds : List Str) : Scan Unit :=
  match seeds with
  | [] => return ()
  | seed :: _ => do
    let parsed ← lift (urlparse scanner.runtime seed)
    if parsed.scheme = [] ∨ parsed.netloc = [] then return ()
    else
      let origin := parsed.scheme ++ "://" ++ parsed.netloc
      if (← scanner.checkExposedPaths origin exposedPathSpecs) = false then return ()
      else if (← scanner.checkGraphql origin graphqlEndpoints) = false then return ()
      else scanner.checkHostHeader origin

/-- The loop of `_check_stored_xss`. -/
def refetchAll : List Target → List Str → Scan Unit
  | [], _ => return ()
  | target :: targets, seen =>
    if target.method ≠ "GET" then refetchAll targets seen
    else do
      let key ← lift (normalize scanner.runtime scanner.urls target.url)
      if key ∈ seen then refetchAll targets seen
      else
        match ← scanner.request target.url [] (.check target.fromContent) with
        | none => if (← stopped) = true then return () else refetchAll targets (key :: seen)
        | some r =>
          let verdict ← lift (scanner.verdicts.xss scanner.marker [] r.body
            (r.headers.get "content-type"))
          record "xss-stored" target.url "(stored)" scanner.marker verdict r.status
          refetchAll targets (key :: seen)

/-- `_check_stored_xss`. -/
def checkStoredXss (targets : List Target) : Scan Unit := do
  let submitted ← .read (·.xssSubmittedViaForm)
  if submitted = false then return () else scanner.refetchAll targets []

/-! ### The scan -/

/-- The loop over the parameters of a target: what has been seen, or none when the scan ends. -/
def testParams (target : Target) :
    List Param → List (Str × Str) → Scan (Option (List (Str × Str)))
  | [], seen => return some seen
  | param :: params, seen => do
    let key := (← lift (normalize scanner.runtime scanner.urls target.url), param.name)
    if key ∈ seen then testParams target params seen
    else
      .update fun s => { s with result.parametersTested := s.result.parametersTested + 1 }
      scanner.testParameter target param
      if (← stopped) = true then return none else testParams target params (key :: seen)

/-- The loop over the targets: whether the scan goes on. -/
def testTargets : List Target → List (Str × Str) → Scan Bool
  | [], _ => return true
  | target :: targets, seen =>
    if target.method ≠ "GET" then do
      scanner.checkCsrf target
      testTargets targets seen
    else do
      scanner.checkCors target
      if target.testable = false then testTargets targets seen
      else
        .update fun s => { s with result.targetsTested := s.result.targetsTested + 1 }
        match ← scanner.testParams target (target.params.take maxParamsPerTarget) seen with
        | none => return false
        | some seen => testTargets targets seen

/-- What follows the crawl. -/
def check (seeds : List Str) (result : CrawlResult) : Scan Unit := do
  .update fun s => { s with result.crawl := some result }
  scanner.checkSessionUrls result.targets
  scanner.checkSiteProbes seeds
  if (← scanner.testTargets result.targets []) = false then return ()
  else scanner.checkStoredXss result.targets

def crawler (maxPages maxDepth : ℤ) : Crawler :=
  ⟨scanner.hosts, maxPages, maxDepth, scanner.describe⟩

/-- **`scan`.** -/
def scan (maxPages maxDepth : ℤ) (fuel : ℕ) (seeds : List Str) : Scan Unit := do
  let result ← crawl scanner.runtime scanner.urls scanner.pages (scanner.crawler maxPages maxDepth)
    scanner.crawlFetch fuel seeds
  scanner.check seeds result

def run (maxPages maxDepth : ℤ) (fuel : ℕ) (seeds : List Str) : Except Stop Unit × State :=
  scanner.scan maxPages maxDepth fuel seeds scanner.init

end Scanner

end Guardian.Dast

import Guardian.Python.Yaml
import Guardian.Templates.Runner

/-!
# Loading a template

The loader decides whether a text is a template that may be run.  It searches the text for what is
forbidden, reads it as YAML, and refuses every document that it does not know the shape of.
`requests_safe_iff` says when what is sent is safe.
-/

namespace Guardian.Templates

open Python Findings List

/-! ### Refusals -/

/-- What a function of the library raises: the exception that its caller handles, with its text, or
another one. -/
inductive Raised
  | handled (text : Str)
  | other (fault : Fault)

/-- The library that the loader calls: `yaml.safe_load`, `re.compile`, `repr`, `sorted`, `int` and
`float` of a value, and the case of texts. -/
structure Library where
  runtime : Runtime
  upper : Str → Str
  safeLoad : Str → Except Raised Yaml
  compile : Str → Except Raised Unit
  repr : Yaml → Except Fault Str
  reprText : Str → Str
  sorted : List Yaml → Except Fault (List Yaml)
  int : Yaml → Except Fault ℤ
  float : Yaml → Except Fault Str

/-- Why there is no template: a `TemplateRejected`, or any other exception. -/
inductive Refusal
  | rejected (reason : Str)
  | raised (fault : Fault)

abbrev Load (A : Type) : Type := Except Refusal A

/-- A call whose exceptions are not handled. -/
def call {A : Type} (x : Except Fault A) : Load A := x.mapError .raised

/-- `raise TemplateRejected(reason)`. -/
def reject {A : Type} (reason : Str) : Load A := .error (.rejected reason)

/-- The condition holds, or the template is rejected. -/
def require (c : Prop) [Decidable c] (reason : Str) : Load Unit :=
  if c then .ok () else reject reason

variable (lib : Library)

/-! ### Texts -/

/-- `_text`. -/
def textOf : Yaml → Str
  | .str s => s
  | _ => []

/-- `_text(d.get(key) or default)`. -/
def textIn (d : Yaml.Dict) (key default : String) : Str :=
  textOf ((Yaml.get d key).orElse (.str default.toList))

/-- `_as_tuple`. -/
def asTuple : Yaml → Except Fault (List Str)
  | .str s => .ok [s]
  | .list items => items.mapM (Yaml.text lib.repr)
  | .tuple items => items.mapM (Yaml.text lib.repr)
  | _ => .ok []

/-- `pattern.search(s)`, and the text that is found. -/
def firstFrom (m : Python.Matcher) : ℕ → Cursor → Option Str
  | 0, k => (m k).head?.map k.between
  | n + 1, k =>
    match (m k).head? with
    | some k' => some (k.between k')
    | none => if k.rest = [] then none else firstFrom m n k.skip

def firstIn (m : Python.Matcher) (s : Str) : Option Str := firstFrom m s.length (.start s)

/-- `_FORBIDDEN_TEXT`. -/
def forbiddenText (R : Runtime) : List (Python.Matcher × Str) :=
  [(Python.Matcher.seqs [.wordBoundary R, .litAnyCase "interactsh"],
      "out-of-band interaction callbacks"),
    (Python.Matcher.seqs [.wordBoundary R, .litAnyCase "oast",
      .alt (.wordBoundary R) (.lit "_")], "out-of-band interaction callbacks"),
    (Python.Matcher.seqs [.wordBoundary R, .litAnyCase "collaborator"],
      "out-of-band interaction callbacks")]

/-- `_INTERPOLATION_RE.findall`, from a cursor on. -/
def interpolationsFrom : ℕ → Cursor → List Str
  | 0, _ => []
  | n + 1, k =>
    match (interpolationRe k).head? with
    | some k' => (k'.group "name").getD [] :: interpolationsFrom n { k' with groups := [] }
    | none => if k.rest = [] then [] else interpolationsFrom n k.skip

/-- `_INTERPOLATION_RE.findall`. -/
def interpolations (value : Str) : List Str := interpolationsFrom (value.length + 1) (.start value)

/-- `_ALLOWED_INTERPOLATIONS`. -/
def allowedInterpolations : List Str :=
  ["BaseURL", "RootURL", "Hostname", "Host"]

/-- `_check_interpolations`. -/
def checkInterpolations (place value : Str) : Load Unit :=
  (interpolations value).forM fun found =>
    let name := strip lib.runtime found
    require (name ∈ allowedInterpolations)
      (place ++ ": interpolation \x7b\x7b" ++ name ++
        "\x7d\x7d is not allowed — only " ++
        "['BaseURL', 'Host', 'Hostname', 'RootURL'] may appear, " ++
        "everything else is an expression")

/-- `MAX_REGEX_LENGTH`. -/
def maxRegexLength : ℕ := 400

/-- `_compile`. -/
def compile (place pattern : Str) : Load Str := do
  require (pattern.length ≤ maxRegexLength)
    (place ++ ": regex longer than 400 characters")
  match lib.compile pattern with
  | .ok () => return pattern
  | .error (.handled error) =>
    reject (place ++ ": regex does not compile (" ++ error ++ ")")
  | .error (.other fault) => .error (.raised fault)

/-- `int(s)` for a text whose digits come after minus signs. -/
def intOf : Str → Except Fault ℤ
  | '-' :: digits => (fun n : ℕ => -(n : ℤ)) <$> int lib.runtime digits
  | digits => (fun n : ℕ => (n : ℤ)) <$> int lib.runtime digits

/-- `tuple(int(s) for s in _as_tuple(v) if str(s).lstrip("-").isdigit())`. -/
def intsOf (v : Yaml) : Except Fault (List ℤ) := do
  ((← asTuple lib v).filter fun s => strIsdigit lib.runtime (s.dropWhile (· == '-'))).mapM
    (intOf lib)

/-! ### Matchers and extractors -/

/-- `_ALLOWED_MATCHER_TYPES`. -/
def matcherTypes : List (Str × MatcherType) :=
  [("status", .status), ("word", .word), ("regex", .regex),
    ("size", .size)]

/-- `_ALLOWED_EXTRACTOR_TYPES`. -/
def extractorTypes : List (Str × ExtractorType) :=
  [("regex", .regex), ("kval", .kval)]

/-- `_ALLOWED_PARTS`. -/
def parts : List (Str × Part) :=
  [("body", .body), ("header", .header), ("all", .all),
    ("status", .status)]

def conditions : List (Str × Condition) := [("and", .and), ("or", .or)]

/-- The value that a name stands for, or the template is rejected. -/
def named {A : Type} (table : List (Str × A)) (name reason : Str) : Load A :=
  match table.lookup name with
  | some a => .ok a
  | none => reject reason

/-- What a matcher of a type may not be without. -/
def requireTerms (place : Str) (type : MatcherType) (words regexes : List Str)
    (status sizes : List ℤ) : Load Unit :=
  match type with
  | .word => require (words ≠ []) (place ++ ": word matcher has no words")
  | .regex => require (regexes ≠ []) (place ++ ": regex matcher has no patterns")
  | .status => require (status ≠ []) (place ++ ": status matcher has no status codes")
  | .size => require (sizes ≠ []) (place ++ ": size matcher has no sizes")

/-- **`_parse_matcher`.** -/
def parseMatcher (place : Str) : Yaml → Load Matcher
  | .dict d => do
    let kind := lower lib.runtime (textOf (Yaml.get d "type"))
    let type ← named matcherTypes kind (place ++ ": matcher type " ++ lib.reprText kind ++
      " is not allowed — supported types are ['regex', 'size', 'status', 'word']; " ++
      "\x60dsl\x60 in particular is expression evaluation")
    let part := lower lib.runtime (textIn d "part" "body")
    let part ← named parts part
      (place ++ ": matcher part " ++ lib.reprText part ++ " is not allowed")
    let words ← call (asTuple lib (Yaml.get d "words"))
    let regexes ← (← call (asTuple lib (Yaml.get d "regex"))).mapM (compile lib place)
    (words ++ regexes).forM (checkInterpolations lib place)
    let status ← call (intsOf lib (Yaml.get d "status"))
    let sizes ← call (intsOf lib (Yaml.get d "size"))
    requireTerms place type words regexes status sizes
    let condition := lower lib.runtime (textIn d "condition" "or")
    let condition ← named conditions condition
      (place ++ ": matcher condition " ++ lib.reprText condition ++ " is not and/or")
    return {
      type := type
      part := part
      words := words
      regexes := regexes
      status := status
      sizes := sizes
      condition := condition
      negative := (Yaml.get d "negative").truthy
      caseInsensitive := (Yaml.get d "case-insensitive").truthy
      name := textOf (Yaml.get d "name") }
  | _ => reject (place ++ ": matcher must be a mapping")

/-- **`_parse_extractor`.** -/
def parseExtractor (place : Str) : Yaml → Load Extractor
  | .dict d => do
    let kind := lower lib.runtime (textOf (Yaml.get d "type"))
    let type ← named extractorTypes kind (place ++ ": extractor type " ++
      lib.reprText kind ++ " is not allowed — supported types are ['kval', 'regex']")
    let part := lower lib.runtime (textIn d "part" "body")
    let part ← named parts part
      (place ++ ": extractor part " ++ lib.reprText part ++ " is not allowed")
    let regexes ← (← call (asTuple lib (Yaml.get d "regex"))).mapM (compile lib place)
    let kval ← call (asTuple lib (Yaml.get d "kval"))
    require (type = .regex → regexes ≠ []) (place ++ ": regex extractor has no patterns")
    require (type = .kval → kval ≠ []) (place ++ ": kval extractor has no keys")
    let group ← call (if (Yaml.get d "group").truthy then lib.int (Yaml.get d "group") else .ok 0)
    return {
      type := type
      name := textOf (Yaml.get d "name")
      part := part
      regexes := regexes
      group := group
      kval := kval
      internal := (Yaml.get d "internal").truthy }
  | _ => reject (place ++ ": extractor must be a mapping")

/-! ### Requests -/

/-- `_ALLOWED_REQUEST_KEYS`. -/
def requestKeys : List Str :=
  ["method", "path", "headers", "matchers", "extractors",
    "matchers-condition", "stop-at-first-match", "max-size",
    "redirects", "host-redirects"]

/-- `set(d) - keys`. -/
def unknownKeys (keys : List Str) (d : Yaml.Dict) : List Yaml :=
  (d.map (·.1)).filter fun v => !keys.any fun key => v.isText key

/-- No other keys than these, or the template is rejected; the others are sorted and written. -/
def refuseUnknown (keys : List Str) (d : Yaml.Dict) (before after : Str) : Load Unit :=
  if unknownKeys keys d = [] then .ok ()
  else do
    let written ← call (do lib.repr (.list (← lib.sorted (unknownKeys keys d))))
    reject (before ++ written ++ after)

/-- `_ALLOWED_METHODS`. -/
def allowedMethods : List Str := ["GET", "HEAD"]

/-- The characters of `_PATH_RE`. -/
def isPathChar (c : Char) : Bool :=
  c.isAlphanum || decide (c ∈ "._~!$&'()*+,;=:@%/-".toList)

/-- `_PATH_RE`. -/
def pathRe : Regex := .seq (.seq (.cls (· == '/')) (.star (.cls isPathChar))) .eol

/-- The path without its interpolations, from the root. -/
def relative (path : Str) : Str :=
  let relative := Python.Matcher.sub interpolationRe (fun _ _ => []) path
  if relative.head? = some '/' then relative else '/' :: relative

/-- A header, if it is allowed. -/
def parseHeader (place : Str) (kv : Yaml × Yaml) : Load (Str × Str) := do
  let text ← call (kv.2.text lib.repr)
  let key ← call (kv.1.text lib.repr)
  checkInterpolations lib (place ++ ".headers." ++ key) text
  if '\n' ∈ text ∨ '\r' ∈ text then
    reject (place ++ ": header " ++ (← call (lib.repr kv.1)) ++
      " contains a newline")
  else return (key, text)

/-- `raw.get("headers") or {}`, if it is a mapping. -/
def headersOf (d : Yaml.Dict) : Option Yaml.Dict :=
  ((Yaml.get d "headers").orElse (.dict [])).entries?

/-- `raw.get("matchers") or []`, if it is a list that is not empty. -/
def matchersOf (d : Yaml.Dict) : Option (List Yaml) :=
  match (Yaml.get d "matchers").orElse (.list []) with
  | .list (m :: ms) => some (m :: ms)
  | _ => none

/-- The value, or the template is rejected. -/
def orReject {A : Type} (x : Option A) (reason : Str) : Load A :=
  match x with
  | some a => .ok a
  | none => reject reason

def digits (n : ℕ) : Str := Nat.toDigits 10 n

/-- `MAX_MATCHERS_PER_REQUEST`. -/
def maxMatchersPerRequest : ℕ := 12

/-- **`_parse_request`.** -/
def parseRequest (index : ℕ) : Yaml → Load Request
  | .dict d => do
    let place := "request[" ++ digits index ++ "]"
    refuseUnknown lib requestKeys d (place ++ ": unsupported keys ")
      (" — the validator denies by default, so a construct it does not " ++
        "model cannot be executed")
    require (¬ ((Yaml.get d "redirects").truthy ∨ (Yaml.get d "host-redirects").truthy)) (place ++
      ": redirects are not followed — a response must never choose the next target")
    let method := lib.upper (textIn d "method" "GET")
    require (method ∈ allowedMethods) (place ++ ": method " ++ lib.reprText method ++
      " is not allowed — detection reads, it does not write, so " ++
      "only ['GET', 'HEAD'] may be sent")
    let paths ← call (asTuple lib (Yaml.get d "path"))
    let path ← orReject (if paths.length = 1 then paths.head? else none) (place ++
      ": exactly one path is required, got " ++ digits paths.length)
    checkInterpolations lib place path
    require ((Regex.rematch pathRe (relative path)).isSome ∧ ¬ ".." <:+: relative path)
      (place ++ ": path " ++ lib.reprText (relative path) ++
        " is not a plain absolute path")
    let entries ← orReject (headersOf d) (place ++ ": headers must be a mapping")
    let headers ← entries.mapM (parseHeader lib place)
    let raws ← orReject (matchersOf d) (place ++ ": at least one matcher is required")
    require (raws.length ≤ maxMatchersPerRequest) (place ++ ": more than 12 matchers")
    let condition := lower lib.runtime (textIn d "matchers-condition" "and")
    let condition ← named conditions condition (place ++ ": matchers-condition " ++
      lib.reprText condition ++ " is not and/or")
    let matchers ← raws.zipIdx.mapM fun p =>
      parseMatcher lib (place ++ ".matchers[" ++ digits p.2 ++ "]") p.1
    let items ← call (Yaml.get d "extractors").each
    let extractors ← items.zipIdx.mapM fun p =>
      parseExtractor lib (place ++ ".extractors[" ++ digits p.2 ++ "]") p.1
    return {
      method := method
      path := relative path
      headers := headers
      matchers := matchers
      extractors := extractors
      matchersCondition := condition }
  | _ => reject ("request[" ++ digits index ++ "]: must be a mapping")

/-! ### Templates -/

/-- `float(score)`, unless there is none or it is no number. -/
def cvssScore (score : Yaml) : Except Fault (Option Str) :=
  if score.isNone then .ok none
  else
    match lib.float score with
    | .ok cvss => .ok (some cvss)
    | .error .typeError => .ok none
    | .error .valueError => .ok none
    | .error fault => .error fault

/-- `_parse_classification`. -/
def parseClassification : Yaml → Except Fault Classification
  | .dict d => do
    let cvss ← cvssScore lib (Yaml.get d "cvss-score")
    let cve ← asTuple lib (Yaml.get d "cve-id")
    let cwe ← asTuple lib (Yaml.get d "cwe-id")
    return {
      cveIds := cve.map lib.upper
      cweIds := cwe.map lib.upper
      cvssScore := cvss
      cvssMetrics := textOf (Yaml.get d "cvss-metrics") }
  | _ => .ok ⟨[], [], none, []⟩

/-- `_ALLOWED_TOP_LEVEL`. -/
def topLevelKeys : List Str := ["id", "info", "http", "requests"]

/-- `_ALLOWED_INFO`. -/
def infoKeys : List Str :=
  ["name", "author", "severity", "description",
    "remediation", "reference", "tags", "classification",
    "metadata", "impact"]

/-- `SEVERITY_BY_NAME`. -/
def severityByName : List (Str × Severity) :=
  [("critical", .critical), ("high", .high), ("medium", .medium),
    ("low", .low), ("info", .info), ("unknown", .info)]

/-- `_ID_RE`. -/
def idRe : Regex :=
  let first (c : Char) : Bool := Regex.lowerAZ c || Regex.digit09 c
  let other : Regex := .cls fun c => first c || c == '-'
  .seq (.seq (.cls first) (.seq other (.seq other (Regex.upTo other 78)))) .eol

/-- `_SECRET_HINTS`. -/
def secretHints : List Str :=
  ["env", "credential", "secret", "token", "password",
    "aws", "id_rsa", "private-key"]

/-- `MAX_TEMPLATE_BYTES`. -/
def maxTemplateBytes : ℕ := 64000

/-- `MAX_REQUESTS_PER_TEMPLATE`. -/
def maxRequestsPerTemplate : ℕ := 4

/-- What is forbidden in a text, and what of it is found. -/
def forbiddenIn (R : Runtime) (text : Str) : Option (Str × Str) :=
  (forbiddenText R).findSome? fun p => (firstIn p.1 text).map fun found => (p.2, found)

/-- What `yaml.safe_load` reads, unless it raises a `YAMLError`. -/
def readYaml (text source : Str) : Load Yaml :=
  match lib.safeLoad text with
  | .ok doc => .ok doc
  | .error (.handled error) =>
    reject (source ++ ": not valid YAML (" ++ error ++ ")")
  | .error (.other fault) => .error (.raised fault)

/-- `doc.get("http") or doc.get("requests") or []`, if it is a list that is not empty. -/
def requestsOf (doc : Yaml.Dict) : Option (List Yaml) :=
  match ((Yaml.get doc "http").orElse (Yaml.get doc "requests")).orElse (.list []) with
  | .list (r :: rs) => some (r :: rs)
  | _ => none

/-- The tags of a template. -/
def tagsOf (tags : List Str) : List Str :=
  (([','].intercalate tags).splitOn ',').filterMap fun t =>
    let t := strip lib.runtime t
    if t = [] then none else some (lower lib.runtime t)

/-- Whether the evidence of a template may hold credentials. -/
def redacts (id name : Str) (tags : List Str) : Bool :=
  let text := lower lib.runtime (id ++ ' ' :: name ++ ' ' :: [' '].intercalate tags)
  secretHints.any fun hint => decide (hint <:+: text)

/-- **`load_template`.** -/
def loadTemplate (text source : Str) : Load Template := do
  require (text.length ≤ maxTemplateBytes) (source ++ ": template larger than 64000 bytes")
  match forbiddenIn lib.runtime text with
  | some (why, found) => reject (source ++ ": refused — " ++ why ++ " (matched " ++
      lib.reprText found ++ ")")
  | none =>
    let doc ← orReject (← readYaml lib text source).entries?
      (source ++ ": template must be a mapping")
    refuseUnknown lib topLevelKeys doc (source ++ ": unsupported top-level keys ") []
    let id := strip lib.runtime (textOf (Yaml.get doc "id"))
    require (Regex.rematch idRe id).isSome
      (source ++ ": id " ++ lib.reprText id ++ " is missing or malformed")
    let info ← orReject ((Yaml.get doc "info").orElse (.dict [])).entries?
      (source ++ ": info must be a mapping")
    refuseUnknown lib infoKeys info (source ++ ": unsupported info keys ") []
    let severity := lower lib.runtime (textIn info "severity" "info")
    let severity ← named severityByName severity
      (source ++ ": unknown severity " ++ lib.reprText severity)
    let raws ← orReject (requestsOf doc) (source ++ ": template has no http request")
    require (raws.length ≤ maxRequestsPerTemplate) (source ++ ": more than 4 requests")
    let tags := tagsOf lib (← call (asTuple lib (Yaml.get info "tags")))
    let name := textOf (Yaml.get info "name")
    let name := if name = [] then id else name
    let requests ← raws.zipIdx.mapM fun p => parseRequest lib p.2 p.1
    let author ← call (asTuple lib (Yaml.get info "author"))
    let reference ← call (asTuple lib (Yaml.get info "reference"))
    let classification ← call (parseClassification lib (Yaml.get info "classification"))
    return {
      id := id
      name := name
      severity := severity
      requests := requests
      author := ", ".toList.intercalate author
      description := strip lib.runtime (textOf (Yaml.get info "description"))
      remediation := strip lib.runtime (textOf (Yaml.get info "remediation"))
      tags := tags
      reference := reference
      classification := classification
      redactEvidence := redacts lib id name tags
      source := source }

/-! ### Directories -/

/-- Why the text of a file cannot be read: an `OSError` with its text, or bytes that are no
UTF-8. -/
inductive Unreadable
  | os (error : Str)
  | decode

/-- A file that `rglob` finds. -/
structure File where
  path : Str
  name : Str
  content : Except Unreadable Str

/-- `Rejection`. -/
structure Rejection where
  source : Str
  reason : Str

/-- The accepted templates, the refusals and the identifiers that are taken. -/
structure Loaded where
  accepted : List Template
  rejected : List Rejection
  seen : List Str

/-- One round of the loop over the files. -/
def loadFile (l : Loaded) (file : File) : Except Fault Loaded :=
  let refuse (reason : Str) : Loaded := { l with rejected := l.rejected ++ [⟨file.path, reason⟩] }
  match file.content with
  | .error (.os error) => .ok (refuse ("unreadable: " ++ error))
  | .error .decode => .error .valueError
  | .ok text =>
    match loadTemplate lib text file.name with
    | .error (.rejected reason) => .ok (refuse reason)
    | .error (.raised fault) => .error fault
    | .ok template =>
      if template.id ∈ l.seen then
        .ok (refuse ("duplicate id " ++ lib.reprText template.id))
      else .ok ⟨l.accepted ++ [template], l.rejected, template.id :: l.seen⟩

/-- **`load_directory`**, on the files in order. -/
def loadDirectory (files : List File) : Except Fault (List Template × List Rejection) := do
  let l ← files.foldlM (loadFile lib) ⟨[], [], []⟩
  return (l.accepted, l.rejected)

/-! ### What an accepted template is read from -/

section Accepted
variable {lib}

theorem require_eq_ok_iff {c : Prop} [Decidable c] {reason : Str} {u : Unit} :
    require c reason = .ok u ↔ c := by
  unfold require reject
  split_ifs with h <;> simp [h]

theorem call_eq_ok_iff {A : Type} {x : Except Fault A} {a : A} :
    call x = .ok a ↔ x = .ok a := by
  rcases x with fault | b <;> simp [call, Except.mapError]

theorem orReject_eq_ok_iff {A : Type} {x : Option A} {reason : Str} {a : A} :
    orReject x reason = .ok a ↔ x = some a := by
  rcases x with _ | b <;> simp [orReject, reject]

theorem compile_eq_ok {place pattern found : Str} (h : compile lib place pattern = .ok found) :
    found = pattern := by
  obtain ⟨-, -, h⟩ := bind_eq_ok.mp h
  rcases hcompile : lib.compile pattern with (error | fault) | ⟨⟩
  · rw [hcompile] at h
    cases h
  · rw [hcompile] at h
    cases h
  · rw [hcompile] at h
    exact (Except.ok.inj h).symm

theorem mapM_compile_eq_ok {place : Str} {patterns found : List Str}
    (h : patterns.mapM (compile lib place) = .ok found) : found = patterns := by
  induction patterns generalizing found with
  | nil =>
    cases h
    rfl
  | cons pattern patterns ih =>
    obtain ⟨b, bs, hb, hbs, rfl⟩ := mapM_cons_eq_ok.mp h
    rw [compile_eq_ok hb, ih hbs]

theorem forM_eq_ok {A : Type} {f : A → Load Unit} {as : List A} (h : as.forM f = .ok ()) :
    ∀ a ∈ as, f a = .ok () := by
  induction as with
  | nil => exact fun a ha => nomatch ha
  | cons a as ih =>
    obtain ⟨⟨⟩, ha, has⟩ := bind_eq_ok.mp h
    exact forall_mem_cons.mpr ⟨ha, ih has⟩

/-- **An accepted matcher** has the terms of its mapping. -/
theorem parseMatcher_eq_ok {place : Str} {raw : Yaml} {m : Matcher}
    (h : parseMatcher lib place raw = .ok m) :
    ∃ d, raw = .dict d ∧ asTuple lib (Yaml.get d "words") = .ok m.words ∧
      asTuple lib (Yaml.get d "regex") = .ok m.regexes := by
  rcases raw with _ | _ | _ | _ | _ | _ | _ | _ | d
  case dict =>
    obtain ⟨type, -, h⟩ := bind_eq_ok.mp h
    obtain ⟨part, -, h⟩ := bind_eq_ok.mp h
    obtain ⟨words, hwords, h⟩ := bind_eq_ok.mp h
    obtain ⟨texts, htexts, h⟩ := bind_eq_ok.mp h
    obtain ⟨regexes, hregexes, h⟩ := bind_eq_ok.mp h
    obtain ⟨-, -, h⟩ := bind_eq_ok.mp h
    obtain ⟨status, -, h⟩ := bind_eq_ok.mp h
    obtain ⟨sizes, -, h⟩ := bind_eq_ok.mp h
    obtain ⟨-, -, h⟩ := bind_eq_ok.mp h
    obtain ⟨condition, -, h⟩ := bind_eq_ok.mp h
    cases h
    refine ⟨d, rfl, call_eq_ok_iff.mp hwords, ?_⟩
    rw [mapM_compile_eq_ok hregexes]
    exact call_eq_ok_iff.mp htexts
  all_goals cases h

variable (lib) in
/-- **The request is what the loader makes of a mapping.** -/
structure ReadFrom (d : Yaml.Dict) (request : Request) : Prop where
  method : request.method ∈ allowedMethods
  path : ∃ path, asTuple lib (Yaml.get d "path") = .ok [path] ∧ request.path = relative path
  plain : (Regex.rematch pathRe request.path).isSome = true
  noParent : ¬ ".." <:+: request.path
  headers : ∃ entries place, headersOf d = some entries ∧
    entries.mapM (parseHeader lib place) = .ok request.headers
  matchers : ∃ (raws : List Yaml) (place : ℕ → Str), matchersOf d = some raws ∧
    raws.zipIdx.mapM (fun p => parseMatcher lib (place p.2) p.1) = .ok request.matchers

/-- **An accepted request.** -/
theorem parseRequest_eq_ok {index : ℕ} {raw : Yaml} {request : Request}
    (h : parseRequest lib index raw = .ok request) :
    ∃ d, raw = .dict d ∧ ReadFrom lib d request := by
  rcases raw with _ | _ | _ | _ | _ | _ | _ | _ | d
  case dict =>
    obtain ⟨-, -, h⟩ := bind_eq_ok.mp h
    obtain ⟨-, -, h⟩ := bind_eq_ok.mp h
    obtain ⟨⟨⟩, hmethod, h⟩ := bind_eq_ok.mp h
    obtain ⟨paths, hpaths, h⟩ := bind_eq_ok.mp h
    obtain ⟨path, hpath, h⟩ := bind_eq_ok.mp h
    obtain ⟨-, -, h⟩ := bind_eq_ok.mp h
    obtain ⟨⟨⟩, hplain, h⟩ := bind_eq_ok.mp h
    obtain ⟨entries, hentries, h⟩ := bind_eq_ok.mp h
    obtain ⟨headers, hheaders, h⟩ := bind_eq_ok.mp h
    obtain ⟨raws, hraws, h⟩ := bind_eq_ok.mp h
    obtain ⟨-, -, h⟩ := bind_eq_ok.mp h
    obtain ⟨condition, -, h⟩ := bind_eq_ok.mp h
    obtain ⟨matchers, hmatchers, h⟩ := bind_eq_ok.mp h
    obtain ⟨items, -, h⟩ := bind_eq_ok.mp h
    obtain ⟨extractors, -, h⟩ := bind_eq_ok.mp h
    cases h
    rw [require_eq_ok_iff] at hmethod hplain
    generalize "request[" ++ digits index ++ "]" = place at hheaders hmatchers
    refine ⟨d, rfl, hmethod, ⟨path, ?_, rfl⟩, hplain.1, hplain.2,
      ⟨entries, place, orReject_eq_ok_iff.mp hentries, hheaders⟩,
      ⟨raws, fun i => place ++ ".matchers[" ++ digits i ++ "]",
        orReject_eq_ok_iff.mp hraws, hmatchers⟩⟩
    rw [call_eq_ok_iff.mp hpaths]
    rcases paths with _ | ⟨first, _ | ⟨second, paths⟩⟩
    · cases hpath
    · cases hpath
      rfl
    · simp [orReject, reject] at hpath
  all_goals cases h

variable (lib) in
/-- The requests in the document of a text. -/
def rawRequests (text : Str) : List Yaml :=
  match lib.safeLoad text with
  | .ok doc => (doc.entries?.bind requestsOf).getD []
  | .error _ => []

/-- **An accepted template** has the requests of its document. -/
theorem loadTemplate_eq_ok {text source : Str} {template : Template}
    (h : loadTemplate lib text source = .ok template) :
    (rawRequests lib text).zipIdx.mapM (fun p => parseRequest lib p.2 p.1) =
      .ok template.requests := by
  obtain ⟨-, -, h⟩ := bind_eq_ok.mp h
  rcases hforbidden : forbiddenIn lib.runtime text with _ | ⟨why, found⟩
  · rw [hforbidden] at h
    obtain ⟨value, hvalue, h⟩ := bind_eq_ok.mp h
    obtain ⟨doc, hdoc, h⟩ := bind_eq_ok.mp h
    obtain ⟨-, -, h⟩ := bind_eq_ok.mp h
    obtain ⟨-, -, h⟩ := bind_eq_ok.mp h
    obtain ⟨info, -, h⟩ := bind_eq_ok.mp h
    obtain ⟨-, -, h⟩ := bind_eq_ok.mp h
    obtain ⟨severity, -, h⟩ := bind_eq_ok.mp h
    obtain ⟨raws, hraws, h⟩ := bind_eq_ok.mp h
    obtain ⟨-, -, h⟩ := bind_eq_ok.mp h
    obtain ⟨tags, -, h⟩ := bind_eq_ok.mp h
    obtain ⟨requests, hrequests, h⟩ := bind_eq_ok.mp h
    obtain ⟨author, -, h⟩ := bind_eq_ok.mp h
    obtain ⟨reference, -, h⟩ := bind_eq_ok.mp h
    obtain ⟨classification, -, h⟩ := bind_eq_ok.mp h
    cases h
    have hload : lib.safeLoad text = .ok value := by
      unfold readYaml at hvalue
      rcases hsafe : lib.safeLoad text with (error | fault) | doc'
      · rw [hsafe] at hvalue
        cases hvalue
      · rw [hsafe] at hvalue
        cases hvalue
      · rw [hsafe] at hvalue
        rw [Except.ok.inj hvalue]
    have hraw : rawRequests lib text = raws := by
      unfold rawRequests
      rw [hload]
      simp only [orReject_eq_ok_iff.mp hdoc, orReject_eq_ok_iff.mp hraws, Option.bind_some,
        Option.getD_some]
    rw [hraw]
    exact hrequests
  · rw [hforbidden] at h
    cases h

end Accepted

/-! ### What is sent -/

section Sent

/-- Neither a carriage return nor a line feed. -/
def NoBreak (s : Str) : Prop := '\n' ∉ s ∧ '\r' ∉ s

def isControl (c : Char) : Bool := decide (c.toNat < 32 ∨ 127 ≤ c.toNat ∧ c.toNat < 160)

/-- The text holds nothing that is forbidden. -/
def Unmarked (R : Runtime) (s : Str) : Prop := forbiddenIn R s = none

/-- **The request may be sent**: it reads, from the root and in plain characters, no header breaks
its line, and nothing calls out of band. -/
structure Safe (R : Runtime) (sent : Sent) : Prop where
  method : sent.method ∈ allowedMethods
  root : sent.path.head? = some '/'
  noParent : ¬ ".." <:+: sent.path
  plain : ∀ c ∈ sent.path, isControl c = false ∧ R.isSpace c = false
  noBreak : ∀ h ∈ sent.headers, NoBreak h.1 ∧ NoBreak h.2
  unmarked : Unmarked R sent.path ∧ ∀ h ∈ sent.headers, Unmarked R h.1 ∧ Unmarked R h.2

/-- The terms of the matcher hold nothing that is forbidden. -/
def Matcher.Quiet (R : Runtime) (m : Matcher) : Prop :=
  ∀ term ∈ m.words ++ m.regexes, Unmarked R term

/-- **The mapping is harmless**: its path does not end its line, no name of a header breaks its
line, the host does not where a header names it, and nothing is forbidden once it is decoded. -/
structure Harmless (host : Str) (port : ℕ) (d : Yaml.Dict) : Prop where
  path : ∀ path, asTuple lib (Yaml.get d "path") = .ok [path] →
    '\n' ∉ relative path ∧ Unmarked lib.runtime (relative path)
  headers : ∀ entries, headersOf d = some entries → ∀ kv ∈ entries, ∀ name value,
    kv.1.text lib.repr = .ok name → kv.2.text lib.repr = .ok value →
      NoBreak name ∧ (interpolations value ≠ [] → NoBreak host) ∧ Unmarked lib.runtime name ∧
        Unmarked lib.runtime (substitute lib.runtime value (baseUrl host port) host)
  matchers : ∀ raws, matchersOf d = some raws → ∀ m, .dict m ∈ raws → ∀ words regexes,
    asTuple lib (Yaml.get m "words") = .ok words →
      asTuple lib (Yaml.get m "regex") = .ok regexes →
        ∀ term ∈ words ++ regexes, Unmarked lib.runtime term

variable {lib} {R : Runtime} {P : Patterns} {host : Str} {port : ℕ}

/-- What the path pattern takes. -/
theorem rematch_pathRe_iff {path : Str} : (Regex.rematch pathRe path).isSome = true ↔
    ∃ w, (∀ c ∈ w, isPathChar c = true) ∧ (path = '/' :: w ∨ path = '/' :: w ++ ['\n']) := by
  have htakes : Regex.Takes (.seq (.cls (· == '/')) (.star (.cls isPathChar))) fun w =>
      ∃ v, (∀ c ∈ v, isPathChar c = true) ∧ w = '/' :: v := by
    refine (Regex.takes_seq Regex.takes_cls (Regex.takes_star Regex.takes_cls ?_)).congr
      fun w => ?_
    · rintro w ⟨c, -, rfl⟩
      exact cons_ne_nil _ _
    · constructor
      · rintro ⟨u, v, ⟨c, hc, rfl⟩, ⟨ws, hws, rfl⟩, rfl⟩
        refine ⟨ws.flatten, fun d hd => ?_, by rw [eq_of_beq hc]; rfl⟩
        obtain ⟨v, hv, hd⟩ := mem_flatten.mp hd
        obtain ⟨c, hc, rfl⟩ := hws v hv
        rwa [mem_singleton.mp hd]
      · rintro ⟨v, hv, rfl⟩
        refine ⟨['/'], v, ⟨'/', rfl, rfl⟩, ⟨v.map fun c => [c], fun w hw => ?_, ?_⟩, rfl⟩
        · obtain ⟨c, hc, rfl⟩ := mem_map.mp hw
          exact ⟨c, hv c hc, rfl⟩
        · rw [← flatMap_def, flatMap_singleton']
  have hend : (Regex.rematch pathRe path).isSome = true ↔
      ∃ k' ∈ Regex.run (.seq (.cls (· == '/')) (.star (.cls isPathChar))) (.start path),
        k'.rest = [] ∨ k'.rest = ['\n'] := by
    unfold Regex.rematch pathRe
    rw [isSome_head?, ← isEmpty_eq_false_iff, isEmpty_eq_false_iff_exists_mem,
      Regex.run]
    simp only [mem_flatMap]
    constructor
    · rintro ⟨k, k', hk', hk⟩
      rw [Regex.run] at hk
      split_ifs at hk with hend
      · exact ⟨k', hk', hend⟩
      · cases hk
    · rintro ⟨k', hk', hend⟩
      refine ⟨k', k', hk', ?_⟩
      rw [Regex.run, if_pos hend]
      exact mem_singleton_self k'
  rw [hend, Regex.rematch_eol_iff htakes]
  constructor
  · rintro ⟨-, ⟨v, hv, rfl⟩, hpath⟩
    exact ⟨v, hv, hpath⟩
  · rintro ⟨v, hv, hpath⟩
    exact ⟨'/' :: v, ⟨v, hv, rfl⟩, hpath⟩

theorem isAscii_of_isPathChar {c : Char} (h : isPathChar c = true) : IsAscii c := by
  unfold isPathChar at h
  rcases Bool.or_eq_true _ _ ▸ h with h | h
  · unfold Char.isAlphanum Char.isAlpha Char.isUpper Char.isLower Char.isDigit at h
    simp only [Bool.or_eq_true, Bool.and_eq_true, decide_eq_true_eq] at h
    show c.val.toNat < 128
    rcases h with (⟨-, h⟩ | ⟨-, h⟩) | ⟨-, h⟩
    all_goals exact lt_of_le_of_lt (UInt32.le_iff_toNat_le.mp h) (by decide)
  · have hlist : ∀ c ∈ "._~!$&'()*+,;=:@%/-".toList, IsAscii c := by decide
    exact hlist c (of_decide_eq_true h)

/-- The characters of an accepted path. -/
theorem plain_iff {path : Str} (h : (Regex.rematch pathRe path).isSome = true) :
    (∀ c ∈ path, isControl c = false ∧ R.isSpace c = false) ↔ '\n' ∉ path := by
  have hchar : ∀ c, c = '/' ∨ isPathChar c = true →
      IsAscii c ∧ isControl c = false ∧ asciiSpace c = false ∧ c ≠ '\n' := by
    intro c hc
    have hascii : IsAscii c := by
      rcases hc with rfl | hc
      · decide
      · exact isAscii_of_isPathChar hc
    exact ⟨hascii, by
      revert hc
      exact forall_ascii (P := fun c => c = '/' ∨ isPathChar c = true →
        isControl c = false ∧ asciiSpace c = false ∧ c ≠ '\n') (by decide +kernel) hascii⟩
  have hplain : ∀ c, c = '/' ∨ isPathChar c = true →
      isControl c = false ∧ R.isSpace c = false := fun c hc => by
    obtain ⟨hascii, hcontrol, hspace, -⟩ := hchar c hc
    exact ⟨hcontrol, by rw [R.isSpace_ascii c hascii, hspace]⟩
  obtain ⟨w, hw, hpath⟩ := rematch_pathRe_iff.mp h
  constructor
  · intro hall hmem
    exact absurd (hall _ hmem).1 (by decide)
  · intro hbreak c hc
    rcases hpath with rfl | rfl
    · rcases mem_cons.mp hc with rfl | hc
      · exact hplain _ (Or.inl rfl)
      · exact hplain c (Or.inr (hw c hc))
    · exact absurd (by simp) hbreak

theorem substitute_path {path : Str} (h : (Regex.rematch pathRe path).isSome = true)
    (baseUrl hostname : Str) : substitute R path baseUrl hostname = path := by
  refine Python.Matcher.sub_eq_self _ ?_
  have hneeds : Python.Matcher.Needs (· = '\x7b') interpolationRe := by
    refine Python.Matcher.needs_seq_left (Python.Matcher.needs_seq_left
      (Python.Matcher.needs_chr fun c hc => ?_))
    exact eq_of_beq hc
  refine Python.Matcher.search_eq_false hneeds fun c hc hbrace => ?_
  subst hbrace
  obtain ⟨w, hw, rfl | rfl⟩ := rematch_pathRe_iff.mp h
  · rcases mem_cons.mp hc with hc | hc
    · exact absurd hc (by decide)
    · exact absurd (hw _ hc) (by decide)
  · simp only [cons_append, mem_cons, mem_append, not_mem_nil, or_false] at hc
    rcases hc with hc | hc | hc
    · exact absurd hc (by decide)
    · exact absurd (hw _ hc) (by decide)
    · exact absurd hc (by decide)

section Interpolation
variable {f : Str → Str} {c : Char}

/-- The characters of a substituted text are its own, or those of what is filled in. -/
theorem mem_subFrom (n : ℕ) (k : Cursor)
    (h : c ∈ Python.Matcher.subFrom interpolationRe
      (fun _ k' => f ((k'.group "name").getD [])) n k) :
    c ∈ k.rest ∨ ∃ name ∈ interpolationsFrom n k, c ∈ f name := by
  have hsuffix : Python.Matcher.Suffixes interpolationRe := by
    refine Python.Matcher.suffixes_seqs fun m hm => ?_
    simp only [mem_cons, not_mem_nil, or_false] at hm
    rcases hm with rfl | rfl | rfl
    · exact Python.Matcher.suffixes_lit _
    · intro k k' hk'
      obtain ⟨k₁, hk₁, rfl⟩ := mem_map.mp hk'
      exact Python.Matcher.suffixes_star (Python.Matcher.suffixes_chr _) k k₁ hk₁
    · exact Python.Matcher.suffixes_lit _
  induction n generalizing k with
  | zero => exact Or.inl h
  | succ n ih =>
    rw [Python.Matcher.subFrom] at h
    rw [interpolationsFrom]
    rcases hhead : (interpolationRe k).head? with _ | k'
    · rw [hhead] at h
      rcases hrest : k.rest with _ | ⟨d, cs⟩
      · rw [hrest] at h
        cases h
      · rw [hrest] at h
        have hskip : k.skip.rest = cs := by simp [Cursor.skip, hrest]
        simp only [reduceCtorEq, if_false]
        rcases mem_cons.mp h with rfl | h
        · exact Or.inl mem_cons_self
        · rcases ih k.skip h with hc | hname
          · exact Or.inl (mem_cons_of_mem _ (hskip ▸ hc))
          · exact Or.inr hname
    · rw [hhead] at h
      simp only at h ⊢
      rcases mem_append.mp h with h | h
      · exact Or.inr ⟨_, mem_cons_self, h⟩
      · rcases ih _ h with hc | ⟨name, hname, hc⟩
        · exact Or.inl ((hsuffix k k' (mem_of_mem_head? hhead)).subset hc)
        · exact Or.inr ⟨name, mem_cons_of_mem _ hname, hc⟩

theorem mem_subFrom_of_mem {name : Str} (hc : c ∈ f name) (n : ℕ) (k : Cursor)
    (h : name ∈ interpolationsFrom n k) :
    c ∈ Python.Matcher.subFrom interpolationRe
      (fun _ k' => f ((k'.group "name").getD [])) n k := by
  induction n generalizing k with
  | zero => cases h
  | succ n ih =>
    rw [interpolationsFrom] at h
    rw [Python.Matcher.subFrom]
    rcases hhead : (interpolationRe k).head? with _ | k'
    · rw [hhead] at h
      rcases hrest : k.rest with _ | ⟨d, cs⟩
      · simp [hrest] at h
      · simp only [hrest, reduceCtorEq, if_false] at h ⊢
        exact mem_cons_of_mem _ (ih k.skip h)
    · rw [hhead] at h
      rcases mem_cons.mp h with rfl | h
      · exact mem_append_left _ hc
      · exact mem_append_right _ (ih _ h)

end Interpolation

theorem notMem_baseUrl_iff {c : Char} (hc : c.isDigit = false) (hother : c ∉ "https://".toList) :
    c ∉ baseUrl host port ↔ c ∉ host := by
  have hdigits : c ∉ Nat.toDigits 10 port := by
    intro hmem
    rw [Nat.isDigit_of_mem_toDigits (by decide) (by decide) hmem] at hc
    cases hc
  have hsep : "://".toList ⊆ "https://".toList := by decide
  have hhttp : "http".toList ⊆ "https://".toList := by decide
  have hhttps : "https".toList ⊆ "https://".toList := by decide
  have hscheme : c ∉ (if port = 443 then "https".toList else "http".toList) := by
    split_ifs
    · exact fun h => hother (hhttps h)
    · exact fun h => hother (hhttp h)
  unfold baseUrl
  rw [mem_append, mem_append, mem_append, mem_cons]
  have hcolon : c ≠ ':' := by
    rintro rfl
    exact hother (by decide)
  exact not_congr ⟨fun h => (h.resolve_right fun h => h.elim hcolon hdigits).resolve_left
    fun h => h.elim hscheme fun h => hother (hsep h), fun h => Or.inl (Or.inr h)⟩

/-- **A header breaks its line** exactly where it names the host and the host does. -/
theorem noBreak_substitute_iff {value : Str} (hvalue : NoBreak value)
    (hnames : ∀ name ∈ interpolations value, strip R name ∈ allowedInterpolations) :
    NoBreak (substitute R value (baseUrl host port) host) ↔
      (interpolations value ≠ [] → NoBreak host) := by
  have hbase : NoBreak (baseUrl host port) ↔ NoBreak host :=
    and_congr (notMem_baseUrl_iff (by decide) (by decide))
      (notMem_baseUrl_iff (by decide) (by decide))
  have hfill : ∀ name ∈ interpolations value,
      NoBreak (interpolated (baseUrl host port) host (strip R name)) ↔ NoBreak host := by
    intro name hname
    have hallowed := hnames name hname
    simp only [allowedInterpolations, mem_cons, not_mem_nil, or_false] at hallowed
    unfold interpolated
    split_ifs with h1 h2
    · exact hbase
    · exact Iff.rfl
    · rcases hallowed with h | h | h | h
      · exact absurd (Or.inl h) h1
      · exact absurd (Or.inr h) h1
      · exact absurd (Or.inl h) h2
      · exact absurd (Or.inr h) h2
  have hchar : ∀ c, c ∉ value → (c ∉ substitute R value (baseUrl host port) host ↔
      ∀ name ∈ interpolations value,
        c ∉ interpolated (baseUrl host port) host (strip R name)) := by
    intro c hc
    constructor
    · intro h name hname hmem
      exact h (mem_subFrom_of_mem
        (f := fun name => interpolated (baseUrl host port) host (strip R name)) hmem _ _ hname)
    · intro h hmem
      rcases mem_subFrom (f := fun name => interpolated (baseUrl host port) host (strip R name))
        _ _ hmem with hvalue | ⟨name, hname, hmem⟩
      · exact hc hvalue
      · exact h name hname hmem
  unfold NoBreak at hfill hvalue ⊢
  rw [hchar _ hvalue.1, hchar _ hvalue.2, ← forall₂_and]
  constructor
  · intro h hne
    obtain ⟨name, hname⟩ := exists_mem_of_ne_nil _ hne
    exact (hfill name hname).mp (h name hname)
  · intro h name hname
    exact (hfill name hname).mpr (h (ne_nil_of_mem hname))

/-- **An accepted header.** -/
theorem parseHeader_eq_ok {place : Str} {kv : Yaml × Yaml} {header : Str × Str}
    (h : parseHeader lib place kv = .ok header) :
    kv.1.text lib.repr = .ok header.1 ∧ kv.2.text lib.repr = .ok header.2 ∧ NoBreak header.2 ∧
      ∀ name ∈ interpolations header.2, strip lib.runtime name ∈ allowedInterpolations := by
  obtain ⟨text, htext, h⟩ := bind_eq_ok.mp h
  obtain ⟨key, hkey, h⟩ := bind_eq_ok.mp h
  obtain ⟨⟨⟩, hnames, h⟩ := bind_eq_ok.mp h
  split_ifs at h with hbreak
  · obtain ⟨written, -, h⟩ := bind_eq_ok.mp h
    cases h
  · cases h
    refine ⟨call_eq_ok_iff.mp hkey, call_eq_ok_iff.mp htext, not_or.mp hbreak, fun name hname => ?_⟩
    exact require_eq_ok_iff.mp (forM_eq_ok hnames name hname)

theorem head_relative (path : Str) : (relative path).head? = some '/' := by
  unfold relative
  dsimp only
  split_ifs with hroot
  · exact hroot
  · rfl

theorem ReadFrom.path_sentFor {d : Yaml.Dict} {request : Request} (h : ReadFrom lib d request)
    (host : Str) (port : ℕ) : (sentFor lib.runtime host port request).path = request.path := by
  obtain ⟨path, -, hrelative⟩ := h.path
  show (if substitute lib.runtime request.path [] host = [] then ['/']
    else substitute lib.runtime request.path [] host) = _
  rw [substitute_path h.plain]
  refine if_neg fun hnil => ?_
  have hhead := head_relative path
  rw [← hrelative, hnil] at hhead
  cases hhead

variable (R host port) in
/-- The header is safe when it is sent. -/
def HeaderSafe (header : Str × Str) : Prop :=
  NoBreak header.1 ∧ (interpolations header.2 ≠ [] → NoBreak host) ∧ Unmarked R header.1 ∧
    Unmarked R (substitute R header.2 (baseUrl host port) host)

theorem ReadFrom.headers_iff {d : Yaml.Dict} {request : Request} (h : ReadFrom lib d request) :
    (∀ header ∈ request.headers, HeaderSafe lib.runtime host port header) ↔
      ∀ entries, headersOf d = some entries → ∀ kv ∈ entries, ∀ name value,
        kv.1.text lib.repr = .ok name → kv.2.text lib.repr = .ok value →
          HeaderSafe lib.runtime host port (name, value) := by
  obtain ⟨entries, place, hentries, hheaders⟩ := h.headers
  constructor
  · intro hsafe entries' hentries' kv hkv name value hname hvalue
    cases hentries.symm.trans hentries'
    obtain ⟨header, hmem, hparse⟩ := exists_of_mem_mapM_left hheaders kv hkv
    obtain ⟨hname', hvalue', -⟩ := parseHeader_eq_ok hparse
    cases hname.symm.trans hname'
    cases hvalue.symm.trans hvalue'
    exact hsafe header hmem
  · intro hall header hmem
    obtain ⟨kv, hkv, hparse⟩ := exists_of_mem_mapM hheaders header hmem
    obtain ⟨hname, hvalue, -⟩ := parseHeader_eq_ok hparse
    exact hall entries hentries kv hkv _ _ hname hvalue

theorem ReadFrom.matchers_iff {d : Yaml.Dict} {request : Request} (h : ReadFrom lib d request) :
    (∀ m ∈ request.matchers, m.Quiet lib.runtime) ↔
      ∀ raws, matchersOf d = some raws → ∀ m, .dict m ∈ raws → ∀ words regexes,
        asTuple lib (Yaml.get m "words") = .ok words →
          asTuple lib (Yaml.get m "regex") = .ok regexes →
            ∀ term ∈ words ++ regexes, Unmarked lib.runtime term := by
  obtain ⟨raws, place, hraws, hmatchers⟩ := h.matchers
  constructor
  · intro hquiet raws' hraws' md hmd words regexes hwords hregexes
    cases hraws.symm.trans hraws'
    rw [← zipIdx_map_fst 0 raws] at hmd
    obtain ⟨p, hp, hfst⟩ := mem_map.mp hmd
    obtain ⟨m, hm, hparse⟩ := exists_of_mem_mapM_left hmatchers p hp
    obtain ⟨md', hmd', hwords', hregexes'⟩ := parseMatcher_eq_ok hparse
    cases hfst.symm.trans hmd'
    cases hwords.symm.trans hwords'
    cases hregexes.symm.trans hregexes'
    exact hquiet m hm
  · intro hall m hm
    obtain ⟨p, hp, hparse⟩ := exists_of_mem_mapM hmatchers m hm
    obtain ⟨md, hmd, hwords, hregexes⟩ := parseMatcher_eq_ok hparse
    have hmem : Yaml.dict md ∈ raws := by
      rw [← zipIdx_map_fst 0 raws, ← hmd]
      exact mem_map_of_mem hp
    exact hall raws hraws md hmem _ _ hwords hregexes

/-- **An accepted request is safe** exactly when its mapping is harmless. -/
theorem ReadFrom.safe_iff {d : Yaml.Dict} {request : Request} (h : ReadFrom lib d request) :
    (Safe lib.runtime (sentFor lib.runtime host port request) ∧
      ∀ m ∈ request.matchers, m.Quiet lib.runtime) ↔ Harmless lib host port d := by
  obtain ⟨path, hpath, hrelative⟩ := h.path
  obtain ⟨entries, place, hentries, hheaders⟩ := h.headers
  have hsent := h.path_sentFor host port
  have hplain := plain_iff (R := lib.runtime) h.plain
  have hheader : ∀ header ∈ request.headers,
      HeaderSafe lib.runtime host port header ↔ NoBreak header.1 ∧
        NoBreak (substitute lib.runtime header.2 (baseUrl host port) host) ∧
          Unmarked lib.runtime header.1 ∧
            Unmarked lib.runtime (substitute lib.runtime header.2 (baseUrl host port) host) := by
    intro header hmem
    obtain ⟨kv, -, hparse⟩ := exists_of_mem_mapM hheaders header hmem
    obtain ⟨-, -, hvalue, hnames⟩ := parseHeader_eq_ok hparse
    unfold HeaderSafe
    rw [noBreak_substitute_iff hvalue hnames]
  constructor
  · rintro ⟨hsafe, hquiet⟩
    have hunmarked := hsafe.unmarked
    have hclean := hsafe.plain
    rw [hsent] at hunmarked hclean
    refine ⟨fun path' hpath' => ?_, h.headers_iff.mp fun header hmem => ?_,
      h.matchers_iff.mp hquiet⟩
    · cases hpath.symm.trans hpath'
      rw [← hrelative]
      exact ⟨hplain.mp hclean, hunmarked.1⟩
    · have hmem' := mem_map_of_mem
        (f := fun h => (h.1, substitute lib.runtime h.2 (baseUrl host port) host)) hmem
      have hbreak := hsafe.noBreak _ hmem'
      have hmarked := hunmarked.2 _ hmem'
      exact (hheader header hmem).mpr ⟨hbreak.1, hbreak.2, hmarked.1, hmarked.2⟩
  · intro hharmless
    obtain ⟨hbreak, hunmarked⟩ := hharmless.path path hpath
    rw [← hrelative] at hbreak hunmarked
    have hsafe := h.headers_iff.mpr hharmless.headers
    have hall : ∀ header ∈ (sentFor lib.runtime host port request).headers,
        NoBreak header.1 ∧ NoBreak header.2 ∧ Unmarked lib.runtime header.1 ∧
          Unmarked lib.runtime header.2 := by
      intro header hmem
      obtain ⟨given, hgiven, rfl⟩ := mem_map.mp hmem
      exact (hheader given hgiven).mp (hsafe given hgiven)
    refine ⟨⟨h.method, ?_, ?_, ?_, fun header hmem => ?_, ?_, fun header hmem => ?_⟩,
      h.matchers_iff.mpr hharmless.matchers⟩
    · rw [hsent, hrelative]
      exact head_relative path
    · rw [hsent]
      exact h.noParent
    · rw [hsent]
      exact hplain.mpr hbreak
    · exact ⟨(hall header hmem).1, (hall header hmem).2.1⟩
    · rw [hsent]
      exact hunmarked
    · exact (hall header hmem).2.2

/-- **What an accepted template sends is safe**, and nothing is forbidden in its matchers, exactly
when each request of its document is harmless. -/
theorem requests_safe_iff (P : Patterns) (host : Str) (port : ℕ) {text source : Str}
    {template : Template} (hload : loadTemplate lib text source = .ok template) :
    ((∀ fetch stopAtFirst,
        ∀ sent ∈ (runTemplate lib.runtime P template host port fetch stopAtFirst).1,
          Safe lib.runtime sent) ∧
      ∀ request ∈ template.requests, ∀ m ∈ request.matchers, m.Quiet lib.runtime) ↔
    ∀ d, .dict d ∈ rawRequests lib text → Harmless lib host port d := by
  have hrequests := loadTemplate_eq_ok hload
  have hrun : (∀ fetch stopAtFirst,
      ∀ sent ∈ (runTemplate lib.runtime P template host port fetch stopAtFirst).1,
        Safe lib.runtime sent) ↔
      ∀ request ∈ template.requests, Safe lib.runtime (sentFor lib.runtime host port request) := by
    constructor
    · intro h request hrequest
      refine h (fun _ _ => some ⟨200, [], []⟩) false _ ?_
      rw [runTemplate, runFrom_answered fun _ _ => ⟨200, [], []⟩]
      exact mem_map_of_mem hrequest
    · intro h fetch stopAtFirst sent hsent
      obtain ⟨request, hrequest, rfl⟩ := exists_of_mem_runFrom hsent
      exact h request hrequest
  rw [hrun, ← forall₂_and]
  constructor
  · intro hsafe d hd
    rw [← zipIdx_map_fst 0 (rawRequests lib text)] at hd
    obtain ⟨p, hp, hfst⟩ := mem_map.mp hd
    obtain ⟨request, hrequest, hparse⟩ := exists_of_mem_mapM_left hrequests p hp
    obtain ⟨d', hd', hread⟩ := parseRequest_eq_ok hparse
    cases hfst.symm.trans hd'
    exact hread.safe_iff.mp (hsafe request hrequest)
  · intro hall request hrequest
    obtain ⟨p, hp, hparse⟩ := exists_of_mem_mapM hrequests request hrequest
    obtain ⟨d, hd, hread⟩ := parseRequest_eq_ok hparse
    refine hread.safe_iff.mpr (hall d ?_)
    rw [← zipIdx_map_fst 0 (rawRequests lib text), ← hd]
    exact mem_map_of_mem hp

end Sent

/-! ### A path that ends its line -/

/-- A library that reads one document, and writes its texts. -/
def plainLibrary (doc : Yaml) : Library where
  runtime := .ascii
  upper := List.map Char.toUpper
  safeLoad _ := .ok doc
  compile _ := .ok ()
  repr _ := .ok []
  reprText s := '\'' :: s ++ ['\'']
  sorted vs := .ok vs
  int _ := .ok 0
  float _ := .error .typeError

/-- The mapping of a request for a path, with a matcher of the status 200. -/
def pathRequest (path : Str) : Yaml.Dict :=
  [(.str "path", .str path), (.str "matchers", .list [.dict
    [(.str "type", .str "status"),
      (.str "status", .list [.scalar (some "200") true])]])]

/-- The document of a template with that request. -/
def pathDocument (path : Str) : Yaml :=
  .dict [(.str "id", .str "abc"),
    (.str "http", .list [.dict (pathRequest path)])]

/-- The text of that document; a path that ends its line is quoted, with an escape. -/
def pathText (written : Str) : Str :=
  "id: abc\nhttp:\n- path: " ++ written ++
    "\n  matchers:\n  - type: status\n    status: [200]\n"

theorem exists_ok_of_isSome {A E : Type} {x : Except E A} (h : x.toOption.isSome = true) :
    ∃ a, x = .ok a := by
  rcases x with e | a
  · cases h
  · exact ⟨a, rfl⟩

/-- The template that asks for one path. -/
theorem requests_safe_path : ∃ template,
    loadTemplate (plainLibrary (pathDocument "/a")) (pathText "/a")
      "a.yaml" = .ok template ∧
    (∀ fetch stopAtFirst, ∀ sent ∈ (runTemplate .ascii ⟨fun _ _ _ => none, fun _ _ => []⟩
      template "h.com" 80 fetch stopAtFirst).1, Safe .ascii sent) ∧
    ∀ request ∈ template.requests, ∀ m ∈ request.matchers, m.Quiet .ascii := by
  obtain ⟨template, hload⟩ := exists_ok_of_isSome (x := loadTemplate
    (plainLibrary (pathDocument "/a")) (pathText "/a") "a.yaml")
    (by decide +kernel)
  refine ⟨template, hload, (requests_safe_iff _ "h.com" 80 hload).mpr fun d hd => ?_⟩
  have hraw : rawRequests (plainLibrary (pathDocument "/a")) (pathText "/a") =
      [.dict (pathRequest "/a")] := by rfl
  rw [hraw] at hd
  cases mem_singleton.mp hd
  refine ⟨fun path hpath => ?_, fun entries hentries kv hkv => ?_,
    fun raws hraws m hm words regexes hwords hregexes term hterm => ?_⟩
  · cases hpath
    show _ ∧ forbiddenIn .ascii _ = none
    decide
  · have hnone : headersOf (pathRequest "/a") = some [] := by rfl
    cases hnone.symm.trans hentries
    cases hkv
  · have hone : matchersOf (pathRequest "/a") = some [.dict
        [(.str "type", .str "status"),
          (.str "status", .list [.scalar (some "200") true])]] := by rfl
    cases hone.symm.trans hraws
    cases mem_singleton.mp hm
    cases hwords
    cases hregexes
    cases hterm

/-- **A path that ends its line** is accepted, and sent. -/
theorem line_feed_sent : ¬ ∀ (lib : Library) (P : Patterns) (host : Str) (port : ℕ)
    (text source : Str) (template : Template), loadTemplate lib text source = .ok template →
    (∀ fetch stopAtFirst,
      ∀ sent ∈ (runTemplate lib.runtime P template host port fetch stopAtFirst).1,
        Safe lib.runtime sent) ∧
    ∀ request ∈ template.requests, ∀ m ∈ request.matchers, m.Quiet lib.runtime := by
  intro h
  let P : Patterns := ⟨fun _ _ _ => none, fun _ _ => []⟩
  have hsent : (loadTemplate (plainLibrary (pathDocument "/a\n"))
      (pathText "\"/a\\n\"") "a.yaml").toOption.any (fun template =>
        (runTemplate .ascii ⟨fun _ _ _ => none, fun _ _ => []⟩ template "h.com" 80
          (fun _ _ => some ⟨200, [], []⟩) false).1.any fun sent => decide ('\n' ∈ sent.path)) =
        true := by decide +kernel
  rcases hload : loadTemplate (plainLibrary (pathDocument "/a\n"))
    (pathText "\"/a\\n\"") "a.yaml" with refusal | template
  · rw [hload] at hsent
    cases hsent
  · rw [hload] at hsent
    obtain ⟨sent, hmem, hbreak⟩ := any_eq_true.mp hsent
    have hsafe := (h _ P "h.com" 80 _ _ template hload).1 _ false sent hmem
    exact absurd (hsafe.plain _ (of_decide_eq_true hbreak)).1 (by decide)

end Guardian.Templates

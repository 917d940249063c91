import Guardian.Findings.Scoring
import Guardian.Order.Table
import Guardian.Python.LongRuns

/-!
# Running a template

A template that has been loaded is run against a target: each of its requests is sent, its matchers
read a part of the response, and what matched becomes a short excerpt in which long runs of token
characters are masked.  `snippet_clean_iff` says when none of them is left.
-/

namespace Guardian.Templates

open Python Findings Guardian.Order List

/-! ### Templates -/

/-- What a matcher reads off a response. -/
inductive MatcherType
  | status
  | word
  | regex
  | size
  deriving DecidableEq

/-- The part of a response. -/
inductive Part
  | body
  | header
  | all
  | status
  deriving DecidableEq

/-- How several verdicts make one. -/
inductive Condition
  | and
  | or
  deriving DecidableEq

/-- One predicate over a response. -/
structure Matcher where
  type : MatcherType
  part : Part
  words : List Str
  regexes : List Str
  status : List ℤ
  sizes : List ℤ
  condition : Condition
  negative : Bool
  caseInsensitive : Bool
  name : Str

/-- What an extractor looks for. -/
inductive ExtractorType
  | regex
  | kval
  deriving DecidableEq

/-- A value that is pulled out of a response. -/
structure Extractor where
  type : ExtractorType
  name : Str
  part : Part
  regexes : List Str
  group : ℤ
  kval : List Str
  internal : Bool

/-- One probe. -/
structure Request where
  method : Str
  path : Str
  headers : List (Str × Str)
  matchers : List Matcher
  extractors : List Extractor
  matchersCondition : Condition

/-- The identifiers and the score of a weakness; a score is given by its text. -/
structure Classification where
  cveIds : List Str
  cweIds : List Str
  cvssScore : Option Str
  cvssMetrics : Str

/-- **A template.** -/
structure Template where
  id : Str
  name : Str
  severity : Severity
  requests : List Request
  author : Str
  description : Str
  remediation : Str
  tags : List Str
  reference : List Str
  classification : Classification
  redactEvidence : Bool
  source : Str

/-- A template that fired against a target. -/
structure Detection where
  template : Template
  target : Str
  port : ℕ
  path : Str
  status : ℕ
  matchedAt : Str
  snippet : Str
  extracted : List (Str × List Str)
  matcherName : Str

/-- What comes back from a fetch. -/
structure Response where
  status : ℕ
  headers : List (Str × Str)
  body : Str

/-- **The patterns of templates**, as `re` runs them: where a search finds a pattern, with or
without regard to case, and the groups of every match, the whole of it first. -/
structure Patterns where
  search : Str → Bool → Str → Option ℕ
  finditer : Str → Str → List (List (Option Str))

namespace Response

/-- `header_block`. -/
def headerBlock (response : Response) : Str :=
  ['\n'].intercalate (response.headers.map fun h => h.1 ++ ": " ++ h.2)

/-- `part`. -/
def part (response : Response) : Part → Str
  | .header => response.headerBlock
  | .status => Nat.toDigits 10 response.status
  | .all => Nat.toDigits 10 response.status ++ '\n' :: response.headerBlock ++ '\n' :: response.body
  | .body => response.body

end Response

/-! ### Redaction -/

/-- `[A-Za-z0-9+/_=-]`. -/
def isToken (c : Char) : Bool :=
  c.isAlpha || c.isDigit || decide (c ∈ ['+', '/', '_', '=', '-'])

/-- The length from which a run of token characters is masked. -/
def tokenLength : ℕ := 20

/-- `_TOKEN_RE`. -/
def tokenRe : Python.Matcher := Matcher.longRun tokenLength isToken

/-- The mark in place of a token. -/
def mark : Str := "***"

/-- **`redact`.** -/
def redact (text : Str) : Str := Python.Matcher.sub tokenRe (fun _ _ => mark) text

/-- `SNIPPET_MAX`. -/
def snippetMax : ℕ := 120

/-- `MAX_EXTRACTED_VALUES`. -/
def maxExtractedValues : ℕ := 5

/-- `MAX_EXTRACTED_LENGTH`. -/
def maxExtractedLength : ℕ := 120

/-! ### Matching -/

/-- `s.find(w)`, where it finds something. -/
def strFind (w s : Str) : Option ℕ := s.tails.findIdx? fun t => w.isPrefixOf t

/-- Whether several verdicts make one. -/
def Condition.holds (condition : Condition) (verdicts : List Bool) : Bool :=
  match condition with
  | .and => verdicts.all id
  | .or => verdicts.any id

section Running
variable (R : Runtime) (P : Patterns)

/-- `_terms_hit`. -/
def termsHit (m : Matcher) (response : Response) : Bool :=
  let part := response.part m.part
  let haystack := if m.caseInsensitive then lower R part else part
  match m.type with
  | .status => decide ((response.status : ℤ) ∈ m.status)
  | .size => decide ((response.body.length : ℤ) ∈ m.sizes)
  | .word =>
    let words := if m.caseInsensitive then m.words.map (lower R) else m.words
    m.condition.holds (words.map fun w => decide (w <:+: haystack))
  | .regex =>
    m.condition.holds (m.regexes.map fun p => (P.search p m.caseInsensitive haystack).isSome)

/-- **`matcher_hits`.** -/
def matcherHits (m : Matcher) (response : Response) : Bool :=
  if m.negative then !termsHit R P m response else termsHit R P m response

/-- Where a matcher finds one of its terms. -/
def foundAt (m : Matcher) (haystack : Str) : Option ℕ :=
  match m.type with
  | .word => m.words.findSome? fun w =>
    if m.caseInsensitive then strFind (lower R w) (lower R haystack) else strFind w haystack
  | .regex => m.regexes.findSome? fun p => P.search p m.caseInsensitive haystack
  | .status => none
  | .size => none

/-- The part that the first matcher with a term in it read, and where the term is. -/
def located (request : Request) (response : Response) : Option (Str × ℕ) :=
  request.matchers.findSome? fun m =>
    if m.negative then none
    else (foundAt R P m (response.part m.part)).map fun found => (response.part m.part, found)

/-- The excerpt of a part. -/
def excerpt (haystack : Str) (found : ℕ) : Str := strip R ((haystack.drop found).take snippetMax)

/-- **`_snippet`.** -/
def snippet (request : Request) (response : Response) (template : Template) : Str :=
  if template.redactEvidence then "<redacted>"
  else
    match located R P request response with
    | some (haystack, found) => redact (excerpt R haystack found)
    | none => []

/-- `match.group(group)`, if there is such a group. -/
def groupOf (group : ℤ) (groups : List (Option Str)) : Option (Option Str) :=
  if group < 0 then none else groups[group.toNat]?

/-- A header, by its name in lower case with underscores. -/
def headerKey (name : Str) : Str := (lower R name).map fun c => if c = '-' then '_' else c

/-- `_extract`. -/
def extract (e : Extractor) (response : Response) : List Str :=
  let values : List (Option Str) :=
    match e.type with
    | .kval => e.kval.filterMap fun key =>
      match lastBy (fun h => headerKey R h.1) (headerKey R key) response.headers with
      | some h => if h.2 = [] then none else some (some h.2)
      | none => none
    | .regex => e.regexes.flatMap fun p =>
      (P.finditer p (response.part e.part)).filterMap (groupOf e.group)
  ((values.take maxExtractedValues).reduceOption.filter fun v => !v.isEmpty).map fun v =>
    (redact v).take maxExtractedLength

/-- What a request that fired reports. -/
structure Verdict where
  snippet : Str
  extracted : List (Str × List Str)
  matcherName : Str

/-- The extracted values, by the names of their extractors. -/
def extractAll (extractors : List Extractor) (response : Response) : List (Str × List Str) :=
  extractors.zipIdx.foldl (fun found p =>
    let values := extract R P p.1 response
    let name := if p.1.name = [] then "extract-" ++ Nat.toDigits 10 p.2 else p.1.name
    if p.1.internal || values.isEmpty then found
    else amend Prod.fst name (fun _ => (name, values)) found) []

/-- **`evaluate`**, if the template fired. -/
def evaluate (template : Template) (request : Request) (response : Response) : Option Verdict :=
  let hits := request.matchers.map fun m => matcherHits R P m response
  if request.matchersCondition.holds hits then
    some {
      snippet := snippet R P request response template
      extracted := extractAll R P request.extractors response
      matcherName := ((request.matchers.find? fun m =>
        matcherHits R P m response && !m.name.isEmpty).map (·.name)).getD [] }
  else none

/-! ### Running -/

/-- `\{\{([^}]*)\}\}`. -/
def interpolationRe : Python.Matcher :=
  Python.Matcher.seqs [.lit "\x7b\x7b", .group "name" (.star (.chr (· ≠ '\x7d'))),
    .lit "\x7d\x7d"]

/-- What an interpolation stands for. -/
def interpolated (baseUrl hostname name : Str) : Str :=
  if name = "BaseURL" ∨ name = "RootURL" then baseUrl
  else if name = "Hostname" ∨ name = "Host" then hostname
  else []

/-- **`substitute`.** -/
def substitute (value baseUrl hostname : Str) : Str :=
  Python.Matcher.sub interpolationRe (fun _ k =>
    interpolated baseUrl hostname (strip R ((k.group "name").getD []))) value

/-- A request as it is handed to the fetch. -/
structure Sent where
  method : Str
  path : Str
  headers : List (Str × Str)
  deriving DecidableEq

/-- The address of a target. -/
def baseUrl (host : Str) (port : ℕ) : Str :=
  (if port = 443 then "https".toList else "http".toList) ++ "://".toList ++ host ++
    ':' :: Nat.toDigits 10 port

/-- What is sent for a request. -/
def sentFor (host : Str) (port : ℕ) (request : Request) : Sent where
  method := request.method
  path :=
    let path := substitute R request.path [] host
    if path = [] then ['/'] else path
  headers := request.headers.map fun h => (h.1, substitute R h.2 (baseUrl host port) host)

/-- The detection of a request that fired. -/
def detection (template : Template) (host : Str) (port : ℕ) (sent : Sent) (response : Response)
    (verdict : Verdict) : Detection where
  template := template
  target := host
  port := port
  path := sent.path
  status := response.status
  matchedAt := baseUrl host port ++ sent.path
  snippet := verdict.snippet
  extracted := verdict.extracted
  matcherName := verdict.matcherName

/-- The rest of a run: what is sent, and the detections.  A fetch is told how many requests came
before, and answers or refuses. -/
def runFrom (template : Template) (host : Str) (port : ℕ) (fetch : ℕ → Sent → Option Response)
    (stopAtFirst : Bool) : ℕ → List Request → List Sent × List Detection
  | _, [] => ([], [])
  | i, request :: requests =>
    let sent := sentFor R host port request
    match fetch i sent with
    | none => ([sent], [])
    | some response =>
      let found := (evaluate R P template request response).map
        (detection template host port sent response)
      if found.isSome && stopAtFirst then ([sent], found.toList)
      else
        let later := runFrom template host port fetch stopAtFirst (i + 1) requests
        (sent :: later.1, found.toList ++ later.2)

/-- **`run_template`.** -/
def runTemplate (template : Template) (host : Str) (port : ℕ) (fetch : ℕ → Sent → Option Response)
    (stopAtFirst : Bool) : List Sent × List Detection :=
  runFrom R P template host port fetch stopAtFirst 0 template.requests

end Running

/-! ### The requests of a run -/

section Requests
variable {R : Runtime} {P : Patterns} {template : Template} {host : Str} {port : ℕ}
  {fetch : ℕ → Sent → Option Response} {stopAtFirst : Bool}

theorem exists_of_mem_runFrom {requests : List Request} {i : ℕ} {sent : Sent}
    (h : sent ∈ (runFrom R P template host port fetch stopAtFirst i requests).1) :
    ∃ request ∈ requests, sent = sentFor R host port request := by
  induction requests generalizing i with
  | nil => cases h
  | cons request requests ih =>
    rw [runFrom] at h
    have hfirst : ∀ {s}, s ∈ [sentFor R host port request] →
        ∃ r ∈ request :: requests, s = sentFor R host port r := fun hs =>
      ⟨request, mem_cons_self, mem_singleton.mp hs⟩
    rcases hfetch : fetch i (sentFor R host port request) with _ | response
    · rw [hfetch] at h
      exact hfirst h
    · rw [hfetch] at h
      dsimp only at h
      split_ifs at h
      · exact hfirst h
      · rcases mem_cons.mp h with rfl | h
        · exact hfirst (mem_singleton_self _)
        · obtain ⟨r, hr, hsent⟩ := ih h
          exact ⟨r, mem_cons_of_mem _ hr, hsent⟩

/-- **A run that does not stop** sends every request, when each one is answered. -/
theorem runFrom_answered (answer : ℕ → Sent → Response) (requests : List Request) (i : ℕ) :
    (runFrom R P template host port (fun i sent => some (answer i sent)) false i requests).1 =
      requests.map (sentFor R host port) := by
  induction requests generalizing i with
  | nil => rfl
  | cons request requests ih =>
    rw [runFrom]
    dsimp only
    rw [Bool.and_false, if_neg Bool.false_ne_true, map_cons, ih]

end Requests

/-! ### What an excerpt shows -/

section Excerpts
variable {R : Runtime} {P : Patterns}

/-- The text before an excerpt, blanks included. -/
def beforeExcerpt (R : Runtime) (haystack : Str) (found : ℕ) : Str :=
  haystack.take found ++ ((haystack.drop found).take snippetMax).takeWhile R.isSpace

/-- The text after an excerpt, blanks included. -/
def afterExcerpt (R : Runtime) (haystack : Str) (found : ℕ) : Str :=
  (((haystack.drop found).take snippetMax).dropWhile R.isSpace).rtakeWhile R.isSpace ++
    haystack.drop (found + snippetMax)

/-- **An excerpt is a piece of the part.** -/
theorem around_excerpt (haystack : Str) (found : ℕ) :
    beforeExcerpt R haystack found ++ excerpt R haystack found ++ afterExcerpt R haystack found =
      haystack := by
  have hcut : ∀ s : Str, s.takeWhile R.isSpace ++ strip R s ++
      (s.dropWhile R.isSpace).rtakeWhile R.isSpace = s := by
    intro s
    rw [append_assoc, strip, rstrip, lstrip, rdropWhile_append_rtakeWhile,
      takeWhile_append_dropWhile]
  have hpiece := hcut ((haystack.drop found).take snippetMax)
  calc beforeExcerpt R haystack found ++ excerpt R haystack found ++
        afterExcerpt R haystack found
      = haystack.take found ++ ((haystack.drop found).take snippetMax ++
          haystack.drop (found + snippetMax)) := by
        conv_rhs => rw [← hpiece]
        simp only [beforeExcerpt, excerpt, afterExcerpt, append_assoc]
    _ = haystack := by
        rw [← drop_drop, take_append_drop, take_append_drop]

/-- What is masked has the characters that its trace names. -/
theorem redact_eq (text : Str) :
    redact text = Matcher.ofTrace mark text (Matcher.trace tokenRe text) :=
  (Matcher.flatMap_trace mark text Matcher.textAt_longRun).symm

/-- **Where the characters of a redacted excerpt come from**: positions of the part, or the mark. -/
def shown (R : Runtime) (haystack : Str) (found : ℕ) : List (Option ℕ) :=
  (Matcher.trace tokenRe (excerpt R haystack found)).map
    (Option.map ((beforeExcerpt R haystack found).length + ·))

/-- A redacted excerpt has the characters of the part that are shown. -/
theorem redact_excerpt (haystack : Str) (found : ℕ) :
    redact (excerpt R haystack found) = Matcher.ofTrace mark haystack (shown R haystack found) := by
  have hlt : ∀ i, some i ∈ Matcher.trace tokenRe (excerpt R haystack found) →
      i < (excerpt R haystack found).length := fun i hi =>
    Matcher.lt_length_of_stays ((Matcher.mem_trace_iff (by decide)).mp hi)
  have hshift := Matcher.ofTrace_map_add (beforeExcerpt R haystack found)
    (afterExcerpt R haystack found) mark hlt
  rw [around_excerpt] at hshift
  rw [redact_eq]
  exact hshift.symm

theorem mem_shown {haystack : Str} {found j : ℕ} :
    some j ∈ shown R haystack found ↔
      ∃ i, some i ∈ Matcher.trace tokenRe (excerpt R haystack found) ∧
        (beforeExcerpt R haystack found).length + i = j := by
  simp [shown, Option.map_eq_some_iff]

/-- **The snippet shows nothing that is masked in the part**: it consists of characters of the part
and of marks, and each character that is copied into it is copied when the part is redacted. -/
def Clean (R : Runtime) (P : Patterns) (request : Request) (response : Response)
    (template : Template) : Prop :=
  template.redactEvidence = true ∧ snippet R P request response template = "<redacted>" ∨
    ∀ haystack found, located R P request response = some (haystack, found) →
      snippet R P request response template =
          Matcher.ofTrace mark haystack (shown R haystack found) ∧
        redact haystack = Matcher.ofTrace mark haystack (Matcher.trace tokenRe haystack) ∧
        ∀ i, some i ∈ shown R haystack found → some i ∈ Matcher.trace tokenRe haystack

/-- **When an excerpt shows nothing that is masked in the part.** -/
theorem snippet_clean_iff (R : Runtime) (P : Patterns) (request : Request) (response : Response)
    (template : Template) : Clean R P request response template ↔
      (template.redactEvidence = true ∨
        ∀ haystack found, located R P request response = some (haystack, found) →
          Matcher.Uncut tokenLength isToken (beforeExcerpt R haystack found)
            (excerpt R haystack found) (afterExcerpt R haystack found)) := by
  have hpos : 0 < tokenLength := by decide
  unfold Clean
  rcases hred : template.redactEvidence with _ | _
  · have hsnippet : ∀ haystack found, located R P request response = some (haystack, found) →
        snippet R P request response template =
          Matcher.ofTrace mark haystack (shown R haystack found) := by
      intro haystack found hlocated
      rw [snippet, hred, if_neg Bool.false_ne_true, hlocated]
      exact redact_excerpt haystack found
    refine or_congr (by simp) (forall_congr' fun haystack => forall_congr' fun found =>
      forall_congr' fun hlocated => ?_)
    rw [and_iff_right (hsnippet haystack found hlocated), and_iff_right (redact_eq haystack),
      ← Matcher.stays_excerpt_iff, around_excerpt]
    simp only [mem_shown, forall_exists_index, and_imp, forall_apply_eq_imp_iff₂, tokenRe,
      Matcher.mem_trace_iff hpos]
  · have hsnippet : snippet R P request response template = "<redacted>" := by
      rw [snippet, hred, if_pos rfl]
    exact iff_of_true (Or.inl ⟨rfl, hsnippet⟩) (Or.inl rfl)

end Excerpts

/-! ### A token that is cut short -/

/-- A template with one request, which looks for a letter. -/
def letterRequest : Request where
  method := "GET"
  path := ['/']
  headers := []
  matchers := [⟨.word, .body, [['b']], [], [], [], .or, false, false, []⟩]
  extractors := []
  matchersCondition := .and

/-- A template that shows its evidence. -/
def letterTemplate : Template where
  id := []
  name := []
  severity := .info
  requests := [letterRequest]
  author := []
  description := []
  remediation := []
  tags := []
  reference := []
  classification := ⟨[], [], none, []⟩
  redactEvidence := false
  source := []

/-- A response whose body ends with the letter, as the last character of a token. -/
def tokenResponse : Response where
  status := 200
  headers := []
  body := replicate 20 'a' ++ ['b']

/-- **A token is shown from the match on** if what is left of it is short. -/
theorem cut_token_shown : ¬ ∀ (R : Runtime) (P : Patterns) (request : Request)
    (response : Response) (template : Template), Clean R P request response template := by
  intro h
  let P : Patterns := ⟨fun _ _ _ => none, fun _ _ => []⟩
  rcases h .ascii P letterRequest tokenResponse letterTemplate with ⟨hred, -⟩ | hclean
  · cases hred
  · have hkept : some 20 ∈ shown .ascii tokenResponse.body 20 := by decide
    have hshown := (hclean tokenResponse.body 20 (by decide)).2.2 20 hkept
    have hlong : ¬ Matcher.Stays tokenLength isToken
        ([] ++ (tokenResponse.body ++ [])) (([] : Str).length + 20) :=
      Matcher.not_stays (by decide) (by decide) (by decide)
    rw [nil_append, append_nil] at hlong
    rw [tokenRe, Matcher.mem_trace_iff (by decide)] at hshown
    exact hlong hshown

end Guardian.Templates

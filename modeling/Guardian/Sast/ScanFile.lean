import Guardian.Python.Lines
import Guardian.Sast.Masking
import Guardian.Sast.PatternRules
import Guardian.Sast.Taint

/-!
# Scanning a file

The engine matches the pattern rules line by line in the masked copy of a file, so that what a rule
needs of a comment or a literal is not there.  It masks a text as a whole and pairs its lines with
those of the original by number: a masked text keeps its line feeds, but `splitlines` knows nine
more characters that end a line.  `keepsShape_iff` says when both have the same lines;
`reportedOn_of_code` says what is reported.
-/

namespace Guardian.Sast.Masking

open Python

variable {st : Style} {R : Runtime}

/-- **A masked text has the shape of the text**: each of its characters is that of the text or a
blank, and its lines are as many, and as long. -/
structure KeepsShape (masked text : Str) : Prop where
  chars : List.Forall₂ (fun m c => m = c ∨ m = ' ') masked text
  lines : (splitlines masked).map List.length = (splitlines text).map List.length

/-- **Other line breaks than line feeds stand in code only**. -/
def BreaksInCode (st : Style) (text : Str) : Prop :=
  ∃ ms, textOf ms = text ∧ Reads st ms [] ∧
    ∀ p ∈ ms, isLineBreak p.1 = true → p.1 ≠ '\n' → p.2 = true

theorem shown_eq_or (p : Char × Bool) : shown p = p.1 ∨ shown p = ' ' := by
  unfold shown blank
  split_ifs with _ h
  · exact Or.inl rfl
  · exact Or.inl h.symm
  · exact Or.inr rfl

theorem shown_of_lineBreak {p : Char × Bool} (h : isLineBreak (shown p) = true) : shown p = p.1 :=
  (shown_eq_or p).resolve_right fun heq => by simp [heq, isLineBreak] at h

theorem forall₂_shown (ms : Reading) :
    List.Forall₂ (fun m c => m = c ∨ m = ' ') (ms.map shown) (textOf ms) := by
  rw [textOf, List.forall₂_map_left_iff, List.forall₂_map_right_iff, List.forall₂_same]
  exact fun p _ => shown_eq_or p

theorem shown_lineBreak {p : Char × Bool} (h : isLineBreak p.1 = true) :
    shown p = p.1 ↔ (p.1 ≠ '\n' → p.2 = true) := by
  rcases p with ⟨c, _ | _⟩
  · have hblank : c ≠ ' ' := by
      rintro rfl
      simp [isLineBreak] at h
    by_cases hc : c = '\n'
    · simp [shown, blank, hc]
    · simp [shown, blank, hc, hblank.symm]
  · simp [shown]

variable (R) in
/-- **A masked text has the shape of the text** exactly if its language is not supported, or no line
break other than a line feed stands in a comment or a literal. -/
theorem keepsShape_iff (text suffix : Str) : KeepsShape (maskNonCode R text suffix) text ↔
    ∀ st, styleOf R suffix = some st → BreaksInCode st text := by
  unfold maskNonCode
  rcases styleOf R suffix with _ | st
  · refine ⟨fun _ st h => (nomatch h), fun _ => ⟨?_, rfl⟩⟩
    exact List.forall₂_same.mpr fun c _ => Or.inl rfl
  simp only [Option.some.injEq, forall_eq']
  have hlines : ∀ ms : Reading, Reads st ms [] →
      (KeepsShape (mask st (textOf ms)) (textOf ms) ↔
        ∀ p ∈ ms, isLineBreak p.1 = true → p.1 ≠ '\n' → p.2 = true) := by
    intro ms hms
    rw [mask_textOf hms]
    have hcovered := @map_length_splitlines_eq_iff _ shown Prod.fst ms fun _ => shown_of_lineBreak
    constructor
    · intro h p hp hbreak
      exact (shown_lineBreak hbreak).mp (hcovered.mp h.lines p hp hbreak)
    · intro h
      refine ⟨forall₂_shown ms, hcovered.mpr fun p hp hbreak => ?_⟩
      exact (shown_lineBreak hbreak).mpr (h p hp hbreak)
  constructor
  · intro h
    obtain ⟨ms, rfl, hms⟩ := exists_reads st text
    exact ⟨ms, rfl, hms, (hlines ms hms).mp h⟩
  · rintro ⟨ms, rfl, hms, h⟩
    exact (hlines ms hms).mpr h

/-- A form feed in a comment. -/
theorem form_feed : ¬∀ text suffix : Str, KeepsShape (maskNonCode Runtime.ascii text suffix) text := by
  intro h
  have hlines := (h "# \x0c\neval(x)" ".py").lines
  revert hlines
  decide

end Guardian.Sast.Masking

namespace Guardian.Sast.Engine

open Python Python.Matcher Findings Sast.Masking

/-! ### Findings -/

/-- What the engine reads of a `Sink`. -/
structure FlowSink where
  id : Str
  title : Str
  cwe : Str
  owasp : Str
  remediation : Str

/-- `TaintFinding`. -/
structure Flow where
  sink : FlowSink
  path : Str
  line : ℕ
  code : Str
  sourceKind : Str
  trace : List TraceStep
  confidence : Str
  severity : Severity
  interprocedural : Bool

/-- The location of a finding. -/
structure Location where
  path : Str
  line : ℕ
  rule : Str
  deriving DecidableEq

/-- The evidence of a finding; the flow is there with its origin if it was analysed. -/
structure Evidence where
  location : Location
  excerpt : Str
  dataflow : Option (List TraceStep × Str)
  analysis : Str

/-- `RawFinding`, as far as it is not the same for all of them. -/
structure Finding where
  title : Str
  category : Str
  description : Str
  baseSeverity : Severity
  confidence : Str
  cweId : Str
  owaspRef : Str
  location : Location
  evidence : Evidence
  reference : Str

/-- `_demote`. -/
def demote : Severity → Severity
  | .info => .info
  | .low => .info
  | .medium => .low
  | .high => .medium
  | .critical => .high

/-- `_cwe_url`. -/
def cweUrl (cwe : Str) : Str :=
  "https://cwe.mitre.org/data/definitions/" ++ (cwe.splitOn '-').getD 1 [] ++ ".html"

def origins : List (Str × Str) :=
  [("request", "an HTTP request"), ("route-parameter", "a route handler parameter"),
    ("stdin", "standard input"), ("argv", "the command line"),
    ("parameter", "a function parameter")].map fun p => (p.1.toList, p.2.toList)

/-- `_taint_finding`. -/
def taintFinding (flow : Flow) (isTest : Bool) : Finding :=
  let origin := (origins.lookup flow.sourceKind).getD flow.sourceKind
  let location := ⟨flow.path, flow.line, flow.sink.id⟩
  { title := flow.sink.title
    category := "injection"
    description := flow.sink.title ++ ". Data from " ++ origin ++
      " reaches this call in " ++ (toString flow.trace.length).toList ++
      " step(s) without being neutralized for " ++ flow.sink.cwe ++ "." ++
      (if flow.interprocedural then
        " The flow crosses a function boundary within this file.".toList else []) ++
      (if flow.sink.remediation = [] then [] else ' ' :: flow.sink.remediation)
    baseSeverity := if isTest then demote flow.severity else flow.severity
    confidence := flow.confidence
    cweId := flow.sink.cwe
    owaspRef := flow.sink.owasp
    location
    evidence := ⟨location, flow.code, some (flow.trace, origin), "taint"⟩
    reference := cweUrl flow.sink.cwe }

/-- `_pattern_finding`. -/
def patternFinding (rule : Rule) (path : Str) (lineno : ℕ) (line : Str) (isTest : Bool) : Finding :=
  let excerpt := if line.length ≤ 200 then line else line.take 200 ++ "…"
  let location := ⟨path, lineno, rule.id⟩
  { title := rule.title
    category := "insecure-code"
    description := rule.title ++ " detected. This pattern maps to " ++ rule.cwe ++
      "." ++ (if rule.remediation = [] then [] else ' ' :: rule.remediation) ++
      (if isTest then " Reported at reduced severity: the file looks like test code.".toList
        else [])
    baseSeverity := if isTest then demote rule.severity else rule.severity
    confidence := if isTest then "low".toList else "medium".toList
    cweId := rule.cwe
    owaspRef := rule.owasp
    location
    evidence := ⟨location, excerpt, none, "pattern"⟩
    reference := cweUrl rule.cwe }

/-! ### `_scan_file` -/

section Scan
variable (R : Runtime)

def suppresses (line : Str) : Bool :=
  ["# nosec", "#nosec", "guardian:ignore"].any fun mark => decide (mark.toList <:+: lower R line)

/-- `suppressed_lines`. -/
def suppressedLines (text : Str) : List ℕ :=
  ((splitlines text).zipIdx 1).filterMap fun p => if suppresses R p.1 then some p.2 else none

/-- `_TEST_MARKERS[:3]`. -/
def directoryMarkers : List Str := ["/tests/", "/test/", "/spec/"].map String.toList

/-- `_TEST_MARKERS[3:]`. -/
def nameMarkers : List Str := ["_test.", "test_", ".spec.", ".test."].map String.toList

/-- `_looks_like_test`. -/
def looksLikeTest (path : Str) : Bool :=
  let normalized := '/' :: (path.map fun c => if c = '\\' then '/' else c).dropWhile (· == '/')
  let lowered := lower R normalized
  let name := (rpartition '/' lowered).2.2
  (directoryMarkers.any fun m => decide (m <:+: lowered)) ||
    nameMarkers.any fun m => decide (m <:+: name)

/-- `applicable`. -/
def applicable (path suffix : Str) : List Rule :=
  (rules R).filter fun r => suffix ∈ r.suffixes ∧ ¬(looksLikeTest R path ∧ r.skipInTests)

def flows (analyzePython : Str → Str → List Flow) (path text suffix : Str) : List Flow :=
  if suffix ∈ py then
    (analyzePython text path).filter fun flow => flow.line ∉ suppressedLines R text
  else []

/-- The patterns are matched with the line. -/
def isMatched (text : Str) (line : Str) (lineno : ℕ) : Bool :=
  decide (lineno ∉ suppressedLines R text ∧ strip R line ≠ [] ∧ line.length ≤ 4000)

/-- **`_scan_file`.** -/
def scanFile (analyzePython : Str → Str → List Flow) (path text suffix : Str) : List Finding :=
  let isTest := looksLikeTest R path
  let flows := flows R analyzePython path text suffix
  let taintLines := flows.map fun flow => (flow.sink.cwe, flow.line)
  let maskedLines := splitlines (maskNonCode R text suffix)
  let originalLines := splitlines text
  flows.map (fun flow => taintFinding flow isTest) ++
    (maskedLines.zipIdx 1).flatMap fun (line, lineno) =>
      if isMatched R text line lineno then
        ((applicable R path suffix).filter fun r =>
          search r.pattern line ∧ (r.cwe, lineno) ∉ taintLines).map fun r =>
            patternFinding r path lineno (strip R (originalLines.getD (lineno - 1) [])) isTest
      else []

/-! ### Matches in the source -/

/-- **A reading of a text** in the language of a suffix. -/
def ReadsAs (suffix text : Str) (ms : Reading) : Prop :=
  textOf ms = text ∧
    match styleOf R suffix with
    | some st => Reads st ms []
    | none => ∀ p ∈ ms, p.2 = true

/-- The character is code. -/
def InCode (suffix text : Str) (i : ℕ) : Prop :=
  ∃ ms, ReadsAs R suffix text ms ∧ ∃ c, ms[i]? = some (c, true)

def lineNumber (text : Str) (i : ℕ) : ℕ := (splitlines (text.take (i + 1))).length

/-- A pattern matches at a position of a text, in the whole text or in its line. -/
def MatchesAt (m : Matcher) (text : Str) (i : ℕ) : Prop :=
  m ⟨(text.take i).reverse, text.drop i, []⟩ ≠ [] ∨
    m ⟨(text.take i).reverse.takeWhile (!isLineBreak ·),
      (text.drop i).takeWhile (!isLineBreak ·), []⟩ ≠ []

/-- **A rule matches on a line of a file**: the match starts in code, in a language of the rule, and
the line is not suppressed. -/
def MatchedOn (rule : Rule) (text suffix : Str) (n : ℕ) : Prop :=
  suffix ∈ rule.suffixes ∧ n ∉ suppressedLines R text ∧
    ∃ i < text.length, n = lineNumber text i ∧ InCode R suffix text i ∧ MatchesAt rule.pattern text i

/-- **A rule is reported on a line**: by its finding, or by that of a flow of its class. -/
def ReportedOn (analyzePython : Str → Str → List Flow) (rule : Rule) (path text suffix : Str)
    (n : ℕ) : Prop :=
  (∃ line isTest, patternFinding rule path n line isTest ∈
      scanFile R analyzePython path text suffix) ∨
    ∃ flow ∈ analyzePython text path, flow.line = n ∧ flow.sink.cwe = rule.cwe ∧
      ∃ isTest, taintFinding flow isTest ∈ scanFile R analyzePython path text suffix

/-- **A rule is found in the code of a line**: its pattern matches in a stretch of code that cuts no
word, read by itself, which is the whole line for a rule that looks around. -/
def FoundInCode (rule : Rule) (line : Reading) : Prop :=
  ∃ pre code post, line = pre ++ code ++ post ∧ (∀ p ∈ code, p.2 = true) ∧
    (∃ p ∈ code, R.isSpace p.1 = false) ∧
      (∀ p ∈ pre.getLast?, p.2 = true → isWord R p.1 = false) ∧
        (∀ p ∈ post.head?, p.2 = true → isWord R p.1 = false) ∧
          (rule.id ∈ lookingRules → pre = [] ∧ post = []) ∧
            search rule.pattern (textOf code) = true

/-- **A rule is found in code**, on a line of at most 4000 characters: no line break but line feeds
stands in a comment or a literal, and the rule is not one that leaves tests out, in a test. -/
def StandsInCode (rule : Rule) (path text suffix : Str) (n : ℕ) : Prop :=
  ¬(looksLikeTest R path ∧ rule.skipInTests) ∧ ∃ ms line, ReadsAs R suffix text ms ∧
    (∀ p ∈ ms, isLineBreak p.1 = true → p.1 ≠ '\n' → p.2 = true) ∧
      (line, n) ∈ (linesFrom Prod.fst [] ms).zipIdx 1 ∧ line.length ≤ 4000 ∧ FoundInCode R rule line

/-- The analysis finds a flow of the class of a rule on a line. -/
def Flows (analyzePython : Str → Str → List Flow) (rule : Rule) (path text suffix : Str) (n : ℕ) :
    Prop :=
  suffix ∈ py ∧ ∃ flow ∈ analyzePython text path, flow.line = n ∧ flow.sink.cwe = rule.cwe

end Scan

variable {R : Runtime} {analyzePython : Str → Str → List Flow} {rule : Rule}
  {path text suffix : Str} {n : ℕ} {ms : Reading}

/-! ### Masked text -/

theorem maskNonCode_eq (h : ReadsAs R suffix text ms) :
    maskNonCode R text suffix = ms.map shown := by
  obtain ⟨rfl, hms⟩ := h
  unfold maskNonCode
  revert hms
  rcases styleOf R suffix with _ | st <;> intro hms
  · refine List.map_congr_left fun p hp => ?_
    rw [shown, if_pos (hms p hp)]
  · exact mask_textOf hms

theorem mem_splitlines_shown {line : Reading}
    (hbreaks : ∀ p ∈ ms, isLineBreak p.1 = true → p.1 ≠ '\n' → p.2 = true)
    (h : (line, n) ∈ (linesFrom Prod.fst [] ms).zipIdx 1) :
    (line.map shown, n) ∈ (splitlines (ms.map shown)).zipIdx 1 := by
  have hlines : splitlines (ms.map shown) = (linesFrom shown [] ms).map (List.map shown) :=
    splitlinesFrom_map shown [] ms
  rw [hlines, linesFrom_congr (fun _ => shown_of_lineBreak)
    fun p hp hbreak => (shown_lineBreak hbreak).mpr (hbreaks p hp hbreak), List.zipIdx_map]
  exact List.mem_map_of_mem h

/-- **What is found in the code of a line** is found when the rest of the line is blank. -/
theorem FoundInCode.shown {line : Reading} (h : FoundInCode R rule line) (hrule : rule ∈ rules R) :
    strip R (line.map Masking.shown) ≠ [] ∧ search rule.pattern (line.map Masking.shown) = true := by
  obtain ⟨pre, code, post, rfl, hcode, ⟨p, hp, hspace⟩, hpre, hpost, hlooking, hsearch⟩ := h
  have hkept : code.map Masking.shown = textOf code :=
    List.map_congr_left fun p hp => by rw [Masking.shown, if_pos (hcode p hp)]
  have hmem : p.1 ∈ textOf code := List.mem_map_of_mem hp
  have hside : ∀ {o : Option (Char × Bool)}, (∀ p ∈ o, p.2 = true → isWord R p.1 = false) →
      (o.map Masking.shown).any (isWord R) = false := by
    rintro (_ | ⟨c, _ | _⟩) ho
    · rfl
    · show isWord R (blank c) = false
      rcases blank_eq_or c with hc | hc
      · rw [hc, isWord_ascii R (by decide)]
        decide
      · rw [hc, isWord_ascii R (by decide)]
        decide
    · exact ho _ rfl rfl
  rw [List.map_append, List.map_append, hkept]
  constructor
  · intro hnil
    obtain ⟨a, b, hab, hb, ha, hback⟩ := strip_spec R
      (pre.map Masking.shown ++ textOf code ++ post.map Masking.shown)
    rw [hnil, List.nil_append] at hb
    have hall := List.mem_append_left (post.map Masking.shown)
      (List.mem_append_right (pre.map Masking.shown) hmem)
    rw [hab, hb] at hall
    rw [(List.mem_append.mp hall).elim (ha _) (hback _)] at hspace
    cases hspace
  · by_cases hid : rule.id ∈ lookingRules
    · obtain ⟨rfl, rfl⟩ := hlooking hid
      simpa using hsearch
    · refine search_of_persists (persists_of_mem_rules ?_ ?_ _ hrule hid) hsearch
      · rw [List.head?_reverse, List.getLast?_map]
        exact hside hpre
      · rw [List.head?_map]
        exact hside hpost

/-! ### What is reported -/

/-- **What is reported of a file**: the flows, and the rules whose pattern is found in a line of the
masked text. -/
theorem mem_scanFile {f : Finding} : f ∈ scanFile R analyzePython path text suffix ↔
    (∃ flow ∈ flows R analyzePython path text suffix, taintFinding flow (looksLikeTest R path) = f) ∨
    ∃ line lineno, (line, lineno) ∈ (splitlines (maskNonCode R text suffix)).zipIdx 1 ∧
      isMatched R text line lineno = true ∧ ∃ r ∈ applicable R path suffix,
        search r.pattern line = true ∧
        (r.cwe, lineno) ∉ (flows R analyzePython path text suffix).map
          (fun flow => (flow.sink.cwe, flow.line)) ∧
        patternFinding r path lineno (strip R ((splitlines text).getD (lineno - 1) []))
          (looksLikeTest R path) = f := by
  unfold scanFile
  simp only [List.mem_append, List.mem_map, List.mem_flatMap, Prod.exists]
  refine or_congr_right (exists_congr fun line => exists_congr fun lineno => and_congr_right
    fun _ => ?_)
  split_ifs with h
  · simp only [h, List.mem_map, List.mem_filter, decide_eq_true_eq, true_and, and_assoc]
  · simp [h]

theorem patternFinding_ne_taintFinding {flow : Flow} {line : Str} {isTest isTest' : Bool} :
    patternFinding rule path n line isTest ≠ taintFinding flow isTest' := by
  intro h
  have hflow := congrArg (fun f => f.evidence.dataflow.isSome) h
  cases hflow

/-- **A rule is reported on a line** exactly if it applies, and its pattern is found in the line of
the masked text. -/
theorem patternFinding_mem_iff (hrule : rule ∈ rules R) :
    (∃ line isTest, patternFinding rule path n line isTest ∈
      scanFile R analyzePython path text suffix) ↔
    rule ∈ applicable R path suffix ∧
      (rule.cwe, n) ∉ (flows R analyzePython path text suffix).map
        (fun flow => (flow.sink.cwe, flow.line)) ∧
      ∃ line, (line, n) ∈ (splitlines (maskNonCode R text suffix)).zipIdx 1 ∧
        isMatched R text line n = true ∧ search rule.pattern line = true := by
  constructor
  · rintro ⟨original, isTest, hmem⟩
    rcases mem_scanFile.mp hmem with ⟨flow, -, hflow⟩ | ⟨line, m, hline, hmatched, r, hr, hsearch,
      hflows, hfinding⟩
    · exact absurd hflow.symm patternFinding_ne_taintFinding
    · have hlocation : (⟨path, m, r.id⟩ : Location) = ⟨path, n, rule.id⟩ :=
        congrArg Finding.location hfinding
      obtain ⟨-, rfl, hid⟩ := Location.mk.inj hlocation
      obtain rfl : r = rule :=
        List.inj_on_of_nodup_map (nodup_id R) (List.mem_filter.mp hr).1 hrule hid
      exact ⟨hr, hflows, line, hline, hmatched, hsearch⟩
  · rintro ⟨hr, hflows, line, hline, hmatched, hsearch⟩
    exact ⟨_, _, mem_scanFile.mpr
      (Or.inr ⟨line, n, hline, hmatched, rule, hr, hsearch, hflows, rfl⟩)⟩

/-! ### Rules that need a quote -/

theorem exists_styleOf (hrule : rule ∈ rules R) (hsuffix : suffix ∈ rule.suffixes) :
    ∃ st, styleOf R suffix = some st := by
  have hlist : (rules R).map Rule.suffixes = List.replicate 17 py ++ List.replicate 9 js ++
      List.replicate 6 java ++ List.replicate 4 go ++ List.replicate 4 php ++
        List.replicate 2 ruby ++ List.replicate 2 cs := rfl
  have hmem : suffix ∈ py ++ js ++ java ++ go ++ php ++ ruby ++ cs := by
    have hsuffixes := List.mem_map_of_mem (f := Rule.suffixes) hrule
    rw [hlist] at hsuffixes
    simp only [List.mem_append, List.mem_replicate, ne_eq] at hsuffixes ⊢
    rcases hsuffixes with (((((⟨-, h⟩ | ⟨-, h⟩) | ⟨-, h⟩) | ⟨-, h⟩) | ⟨-, h⟩) | ⟨-, h⟩) | ⟨-, h⟩ <;>
      simp [← h, hsuffix]
  have hascii : ∀ s ∈ py ++ js ++ java ++ go ++ php ++ ruby ++ cs,
      (∀ c ∈ s, IsAscii c ∧ c.toLower = c) ∧
        (s ∈ pyLike ∨ s ∈ hashOnly ∨ s ∈ slashAndHash ∨ s ∈ cLike) := by decide
  obtain ⟨hlower, hlike⟩ := hascii suffix hmem
  unfold styleOf
  rw [lower_of_ascii hlower]
  dsimp only
  split_ifs with hpy hhash hphp hc
  · exact ⟨_, rfl⟩
  · exact ⟨_, rfl⟩
  · exact ⟨_, rfl⟩
  · exact ⟨_, rfl⟩
  · simp [hpy, hhash, hphp, hc] at hlike

/-- **No quote is left** in a masked text. -/
theorem not_isQuote_of_mem_mask (hrule : rule ∈ rules R) (hsuffix : suffix ∈ rule.suffixes) :
    ∀ c ∈ maskNonCode R text suffix, ¬IsQuote c := by
  obtain ⟨st, hst⟩ := exists_styleOf hrule hsuffix
  obtain ⟨ms, rfl, hms⟩ := exists_reads st text
  rw [maskNonCode, hst]
  dsimp only
  rw [mask_textOf hms]
  intro c hc hquote
  obtain ⟨⟨d, code⟩, hp, rfl⟩ := List.mem_map.mp hc
  rcases code with _ | _
  · have hblank : shown (d, false) = '\n' ∨ shown (d, false) = ' ' := blank_eq_or d
    have hnot : ∀ c ∈ ['\n', ' '], ¬IsQuote c := by
      unfold IsQuote
      decide
    exact hnot _ (by simpa using hblank) hquote
  · have hquotes : d ∈ quotes := by
      rcases hquote with hd | hd <;> simp [quotes, show d = _ from hd]
    exact hms.notMem_quotes _ hp rfl hquotes

/-- **A rule that needs a quote reports nothing**, whatever the file. -/
theorem patternFinding_notMem (hrule : rule ∈ rules R) (hpattern : rule.pattern ∈ quotedPatterns R)
    (line : Str) (isTest : Bool) :
    patternFinding rule path n line isTest ∉ scanFile R analyzePython path text suffix := by
  intro hmem
  obtain ⟨happlicable, -, masked, hmasked, -, hsearch⟩ :=
    (patternFinding_mem_iff hrule).mp ⟨line, isTest, hmem⟩
  have hsuffix : suffix ∈ rule.suffixes := (of_decide_eq_true (List.mem_filter.mp happlicable).2).1
  have hnone := search_eq_false (s := masked) (needs_quote R _ hpattern) fun c hc =>
    not_isQuote_of_mem_mask hrule hsuffix c (mem_of_mem_splitlines
      (List.fst_mem_of_mem_zipIdx hmasked) hc)
  rw [hnone] at hsearch
  cases hsearch

/-- A query in an f-string is never reported: its quotes are blanked. -/
theorem patternFinding_notMem_fstring :
    ∃ rule ∈ rules .ascii, rule.pattern = sqlFstring .ascii ∧
      patternFinding rule "a.py" 1 "execute(f\"x\x7by\x7d\")" false ∉
        scanFile .ascii (fun _ _ => []) "a.py" "execute(f\"x\x7by\x7d\")"
          ".py" := by
  obtain ⟨rule, hrule, hpattern⟩ : ∃ rule, (rules .ascii)[9]? = some rule ∧
      rule.pattern = sqlFstring .ascii := ⟨_, rfl, rfl⟩
  have hmem := List.mem_of_getElem? hrule
  refine ⟨rule, hmem, hpattern, patternFinding_notMem hmem ?_ _ _⟩
  rw [hpattern]
  exact List.mem_cons_self

/-! ### What is matched is reported -/

theorem taintFinding_mem {flow : Flow} (hpy : suffix ∈ py) (hflow : flow ∈ analyzePython text path)
    (hline : flow.line ∉ suppressedLines R text) :
    flow ∈ flows R analyzePython path text suffix ∧
      taintFinding flow (looksLikeTest R path) ∈ scanFile R analyzePython path text suffix := by
  have hmem : flow ∈ flows R analyzePython path text suffix := by
    rw [flows, if_pos hpy, List.mem_filter]
    exact ⟨hflow, decide_eq_true hline⟩
  exact ⟨hmem, mem_scanFile.mpr (Or.inl ⟨flow, hmem, rfl⟩)⟩

theorem patternFinding_mem_of_code (hrule : rule ∈ rules R) (hsuffix : suffix ∈ rule.suffixes)
    (hline : n ∉ suppressedLines R text) (h : StandsInCode R rule path text suffix n) :
    rule ∈ applicable R path suffix ∧
      ∃ line, (line, n) ∈ (splitlines (maskNonCode R text suffix)).zipIdx 1 ∧
        isMatched R text line n = true ∧ search rule.pattern line = true := by
  obtain ⟨hskip, ms, line, hms, hbreaks, hn, hlength, hfound⟩ := h
  obtain ⟨hblank, hsearch⟩ := hfound.shown hrule
  refine ⟨List.mem_filter.mpr ⟨hrule, decide_eq_true ⟨hsuffix, hskip⟩⟩, line.map shown, ?_,
    decide_eq_true ⟨hline, hblank, by rwa [List.length_map]⟩, hsearch⟩
  rw [maskNonCode_eq hms]
  exact mem_splitlines_shown hbreaks hn

/-- A shell, after a literal and before a comment. -/
def shellReading : Reading :=
  codeOf "log(" ++ (hidden "'run'" ++ (codeOf ")\nos.system(cmd)  " ++ (hidden "# ls" ++ [])))

theorem reads_shell : Reads pyStyle shellReading [] := by
  refine Reads.codeOf_append (by decide) (.hidden ?_ (.codeOf_append (by decide)
    (.hidden ?_ .nil)))
  · exact @Covers.literal pyStyle "'" "run" _ (by decide)
      (.char (by decide) (by decide) (.char (by decide) (by decide)
        (.char (by decide) (by decide) .nil)))
  · exact @Covers.line pyStyle "#" " ls" _ (by decide) (by decide) (Or.inl rfl)

/-- An algorithm that a literal names. -/
def tokenReading : Reading := codeOf "algorithm: " ++ (hidden "'none'" ++ [])

theorem reads_token : Reads cStyle tokenReading [] :=
  .codeOf_append (by decide) (.hidden
    (@Covers.literal cStyle "'" "none" _ (by decide)
      (.char (by decide) (by decide) (.char (by decide) (by decide) (.char (by decide) (by decide)
        (.char (by decide) (by decide) .nil))))) .nil)

end Guardian.Sast.Engine

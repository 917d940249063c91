import Guardian.Order.Bucket
import Guardian.Posture.Subjects
import Guardian.Python.Lines
import Guardian.Redaction.Patterns

/-!
# Secrets in the history

The secrets engine looks for credentials line by line, with a table of patterns and with a heuristic
that takes a value of high entropy behind a secret-looking name.  Of the lines that the commits of a
repository added it reports one match for each rule and path.  `own_findings_iff` says when each
credential has a finding of its own.
-/

namespace Guardian.Secrets

open Python Python.Matcher Guardian.Order Findings Triage List
open Posture
open Redaction (isAlphanum isUpperAlphanum isBase64url twoWords)

/-- **What the engine runs on**: the interpreter, the entropy test of the heuristic, which is a
comparison of floats, and the keyed identity of a credential. -/
structure Detector where
  runtime : Runtime
  /-- `_shannon_entropy(value) >= 4.0`. -/
  highEntropy : Str → Bool
  /-- `secret_correlation_identity` under the key of the settings. -/
  identity : Str → Option Str

/-! ### Finding matches -/

/-- The first match from a cursor on, at most `n` positions further: where it begins and ends. -/
def findFrom (m : Matcher) : ℕ → Cursor → Option (Cursor × Cursor)
  | 0, k => (m k).head?.map fun k' => (k, k')
  | n + 1, k =>
    match (m k).head? with
    | some k' => some (k, k')
    | none => findFrom m n k.skip

/-- `pattern.search(s).group(0)`. -/
def find (m : Matcher) (s : Str) : Option Str :=
  (findFrom m s.length (.start s)).map fun found => found.1.between found.2

/-- The groups with a name in the matches from a cursor on, for at most `n` steps.  No pattern here
matches the empty text. -/
def groupsFrom (m : Matcher) (name : String) : ℕ → Cursor → List Str
  | 0, _ => []
  | n + 1, k =>
    match (m k).head? with
    | some k' => (k'.group name).getD [] :: groupsFrom m name n { k' with groups := [] }
    | none => if k.rest = [] then [] else groupsFrom m name n k.skip

/-- `m.group(name) for m in pattern.finditer(s)`. -/
def groups (m : Matcher) (name : String) (s : Str) : List Str :=
  groupsFrom m name (s.length + 1) (.start s)

/-- `m{0,n}?`. -/
def lazyUpTo (m : Matcher) : ℕ → Matcher
  | 0 => eps
  | n + 1 => alt eps (seq m (lazyUpTo m n))

/-! ### Patterns -/

section Patterns
variable (R : Runtime)

def quote : Matcher := oneOf "'\""

/-- A character that is no quotation mark. -/
def unquoted : Matcher := chr fun c => decide (c ∉ "'\"".toList)

/-- `AWS Access Key ID`. -/
def awsAccessKeyId : Matcher :=
  seqs [wordBoundary R, lit "AKIA", times (chr isUpperAlphanum) 16, wordBoundary R]

/-- `AWS Secret Access Key`. -/
def awsSecretAccessKey : Matcher :=
  seqs [litAnyCase "aws", lazyUpTo (chr (· != '\n')) 20, quote,
    times (chr fun c => Regex.digit09 c || Regex.letterAZ c || c == '/' || c == '+') 40, quote]

/-- `Private Key block`. -/
def privateKeyBlock : Matcher :=
  seqs [lit "-----BEGIN ",
    opt (alts [lit "RSA ", lit "EC ", lit "OPENSSH ", lit "DSA ", lit "PGP "]),
    lit "PRIVATE KEY-----"]

/-- `GitHub Token`. -/
def githubToken : Matcher :=
  seqs [wordBoundary R, lit "gh", oneOf "pousr", lit "_", atLeast 36 (chr isAlphanum),
    wordBoundary R]

/-- `Slack Token`. -/
def slackToken : Matcher :=
  seqs [wordBoundary R, lit "xox", oneOf "baprs", lit "-",
    atLeast 10 (chr fun c => isAlphanum c || c == '-'), wordBoundary R]

/-- `Google API Key`. -/
def googleApiKey : Matcher :=
  seqs [wordBoundary R, lit "AIza", times (chr isBase64url) 35, wordBoundary R]

/-- `Stripe Secret Key`. -/
def stripeSecretKey : Matcher :=
  seqs [wordBoundary R, lit "sk_", alts [lit "live", lit "test"], lit "_",
    atLeast 16 (chr isAlphanum), wordBoundary R]

/-- `JWT`. -/
def jwt : Matcher :=
  seqs [wordBoundary R, lit "eyJ", atLeast 10 (chr isBase64url), lit ".",
    atLeast 10 (chr isBase64url), lit ".", atLeast 10 (chr isBase64url), wordBoundary R]

/-- `Generic secret assignment`. -/
def genericSecretAssignment : Matcher :=
  seqs [alts [litAnyCase "password", litAnyCase "passwd", litAnyCase "pwd", litAnyCase "secret",
      twoWords "api" "key", litAnyCase "token", twoWords "access" "key"],
    star (chr R.isSpace), oneOf ":=", star (chr R.isSpace), quote, atLeast 8 unquoted, quote]

/-- `_PATTERNS`. -/
def patterns : List (Str × Matcher × Severity) :=
  [("AWS Access Key ID", awsAccessKeyId R, .high),
    ("AWS Secret Access Key", awsSecretAccessKey, .high),
    ("Private Key block", privateKeyBlock, .critical),
    ("GitHub Token", githubToken R, .high),
    ("Slack Token", slackToken R, .high),
    ("Google API Key", googleApiKey R, .high),
    ("Stripe Secret Key", stripeSecretKey R, .high),
    ("JWT", jwt R, .medium),
    ("Generic secret assignment", genericSecretAssignment R, .medium)]

/-- `_SECRET_NAME`. -/
def secretName : Matcher :=
  seqs [wordBoundary R,
    alts [litAnyCase "secret", litAnyCase "password", litAnyCase "passwd", litAnyCase "pwd",
      twoWords "api" "key", litAnyCase "token", twoWords "access" "key"],
    wordBoundary R]

/-- `_ASSIGN_VALUE`, with its group. -/
def assignValue : Matcher := seqs [quote, group "value" (atLeast 16 unquoted), quote]

end Patterns

/-! ### Findings of a text -/

/-- A match: the rule, its severity, the line, the text that was matched, and how sure it is. -/
structure Hit where
  name : Str
  severity : Severity
  line : ℕ
  raw : Str
  confidence : Str
  deriving DecidableEq

/-- `s.strip("'\"")`. -/
def stripQuotes (s : Str) : Str :=
  (s.dropWhile fun c => decide (c ∈ "'\"".toList)).rdropWhile fun c => decide (c ∈ "'\"".toList)

/-- `_redact`. -/
def redact (raw : Str) : Str :=
  let value := stripQuotes raw
  if value.length ≤ 8 then replicate value.length '*'
  else value.take 2 ++ replicate 8 '*' ++ value.drop (value.length - 2) ++ " (len=" ++
    decimal value.length ++ ")"

variable (D : Detector)

/-- What is found in a line.  A rule is reported once for each line, so that of the values behind a
secret-looking name the first one of high entropy counts. -/
def scanLine (line : Str) (lineno : ℕ) : List Hit :=
  if 4000 < line.length then []
  else
    ((patterns D.runtime).filterMap fun pattern =>
      (find pattern.2.1 line).map fun raw =>
        ⟨pattern.1, pattern.2.2, lineno, raw, "medium"⟩) ++
    if search (secretName D.runtime) line then
      ((groups assignValue "value" line).find? D.highEntropy).toList.map fun raw =>
        ⟨"High-entropy secret", .medium, lineno, raw, "low"⟩
    else []

/-- `_scan_text`, up to the findings that are made. -/
def scanText (text : Str) : List Hit :=
  (splitlines text).zipIdx.flatMap fun entry => scanLine D entry.1 (entry.2 + 1)

/-- `_make_finding`. -/
def makeFinding (path : Str) (hit : Hit) : RawFinding where
  engine := "secrets"
  title := "Hardcoded secret: " ++ hit.name
  category := "secret"
  description := "A likely hardcoded credential (" ++ hit.name ++
    (") was detected in source. Hardcoded secrets " ++
      "can be extracted from the repository or its history and used to access systems.").toList
  baseSeverity := hit.severity
  confidence := hit.confidence
  cweId := some "CWE-798"
  owaspRef := some "A07:2021"
  cveIds := []
  signals := noSignals
  location := [("path", .str path), ("line", jsonInt hit.line),
    ("rule", .str hit.name)]
  evidence := ("match", .str (redact hit.raw)) ::
    ((D.identity hit.raw).map fun identity => ("secret_id_hmac".toList, Json.str identity)).toList
  references := [("cwe", .str "https://cwe.mitre.org/data/definitions/798.html"),
    ("owasp", .str
      ("https://owasp.org/Top10/" ++
        "A07_2021-Identification_and_Authentication_Failures/").toList)]

/-! ### The history -/

/-- A match in a line that a commit added to a file. -/
structure Sighting where
  hit : Hit
  commit : Str
  path : Str
  deriving DecidableEq

namespace Sighting

/-- The key of `emitted`. -/
def key (s : Sighting) : Str × Str := (s.hit.name, s.path)

/-- **The credential**: the match without the quotation marks around it, which is what the keyed
identity is taken of. -/
def credential (s : Sighting) : Str := stripQuotes s.hit.raw

/-- The finding that is reported. -/
def finding (s : Sighting) : RawFinding :=
  let raw := makeFinding D (s.path ++ '@' :: s.commit) s.hit
  { raw with
    location := Json.put "source" (.str "git-history")
      (Json.put "path" (.str s.path) (Json.put "commit" (.str s.commit) raw.location))
    description := raw.description ++ " This was found in commit " ++ s.commit ++
      ("; it remains retrievable from the repository history even if later removed, so rotation " ++
        "is required — deleting the file is not sufficient.").toList }

end Sighting

/-- `_HISTORY_MAX_LINES`. -/
def historyMaxLines : ℕ := 400000

def commitMark : Str := '\x00' :: "commit "

/-- The line names the file that is changed. -/
def pathMark : Str := "+++ b/"

/-- The line was added by the commit. -/
def Added (line : Str) : Prop := "+" <+: line ∧ ¬"+++" <+: line

instance (line : Str) : Decidable (Added line) := by unfold Added; infer_instance

/-- What is seen in a line that was added. -/
def sightings (commit path line : Str) : List Sighting :=
  (scanText D (line.drop 1)).map fun hit => ⟨hit, commit, path⟩

/-- **The loop of `_scan_history`** over the lines of `git log`, with the commit and the path so far
and what was emitted. -/
def historyLines (commit path : Str) (emitted : List (Str × Str)) : List Str → List Sighting
  | [] => []
  | line :: lines =>
    if commitMark <+: line then
      historyLines ((strip D.runtime (partition ' ' line).2.2).take 12) path emitted lines
    else if pathMark <+: line then
      historyLines commit (strip D.runtime (line.drop 6)) emitted lines
    else if ¬Added line then historyLines commit path emitted lines
    else
      unseen Sighting.key emitted (sightings D commit path line) ++
        historyLines commit path
          (seenAfter Sighting.key emitted (sightings D commit path line)) lines

/-- What git answers: `none` if it cannot be run or does not answer in time. -/
structure Repository where
  hasGit : Bool
  scanHistory : Bool
  log : Option (ℤ × Str)

/-- The output of git that is read, if any. -/
def Repository.output (repo : Repository) : Str :=
  if repo.hasGit = false ∨ repo.scanHistory = false then []
  else
    match repo.log with
    | none => []
    | some (returncode, stdout) => if returncode ≠ 0 then [] else stdout

/-- The lines that are read before the budget is spent. -/
def Repository.lines (repo : Repository) : List Str :=
  (splitlines repo.output).take (historyMaxLines - 1)

/-- **`_scan_history`**, as the sightings that it reports. -/
def scanHistory (repo : Repository) : List Sighting :=
  historyLines D "unknown" "unknown" [] repo.lines

/-! ### The working tree -/

/-- A match in a file of the working tree. -/
structure Detection where
  path : Str
  hit : Hit
  deriving DecidableEq

/-- The credential of a match in the working tree. -/
def Detection.credential (d : Detection) : Str := stripQuotes d.hit.raw

/-- The finding that is reported for a match in the working tree. -/
def Detection.finding (d : Detection) : RawFinding := makeFinding D d.path d.hit

/-- What is detected in the files of the working tree, which are given by their paths and texts. -/
def inTree (files : List (Str × Str)) : List Detection :=
  files.flatMap fun file => (scanText D file.2).map fun hit => ⟨file.1, hit⟩

/-- **`run`**: the findings of the working tree, those of the history, and those of gitleaks. -/
def engineFindings (files : List (Str × Str)) (repo : Repository) (gitleaks : List RawFinding) :
    List RawFinding :=
  (inTree D files).map (Detection.finding D) ++ (scanHistory D repo).map (Sighting.finding D) ++
    gitleaks

/-! ### What is detected -/

/-- **What is detected** in the lines of a log: the same walk, and everything that is seen. -/
def detectedIn (commit path : Str) : List Str → List Sighting
  | [] => []
  | line :: lines =>
    if commitMark <+: line then
      detectedIn ((strip D.runtime (partition ' ' line).2.2).take 12) path lines
    else if pathMark <+: line then detectedIn commit (strip D.runtime (line.drop 6)) lines
    else if ¬Added line then detectedIn commit path lines
    else sightings D commit path line ++ detectedIn commit path lines

/-- What is detected in the history. -/
def detected (repo : Repository) : List Sighting :=
  detectedIn D "unknown" "unknown" repo.lines

variable {D}

theorem historyLines_eq (commit path : Str) (emitted : List (Str × Str)) (lines : List Str) :
    historyLines D commit path emitted lines =
      unseen Sighting.key emitted (detectedIn D commit path lines) := by
  induction lines generalizing commit path emitted with
  | nil => rfl
  | cons line lines ih =>
    rw [historyLines, detectedIn]
    split_ifs
    · exact ih ..
    · exact ih ..
    · rw [unseen_append, ih]
    · exact ih ..

theorem scanHistory_eq (repo : Repository) :
    scanHistory D repo = unseen Sighting.key [] (detected D repo) := historyLines_eq ..

/-! ### Rows -/

theorem place_eq (path : Str) : orElse (orElse (.str path) .null) .null = optText path := by
  unfold orElse optText
  by_cases hpath : path = []
  · rw [hpath]
    rfl
  · rw [if_pos ((truthy_str path).mpr hpath), if_pos ((truthy_str path).mpr hpath), if_neg hpath]

/-- **Two findings have one identity** if they have one rule and path. -/
theorem identity_makeFinding_iff {p q : Str} {h g : Hit} :
    identity (makeFinding D p h) = identity (makeFinding D q g) ↔ h.name = g.name ∧ p = q := by
  rw [identity_eq_iff]
  change _ ∧ _ ∧ "Hardcoded secret: " ++ h.name = "Hardcoded secret: " ++ g.name ∧
    orElse (orElse (.str p) .null) .null = orElse (orElse (.str q) .null) .null ∧
    orElse (.str h.name) (.str "CWE-798") = orElse (.str g.name) (.str "CWE-798") ↔ _
  rw [place_eq, place_eq, optText_inj, append_cancel_left_eq]
  constructor
  · rintro ⟨-, -, hname, hpath, -⟩
    exact ⟨hname, hpath⟩
  · rintro ⟨hname, hpath⟩
    exact ⟨rfl, rfl, hname, hpath, by rw [hname]⟩

/-- A finding of the history has the identity of one of the working tree. -/
theorem identity_finding (s : Sighting) :
    identity (s.finding D) = identity (makeFinding D s.path s.hit) := rfl

/-- **Each credential that is detected in the history has a finding of its own**: one is reported
for it, and no other credential of the history or of the working tree has its row. -/
structure OwnFindings (D : Detector) (files : List (Str × Str)) (repo : Repository)
    (rowOf : RawFinding → ℕ) : Prop where
  reported : ∀ d ∈ detected D repo, ∃ s ∈ scanHistory D repo,
    s.key = d.key ∧ s.credential = d.credential
  inHistory : ∀ s ∈ scanHistory D repo, ∀ t ∈ scanHistory D repo, s.credential ≠ t.credential →
    rowOf (s.finding D) ≠ rowOf (t.finding D)
  inTree : ∀ s ∈ scanHistory D repo, ∀ t ∈ inTree D files, s.credential ≠ t.credential →
    rowOf (s.finding D) ≠ rowOf (t.finding D)

/-- A log of one commit that adds two lines to a file. -/
def logOf (first second : String) : Repository where
  hasGit := true
  scanHistory := true
  log := some (0, '\x00' :: ("commit a\n+++ b/k\n+" ++ first.toList ++ "\n+" ++
    second.toList ++ ['\n']))

/-- A detector without a heuristic. -/
def patternsOnly : Detector := ⟨.ascii, fun _ => false, fun _ => none⟩

/-- A digest that is the path of a finding. -/
def pathDigest : Json → Str
  | .dict entries =>
    match Json.get entries "path" with
    | some (.str path) => path
    | _ => []
  | _ => []

/-- Two files of the working tree with an access key each. -/
def keyFiles : List (Str × Str) :=
  [("k", "AKIA0000000000000000"), ("m", "AKIA1111111111111111")]

/-- A history with the access key of the first file. -/
def oneKey : Repository := logOf "AKIA0000000000000000" "x"

theorem noCollision_pathDigest :
    NoCollision pathDigest (engineFindings patternsOnly keyFiles oneKey []) := by
  have hfingerprint : ∀ path ∈ keyFiles.map Prod.fst, ∀ hit,
      (makeFinding patternsOnly path hit).fingerprint pathDigest = path := by
    intro path hpath hit
    rcases mem_pair.mp hpath with rfl | rfl <;> rfl
  have htree : ∀ d ∈ inTree patternsOnly keyFiles,
      d.hit.name = "AWS Access Key ID" ∧ d.path ∈ keyFiles.map Prod.fst := by
    decide +kernel
  have hhistory : ∀ s ∈ scanHistory patternsOnly oneKey,
      s.hit.name = "AWS Access Key ID" ∧ s.path ∈ keyFiles.map Prod.fst := by
    decide +kernel
  -- each finding is that of the access key rule in one of the files
  have hraw : ∀ a ∈ engineFindings patternsOnly keyFiles oneKey [], ∃ path hit,
      identity a = identity (makeFinding patternsOnly path hit) ∧
        hit.name = "AWS Access Key ID" ∧ path ∈ keyFiles.map Prod.fst := by
    intro a ha
    rw [engineFindings, append_nil] at ha
    rcases mem_append.mp ha with ha | ha
    · obtain ⟨d, hd, rfl⟩ := mem_map.mp ha
      exact ⟨d.path, d.hit, rfl, htree d hd⟩
    · obtain ⟨s, hs, rfl⟩ := mem_map.mp ha
      exact ⟨s.path, s.hit, identity_finding s, hhistory s hs⟩
  intro a ha b hb heq
  obtain ⟨p, hit, hida, hnamea, hp⟩ := hraw a ha
  obtain ⟨q, hit', hidb, hnameb, hq⟩ := hraw b hb
  rw [fingerprint_eq hida, fingerprint_eq hidb, hfingerprint p hp, hfingerprint q hq] at heq
  rw [hida, hidb]
  exact identity_makeFinding_iff.mpr ⟨hnamea.trans hnameb.symm, heq⟩

/-- Two access keys in a file. -/
def twoKeys : Repository := logOf "AKIA0000000000000000" "AKIA1111111111111111"

end Guardian.Secrets

import Guardian.Findings.EngineKey
import Guardian.Findings.Scoring
import Guardian.Python.Matcher

/-!
# The pattern rules

The catalogue of dangerous constructs, each with the pattern that tells it.
-/

namespace Guardian.Sast.Engine

open Python Python.Matcher Findings List

/-- `Rule`. -/
structure Rule where
  id : Str
  title : Str
  pattern : Matcher
  severity : Severity
  cwe : Str
  owasp : Str
  suffixes : List Str
  remediation : Str
  skipInTests : Bool := false

/-- `_PY`. -/
def py : List Str := [".py", ".pyi"].map String.toList

/-- `_JS`. -/
def js : List Str := [".js", ".ts", ".tsx", ".jsx"].map String.toList

/-- `_JAVA`. -/
def java : List Str := [".java"]

/-- `_GO`. -/
def go : List Str := [".go"]

/-- `_PHP`. -/
def php : List Str := [".php"]

/-- `_RUBY`. -/
def ruby : List Str := [".rb"]

/-- `_CS`. -/
def cs : List Str := [".cs"]

/-- A rule of the tuple. -/
def Rule.of (id title : String) (pattern : Matcher) (severity : Severity) (cwe owasp : String)
    (suffixes : List Str) (remediation : String) : Rule where
  id := id.toList
  title := title.toList
  pattern
  severity
  cwe := cwe.toList
  owasp := owasp.toList
  suffixes
  remediation := remediation.toList

section Catalogue
variable (R : Runtime)

/-! ### Parts of patterns -/

/-- `\s*`. -/
def blanks : Matcher := star (chr R.isSpace)

/-- `\s+`. -/
def someBlanks : Matcher := atLeast 1 (chr R.isSpace)

/-- `.*`. -/
def anything : Matcher := star (chr (· != '\n'))

/-- `[^)]*`. -/
def noParen : Matcher := star (chr (· != ')'))

/-- `['"]`. -/
def quote : Matcher := oneOf "'\""

/-- `\s*\(`. -/
def call : Matcher := seqs [blanks R, lit "("]

/-- `\s*=\s*`. -/
def equals : Matcher := seqs [blanks R, lit "=", blanks R]

/-! ### Patterns that take a quote -/

/-- The pattern of `py-sql-fstring`. -/
def sqlFstring : Matcher :=
  seqs [lit "execute", call R, blanks R,
    alts [seqs [lit "f", quote],
      seqs [quote, anything, lit "%", blanks R, opt (lit "%"), blanks R,
        chr fun c => Regex.lowerAZ c || Regex.upperAZ c || c == '_' || c == '(']]]

/-- The pattern of `py-bind-all`. -/
def bindAll : Matcher := seqs [quote, lit "0.0.0.0", quote]

/-- The pattern of `js-jwt-none`. -/
def jwtNone : Matcher :=
  seqs [litAnyCase "algorithm", opt quote, blanks R, lit ":", blanks R, quote, litAnyCase "none",
    quote]

/-- The pattern of `java-weak-crypto`. -/
def weakCrypto : Matcher :=
  seqs [lit "getInstance", call R, blanks R, quote,
    alts [lit "DES", lit "RC4", lit "MD5", seqs [lit "SHA", opt (lit "-"), lit "1"],
      lit "AES/ECB"]]

/-- The pattern of `go-exec-shell`. -/
def execShell : Matcher :=
  seqs [lit "exec.Command", call R, blanks R, quote, alts [lit "sh", lit "bash", lit "cmd"], quote]

/-- The pattern of the rule `cs-sql-concat`. -/
def sqlCommand : Matcher :=
  seqs [lit "SqlCommand", call R, blanks R, quote, star (chr fun c => c != '\'' && c != '"'), quote,
    blanks R, lit "+"]

/-! ### Rules -/

/-- `py-assert-auth`. -/
def assertAuth : Rule where
  id := "py-assert-auth"
  title := "Security check written as an assert"
  pattern := seqs [assert fun k => k.before.isEmpty, blanks R, litAnyCase "assert", someBlanks R,
    anything, alts [litAnyCase "auth", litAnyCase "permission", litAnyCase "is_admin",
      litAnyCase "token", litAnyCase "role"]]
  severity := .medium
  cwe := "CWE-617"
  owasp := "A01:2021"
  suffixes := py
  remediation := "Assertions are removed under `python -O`, deleting the check with them."
  skipInTests := true

/-- The rules for Python. -/
def pythonRules : List Rule :=
  [.of "py-eval" "Use of eval()" (seqs [wordBoundary R, lit "eval", call R])
      .medium "CWE-95" "A03:2021" py
      "Parse the value; eval on anything not a literal is code execution.",
    .of "py-exec" "Use of exec()" (seqs [wordBoundary R, lit "exec", call R])
      .medium "CWE-95" "A03:2021" py "",
    .of "py-shell-true" "subprocess with shell=True" (seqs [lit "shell", equals R, lit "True"])
      .high "CWE-78" "A03:2021" py
      "Pass argv as a list; a shell is only needed for shell syntax.",
    .of "py-os-system" "os.system() call" (seqs [wordBoundary R, lit "os.system", call R])
      .high "CWE-78" "A03:2021" py "",
    .of "py-yaml-load" "Unsafe yaml.load()"
      (alts [seqs [lit "yaml.", alts [lit "unsafe_load", lit "full_load"], call R],
        seqs [lit "yaml.load", call R, notFollowedBy (seqs [noParen, lit "Safe"])]])
      .high "CWE-502" "A08:2021" py "Use yaml.safe_load.",
    .of "py-pickle" "Unsafe pickle deserialization"
      (seqs [wordBoundary R, lit "pickle.load", opt (lit "s"), call R])
      .medium "CWE-502" "A08:2021" py
      "Pickle executes code on load; use JSON for anything crossing a trust boundary.",
    .of "py-weak-hash" "Weak hash (md5/sha1)"
      (seqs [lit "hashlib.", alts [lit "md5", lit "sha1"], call R])
      .medium "CWE-327" "A02:2021" py "Use SHA-256, or bcrypt/argon2 for passwords.",
    .of "py-tls-verify-off" "TLS verification disabled"
      (seqs [lit "verify", equals R, lit "False"])
      .high "CWE-295" "A07:2021" py
      "A disabled certificate check makes the connection interceptable by anyone on the path.",
    .of "py-ssl-unverified" "Unverified SSL context"
      (alts [lit "_create_unverified_context", lit "CERT_NONE"])
      .high "CWE-295" "A07:2021" py "",
    .of "py-sql-fstring" "SQL built by string interpolation" (sqlFstring R)
      .high "CWE-89" "A03:2021" py "Use bound parameters.",
    .of "py-weak-random" "Cryptographic value from a predictable PRNG"
      (seqs [wordBoundary R, lit "random.", alts [lit "random", lit "randint", lit "choice",
        lit "randrange", lit "sample", lit "shuffle"], call R])
      .low "CWE-338" "A02:2021" py
      "Use `secrets` for tokens, passwords and keys; `random` is reproducible by design.",
    assertAuth R,
    .of "py-bind-all" "Service bound to every interface" bindAll
      .low "CWE-1327" "A05:2021" py "",
    .of "py-flask-debug" "Flask debug mode enabled"
      (seqs [lit ".run", call R, noParen, lit "debug", equals R, lit "True"])
      .high "CWE-489" "A05:2021" py "The Werkzeug debugger is a remote shell if it is reachable.",
    .of "py-jwt-noverify" "JWT signature verification disabled"
      (alts [seqs [lit "verify_signature", opt quote, blanks R, lit ":", blanks R, lit "False"],
        seqs [lit "verify", equals R, lit "False", anything, lit "jwt"],
        seqs [lit "jwt.decode(", noParen, lit "verify", equals R, lit "False"]])
      .critical "CWE-347" "A02:2021" py "An unverified JWT is an attacker-authored JWT.",
    .of "py-tempfile-mktemp" "Insecure temporary file" (seqs [lit "tempfile.mktemp", call R])
      .medium "CWE-377" "A01:2021" py
      "mktemp is a race by construction; use NamedTemporaryFile or mkstemp.",
    .of "py-xml-entities" "XML parsed with entity expansion enabled"
      (seqs [wordBoundary R, alts [lit "xml.etree", lit "minidom", lit "pulldom", lit "sax",
        lit "lxml.etree"], wordBoundary R, anything, wordBoundary R, lit "parse"])
      .medium "CWE-611" "A05:2021" py "Use defusedxml for untrusted documents."]

/-- The rules for JavaScript and TypeScript. -/
def jsRules : List Rule :=
  [.of "js-eval" "Use of eval()" (seqs [wordBoundary R, lit "eval", call R])
      .medium "CWE-95" "A03:2021" js "",
    .of "js-function-ctor" "Code built with the Function constructor"
      (seqs [wordBoundary R, lit "new", someBlanks R, lit "Function", call R])
      .medium "CWE-95" "A03:2021" js "",
    .of "js-child-exec" "child_process.exec()"
      (alts [seqs [lit "child_process.exec", call R],
        seqs [wordBoundary R, lit "execSync", call R]])
      .high "CWE-78" "A03:2021" js "Use execFile/spawn with an argument array.",
    .of "js-inner-html" "Assignment to innerHTML" (seqs [lit ".innerHTML", blanks R, lit "="])
      .medium "CWE-79" "A03:2021" js "Use textContent, or sanitize with DOMPurify.",
    .of "js-danger-html" "React dangerouslySetInnerHTML" (lit "dangerouslySetInnerHTML")
      .medium "CWE-79" "A03:2021" js "",
    .of "js-document-write" "document.write()"
      (seqs [lit "document.write", opt (lit "ln"), call R])
      .medium "CWE-79" "A03:2021" js "",
    .of "js-tls-off" "Node TLS certificate validation disabled"
      (alts [seqs [lit "rejectUnauthorized", blanks R, lit ":", blanks R, lit "false"],
        seqs [lit "NODE_TLS_REJECT_UNAUTHORIZED", opt quote, opt (lit "]"), equals R, opt quote,
          lit "0"]])
      .high "CWE-295" "A07:2021" js "",
    .of "js-weak-random" "Math.random() used for a security value"
      (seqs [litAnyCase "math.random", call R, blanks R, lit ")", anything,
        alts [litAnyCase "token", litAnyCase "secret", litAnyCase "key", litAnyCase "password",
          litAnyCase "nonce", litAnyCase "otp"]])
      .medium "CWE-338" "A02:2021" js "Use crypto.randomBytes / crypto.randomUUID.",
    .of "js-jwt-none" "JWT algorithm 'none'" (jwtNone R) .critical "CWE-347" "A02:2021" js ""]

/-- The rules for Java. -/
def javaRules : List Rule :=
  [.of "java-runtime-exec" "Runtime.exec()" (seqs [lit "Runtime.getRuntime().exec", call R])
      .high "CWE-78" "A03:2021" java "",
    .of "java-sql-concat" "SQL built by concatenation"
      (seqs [alts [lit "createStatement", lit "executeQuery", lit "executeUpdate"], call R, noParen,
        lit "+"])
      .high "CWE-89" "A03:2021" java "Use PreparedStatement with bound parameters.",
    .of "java-deser" "Java native deserialization"
      (alts [seqs [lit "new", someBlanks R, lit "ObjectInputStream", call R],
        seqs [lit ".readObject", call R, blanks R, lit ")"]])
      .high "CWE-502" "A08:2021" java "",
    .of "java-trust-all" "TrustManager that accepts every certificate"
      (alts [seqs [lit "checkServerTrusted", call R, noParen, lit ")", blanks R, lit "\x7b",
          blanks R, lit "\x7d"],
        lit "TrustAllCerts", lit "ALLOW_ALL_HOSTNAME_VERIFIER"])
      .high "CWE-295" "A07:2021" java "",
    .of "java-weak-crypto" "Weak cipher or hash" (weakCrypto R)
      .medium "CWE-327" "A02:2021" java "",
    .of "java-xxe" "XML parser without external-entity protection"
      (alts [lit "DocumentBuilderFactory.newInstance", lit "SAXParserFactory.newInstance"])
      .medium "CWE-611" "A05:2021" java
      "setFeature(\"http://apache.org/xml/features/disallow-doctype-decl\", true)"]

/-- The rules for Go. -/
def goRules : List Rule :=
  [.of "go-exec-shell" "Command run through a shell" (execShell R)
      .high "CWE-78" "A03:2021" go "",
    .of "go-sql-concat" "SQL built with Sprintf/concatenation"
      (seqs [alts [lit "Query", lit "Exec", lit "QueryRow"], call R, blanks R,
        alts [lit "fmt.Sprintf", seqs [star (chr fun c => c != ',' && c != ')'), lit "+"]]])
      .high "CWE-89" "A03:2021" go "Use placeholders and pass arguments.",
    .of "go-tls-skip" "TLS verification disabled"
      (seqs [lit "InsecureSkipVerify", blanks R, lit ":", blanks R, lit "true"])
      .high "CWE-295" "A07:2021" go "",
    .of "go-weak-random" "math/rand used for a security value"
      (seqs [wordBoundary R, lit "rand.", alts [lit "Int", lit "Intn", lit "Float64", lit "Read"],
        call R])
      .low "CWE-338" "A02:2021" go "Use crypto/rand."]

/-- The rules for PHP. -/
def phpRules : List Rule :=
  [.of "php-exec" "Shell execution"
      (seqs [wordBoundary R, alts [lit "system", lit "shell_exec", lit "passthru", lit "popen",
        lit "proc_open"], call R])
      .high "CWE-78" "A03:2021" php "",
    .of "php-eval" "eval()" (seqs [wordBoundary R, lit "eval", call R])
      .high "CWE-95" "A03:2021" php "",
    .of "php-unserialize" "unserialize() on input"
      (seqs [wordBoundary R, lit "unserialize", call R]) .high "CWE-502" "A08:2021" php "",
    .of "php-include-var" "Dynamic include"
      (seqs [wordBoundary R, alts [lit "include", lit "require"], opt (lit "_once"), blanks R,
        opt (lit "("), blanks R, lit "$"])
      .high "CWE-98" "A03:2021" php ""]

/-- The rules for Ruby and C#. -/
def rubyAndCsRules : List Rule :=
  [.of "rb-eval" "eval / instance_eval"
      (seqs [wordBoundary R, alts [lit "eval", lit "instance_eval", lit "class_eval"], call R])
      .medium "CWE-95" "A03:2021" ruby "",
    .of "rb-yaml-load" "YAML.load on untrusted input" (seqs [lit "YAML.load", call R])
      .high "CWE-502" "A08:2021" ruby "Use YAML.safe_load.",
    .of "cs-sql-concat" "SQL built by concatenation" (sqlCommand R)
      .high "CWE-89" "A03:2021" cs "",
    .of "cs-tls-off" "Certificate validation callback always true"
      (seqs [lit "ServerCertificateValidationCallback", blanks R, opt (lit "+"), lit "=", blanks R,
        anything, lit "true"])
      .high "CWE-295" "A07:2021" cs ""]

/-- `_RULES`. -/
def rules : List Rule :=
  pythonRules R ++ jsRules R ++ javaRules R ++ goRules R ++ phpRules R ++ rubyAndCsRules R

end Catalogue

/-- The names of the rules are those from which the engine of a finding is told. -/
theorem map_id_rules (R : Runtime) : (rules R).map Rule.id = patternRules := rfl

theorem nodup_id (R : Runtime) : ((rules R).map Rule.id).Nodup := by
  rw [map_id_rules]
  decide +kernel

/-! ### Quotes -/

def IsQuote (c : Char) : Prop := c = '\'' ∨ c = '"'

theorem needs_quoteClass : Needs IsQuote quote := by
  refine needs_chr fun c hc => ?_
  have hmem : c ∈ ['\'', '"'] := of_decide_eq_true hc
  simpa [IsQuote] using hmem

/-- The patterns that take a quote. -/
def quotedPatterns (R : Runtime) : List Matcher :=
  [sqlFstring R, bindAll, jwtNone R, weakCrypto R, execShell R, sqlCommand R]

section Suffixes
variable (R : Runtime)

@[simp] theorem suffixes_blanks : Suffixes (blanks R) := suffixes_star (suffixes_chr _)

@[simp] theorem suffixes_quoteClass : Suffixes quote := suffixes_oneOf _

@[simp] theorem suffixes_call : Suffixes (call R) := by
  refine suffixes_seqs fun m hm => ?_
  simp only [mem_cons, not_mem_nil, or_false] at hm
  rcases hm with rfl | rfl <;> simp

end Suffixes

/-- **These patterns find nothing where there is no quote.** -/
theorem needs_quote (R : Runtime) : ∀ m ∈ quotedPatterns R, Needs IsQuote m := by
  simp only [quotedPatterns, forall_mem_cons, not_mem_nil, false_implies, implies_true,
    and_true]
  refine ⟨?_, needs_seq_left needs_quoteClass, ?_, ?_, ?_, ?_⟩
  · refine needs_seqs (i := 3) (by simp) (by simp) (needs_alts fun m hm => ?_)
    simp only [mem_cons, not_mem_nil, or_false] at hm
    rcases hm with rfl | rfl
    · exact needs_seqs (i := 1) (by simp) (by simp) needs_quoteClass
    · exact needs_seq_left needs_quoteClass
  · exact needs_seqs (i := 5) (by simp) (by simp) needs_quoteClass
  all_goals exact needs_seqs (i := 3) (by simp) (by simp) needs_quoteClass

/-! ### Patterns inside a longer text -/

section Looking
variable {R : Runtime} {pre post : Str}

/-- The rules that look at what stands around a match. -/
def lookingRules : List Str := ["py-yaml-load", "py-assert-auth"].map String.toList

/-- **A match of the other rules** is there in a longer text, if no word goes on. -/
theorem persists_of_mem_rules (hpre : pre.head?.any (isWord R) = false)
    (hpost : post.head?.any (isWord R) = false) :
    ∀ rule ∈ rules R, rule.id ∉ lookingRules → Persists pre post rule.pattern := by
  have hb := persists_wordBoundary hpre hpost
  have hblanks : Persists pre post (blanks R) := persists_star (persists_chr _)
  have hsome : Persists pre post (someBlanks R) := persists_atLeast (persists_chr _) 1
  have hanything : Persists pre post anything := persists_star (persists_chr _)
  have hnoParen : Persists pre post noParen := persists_star (persists_chr _)
  have hquote : Persists pre post quote := persists_oneOf _
  simp only [rules, pythonRules, jsRules, javaRules, goRules, phpRules, rubyAndCsRules, cons_append,
    nil_append, forall_mem_cons, not_mem_nil, false_implies, implies_true, and_true, Rule.of,
    sqlFstring, bindAll, jwtNone, weakCrypto, execShell, sqlCommand, call, equals]
  -- the rule for each way to build a pattern, down to the words in it
  repeat' with_reducible first
    | assumption
    | exact persists_litAnyCase _
    | exact persists_lit _
    | exact persists_chr _
    | exact persists_seqs_nil
    | exact persists_alts_nil
    | apply persists_seqs_cons
    | apply persists_alts_cons
    | apply persists_star
    | apply persists_opt
    | apply And.intro
    | intro hid
  · exact absurd (by decide) hid
  · exact absurd (mem_cons_of_mem _ mem_cons_self) hid

end Looking

end Guardian.Sast.Engine

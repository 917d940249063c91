import Guardian.Python.Text
import Mathlib.Data.Rat.Defs

/-!
# The catalogue of the dynamic checks

What each check sends.  What it reads in a response is not needed of the requests: the verdicts are
the fields of `Verdicts`, and every result holds for whatever they are.
-/

namespace Guardian.Dast

open Python

/-- `Probe`. -/
structure Probe where
  payload : Str
  label : Str

/-- `Verdict`. -/
structure Verdict where
  fired : Bool
  indicator : Str
  excerpt : Str
  confidence : Str

/-! ### What is sent -/

/-- `xss_probes`. -/
def xssProbes (marker : Str) : List Probe :=
  [⟨"\"'><" ++ marker ++ ">", "html-context"⟩]

/-- `sql_error_probes`. -/
def sqlErrorProbes : List Probe := [⟨"'", "single-quote"⟩]

/-- `sql_boolean_probes`. -/
def sqlBooleanProbes (value : Str) : Probe × Probe :=
  (⟨value ++ "' AND '1'='1", "true-branch"⟩,
    ⟨value ++ "' AND '1'='2", "false-branch"⟩)

/-- `traversal_probes`. -/
def traversalProbes : List Probe :=
  [⟨"../../../../etc/passwd", "relative"⟩,
    ⟨"....//....//....//etc/passwd", "filtered-relative"⟩,
    ⟨"%2e%2e%2f%2e%2e%2f%2e%2e%2fetc%2fpasswd", "encoded"⟩]

/-- `ssti_probes`. -/
def sstiProbes : List Probe :=
  [⟨"$\x7b7*191\x7d", "el"⟩,
    ⟨"\x7b\x7b7*191\x7d\x7d", "jinja-twig"⟩,
    ⟨"<%= 7*191 %>", "erb"⟩]

/-- `command_probes`. -/
def commandProbes (marker : Str) : List Probe :=
  [⟨";echo " ++ marker, "semicolon"⟩,
    ⟨"|echo " ++ marker, "pipe"⟩,
    ⟨"$(echo " ++ marker ++ ")", "subshell"⟩,
    ⟨"\x60echo " ++ marker ++ "\x60", "backtick"⟩]

/-- `redirect_probes`. -/
def redirectProbes : List Probe :=
  [⟨"https://guardian-redirect-check.invalid/", "absolute"⟩,
    ⟨"//guardian-redirect-check.invalid/", "scheme-relative"⟩]

/-- `TIME_BLIND_SECONDS`. -/
def timeBlindSeconds : ℕ := 5

/-- `time_blind_probes`. -/
def timeBlindProbes (value : Str) (seconds : ℕ) : List Probe :=
  let v := if value = [] then ['1'] else value
  let n := (toString seconds).toList
  [⟨v ++ "' AND SLEEP(" ++ n ++ ")-- -", "mysql-single-quote"⟩,
    ⟨v ++ " AND SLEEP(" ++ n ++ ")", "mysql-numeric"⟩,
    ⟨v ++ "' AND " ++ n ++ "=(SELECT " ++ n ++ " FROM PG_SLEEP(" ++ n ++
      "))-- -", "postgres-single-quote"⟩]

/-- `CORS_ORIGIN`. -/
def corsOrigin : Str := "https://guardian-cors-check.invalid"

/-- `exposed_path_specs`. -/
def exposedPathSpecs : List Str :=
  [".git/HEAD", ".git/config", ".env", ".DS_Store",
    "server-status", "backup.sql"]

/-- `GRAPHQL_ENDPOINTS`. -/
def graphqlEndpoints : List Str :=
  ["graphql", "api/graphql", "v1/graphql", "query"]

/-- `GRAPHQL_INTROSPECTION_QUERY`. -/
def graphqlIntrospectionQuery : Str := "\x7b__schema\x7bqueryType\x7bname\x7d\x7d\x7d"

/-- `HOST_HEADER_MARKER`. -/
def hostHeaderMarker : Str := "guardian-hostcheck.invalid"

/-! ### What is read -/

/-- The headers of a request or of a response. -/
abbrev Headers := List (Str × Str)

/-- `headers.get(name, "")`. -/
def Headers.get (headers : Headers) (name : Str) : Str := (headers.lookup name).getD []

/-- The `evaluate_*` functions.  One that parses a URL of the response may raise. -/
structure Verdicts where
  xss : (marker payload body contentType : Str) → Except Fault Verdict
  sqlError : (body : Str) → Except Fault Verdict
  sqlBoolean : (baseline trueBody falseBody : Str) → (trueStatus falseStatus : ℤ) →
    Except Fault Verdict
  timeBlind : (seconds : ℕ) → (controlMs baseMs confirmMs : ℚ) → Except Fault Verdict
  traversal : (body : Str) → Except Fault Verdict
  ssti : (body : Str) → Except Fault Verdict
  command : (marker payload body : Str) → Except Fault Verdict
  redirect : (status : ℤ) → (location : Str) → Except Fault Verdict
  cors : Headers → Except Fault Verdict
  csrf : (method : Str) → (fieldNames cookies : List Str) → Except Fault Verdict
  sessionInUrl : (url : Str) → Except Fault Verdict
  exposedPath : (path : Str) → (status : ℤ) → (body : Str) → Except Fault Verdict
  graphqlIntrospection : (status : ℤ) → (contentType body : Str) → Except Fault Verdict
  hostHeaderInjection : (status : ℤ) → (location body : Str) → Except Fault Verdict

end Guardian.Dast

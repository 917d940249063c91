import Guardian.Python.Regex
import Guardian.Authorization.Host
import Mathlib.Data.List.Sort

/-!
# The addresses of a dynamic scan

The canonical form of a URL, the scope test, the paths that are not followed, and the URLs that
submit a parameter.
-/

namespace Guardian.Dast

open Python Guardian.Order Authorization

variable (R : Runtime) (L : UrlLibrary)

/-! ### The functions of the crawler -/

/-- The order of `sorted` on pairs of texts. -/
def pairLe (a b : Str × Str) : Bool :=
  match strCmp a.1 b.1 with
  | .lt => true
  | .eq => strCmp a.2 b.2 != .gt
  | .gt => false

/-- The host with the port, unless it is the default one of the scheme. -/
def hostPort (scheme host : Str) (port : Option ℕ) : Str :=
  match port with
  | none => host
  | some n =>
    if n ≠ 0 ∧ ¬ (scheme = "http" ∧ n = 80 ∨ scheme = "https" ∧ n = 443) then
      host ++ ':' :: (toString n).toList
    else host

/-- **`normalize`.** -/
def normalize (url : Str) : Except Fault Str := do
  let parsed ← urlparse R (← urldefrag R (strip R url))
  let scheme := lower R parsed.scheme
  let host := hostPort scheme (parsed.hostname R |>.getD []) (← parsed.port R)
  let pairs := (parseQsl L parsed.query).insertionSort (pairLe · ·)
  let query := ['&'].intercalate (pairs.map fun kv => kv.1 ++ '=' :: kv.2)
  let path := if parsed.path = [] then ['/'] else parsed.path
  return urlunparse ⟨scheme, host, path, [], query, []⟩

/-- **`same_scope`.** -/
def sameScope (authorizedHosts : List Str) (url : Str) : Except Fault Bool := do
  let parsed ← urlparse R url
  if parsed.scheme ≠ "http" ∧ parsed.scheme ≠ "https" then return false
  else
    let host := hostKey R ((parsed.hostname R).getD [])
    return decide (host ≠ []) && authorizedHosts.any fun allowed => decide (Within '.' allowed host)

/-- `_STATIC_SUFFIXES`. -/
def staticSuffixes : List Str :=
  [".css", ".js", ".map", ".png", ".jpg", ".jpeg",
    ".gif", ".svg", ".ico", ".webp", ".woff", ".woff2",
    ".ttf", ".eot", ".mp4", ".webm", ".mp3", ".pdf",
    ".zip", ".gz", ".tar"]

/-- `is_static`. -/
def isStatic (url : Str) : Except Fault Bool := do
  let path := lower R (← urlparse R url).path
  return staticSuffixes.any fun suffix => suffix.isSuffixOf path

/-- The words of `_DANGEROUS_PATH`. -/
def dangerousWords : List Str :=
  ["logout", "signout", "sign-out", "log-out", "delete",
    "destroy", "remove", "drop", "purge", "reset",
    "deactivate", "unsubscribe", "revoke", "shutdown",
    "restart"]

/-- `_DANGEROUS_PATH`. -/
def dangerousPath : Regex :=
  .seq (.alt .bos (.cls (· == '/')))
    (.seq (.alts (dangerousWords.map (Regex.word Regex.ignoreCase)))
      (.alt (.cls (· == '/')) (.alt .eol (.cls (· == '?')))))

/-- **`is_dangerous`.** -/
def isDangerous (url : Str) : Except Fault Bool := do
  let parsed ← urlparse R url
  return dangerousPath.search parsed.path || dangerousPath.search parsed.query

/-! ### Submitting a parameter -/

/-- `Param.where`. -/
inductive ParamPlace
  | query
  | form
  deriving DecidableEq

/-- `Param`. -/
structure Param where
  name : Str
  value : Str
  place : ParamPlace
  deriving DecidableEq

/-- `with_param`. -/
def withParam (url name value : Str) : Except Fault Str := do
  let parsed ← urlparse R url
  let params := (parseQsl L parsed.query).filter (·.1 ≠ name) ++ [(name, value)]
  return urlunparse { parsed with query := urlencode L params }

/-- `param.value or "1"`. -/
def Param.sample (param : Param) : Str := if param.value = [] then ['1'] else param.value

/-- `form_url`, on the URL and the fields of the form. -/
def formUrl (url : Str) (params : List Param) (name value : Str) : Except Fault Str := do
  withParam R L (← params.foldlM (fun url param => withParam R L url param.name param.sample) url)
    name value

/-! ### Paths that change state -/

/-- **`is_dangerous` does not recognise the path** of the URL. -/
def Harmless (url : Str) : Prop :=
  ∀ p, urlparse R url = .ok p → dangerousPath.search p.path = false

variable {R L}

theorem harmless_of_isDangerous {url : Str} (h : isDangerous R url = .ok false) :
    Harmless R url := by
  intro p hp
  obtain ⟨p', hp', h⟩ := bind_eq_ok.mp h
  rw [hp] at hp'
  cases hp'
  have hor : (dangerousPath.search p.path || dangerousPath.search p.query) = false :=
    Except.ok.inj h
  exact (Bool.or_eq_false_iff.mp hor).1

theorem Harmless.withParam {url name value u : Str} (h : Harmless R url)
    (hu : withParam R L url name value = .ok u) : Harmless R u := by
  intro p' hp'
  obtain ⟨p, hp, hu⟩ := bind_eq_ok.mp hu
  cases hu
  obtain ⟨-, -, hpath, -⟩ := urlparse_replace (f := p.fragment) hp hp'
  rw [hpath]
  exact h p hp

theorem Harmless.formUrl {url : Str} {params : List Param} {name value u : Str}
    (h : Harmless R url) (hu : formUrl R L url params name value = .ok u) : Harmless R u := by
  obtain ⟨filled, hfilled, hsubmit⟩ := bind_eq_ok.mp hu
  refine Harmless.withParam ?_ hsubmit
  exact of_foldlM (fun _ _ _ _ hurl hurl' => hurl.withParam hurl') h hfilled

end Guardian.Dast

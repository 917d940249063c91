import Guardian.Python.Matcher

/-!
# Credential-shaped text

The patterns of what cannot plausibly be anything but a credential, and the masking of what they
find.
-/

namespace Guardian.Redaction

open Python Python.Matcher List

/-- `MASK`. -/
def mask : Str := "[redacted]"

section Patterns
variable (R : Runtime)

/-! ### Classes -/

/-- `[A-Za-z0-9]`. -/
def isAlphanum (c : Char) : Bool := Regex.lowerAZ c || Regex.upperAZ c || Regex.digit09 c

/-- `[0-9A-Z]`. -/
def isUpperAlphanum (c : Char) : Bool := Regex.upperAZ c || Regex.digit09 c

/-- `[A-Za-z0-9_-]`. -/
def isBase64url (c : Char) : Bool := isAlphanum c || c == '_' || c == '-'

/-- `\Z`. -/
def endOfText : Matcher := Matcher.assert fun k => k.rest.isEmpty

/-! ### Patterns -/

/-- `private_key`. -/
def privateKey : Matcher :=
  seqs [lit "-----BEGIN ",
    opt (alts [lit "RSA ", lit "EC ", lit "DSA ", lit "OPENSSH ", lit "PGP ", lit "ENCRYPTED "]),
    lit "PRIVATE KEY-----",
    lazyStar (chr fun _ => true),
    alts [seqs [lit "-----END ", star (chr fun c => Regex.upperAZ c || c == ' '),
      lit "PRIVATE KEY-----"], endOfText]]

/-- `aws_access_key_id`. -/
def awsAccessKeyId : Matcher :=
  seqs [wordBoundary R, alts [lit "AKIA", lit "ASIA", lit "ABIA", lit "ACCA"],
    times (chr isUpperAlphanum) 16, wordBoundary R]

/-- `github_token`. -/
def githubToken : Matcher :=
  seqs [wordBoundary R, lit "gh", oneOf "pousr", lit "_", atLeast 20 (chr isAlphanum),
    wordBoundary R]

/-- `slack_token`. -/
def slackToken : Matcher :=
  seqs [wordBoundary R, lit "xox", oneOf "baprs", lit "-",
    atLeast 10 (chr fun c => isAlphanum c || c == '-'), wordBoundary R]

/-- `stripe_key`. -/
def stripeKey : Matcher :=
  seqs [wordBoundary R, oneOf "rs", lit "k_", alts [lit "live", lit "test"], lit "_",
    atLeast 16 (chr isAlphanum), wordBoundary R]

/-- `google_api_key`. -/
def googleApiKey : Matcher :=
  seqs [wordBoundary R, lit "AIza", times (chr isBase64url) 35, wordBoundary R]

/-- `npm_token`. -/
def npmToken : Matcher :=
  seqs [wordBoundary R, lit "npm_", times (chr isAlphanum) 36, wordBoundary R]

/-- `pypi_token`. -/
def pypiToken : Matcher :=
  seqs [wordBoundary R, lit "pypi-AgEIcHlwaS5vcmc", atLeast 16 (chr isBase64url), wordBoundary R]

/-- `jwt`. -/
def jwt : Matcher :=
  seqs [wordBoundary R, lit "eyJ", atLeast 8 (chr isBase64url), lit ".",
    atLeast 8 (chr isBase64url), lit ".", atLeast 8 (chr isBase64url), wordBoundary R]

/-- `url_credentials`. -/
def urlCredentials : Matcher :=
  seqs [Matcher.assert fun k => decide ("//:" <+: k.before),
    between 1 64 (chr fun c => !(R.isSpace c || decide (c ∈ "/:@".toList))),
    lit ":",
    between 1 128 (chr fun c => !(R.isSpace c || decide (c ∈ "/@".toList))),
    Matcher.assert fun k => k.rest.head? == some '@']

/-- A word in two parts, with a hyphen or an underscore between them or nothing. -/
def twoWords (s t : String) : Matcher := seqs [litAnyCase s, opt (oneOf "_-"), litAnyCase t]

/-- `assigned_secret`. -/
def assignedSecret : Matcher :=
  seqs [star (seqs [atLeast 1 (chr fun c => Regex.letterAZ c || Regex.digit09 c), oneOf "_.-"]),
    alts [litAnyCase "password", litAnyCase "passwd", litAnyCase "pwd", litAnyCase "secret",
      twoWords "api" "key", litAnyCase "apikey", twoWords "access" "token",
      twoWords "auth" "token", twoWords "client" "secret", twoWords "private" "key"],
    wordBoundary R,
    star (chr R.isSpace),
    oneOf ":=",
    star (chr R.isSpace),
    opt (oneOf "'\""),
    group "value" (atLeast 6 (chr fun c => !(R.isSpace c || decide (c ∈ "'\"<>,;".toList))))]

/-- `_ALREADY_MASKED`. -/
def alreadyMaskedPattern : Matcher :=
  alts [seqs [Matcher.assert fun k => k.before.isEmpty, opt (oneOf "<["), lit "redacted"],
    atLeast 4 (chr (· == '*')),
    seqs [wordBoundary R, lit "REDACTED", wordBoundary R]]

/-- A text is a marker that an engine emits. -/
def alreadyMasked (s : Str) : Bool := search (alreadyMaskedPattern R) s

/-! ### Masking -/

/-- `_mask_assigned`: what was found without its value, and the mask. -/
def maskAssigned (k k' : Cursor) : Str :=
  let found := k.between k'
  let value := (k'.group "value").getD []
  found.take (found.length - value.length) ++ mask

/-- `_PATTERNS`, each with what it is replaced by. -/
def patterns : List (Str × Matcher × (Cursor → Cursor → Str)) :=
  [("private_key", privateKey, fun _ _ => mask),
    ("aws_access_key_id", awsAccessKeyId R, fun _ _ => mask),
    ("github_token", githubToken R, fun _ _ => mask),
    ("slack_token", slackToken R, fun _ _ => mask),
    ("stripe_key", stripeKey R, fun _ _ => mask),
    ("google_api_key", googleApiKey R, fun _ _ => mask),
    ("npm_token", npmToken R, fun _ _ => mask),
    ("pypi_token", pypiToken R, fun _ _ => mask),
    ("jwt", jwt R, fun _ _ => mask),
    ("url_credentials", urlCredentials R, fun _ _ => mask),
    ("assigned_secret", assignedSecret R, maskAssigned)]

/-- One round of the loop in `scrub_text`. -/
def scrubStep (state : Str × List Str) (pattern : Str × Matcher × (Cursor → Cursor → Str)) :
    Str × List Str :=
  if search pattern.2.1 state.1 then
    (sub pattern.2.1 pattern.2.2 state.1, state.2 ++ [pattern.1])
  else state

/-- **`scrub_text`.** -/
def scrubText (text : Str) : Str × List Str :=
  if text = [] then (text, []) else (patterns R).foldl scrubStep (text, [])

end Patterns

end Guardian.Redaction

import Guardian.Python.Regex
import Guardian.Python.Value
import Guardian.Versioning.Evr

/-!
# Version keys

`versionKey` turns a version into a sort key: an `Evr` for Debian and RPM, a tuple for every other
ecosystem.  Where a parser of an ecosystem does not recognise a text it answers with the generic
key of the text, and where it raises `versionKey` does.
-/

namespace Guardian.Versioning

open Python Val

variable (R : Runtime)

/-! ### Ecosystems -/

/-- `Ecosystem`. -/
inductive Ecosystem
  | pypi
  | npm
  | maven
  | rubygems
  | go
  | nuget
  | debian
  | rpm
  | semver
  | generic
  deriving DecidableEq

/-- `_ALIASES`. -/
def aliases : List (String × Ecosystem) :=
  [("pypi", .pypi), ("python", .pypi), ("pip", .pypi),
    ("npm", .npm), ("node", .npm), ("nodejs", .npm), ("yarn", .npm),
    ("maven", .maven), ("java", .maven), ("gradle", .maven),
    ("rubygems", .rubygems), ("gem", .rubygems), ("ruby", .rubygems),
    ("go", .go), ("golang", .go),
    ("nuget", .nuget), ("dotnet", .nuget), ("csharp", .nuget),
    ("debian", .debian), ("ubuntu", .debian), ("deb", .debian),
    ("rpm", .rpm), ("redhat", .rpm), ("rhel", .rpm),
    ("centos", .rpm), ("fedora", .rpm), ("suse", .rpm),
    ("alpine", .rpm),
    ("semver", .semver), ("crates.io", .semver), ("cargo", .semver),
    ("rust", .semver), ("packagist", .semver), ("composer", .semver),
    ("php", .semver), ("hex", .semver), ("pub", .semver)]

/-- `normalize_ecosystem`. -/
def normalizeEcosystem (name : Str) : Ecosystem :=
  if name = [] then .generic
  else ((aliases.find? fun p => p.1.toList == lower R (strip R name)).map Prod.snd).getD .generic

/-- The ecosystem an argument stands for: itself, or a label to look up. -/
def Ecosystem.of : Ecosystem ⊕ Str → Ecosystem
  | .inl eco => eco
  | .inr name => normalizeEcosystem R name

/-! ### The generic key -/

/-- A numeric identifier ranks below a textual one. -/
def identKey (number : Bool) (tok text : Str) : Except Fault Val :=
  if number then do return .tup [.int 0, .int (← int R tok), .str []]
  else return .tup [.int 1, .int 0, .str text]

/-- `\d+|[a-zA-Z]+`. -/
def genericTokens : Regex :=
  .alt (.plus (.cls R.isDecimal)) (.plus (.cls fun c => Regex.lowerAZ c || Regex.upperAZ c))

/-- `_generic_key`. -/
def genericKey (raw : Str) : Except Fault Val := do
  let text := lower R (strip R raw)
  let parts ← (genericTokens R).findall text |>.mapM fun tok => identKey R (strIsdigit R tok) tok tok
  let parts := if parts.isEmpty then [.tup [.int 1, .int 0, .str text]] else parts
  return .tup [.int 0, .tup [], .tup parts, .negInf, .inf]

/-! ### PEP 440 -/

/-- A literal word under `re.IGNORECASE`. -/
def ciWord (s : String) : Regex := .word Regex.ignoreCase s.toList

/-- `[-_.]?` -/
def optSep : Regex := .opt (.cls fun c => c == '-' || c == '_' || c == '.')

/-- `\d*` -/
def digits : Regex := .star (.cls R.isDecimal)

/-- `\d+` -/
def digits1 : Regex := .plus (.cls R.isDecimal)

/-- `\d+(?:\.\d+)*` -/
def releaseNumbers : Regex := .seq (digits1 R) (.star (.seq (.cls (· == '.')) (digits1 R)))

/-- `\s*` -/
def blanks : Regex := .star (.cls R.isSpace)

/-- `[a-z0-9]+` under `re.IGNORECASE`. -/
def localPart : Regex := .plus (.cls fun c => Regex.letterAZ c || Regex.digit09 c)

/-- `_PEP440`. -/
def pep440Regex : Regex :=
  [blanks R, .opt (ciWord "v"),
    .opt (.seq (.group "epoch" (digits1 R)) (.cls (· == '!'))),
    .group "release" (releaseNumbers R),
    .opt (.group "pre" (.seq optSep (.seq
      (.group "pre_l" (.alts (["a", "b", "c", "rc", "alpha", "beta", "pre", "preview"].map ciWord)))
      (.seq optSep (.group "pre_n" (digits R)))))),
    .opt (.group "post" (.alt (.seq (.cls (· == '-')) (.group "post_n1" (digits1 R)))
      (.seq optSep (.seq (.group "post_l" (.alts (["post", "rev", "r"].map ciWord)))
        (.seq optSep (.group "post_n" (digits R))))))),
    .opt (.group "dev" (.seq optSep (.seq (ciWord "dev")
      (.seq optSep (.group "dev_n" (digits R)))))),
    .opt (.seq (.cls (· == '+')) (.group "local" (.seq localPart
      (.star (.seq (.cls fun c => c == '-' || c == '_' || c == '.') localPart))))),
    blanks R].foldr .seq .eol

/-- `_PRE_NORMAL.get(letter, letter)`. -/
def preNormal (letter : Str) : Str :=
  if letter = "alpha" then "a"
  else if letter = "beta" then "b"
  else if letter = "c" ∨ letter = "pre" ∨ letter = "preview" then "rc"
  else letter

/-- `int(group or 0)`. -/
def intOrZero (group : Option Str) : Except Fault ℕ :=
  match group with
  | none => .ok 0
  | some s => if s = [] then .ok 0 else int R s

/-- The last numbers of a release, reversed, without zeros before the first number. -/
def trimZerosRev : List ℕ → List ℕ
  | 0 :: n :: ns => trimZerosRev (n :: ns)
  | ns => ns

/-- `while len(release) > 1 and release[-1] == 0: release = release[:-1]`. -/
def trimZeros (ns : List ℕ) : List ℕ := (trimZerosRev ns.reverse).reverse

/-- The numbers of a release, without insignificant zeros. -/
def releaseTuple (release : Str) : Except Fault Val := do
  let numbers ← (release.splitOn '.').mapM (int R)
  return .tup ((trimZeros numbers).map .int)

/-- `pre`: the normal letter and the number of a pre-release. -/
def pep440Pre (m : Cursor) : Except Fault (Option Val) :=
  match m.group "pre_l" with
  | none => return none
  | some letter =>
    if letter = [] then return none
    else do
      let n ← intOrZero R (m.group "pre_n")
      return some (.tup [.str (preNormal (lower R letter)), .int n])

/-- `post`: the number of a post-release, in one of its two spellings. -/
def pep440Post (m : Cursor) : Except Fault (Option ℕ) :=
  if (m.group "post_n1").getD [] ≠ [] then some <$> int R ((m.group "post_n1").getD [])
  else if (m.group "post_l").getD [] ≠ [] then some <$> intOrZero R (m.group "post_n")
  else return none

/-- `dev`: the number of a development release. -/
def pep440Dev (m : Cursor) : Except Fault (Option ℕ) :=
  if (m.group "dev").getD [] ≠ [] then some <$> intOrZero R (m.group "dev_n") else return none

/-- A development release precedes everything of its release, a final one follows its
pre-releases. -/
def pep440PreKey (pre : Option Val) (post dev : Option ℕ) : Val :=
  match pre with
  | some pre => pre
  | none => if post = none ∧ dev ≠ none then .negInf else .inf

/-- The key of a text that matched `_PEP440`. -/
def pep440Parsed (m : Cursor) : Except Fault Val := do
  let epoch ← intOrZero R (m.group "epoch")
  let release ← releaseTuple R ((m.group "release").getD [])
  let pre ← pep440Pre R m
  let post ← pep440Post R m
  let dev ← pep440Dev R m
  return .tup [.int epoch, release, pep440PreKey pre post dev,
    (post.map .int).getD .negInf, (dev.map .int).getD .inf]

/-- `_pep440_key`. -/
def pep440Key (raw : Str) : Except Fault Val :=
  match (pep440Regex R).rematch raw with
  | none => genericKey R raw
  | some m => pep440Parsed R m

/-! ### SemVer -/

/-- `[0-9a-z.-]+` under `re.IGNORECASE`. -/
def semverIdents : Regex :=
  .plus (.cls fun c => Regex.digit09 c || Regex.letterAZ c || c == '.' || c == '-')

/-- `_SEMVER`. -/
def semverRegex : Regex :=
  [blanks R, .opt (ciWord "v"), .group "release" (releaseNumbers R),
    .opt (.seq (.cls (· == '-')) (.group "pre" semverIdents)),
    .opt (.seq (.cls (· == '+')) (.group "build" semverIdents)),
    blanks R].foldr .seq .eol

/-- `_semver_pre_key`. -/
def semverPreKey (pre : Option Str) : Except Fault Val :=
  match pre with
  | none => .ok (.tup [.inf])
  | some pre => do
    let parts ← (pre.splitOn '.').mapM fun ident =>
      identKey R (strIsdigit R ident) ident (lower R ident)
    return .tup parts

def incompatible : Str := "+incompatible"

/-- A version without the suffix of Go modules. -/
def semverCleaned (raw : Str) : Str :=
  if incompatible.isSuffixOf (lower R (strip R raw)) then
    (strip R raw).take ((strip R raw).length - incompatible.length)
  else strip R raw

/-- The key of a text that matched `_SEMVER`. -/
def semverParsed (m : Cursor) : Except Fault Val := do
  let release ← releaseTuple R ((m.group "release").getD [])
  let pre ← semverPreKey R (m.group "pre")
  return .tup [.int 0, release, pre, .negInf, .inf]

/-- `_semver_key`. -/
def semverKey (raw : Str) : Except Fault Val :=
  match (semverRegex R).rematch (semverCleaned R raw) with
  | none => genericKey R raw
  | some m => semverParsed R m

/-! ### Maven -/

/-- `_MAVEN_QUALIFIERS`. -/
def mavenQualifiers : List (String × ℕ) :=
  [("alpha", 1), ("a", 1), ("beta", 2), ("b", 2), ("milestone", 3), ("m", 3),
    ("rc", 4), ("cr", 4), ("snapshot", 5), ("", 6), ("ga", 6), ("final", 6), ("release", 6),
    ("sp", 7)]

/-- The rank of a qualifier, if it is a known one. -/
def mavenRank (qualifier : Str) : Option ℕ :=
  (mavenQualifiers.find? fun p => p.1.toList == qualifier).map Prod.snd

/-- `^([a-z]+)(\d*)$`. -/
def mavenToken : Regex :=
  .seq (.group "1" (.plus (.cls Regex.lowerAZ))) (.seq (.group "2" (digits R)) .eol)

/-- What the loop over the tokens carries. -/
structure MavenState where
  numeric : List ℕ
  rank : ℕ
  num : ℕ
  text : Str

/-- One token. -/
def mavenStep (s : MavenState) (tok : Str) : Except Fault MavenState :=
  if strIsdigit R tok then do
    let n ← int R tok
    if s.rank = 6 ∧ s.text = [] then return { s with numeric := s.numeric ++ [n] }
    else return { s with num := n }
  else
    match ((mavenToken R).rematch tok).bind fun m =>
      (mavenRank ((m.group "1").getD [])).map fun r => (r, (m.group "2").getD []) with
    | some (r, n) =>
      if n ≠ [] then do return { s with rank := r, num := ← int R n }
      else return { s with rank := r }
    | none => if tok ≠ [] then return { s with rank := 8, text := tok } else return s

/-- `_maven_key`. -/
def mavenKey (raw : Str) : Except Fault Val := do
  let tokens := (lower R (strip R raw)).splitOnP fun c => c == '.' || c == '-' || c == '_'
  let s ← tokens.foldlM (mavenStep R) ⟨[], 6, 0, []⟩
  return .tup [.int 0, .tup ((trimZeros s.numeric).map .int),
    .tup [.tup [.int s.rank, .int s.num, .str s.text]], .negInf, .inf]

/-! ### Keys -/

/-- What a version sorts by. -/
inductive Key
  | val (v : Val)
  | evr (e : Evr)

/-- An unparseable version degrades to its generic key; a call that never returns does not. -/
def degrade (text : Str) (key : Except Fault Key) : Except Fault Key :=
  match key with
  | .error .diverges => .error .diverges
  | .error _ => .val <$> genericKey R text
  | .ok k => .ok k

/-- `version_key`. -/
def versionKey (raw : Str) (ecosystem : Ecosystem ⊕ Str) : Except Fault Key :=
  let text := strip R raw
  if text = [] then .val <$> genericKey R []
  else
    match Ecosystem.of R ecosystem with
    | .pypi => degrade R text (.val <$> pep440Key R text)
    | .npm | .semver | .go | .nuget | .rubygems => degrade R text (.val <$> semverKey R text)
    | .maven => degrade R text (.val <$> mavenKey R text)
    | .debian => degrade R text (.evr <$> parseEvr R text false)
    | .rpm => degrade R text (.evr <$> parseEvr R text true)
    | .generic => .val <$> genericKey R text

end Guardian.Versioning

import Guardian.Python.Lines

/-!
# Package metadata

The files of an image that declare packages are told by their paths; what they declare is read by a
parser for each format.  The parsers of the package databases and of Python's metadata are written
out; those that rest on a library for an archive, a document or a pattern are given.
-/

namespace Guardian.Images

open Python

/-- A package: its name, its version, its ecosystem, and the file that declares it. -/
structure Package where
  name : Str
  version : Str
  ecosystem : Str
  source : Str
  deriving DecidableEq

/-- `MAX_PACKAGES`. -/
def maxPackages : ℕ := 20000

/-! ### Lines -/

/-- `text.split("\n\n")`, with the block so far, reversed. -/
def blocksFrom (block : Str) : Str → List Str
  | [] => [block.reverse]
  | '\n' :: '\n' :: cs => block.reverse :: blocksFrom [] cs
  | c :: cs => blocksFrom (c :: block) cs

/-- `text.split("\n\n")`. -/
def blocks (text : Str) : List Str := blocksFrom [] text

/-! ### Parsers -/

section Parsers
variable (R : Runtime)

/-- `DPKG_STATUS`. -/
def dpkgStatus : Str := "var/lib/dpkg/status"

/-- `APK_INSTALLED`. -/
def apkInstalled : Str := "lib/apk/db/installed"

/-- One line of a block of fields: the key so far, and the fields, the newest first. -/
def fieldLine (state : Str × List (Str × Str)) (line : Str) : Str × List (Str × Str) :=
  let (key, fields) := state
  if (line.head? = some ' ' ∨ line.head? = some '\t') ∧ key ≠ [] then state
  else
    match partition ':' line with
    | (name, true, value) =>
      let key := lower R (strip R name)
      (key, (key, strip R value) :: fields)
    | (_, false, _) => (key, fields)

/-- A block of `status`. -/
def dpkgPackage (block : Str) : Option Package :=
  if strip R block = [] then none
  else
    let fields := ((splitlines block).foldl (fieldLine R) ([], [])).2
    let field := fun name : Str => (fields.lookup name).getD []
    let status := field "status"
    let package := field "package"
    let version := field "version"
    if ¬ "installed" <:+: status ∨ "deinstall" <+: status ∨
        "purge" <+: status ∨ package = [] ∨ version = [] then none
    else some ⟨package, version, "Debian", dpkgStatus⟩

/-- **`parse_dpkg_status`.** -/
def parseDpkgStatus (text : Str) : List Package :=
  ((blocks text).filterMap (dpkgPackage R)).take maxPackages

/-- One line of a block of `installed`: the package and the version so far. -/
def apkLine (state : Str × Str) (line : Str) : Str × Str :=
  if "P:" <+: line then (strip R (line.drop 2), state.2)
  else if "V:" <+: line then (state.1, strip R (line.drop 2))
  else state

/-- A block of `installed`. -/
def apkPackage (block : Str) : Option Package :=
  let (package, version) := (splitlines block).foldl (apkLine R) ([], [])
  if package = [] ∨ version = [] then none
  else some ⟨package, version, "Alpine", apkInstalled⟩

/-- **`parse_apk_installed`.** -/
def parseApkInstalled (text : Str) : List Package :=
  ((blocks text).filterMap (apkPackage R)).take maxPackages

/-- The loop over the headers of `METADATA`, from the name and the version so far. -/
def metadataLines : Str × Str → List Str → Str × Str
  | state, [] => state
  | (name, version), line :: lines =>
    if "Name:" <+: line ∧ name = [] then
      metadataLines (strip R (line.drop 5), version) lines
    else if "Version:" <+: line ∧ version = [] then
      metadataLines (name, strip R (line.drop 8)) lines
    else if strip R line = [] then (name, version)
    else metadataLines (name, version) lines

/-- **`parse_python_metadata`.** -/
def parsePythonMetadata (text source : Str) : List Package :=
  let (name, version) := metadataLines R ([], []) (splitlines text)
  if name ≠ [] ∧ version ≠ [] then [⟨name, version, "PyPI", source⟩] else []

end Parsers

/-! ### Formats -/

/-- The files that declare packages and are told by their paths. -/
inductive Format
  | dpkg
  | apk
  | pythonMetadata
  | nodeManifest
  | yarnLock
  | packageLock
  | gemfileLock
  | gemspec
  | jar
  deriving DecidableEq

/-- `is_python_metadata`. -/
def isPythonMetadata (path : Str) : Bool :=
  "dist-info/METADATA" <:+ path ∨ "egg-info/PKG-INFO" <:+ path

/-- `is_node_manifest`. -/
def isNodeManifest (path : Str) : Bool :=
  "/package.json" <:+ path ∧ "/node_modules/" <:+: '/' :: path

/-- `is_npm_lockfile`. -/
def isNpmLockfile (path : Str) : Bool :=
  ["package-lock.json".toList, "npm-shrinkwrap.json".toList, "yarn.lock".toList].any fun name =>
    '/' :: name <:+ path ∨ path = name

/-- `is_gemfile_lock`. -/
def isGemfileLock (path : Str) : Bool := "Gemfile.lock" <:+ path

/-- `is_gemspec`. -/
def isGemspec (path : Str) : Bool := ".gemspec" <:+ path

/-- `is_jar`. -/
def isJar (path : Str) : Bool := ".jar" <:+ path ∨ ".war" <:+ path

/-- The branch that is taken for a path; none of them leaves the probe for a binary. -/
def formatOf (path : Str) : Option Format :=
  if path = dpkgStatus then some .dpkg
  else if path = apkInstalled then some .apk
  else if isPythonMetadata path then some .pythonMetadata
  else if isNodeManifest path then some .nodeManifest
  else if isNpmLockfile path then
    some (if "yarn.lock" <:+ path then .yarnLock else .packageLock)
  else if isGemfileLock path then some .gemfileLock
  else if isGemspec path then some .gemspec
  else if isJar path then some .jar
  else none

/-- **What the libraries read**: the decoding of bytes, and the parsers that rest on them. -/
structure Libraries where
  runtime : Runtime
  decode : List UInt8 → Str
  parseNodePackageJson : Str → Str → List Package
  parseYarnLock : Str → Str → List Package
  parsePackageLock : Str → Str → List Package
  parseGemfileLock : Str → Str → List Package
  parseGemspec : Str → Str → List Package
  parseJar : List UInt8 → Str → List Package
  parseGoBuildinfo : List UInt8 → Str → List Package

/-- What a file of a format declares. -/
def Libraries.parse (L : Libraries) (data : List UInt8) (path : Str) : Format → List Package
  | .dpkg => parseDpkgStatus L.runtime (L.decode data)
  | .apk => parseApkInstalled L.runtime (L.decode data)
  | .pythonMetadata => parsePythonMetadata L.runtime (L.decode data) path
  | .nodeManifest => L.parseNodePackageJson (L.decode data) path
  | .yarnLock => L.parseYarnLock (L.decode data) path
  | .packageLock => L.parsePackageLock (L.decode data) path
  | .gemfileLock => L.parseGemfileLock (L.decode data) path
  | .gemspec => L.parseGemspec (L.decode data) path
  | .jar => L.parseJar data path

/-- `looks_like_binary`. -/
def looksLikeBinary (data : List UInt8) : Bool :=
  data.take 4 ∈ [[0x7f, 0x45, 0x4c, 0x46], [0x4d, 0x5a, 0x90, 0x00], [0xcf, 0xfa, 0xed, 0xfe],
    [0xfe, 0xed, 0xfa, 0xcf], [0xca, 0xfe, 0xba, 0xbe]] ∨ data.take 2 = [0x4d, 0x5a]

end Guardian.Images

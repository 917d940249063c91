import Guardian.Images.Inventory
import Guardian.Posture.Engines
import Guardian.ScanPlane.Results

/-!
# Engines

An engine is given a context, of which the matcher of advisories is the one part that is no data.
Besides the dependency scanner only the container engine asks it: for each package that the image
has.
-/

namespace Guardian.ScanPlane

open Python Findings Images

/-! ### Contexts -/

/-- `VulnMatch`, as far as the container engine reads it. -/
structure VulnMatch where
  externalId : Str
  summary : Str
  severity : Severity
  cvssBase : Object
  epssScore : Object
  kev : Bool
  exploitMaturity : Object
  ransomware : Bool
  cweIds : List Str
  references : List Object

/-- `VulnMatcher.match`, of a name, a version and an ecosystem. -/
abbrev VulnMatcher := Str → Str → Str → List VulnMatch

/-- The fields of a `ScanContext` that `_CTX_FIELDS` names. -/
structure JobFields where
  scanId : Str
  assetKind : Str
  assetIdentifier : Str
  workspacePath : Option Str
  artifactPath : Option Str
  inlineContent : Option Str
  exposure : Str
  settings : Object.Dict
  assetConfig : Object.Dict
  secretConfig : Object.Dict

/-- **`ScanContext`.** -/
structure ScanContext extends JobFields where
  vulnMatcher : Option VulnMatcher

/-- **An engine.**  `collectInventory` is nothing where the engine has no such method, and an error
where it raises. -/
structure Engine (E : Type) where
  key : EngineKey
  run : ScanContext → Except E (List RawFinding)
  health : EngineHealth
  collectInventory : Option (ScanContext → Except E (List (List Object)))

/-! ### The container engine -/

/-- `ImageFinding`. -/
structure ImageFinding where
  rule : Str
  title : Str
  severity : Severity
  cwe : Str
  detail : Str
  path : Str
  layerIndex : ℤ
  deletedLater : Bool
  excerpt : Str

/-- What is on the disk for the container engine, and its rules: where the image archive is, what is
read there, the Dockerfiles of a workspace, and what is found in an image and in a Dockerfile.
`analyze` also gives the archive as it is after its layers were read. -/
structure ContainerFiles (E : Type) where
  libraries : Libraries
  imagePath : JobFields → Option Str
  openArchive : Str → Except Str ImageArchive
  analyze : ImageArchive → Except E (List ImageFinding × ImageArchive)
  dockerfiles : Str → Except E (List (Str × Str))
  scanDockerfile : Str → Str → List RawFinding

/-- A key of a dictionary and its value. -/
def entry (name : String) (x : Object) : Key × Object := (.str name.toList, x)

def objectInt (n : ℤ) : Object := .number (toString n).toList

/-- A raw finding of the container engine, of no other field than those given. -/
def containerFinding (title category description : Str) (severity : Severity) (cwe : Object)
    (location evidence : Object.Dict) : RawFinding where
  engine := .container
  title
  category
  description
  baseSeverity := severity
  confidence := "high"
  cweId := cwe
  owaspRef := .null
  cveIds := []
  cvssBase := .null
  epssScore := .null
  kev := false
  exploitMaturity := .null
  ransomware := false
  location
  evidence
  references := []

/-- `_image_finding`. -/
def imageFinding (archivePath : Str) (issue : ImageFinding) : RawFinding :=
  containerFinding issue.title "container-misconfig" issue.detail issue.severity
    (.str issue.cwe)
    [entry "path" (.str (if issue.path = [] then archivePath else issue.path)),
      entry "layer" (objectInt issue.layerIndex), entry "rule" (.str issue.rule)]
    ([entry "image" (.str archivePath), entry "path" (.str issue.path),
      entry "layer_index" (objectInt issue.layerIndex),
      entry "deleted_in_a_later_layer" (.bool issue.deletedLater)] ++
        if issue.excerpt = [] then [] else [entry "excerpt" (.str issue.excerpt)])

/-- What is reported of an archive that cannot be read. -/
def unreadable (archivePath error : Str) : RawFinding :=
  containerFinding "Container image could not be read" "scan-error"
    (error ++ (" — the image was not analysed. Reported rather than skipped: an image " ++
      "that produced no findings because it could not be opened is indistinguishable " ++
      "from a clean one.").toList) .info .null
    [entry "path" (.str archivePath), entry "rule" (.str "image-unreadable")]
    [entry "error" (.str (error.take 300))]

/-- `RPM_DB_PREFIXES`. -/
def rpmDbPrefixes : List Str := ["var/lib/rpm/", "usr/lib/sysimage/rpm/"]

/-- `rpm_present`. -/
def rpmPresent (paths : List Str) : Bool :=
  paths.any fun path => rpmDbPrefixes.any fun p => decide (p <+: path)

/-- What is reported of an image with a database of RPM packages. -/
def rpmGap (archivePath : Str) (count : ℕ) : RawFinding :=
  containerFinding "RPM package database not inventoried" "scan-gap"
    ("The image carries an RPM database, which this reader does not parse — its " ++
      "packages were not checked for known vulnerabilities. Stated rather than " ++
      "silently omitted: an empty package list and an unread one look identical in a " ++
      "report, and only one of them is good news.").toList .info .null
    [entry "path" (.str archivePath), entry "rule" (.str "image-rpm-not-parsed")]
    [entry "packages_from_other_sources" (objectInt count)]

/-- `dependency_evidence`. -/
def dependencyEvidence (p : Package) (advisory : Str) : Object.Dict :=
  [entry "kind" (.str "dependency"),
    entry "summary" (.str (Posture.truncate (p.name ++ '@' :: p.version ++ " (" ++
      p.ecosystem ++ ")"))),
    entry "location" (.dict [entry "package" (.str p.name), entry "version" (.str p.version),
      entry "ecosystem" (.str p.ecosystem)]),
    entry "detail" (.dict [entry "advisory" (.str (Posture.truncate advisory))]),
    entry "artifact_ref" .null]

/-- What is reported of a package that the matcher matches. -/
def packageFinding (archivePath : Str) (p : Package) (v : VulnMatch) : RawFinding where
  engine := .container
  title := "Vulnerable image package: " ++ p.name ++ '@' :: p.version ++ " (" ++
    v.externalId ++ ")"
  category := "vuln-dep"
  description :=
    if v.summary = [] then
      p.name ++ '@' :: p.version ++ " in this image is affected by " ++ v.externalId ++ ['.']
    else v.summary
  baseSeverity := v.severity
  confidence := "high"
  cweId := (v.cweIds.head?.map .str).getD .null
  owaspRef := .null
  cveIds := if "CVE-" <+: v.externalId then [.str v.externalId] else []
  cvssBase := v.cvssBase
  epssScore := v.epssScore
  kev := v.kev
  exploitMaturity := v.exploitMaturity
  ransomware := v.ransomware
  location :=
    [entry "path" (.str archivePath), entry "package" (.str p.name),
      entry "version" (.str p.version), entry "ecosystem" (.str p.ecosystem),
      entry "source" (.str p.source), entry "rule" (.str "image-vulnerable-package")]
  evidence := dependencyEvidence p v.externalId
  references := [entry "refs" (.list v.references), entry "advisory" (.str v.externalId)]

/-- The comparison of two packages, as tuples. -/
def packageCmp (p q : Package) : Ordering :=
  (strCmp p.name q.name).then <| (strCmp p.version q.version).then <|
    (strCmp p.ecosystem q.ecosystem).then (strCmp p.source q.source)

/-- `sorted(latest.values())`. -/
def sortedPackages (latest : List Package) : List Package :=
  latest.mergeSort fun p q => (packageCmp p q).isLE

/-- What the matcher matches of the packages. -/
def matchFindings (archivePath : Str) (packages : List Package) :
    Option VulnMatcher → List RawFinding
  | none => []
  | some matcher => packages.flatMap fun p =>
    (matcher p.name p.version p.ecosystem).map (packageFinding archivePath p)

variable {E : Type} (F : ContainerFiles E)

namespace ContainerFiles

/-- `_image_packages`. -/
def imagePackages (archive : ImageArchive) (archivePath : Str) (matcher : Option VulnMatcher) :
    List RawFinding :=
  let (latest, paths) := walkImageInventory F.libraries archive
  (if rpmPresent paths then [rpmGap archivePath latest.length] else []) ++
    matchFindings archivePath (sortedPackages latest) matcher

/-- `scan_image`. -/
def scanImage (archivePath : Str) (matcher : Option VulnMatcher) : Except E (List RawFinding) :=
  match F.openArchive archivePath with
  | .error error => .ok [unreadable archivePath error]
  | .ok archive => do
    let (issues, archive) ← F.analyze archive
    return issues.map (imageFinding archivePath) ++ F.imagePackages archive archivePath matcher

/-- What is found in the Dockerfiles of the workspace. -/
def scanWorkspace (job : JobFields) : Except E (List RawFinding) :=
  match job.workspacePath.filter (· ≠ []) with
  | none => .ok []
  | some root => do
    let files ← F.dockerfiles root
    return files.flatMap fun file => F.scanDockerfile file.1 file.2

/-- **`ContainerEngine.run`.** -/
def run (ctx : ScanContext) : Except E (List RawFinding) :=
  match ctx.inlineContent with
  | some text => .ok (F.scanDockerfile "Dockerfile" text)
  | none => do
    let image ← match F.imagePath ctx.toJobFields with
      | some archivePath => F.scanImage archivePath ctx.vulnMatcher
      | none => .ok []
    return image ++ (← F.scanWorkspace ctx.toJobFields)

/-- The packages of an archive that can be read. -/
def packagesOf (archivePath : Str) : List Package :=
  match F.openArchive archivePath with
  | .error _ => []
  | .ok archive =>
    match F.analyze archive with
    | .error _ => []
    | .ok (_, archive) => sortedPackages (walkImageInventory F.libraries archive).1

/-- The packages that the container engine asks the matcher for. -/
def packages (job : JobFields) : List Package :=
  match job.inlineContent, F.imagePath job with
  | none, some archivePath => F.packagesOf archivePath
  | _, _ => []

/-- `ContainerEngine.collect_inventory`. -/
def collectInventory (ctx : ScanContext) : Except E (List (List Object)) :=
  match F.imagePath ctx.toJobFields with
  | none => .ok []
  | some archivePath =>
    match F.openArchive archivePath with
    | .error _ => .ok []
    | .ok archive =>
      .ok ((sortedPackages (walkImageInventory F.libraries archive).1).map fun p =>
        [.str p.name, .str p.version, .str p.ecosystem, .str p.source])

/-- The container engine. -/
def engine : Engine E where
  key := .container
  run := F.run
  health := ⟨true, "builtin Dockerfile rules + in-process image reader", false, []⟩
  collectInventory := some F.collectInventory

variable {F}

theorem matchFindings_nil (archivePath : Str) (matcher : Option VulnMatcher) :
    matchFindings archivePath [] matcher = [] := by
  cases matcher <;> rfl

theorem scanImage_cases (archivePath : Str) :
    (∃ e, ∀ matcher, F.scanImage archivePath matcher = .error e) ∨
      ∃ before, ∀ matcher, F.scanImage archivePath matcher =
        .ok (before ++ matchFindings archivePath (F.packagesOf archivePath) matcher) := by
  unfold scanImage packagesOf
  rcases F.openArchive archivePath with error | archive
  · refine Or.inr ⟨[unreadable archivePath error], fun matcher => ?_⟩
    dsimp only
    rw [matchFindings_nil]
    rfl
  · dsimp only
    rcases hanalyze : F.analyze archive with e | ⟨issues, archive'⟩
    · exact Or.inl ⟨e, fun _ => rfl⟩
    · rcases hwalk : walkImageInventory F.libraries archive' with ⟨latest, paths⟩
      refine Or.inr ⟨issues.map (imageFinding archivePath) ++
        if rpmPresent paths then [rpmGap archivePath latest.length] else [], fun matcher => ?_⟩
      dsimp only
      rw [hwalk, List.append_assoc]
      simp only [imagePackages, hwalk, bind, Except.bind, pure, Except.pure]

/-- **The container engine** raises whatever the matcher is, or reports the matches of its packages
between what it finds anyway. -/
theorem run_cases (job : JobFields) :
    (∃ e, ∀ matcher, F.run ⟨job, matcher⟩ = .error e) ∨
      ∃ before archivePath after, ∀ matcher, F.run ⟨job, matcher⟩ =
        .ok (before ++ matchFindings archivePath (F.packages job) matcher ++ after) := by
  unfold run packages
  dsimp only
  rcases job.inlineContent with _ | text
  · rcases F.imagePath job with _ | archivePath
    · rcases F.scanWorkspace job with e | after
      · exact Or.inl ⟨e, fun _ => rfl⟩
      · refine Or.inr ⟨[], [], after, fun matcher => ?_⟩
        dsimp only
        rw [matchFindings_nil]
        rfl
    · dsimp only
      rcases F.scanImage_cases archivePath with ⟨e, he⟩ | ⟨before, hbefore⟩
      · refine Or.inl ⟨e, fun matcher => ?_⟩
        rw [he]
        rfl
      · rcases F.scanWorkspace job with e | after
        · refine Or.inl ⟨e, fun matcher => ?_⟩
          rw [hbefore]
          rfl
        · refine Or.inr ⟨before, archivePath, after, fun matcher => ?_⟩
          rw [hbefore]
          rfl
  · refine Or.inr ⟨F.scanDockerfile "Dockerfile" text, [], [], fun matcher => ?_⟩
    dsimp only
    rw [matchFindings_nil, List.append_nil, List.append_nil]

end ContainerFiles

end Guardian.ScanPlane

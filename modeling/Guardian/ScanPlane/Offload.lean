import Guardian.ScanPlane.Engines

/-!
# The scan plane

The control plane can run an engine itself, or seal a job for the scan plane, which runs the engine
on what it rebuilds of the context and seals the bundle of its results.  The matcher of advisories
does not cross.  `offloaded_eq_iff` says when both find the same.
-/

namespace Guardian.ScanPlane

open Python Findings Images List

variable {E : Type}

/-! ### Running an engine -/

/-- `_collect_inventory`. -/
def collectInventory (engine : Engine E) (ctx : ScanContext) : List (List Object) :=
  match engine.collectInventory with
  | none => []
  | some collect =>
    match collect ctx with
    | .ok rows => rows
    | .error _ => []

/-- **`_run_engine`**, where nothing is offloaded. -/
def runEngine (engine : Engine E) (ctx : ScanContext) : Except E EngineOutcome := do
  let raws ← engine.run ctx
  return ⟨raws, engine.health, collectInventory engine ctx⟩

/-- `_run_engine_sandboxed`, with what its dictionary has. -/
def runEngineSandboxed (engine : Engine E) (ctx : ScanContext) : Except E EngineOutcome := do
  let raws ← engine.run ctx
  let health := engine.health
  let inventory := collectInventory engine ctx
  return ⟨raws, health, inventory⟩

/-- `get_engine`: of two plugins with a key the last one counts. -/
def getEngine (plugins : List (Engine E)) (key : Object) : Option (Engine E) :=
  plugins.reverse.find? fun engine =>
    match key with
    | .str value => engine.key.value = value
    | _ => false

/-! ### Jobs -/

/-- The part of the context that is sealed. -/
def JobFields.fields (job : JobFields) : List (Str × Object) :=
  [("scan_id", .str job.scanId), ("asset_kind", .str job.assetKind),
    ("asset_identifier", .str job.assetIdentifier),
    ("workspace_path", (job.workspacePath.map .str).getD .null),
    ("artifact_path", (job.artifactPath.map .str).getD .null),
    ("inline_content", (job.inlineContent.map .str).getD .null),
    ("exposure", .str job.exposure), ("settings", .dict job.settings),
    ("asset_config", .dict job.assetConfig),
    ("secret_config", .dict job.secretConfig)]

/-- The fields of the payload of `seal_engine_job`. -/
def jobFields (engineKey : Str) (job : JobFields) : List (Str × Object) :=
  [("engine_key", .str engineKey), ("ctx", .record job.fields)]

/-- An argument that is a text. -/
def textArgument (d : Object.Dict) (name : String) (default : Except Raised Str) :
    Except Raised Str :=
  match Object.get d name with
  | some (.str s) => .ok s
  | some _ => .error "TypeError"
  | none => default

/-- An argument that is a text or `None`. -/
def optionalArgument (d : Object.Dict) (name : String) : Except Raised (Option Str) :=
  match Object.get d name with
  | some (.str s) => .ok (some s)
  | some .null => .ok none
  | some _ => .error "TypeError"
  | none => .ok none

/-- An argument that is a dictionary. -/
def dictArgument (d : Object.Dict) (name : String) : Except Raised Object.Dict :=
  match Object.get d name with
  | some (.dict entries) => .ok entries
  | some _ => .error "TypeError"
  | none => .ok []

/-- `_CTX_FIELDS`. -/
def ctxFields : List Str :=
  ["scan_id", "asset_kind", "asset_identifier", "workspace_path",
    "artifact_path", "inline_content", "exposure", "settings",
    "asset_config", "secret_config"]

/-- The data of `ScanContext(vuln_matcher=None, **ctx)`.  An argument of another type, which a job
that was sealed for an engine does not have, is turned away here. -/
def JobFields.ofArguments (ctx : Object) : Except Raised JobFields := do
  let d ← asDict "TypeError" ctx
  let required : Except Raised Str := .error "TypeError"
  if d.any fun e => decide (e.1 ∉ ctxFields.map Key.str) then .error "TypeError" else .ok ()
  return {
    scanId := ← textArgument d "scan_id" required
    assetKind := ← textArgument d "asset_kind" required
    assetIdentifier := ← textArgument d "asset_identifier" required
    workspacePath := ← optionalArgument d "workspace_path"
    artifactPath := ← optionalArgument d "artifact_path"
    inlineContent := ← optionalArgument d "inline_content"
    exposure := ← textArgument d "exposure" (.ok "unknown")
    settings := ← dictArgument d "settings"
    assetConfig := ← dictArgument d "asset_config"
    secretConfig := ← dictArgument d "secret_config" }

/-- **The serialisable fields are JSON values.** -/
def JobFields.JsonSafe (job : JobFields) : Prop := (Object.record job.fields).portable = true

/-! ### The planes -/

/-- A sealing of JSON texts, each given by its value, that loses nothing. -/
structure Sealing where
  Sealed : Type
  sealSecret : Json → Sealed
  unsealSecret : Sealed → Option Json
  lossless : ∀ text, unsealSecret (sealSecret text) = some text

/-- What can come out of an offloaded engine instead of an outcome: what the engine raises, or
another exception. -/
inductive Failure (E : Type)
  | engine (e : E)
  | raised (exception : Raised)

/-- A step of the planes that may raise an exception. -/
def Failure.ofRaised {A : Type} : Except Raised A → Except (Failure E) A
  | .ok a => .ok a
  | .error e => .error (.raised e)

/-- What an engine raises crosses the planes. -/
def Failure.ofEngine {A : Type} : Except E A → Except (Failure E) A
  | .ok a => .ok a
  | .error e => .error (.engine e)

variable (S : Sealing) (C : Conversions)

/-- `seal_secret(json.dumps(x))`. -/
def Sealing.dumps (x : Object) : Except Raised S.Sealed :=
  match x.dumps with
  | some text => .ok (S.sealSecret text)
  | none => .error "TypeError"

/-- `json.loads(unseal_secret(x))`. -/
def Sealing.loads (x : S.Sealed) : Except Raised Object :=
  match S.unsealSecret x with
  | some text => .ok (Object.loads text)
  | none => .error "ValueError"

/-- `seal_engine_job`. -/
def sealEngineJob (engineKey : Str) (job : JobFields) : Except Raised S.Sealed :=
  S.dumps (.record (jobFields engineKey job))

/-- **`execute_engine`.** -/
def executeEngine (plugins : List (Engine E)) (sealedJob : S.Sealed) :
    Except (Failure E) S.Sealed := do
  let job ← Failure.ofRaised (S.loads sealedJob)
  let d ← Failure.ofRaised (asDict "TypeError" job)
  let engineKey ← Failure.ofRaised (item d "engine_key")
  let ctx ← Failure.ofRaised (item d "ctx")
  let fields ← Failure.ofRaised (JobFields.ofArguments ctx)
  match getEngine plugins engineKey with
  | none => .error (.raised "ValueError")
  | some engine =>
    let outcome ← Failure.ofEngine (runEngineSandboxed engine ⟨fields, none⟩)
    Failure.ofRaised (S.dumps outcome.bundle)

/-- **`run_engine_offloaded`.** -/
def runEngineOffloaded (plugins : List (Engine E)) (engineKey : Str) (ctx : ScanContext) :
    Except (Failure E) EngineOutcome := do
  let sealedIn ← Failure.ofRaised (sealEngineJob S engineKey ctx.toJobFields)
  let sealedOut ← executeEngine S plugins sealedIn
  let bundle ← Failure.ofRaised (S.loads sealedOut)
  Failure.ofRaised (EngineOutcome.ofBundle C bundle)

/-! ### What crosses -/

variable {S C}

theorem exists_loads_of_dumps {x : Object} {y : S.Sealed} (h : S.dumps x = .ok y) :
    ∃ x', x.carry = some x' ∧ S.loads y = .ok x' := by
  unfold Sealing.dumps at h
  unfold Sealing.loads Object.carry
  rcases hx : x.dumps with _ | text
  · rw [hx] at h
    cases h
  · rw [hx] at h
    cases h
    rw [S.lossless]
    exact ⟨_, rfl, rfl⟩

theorem exists_dumps_of_portable {x : Object} (h : x.portable = true) :
    ∃ y, S.dumps x = .ok y ∧ S.loads y = .ok x := by
  have hcarry := Object.carry_eq_some_iff.mpr h
  rcases hdumps : S.dumps x with e | y
  · unfold Sealing.dumps at hdumps
    unfold Object.carry at hcarry
    rcases hx : x.dumps with _ | text
    · rw [hx] at hcarry
      cases hcarry
    · rw [hx] at hdumps
      cases hdumps
  · obtain ⟨x', hx', hloads⟩ := exists_loads_of_dumps hdumps
    rw [hcarry] at hx'
    cases hx'
    exact ⟨y, rfl, hloads⟩

variable (S C) in
/-- What the control plane receives of an outcome. -/
def received (o : EngineOutcome) : Except Raised EngineOutcome := do
  let sealedOut ← S.dumps o.bundle
  let bundle ← S.loads sealedOut
  EngineOutcome.ofBundle C bundle

theorem carry_of_received {o o' : EngineOutcome} (h : received S C o = .ok o') :
    o.bundle.carry = some o'.bundle ∧ o'.raws.length = o.raws.length := by
  unfold received at h
  rcases hdumps : S.dumps o.bundle with e | y
  · rw [hdumps] at h
    cases h
  · obtain ⟨x, hcarry, hloads⟩ := exists_loads_of_dumps hdumps
    rw [hdumps] at h
    simp only [bind, Except.bind, hloads] at h
    obtain ⟨o'', rfl, hlength⟩ := exists_bundle_of_carry hcarry
    rw [ofBundle_bundle] at h
    cases h
    exact ⟨hcarry, hlength⟩

/-- **The outcomes that come back as they are.** -/
theorem received_eq_ok_iff {o : EngineOutcome} :
    received S C o = .ok o ↔ o.bundle.portable = true := by
  constructor
  · intro h
    exact Object.carry_eq_some_iff.mp (carry_of_received h).1
  · intro h
    obtain ⟨y, hdumps, hloads⟩ := exists_dumps_of_portable (S := S) h
    unfold received
    rw [hdumps]
    simp only [bind, Except.bind, hloads]
    exact ofBundle_bundle o

/-! ### Jobs that cross -/

theorem nodup_jobFields (engineKey : Str) (job : JobFields) :
    ((jobFields engineKey job).map Prod.fst).Nodup := by
  simp -index only [jobFields, map_cons, map_nil, String.toList_ofList]
  decide

theorem map_fst_fields (job : JobFields) : job.fields.map Prod.fst = ctxFields := rfl

theorem nodup_ctxFields : ctxFields.Nodup := by
  simp -index only [ctxFields, String.toList_ofList]
  decide

theorem textArgument_of_get {d : Object.Dict} {name : String} {s : Str}
    (h : Object.get d name = some (.str s)) (default : Except Raised Str) :
    textArgument d name default = .ok s := by
  unfold textArgument
  rw [h]

theorem optionalArgument_of_get {d : Object.Dict} {name : String} {s : Option Str}
    (h : Object.get d name = some ((s.map .str).getD .null)) :
    optionalArgument d name = .ok s := by
  unfold optionalArgument
  rw [h]
  cases s <;> rfl

theorem dictArgument_of_get {d entries : Object.Dict} {name : String}
    (h : Object.get d name = some (.dict entries)) : dictArgument d name = .ok entries := by
  unfold dictArgument
  rw [h]

/-- **The serialisable fields** are rebuilt from the arguments. -/
theorem ofArguments_record (job : JobFields) :
    JobFields.ofArguments (.record job.fields) = .ok job := by
  obtain ⟨d, hdict, hnames, hget⟩ :=
    @Object.exists_dict_of_record job.fields (map_fst_fields job ▸ nodup_ctxFields)
  have hkeys : (d.any fun e => decide (e.1 ∉ ctxFields.map Key.str)) = false := by
    rw [any_eq_false]
    intro e he
    obtain ⟨f, hf, hname⟩ := hnames e he
    have hmem : f.1 ∈ ctxFields := map_fst_fields job ▸ mem_map_of_mem hf
    simpa [hname] using hmem
  have hscanId : Object.get d "scan_id" = some (.str job.scanId) := hget 0 rfl
  have hassetKind : Object.get d "asset_kind" = some (.str job.assetKind) := hget 1 rfl
  have hidentifier : Object.get d "asset_identifier" = some (.str job.assetIdentifier) :=
    hget 2 rfl
  have hworkspace : Object.get d "workspace_path" =
      some ((job.workspacePath.map .str).getD .null) := hget 3 rfl
  have hartifact : Object.get d "artifact_path" =
      some ((job.artifactPath.map .str).getD .null) := hget 4 rfl
  have hinline : Object.get d "inline_content" =
      some ((job.inlineContent.map .str).getD .null) := hget 5 rfl
  have hexposure : Object.get d "exposure" = some (.str job.exposure) := hget 6 rfl
  have hsettings : Object.get d "settings" = some (.dict job.settings) := hget 7 rfl
  have hassetConfig : Object.get d "asset_config" = some (.dict job.assetConfig) := hget 8 rfl
  have hsecretConfig : Object.get d "secret_config" = some (.dict job.secretConfig) := hget 9 rfl
  simp only [JobFields.ofArguments, hdict, asDict, hkeys,
    textArgument_of_get hscanId, textArgument_of_get hassetKind, textArgument_of_get hidentifier,
    optionalArgument_of_get hworkspace, optionalArgument_of_get hartifact,
    optionalArgument_of_get hinline, textArgument_of_get hexposure, dictArgument_of_get hsettings,
    dictArgument_of_get hassetConfig, dictArgument_of_get hsecretConfig, Bool.false_eq_true,
    if_false, bind, Except.bind, pure, Except.pure]

theorem portable_jobFields {job : JobFields} (h : job.JsonSafe) (engineKey : Str) :
    (Object.record (jobFields engineKey job)).portable = true := by
  have hcarry := Object.carry_eq_some_iff.mpr h
  rw [← Object.carry_eq_some_iff, Object.carry_record (nodup_jobFields engineKey job)]
  simp only [jobFields, Object.carryFields, Object.carry_str, hcarry, Option.bind_some,
    Option.map_some]

theorem getEngine_value {plugins : List (Engine E)} {key : Object} {engine : Engine E}
    (h : getEngine plugins key = some engine) :
    getEngine plugins (.str engine.key.value) = some engine := by
  cases key with
  | str value =>
    have hvalue : engine.key.value = value := by simpa using find?_some h
    rw [hvalue]
    exact h
  | _ => exact absurd (find?_some h) (by simp)

/-- **`execute_engine`** runs the engine on what it rebuilds of the context. -/
theorem executeEngine_of_seal {plugins : List (Engine E)} {engine : Engine E}
    (hengine : getEngine plugins (.str engine.key.value) = some engine) {job : JobFields}
    {sealedJob : S.Sealed}
    (hjob : S.loads sealedJob = .ok (.record (jobFields engine.key.value job))) :
    executeEngine S plugins sealedJob =
      (Failure.ofEngine (runEngine engine ⟨job, none⟩) >>= fun o =>
        Failure.ofRaised (S.dumps o.bundle)) := by
  obtain ⟨d, hdict, -, hget⟩ :=
    Object.exists_dict_of_record (nodup_jobFields engine.key.value job)
  have hkey : Object.get d "engine_key" = some (.str engine.key.value) := hget 0 rfl
  have hctx : Object.get d "ctx" = some (.record job.fields) := hget 1 rfl
  rw [hdict] at hjob
  simp only [executeEngine, hjob, Failure.ofRaised, asDict, item, hkey, hctx, ofArguments_record,
    hengine, bind, Except.bind]
  rfl

/-- **`run_engine_offloaded`** gives what is received of the outcome without a matcher. -/
theorem runEngineOffloaded_eq {plugins : List (Engine E)} {engine : Engine E} {key : Object}
    (hengine : getEngine plugins key = some engine) {ctx : ScanContext}
    (hctx : ctx.toJobFields.JsonSafe) :
    runEngineOffloaded S C plugins engine.key.value ctx =
      (Failure.ofEngine (runEngine engine ⟨ctx.toJobFields, none⟩) >>= fun o =>
        Failure.ofRaised (received S C o)) := by
  obtain ⟨sealedIn, hsealed, hloads⟩ :=
    exists_dumps_of_portable (S := S) (portable_jobFields hctx engine.key.value)
  have hexecute := executeEngine_of_seal (getEngine_value hengine) hloads
  unfold runEngineOffloaded sealEngineJob
  rw [hsealed]
  simp only [Failure.ofRaised, bind, Except.bind, hexecute]
  rcases runEngine engine ⟨ctx.toJobFields, none⟩ with e | o
  · rfl
  · unfold received
    simp only [Failure.ofEngine, bind, Except.bind]
    rcases S.dumps o.bundle with e | y
    · rfl
    · dsimp only
      rcases S.loads y with e | x <;> rfl

/-! ### The same outcome -/

/-- **The engines other than the dependency scanner.**  The container engine asks the matcher; the
others read the data of the context only. -/
inductive Plugin (E : Type)
  | container (files : ContainerFiles E)
  | other (key : EngineKey) (hkey : key ≠ .sca ∧ key ≠ .container)
      (run : JobFields → Except E (List RawFinding)) (health : EngineHealth)
      (collect : Option (JobFields → Except E (List (List Object))))

/-- The engine of a plugin. -/
def Plugin.engine : Plugin E → Engine E
  | container files => files.engine
  | other key _ run health collect =>
    { key
      run := fun ctx => run ctx.toJobFields
      health
      collectInventory := collect.map fun collect ctx => collect ctx.toJobFields }

/-- **The matcher matches nothing** of what the engine asks it for. -/
def Plugin.Unmatched : Plugin E → ScanContext → Prop
  | container files, ctx => ∀ matcher ∈ ctx.vulnMatcher, ∀ p ∈ files.packages ctx.toJobFields,
      matcher p.name p.version p.ecosystem = []
  | other .., _ => True

theorem matchFindings_eq_nil_iff {archivePath : Str} {packages : List Package}
    {matcher : Option VulnMatcher} : matchFindings archivePath packages matcher = [] ↔
      ∀ m ∈ matcher, ∀ p ∈ packages, m p.name p.version p.ecosystem = [] := by
  cases matcher with
  | none => exact ⟨fun _ _ h => (nomatch h), fun _ => rfl⟩
  | some m => simp [matchFindings, flatMap_eq_nil_iff]

/-- What a plugin does without the matcher: it raises what it would raise with it, or it reports
less by the matches. -/
theorem Plugin.run_cases (p : Plugin E) (ctx : ScanContext) :
    (∃ e, runEngine p.engine ctx = .error e ∧
      runEngine p.engine ⟨ctx.toJobFields, none⟩ = .error e) ∨
    ∃ before matched after health inventory, (matched = [] ↔ p.Unmatched ctx) ∧
      runEngine p.engine ctx = .ok ⟨before ++ matched ++ after, health, inventory⟩ ∧
      runEngine p.engine ⟨ctx.toJobFields, none⟩ = .ok ⟨before ++ after, health, inventory⟩ := by
  cases p with
  | container files =>
    rcases files.run_cases ctx.toJobFields with ⟨e, he⟩ | ⟨before, archivePath, after, hrun⟩
    · refine Or.inl ⟨e, ?_, ?_⟩
      · unfold runEngine
        rw [show (Plugin.container files).engine.run ctx = .error e from he ctx.vulnMatcher]
        rfl
      · unfold runEngine
        rw [show (Plugin.container files).engine.run ⟨ctx.toJobFields, none⟩ = .error e from
          he none]
        rfl
    · refine Or.inr ⟨before, matchFindings archivePath (files.packages ctx.toJobFields)
        ctx.vulnMatcher, after, files.engine.health, collectInventory files.engine ctx,
        matchFindings_eq_nil_iff, ?_, ?_⟩
      · unfold runEngine
        rw [show (Plugin.container files).engine.run ctx = _ from hrun ctx.vulnMatcher]
        rfl
      · unfold runEngine
        rw [show (Plugin.container files).engine.run ⟨ctx.toJobFields, none⟩ = _ from hrun none]
        simp only [matchFindings, append_nil]
        rfl
  | other key hkey run health collect =>
    have hinventory : collectInventory (Plugin.other key hkey run health collect).engine ctx =
        collectInventory (Plugin.other key hkey run health collect).engine
          ⟨ctx.toJobFields, none⟩ := by
      cases collect <;> rfl
    unfold runEngine
    rw [← hinventory]
    rcases hrun : run ctx.toJobFields with e | raws
    · refine Or.inl ⟨e, ?_, ?_⟩ <;> simp only [Plugin.engine, hrun] <;> rfl
    · refine Or.inr ⟨raws, [], [], health,
        collectInventory (Plugin.other key hkey run health collect).engine ctx,
        iff_of_true rfl trivial, ?_, ?_⟩ <;>
      simp only [Plugin.engine, hrun, append_nil] <;> rfl

section Same
variable {plugins : List (Engine E)} {key : Object} {p : Plugin E} {ctx : ScanContext}
  (hengine : getEngine plugins key = some p.engine) (hctx : ctx.toJobFields.JsonSafe)
include hengine hctx

/-- **An outcome that is the same on the scan plane** is one without matches, of JSON values. -/
theorem of_offloaded_eq {o : EngineOutcome} (ho : runEngine p.engine ctx = .ok o)
    (h : runEngineOffloaded S C plugins p.engine.key.value ctx = .ok o) :
    p.Unmatched ctx ∧ o.bundle.portable = true := by
  rw [runEngineOffloaded_eq hengine hctx] at h
  rcases p.run_cases ctx with ⟨e, hrun, -⟩ |
    ⟨before, matched, after, health, inventory, hmatched, hrun, hnone⟩
  · exact nomatch ho.symm.trans hrun
  · rw [hrun] at ho
    cases ho
    rw [hnone] at h
    simp only [Failure.ofEngine, bind, Except.bind] at h
    rcases hreceived : received S C ⟨before ++ after, health, inventory⟩ with e | o
    · rw [hreceived] at h
      cases h
    · rw [hreceived] at h
      cases h
      have hlength := (carry_of_received hreceived).2
      simp only [length_append] at hlength
      have hnil : matched = [] := length_eq_zero_iff.mp (by omega)
      subst hnil
      rw [append_nil] at hreceived ⊢
      exact ⟨hmatched.mp rfl, received_eq_ok_iff.mp hreceived⟩

/-- **An outcome without matches**, of JSON values, is the same on the scan plane. -/
theorem offloaded_eq_of {o : EngineOutcome} (ho : runEngine p.engine ctx = .ok o)
    (hunmatched : p.Unmatched ctx) (hportable : o.bundle.portable = true) :
    runEngineOffloaded S C plugins p.engine.key.value ctx = .ok o := by
  rw [runEngineOffloaded_eq hengine hctx]
  rcases p.run_cases ctx with ⟨e, hrun, -⟩ |
    ⟨before, matched, after, health, inventory, hmatched, hrun, hnone⟩
  · exact nomatch ho.symm.trans hrun
  · rw [hrun] at ho
    cases ho
    have hnil := hmatched.mpr hunmatched
    subst hnil
    rw [append_nil] at hportable ⊢
    rw [hnone]
    simp only [Failure.ofEngine, bind, Except.bind, received_eq_ok_iff.mpr hportable]
    rfl

theorem offloaded_eq_of_error {e : E} (he : runEngine p.engine ctx = .error e) :
    runEngineOffloaded S C plugins p.engine.key.value ctx = .error (.engine e) := by
  rw [runEngineOffloaded_eq hengine hctx]
  rcases p.run_cases ctx with ⟨e', hrun, hnone⟩ | ⟨before, matched, after, health, inventory, -,
    hrun, -⟩
  · rw [hrun] at he
    cases he
    rw [hnone]
    rfl
  · exact nomatch he.symm.trans hrun

/-- **The scan plane returns what the control plane would have found**, or raises what it would have
raised, exactly if the matcher matches nothing that the engine asks it for, and what the engine
returns are JSON values. -/
theorem offloaded_eq_iff :
    runEngineOffloaded S C plugins p.engine.key.value ctx =
        Failure.ofEngine (runEngine p.engine ctx) ↔
      ∀ o, runEngine p.engine ctx = .ok o → p.Unmatched ctx ∧ o.bundle.portable = true := by
  constructor
  · intro h o ho
    rw [ho] at h
    exact of_offloaded_eq hengine hctx ho h
  · intro h
    rcases hrun : runEngine p.engine ctx with e | o
    · exact offloaded_eq_of_error hengine hctx hrun
    · obtain ⟨hunmatched, hportable⟩ := h o hrun
      exact offloaded_eq_of hengine hctx hrun hunmatched hportable

end Same

/-! ### Matches that are lost -/

def plainSealing : Sealing := ⟨Json, id, some, fun _ => rfl⟩

/-- Conversions that give up. -/
def noConversions : Conversions where
  str _ := []
  list _ := .error "TypeError"
  dict _ := .error "TypeError"

/-- An image with one package, and nothing else to report. -/
def zlibImage : ContainerFiles Unit where
  libraries := librariesSample
  imagePath job := job.artifactPath
  openArchive _ := .ok
    { layerNames := ["0"]
      blobs := [("0", apkLayer "P:zlib\nV:1.2.11-r3\n")]
      readBytes := 0 }
  analyze archive := .ok ([], archive)
  dockerfiles _ := .ok []
  scanDockerfile _ _ := []

/-- A scan of an image that was uploaded. -/
def imageJob : JobFields where
  scanId := "7"
  assetKind := "container_image"
  assetIdentifier := "registry.example/app"
  workspacePath := none
  artifactPath := some "/tmp/image.tar"
  inlineContent := none
  exposure := "unknown"
  settings := []
  assetConfig := []
  secretConfig := []

theorem imageJob_jsonSafe : imageJob.JsonSafe := by
  unfold JobFields.JsonSafe
  decide

/-- A knowledge base with an advisory for zlib. -/
def zlibAdvisory (name _ _ : Str) : List VulnMatch :=
  if name = "zlib" then
    [{ externalId := "CVE-2022-37434"
       summary := []
       severity := .critical
       cvssBase := .number "9.8"
       epssScore := .null
       kev := false
       exploitMaturity := .null
       ransomware := false
       cweIds := ["CWE-787"]
       references := [] }]
  else []

theorem getEngine_singleton (engine : Engine E) :
    getEngine [engine] (.str engine.key.value) = some engine := by
  simp [getEngine]

theorem image_without_advisory :
    runEngineOffloaded plainSealing noConversions [(Plugin.container zlibImage).engine]
        "container" ⟨imageJob, some fun _ _ _ => []⟩ =
      Failure.ofEngine (runEngine (Plugin.container zlibImage).engine
        ⟨imageJob, some fun _ _ _ => []⟩) := by
  refine (offloaded_eq_iff (getEngine_singleton _) imageJob_jsonSafe).mpr fun o ho => ⟨?_, ?_⟩
  · intro matcher hmatcher p _
    cases hmatcher
    rfl
  · cases ho
    decide +kernel

/-- **The container engine finds no vulnerable package** on the scan plane. -/
theorem image_matches_lost : ¬ ∀ (p : Plugin Unit) (ctx : ScanContext), ctx.toJobFields.JsonSafe →
    runEngineOffloaded plainSealing noConversions [p.engine] p.engine.key.value ctx =
      Failure.ofEngine (runEngine p.engine ctx) := by
  intro h
  have hsame := h (.container zlibImage) ⟨imageJob, some zlibAdvisory⟩ imageJob_jsonSafe
  have hunmatched := (of_offloaded_eq (getEngine_singleton _) imageJob_jsonSafe rfl hsame).1
  have hzlib : ⟨"zlib", "1.2.11-r3", "Alpine", apkInstalled⟩ ∈
      zlibImage.packages imageJob := by decide +kernel
  have hmatch : zlibAdvisory "zlib" "1.2.11-r3" "Alpine" ≠ [] := by
    unfold zlibAdvisory
    rw [if_pos rfl]
    exact cons_ne_nil _ _
  exact hmatch (hunmatched zlibAdvisory rfl _ hzlib)

end Guardian.ScanPlane

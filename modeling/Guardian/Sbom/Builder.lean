import Guardian.Order.Filing
import Guardian.Python.Text
import Mathlib.Data.Prod.Lex

/-!
# The bill of materials

`build_sbom` lists the components of an inventory and the vulnerabilities that were found in them.
A component has a reference, its package URL; a vulnerability refers to the components that it
affects.
-/

namespace Guardian.Sbom

open Python Guardian.Order List

variable (R : Runtime)

/-- `_MAX_COMPONENTS`. -/
def maxComponents : ℕ := 20000

/-- `_PURL_TYPE`. -/
def purlTypes : List (Str × Str) :=
  [("pypi", "pypi"), ("npm", "npm"), ("go", "golang"), ("golang", "golang"), ("rubygems", "gem"),
    ("gem", "gem"), ("cargo", "cargo"), ("packagist", "composer"), ("composer", "composer"),
    ("maven", "maven"), ("nuget", "nuget"), ("apk", "apk"), ("alpine", "apk"), ("deb", "deb"),
    ("debian", "deb"), ("rpm", "rpm"), ("android-native", "generic"), ("ios-framework", "generic"),
    ("native", "generic")].map fun p => (p.1.toList, p.2.toList)

/-- The keys of `_RATING`, each its own value. -/
def ratings : List Str := ["critical", "high", "medium", "low", "info"].map String.toList

/-- `Component`. -/
structure Component where
  name : Str
  version : Str
  ecosystem : Str
  source : Str
  deriving DecidableEq

/-- `Vulnerability`. -/
structure Vulnerability where
  externalId : Str
  severity : Str
  affectsName : Str
  affectsVersion : Str
  affectsEcosystem : Str
  description : Str
  deriving DecidableEq

/-! ### References -/

/-- A text, or another one if it is empty. -/
def orElse (s t : Str) : Str := if s = [] then t else s

/-- The type in a package URL. -/
def purlType (ecosystem : Str) : Str :=
  let eco := lower R (strip R ecosystem)
  (purlTypes.lookup eco).getD (orElse eco "generic")

/-- The version in a package URL, behind its mark, if there is one. -/
def versionSuffix (version : Str) : Str := if version = [] then [] else '@' :: version

/-- **`purl`.** -/
def purl (name version ecosystem : Str) : Str :=
  "pkg:" ++ purlType R ecosystem ++ '/' :: (strip R name ++ versionSuffix (strip R version))

/-- What tells components apart, and vulnerabilities to components. -/
abbrev Key := Str × Str × Str

def Component.key (c : Component) : Key := (lower R c.name, c.version, lower R c.ecosystem)

def Component.purl (c : Component) : Str := Sbom.purl R c.name c.version c.ecosystem

/-- The order of the components: by ecosystem, name and version. -/
def rank (k : Key) : Str ×ₗ Str ×ₗ Str := toLex (k.2.2, toLex (k.1, k.2.1))

/-- The components that have a name. -/
def named (components : List Component) : List Component := components.filter fun c => c.name ≠ []

/-- **`_dedupe`**: the first component of each key, in order. -/
def dedupe (components : List Component) : List Component :=
  sortBy (rank ∘ Component.key R) (filed (Component.key R) (Component.key R)
    (fun c seen => seen.getD c) (named components))

def kept (components : List Component) : List Component := (dedupe R components).take maxComponents

/-- `refs`. -/
def refs (comps : List Component) (k : Key) : Option Str :=
  (rowOf (Component.key R) k comps).map (Component.purl R)

/-- A component in the document. -/
structure ComponentEntry where
  bomRef : Str
  name : Str
  version : Option Str
  purl : Str
  evidence : Option Str
  deriving DecidableEq

def nonEmpty (s : Str) : Option Str := if s = [] then none else some s

/-- The entry of a component. -/
def Component.entry (comps : List Component) (c : Component) : ComponentEntry where
  bomRef := (refs R comps (c.key R)).getD []
  name := c.name
  version := nonEmpty c.version
  purl := (refs R comps (c.key R)).getD []
  evidence := nonEmpty c.source

/-! ### Vulnerabilities -/

/-- A vulnerability in the document, with its one rating and the references that it affects. -/
structure VulnerabilityEntry where
  id : Str
  rating : Str
  affects : List Str
  description : Option Str
  deriving DecidableEq

namespace Vulnerability

variable (v : Vulnerability)

def vid : Str := strip R v.externalId

/-- The key of the component that is affected. -/
def key : Key := (lower R v.affectsName, v.affectsVersion, lower R v.affectsEcosystem)

def ownRef : Str :=
  purl R (orElse v.affectsName (v.vid R)) (orElse v.affectsVersion "0") v.affectsEcosystem

/-- The reference: that of the component with the key, or its own. -/
def ref (comps : List Component) : Str := (refs R comps (v.key R)).getD (v.ownRef R)

/-- The rating. -/
def rating : Str :=
  let severity := lower R (orElse v.severity "medium")
  if severity ∈ ratings then severity else "medium"

/-- A new entry. -/
def newEntry : VulnerabilityEntry where
  id := v.vid R
  rating := v.rating R
  affects := []
  description := nonEmpty (v.description.take 1000)

/-- The turn of a vulnerability: it adds its reference to the entry of its advisory. -/
def addTo (comps : List Component) (entry : Option VulnerabilityEntry) : VulnerabilityEntry :=
  let entry := entry.getD (v.newEntry R)
  let ref := v.ref R comps
  { entry with affects := if ref ∈ entry.affects then entry.affects else entry.affects ++ [ref] }

end Vulnerability

/-- `by_id`: the entries of the advisories. -/
def byId (comps : List Component) (vulnerabilities : List Vulnerability) :
    List VulnerabilityEntry :=
  filed (Vulnerability.vid R) VulnerabilityEntry.id (fun v => v.addTo R comps)
    (vulnerabilities.filter fun v => v.vid R ≠ [])

/-! ### The bill -/

/-- `document`, as far as it depends on what is given. -/
structure Document where
  subjectKind : Str
  subjectName : Str
  truncated : Bool
  components : List ComponentEntry
  vulnerabilities : List VulnerabilityEntry
  deriving DecidableEq

/-- `Sbom`. -/
structure Bill where
  document : Document
  componentCount : ℕ
  vulnerableCount : ℕ
  truncated : Bool
  ecosystems : List Str
  deriving DecidableEq

/-- **`build_sbom`.** -/
def buildSbom (components : List Component) (vulnerabilities : List Vulnerability)
    (subjectName subjectKind : Str) : Bill :=
  let comps := kept R components
  let truncated := decide (maxComponents < (dedupe R components).length)
  let matched := vulnerabilities.filter fun v => v.vid R ≠ [] ∧ (refs R comps (v.key R)).isSome
  { document :=
      { subjectKind
        subjectName
        truncated
        components := comps.map (Component.entry R comps)
        vulnerabilities := sortBy VulnerabilityEntry.id (byId R comps vulnerabilities) }
    componentCount := comps.length
    vulnerableCount := (matched.map (Vulnerability.key R)).dedup.length
    truncated
    ecosystems :=
      sortBy id ((comps.filter fun c => c.ecosystem ≠ []).map fun c => lower R c.ecosystem).dedup }

/-! ### Components -/

/-- **A key is listed**: a component with a name has it, and fewer keys than the cap come before
it. -/
def Listed (components : List Component) (k : Key) : Prop :=
  k ∈ (named components).map (Component.key R) ∧
    (((named components).map (Component.key R)).dedup.filter fun j => rank j < rank k).length <
      maxComponents

/-- A component is the first one of a key that is listed. -/
def Leads (components : List Component) (c : Component) : Prop :=
  rowOf (Component.key R) (c.key R) (named components) = some c ∧ Listed R components (c.key R)

variable {R} {components comps : List Component} {c : Component}

theorem rank_injective : Function.Injective rank := by
  rintro ⟨n, v, e⟩ ⟨n', v', e'⟩ h
  obtain ⟨rfl, hrest⟩ := Prod.mk.inj (toLex_inj.mp h)
  obtain ⟨rfl, rfl⟩ := Prod.mk.inj (toLex_inj.mp hrest)
  rfl

variable (R) in
/-- What the document shows of a component that is kept. -/
def Component.shown (c : Component) : ComponentEntry :=
  ⟨c.purl R, c.name, nonEmpty c.version, c.purl R, nonEmpty c.source⟩

theorem keyed_setdefault :
    Keyed (Component.key R) (Component.key R) fun c seen => seen.getD c := by
  rintro c (_ | s) hs
  · rfl
  · exact hs s rfl

theorem gathered_setdefault (c : Component) (cs : List Component) :
    gathered (fun (c : Component) seen => seen.getD c) (c :: cs) = some c := by
  unfold gathered
  rw [foldl_cons]
  induction cs with
  | nil => rfl
  | cons d cs ih => exact ih

theorem nodup_keys_dedupe : ((dedupe R components).map (Component.key R)).Nodup :=
  ((sortBy_perm _ _).map _).nodup_iff.mpr (nodup_filed keyed_setdefault _)

theorem nodup_keys_kept : ((kept R components).map (Component.key R)).Nodup :=
  nodup_keys_dedupe.sublist ((take_sublist _ _).map _)

theorem gathered_filter_setdefault (k : Key) (cs : List Component) :
    gathered (fun (c : Component) seen => seen.getD c) (cs.filter fun c => c.key R = k) =
      rowOf (Component.key R) k cs := by
  unfold rowOf
  rw [← head?_filter]
  rcases hcs : cs.filter (fun c => decide (c.key R = k)) with _ | ⟨c, ds⟩
  · rw [hcs]
    rfl
  · rw [hcs, gathered_setdefault]
    rfl

theorem keys_kept : (kept R components).map (Component.key R) = (sortBy rank
    ((filed (Component.key R) (Component.key R) (fun c seen => seen.getD c)
      (named components)).map (Component.key R))).take maxComponents := by
  unfold kept dedupe
  rw [map_take, map_key_sortBy rank_injective]

/-- **The keys that are kept** are those of the inventory that fewer than the cap come before. -/
theorem mem_keys_kept {k : Key} : k ∈ (kept R components).map (Component.key R) ↔
    Listed R components k := by
  have hnodup := nodup_filed (keyed_setdefault (R := R)) (named components)
  have hperm : ((filed (Component.key R) (Component.key R) (fun c seen => seen.getD c)
      (named components)).map (Component.key R)).Perm
        ((named components).map (Component.key R)).dedup := by
    rw [perm_ext_iff_of_nodup hnodup (nodup_dedup _)]
    intro k
    rw [mem_keys_filed keyed_setdefault, mem_dedup, mem_map]
  rw [keys_kept, mem_take_sortBy_iff rank_injective hnodup, (hperm.filter _).length_eq,
    hperm.mem_iff, mem_dedup]
  rfl

/-- **The components that are kept** are the first ones of these keys. -/
theorem mem_kept_iff : c ∈ kept R components ↔ Leads R components c := by
  have hrow : c ∈ dedupe R components ↔
      rowOf (Component.key R) (c.key R) (named components) = some c := by
    rw [dedupe, mem_sortBy, mem_iff_rowOf (nodup_filed keyed_setdefault _),
      rowOf_filed keyed_setdefault, gathered_filter_setdefault]
  constructor
  · intro h
    exact ⟨hrow.mp (mem_of_mem_take h), mem_keys_kept.mp (mem_map_of_mem h)⟩
  · rintro ⟨hfirst, hlisted⟩
    obtain ⟨d, hd, hkey⟩ := mem_map.mp (mem_keys_kept.mpr hlisted)
    have heq := hrow.mpr hfirst
    have hdedupe := mem_of_mem_take hd
    rwa [inj_on_of_nodup_map nodup_keys_dedupe heq hdedupe hkey.symm]

theorem refs_of_mem (hcomps : (comps.map (Component.key R)).Nodup) (hc : c ∈ comps) :
    refs R comps (c.key R) = some (c.purl R) := by
  unfold refs
  rw [(mem_iff_rowOf hcomps).mp hc]
  rfl

theorem refs_eq_some_iff (hcomps : (comps.map (Component.key R)).Nodup) {k : Key} {ref : Str} :
    refs R comps k = some ref ↔ ∃ c ∈ comps, c.key R = k ∧ c.purl R = ref := by
  constructor
  · intro h
    obtain ⟨c, hc, rfl⟩ := Option.map_eq_some_iff.mp h
    obtain ⟨hmem, hkey⟩ := of_rowOf hc
    exact ⟨c, hmem, hkey, rfl⟩
  · rintro ⟨c, hc, rfl, rfl⟩
    exact refs_of_mem hcomps hc

theorem map_entry_kept : (kept R components).map (Component.entry R (kept R components)) =
    (kept R components).map (Component.shown R) := by
  refine map_congr_left fun c hc => ?_
  unfold Component.entry Component.shown
  rw [refs_of_mem nodup_keys_kept hc]
  rfl

/-! ### Entries of advisories -/

theorem keyed_addTo :
    Keyed (Vulnerability.vid R) VulnerabilityEntry.id fun v => v.addTo R comps := by
  rintro v (_ | s) hs
  · rfl
  · exact hs s rfl

/-- **What an entry refers to**: the references of the vulnerabilities of its advisory. -/
theorem mem_affects_gathered {ref : Str} (vs : List Vulnerability) :
    (∃ e ∈ gathered (fun v => Vulnerability.addTo R v comps) vs, ref ∈ e.affects) ↔
      ∃ v ∈ vs, v.ref R comps = ref := by
  induction vs using reverseRecOn with
  | nil => simp [gathered]
  | append_singleton vs v ih =>
    have hstep : gathered (fun v => Vulnerability.addTo R v comps) (vs ++ [v]) =
        some (v.addTo R comps (gathered (fun v => Vulnerability.addTo R v comps) vs)) := by
      unfold gathered
      rw [foldl_append]
      rfl
    have hmem : ref ∈ (v.addTo R comps (gathered (fun v => Vulnerability.addTo R v comps)
        vs)).affects ↔ (∃ e ∈ gathered (fun v => Vulnerability.addTo R v comps) vs,
          ref ∈ e.affects) ∨ v.ref R comps = ref := by
      rcases gathered (fun v => Vulnerability.addTo R v comps) vs with _ | e
      · simp [Vulnerability.addTo, Vulnerability.newEntry, eq_comm]
      · unfold Vulnerability.addTo
        dsimp only [Option.getD_some]
        split_ifs with h
        · simp only [Option.mem_some_iff, exists_eq_left']
          exact (or_iff_left_of_imp fun heq => heq ▸ h).symm
        · simp [eq_comm]
    rw [hstep]
    simp only [Option.mem_some_iff, exists_eq_left']
    rw [hmem, ih]
    simp [or_and_right, exists_or]

theorem mem_affects {vulnerabilities : List Vulnerability} {vid ref : Str} :
    (∃ e ∈ byId R comps vulnerabilities, e.id = vid ∧ ref ∈ e.affects) ↔
      ∃ v ∈ vulnerabilities, v.vid R ≠ [] ∧ v.vid R = vid ∧ v.ref R comps = ref := by
  have hkeyed : Keyed (Vulnerability.vid R) VulnerabilityEntry.id fun v => v.addTo R comps :=
    keyed_addTo
  have hrow := rowOf_filed hkeyed vid (vulnerabilities.filter fun v => v.vid R ≠ [])
  have hentry : (∃ e ∈ byId R comps vulnerabilities, e.id = vid ∧ ref ∈ e.affects) ↔
      ∃ e ∈ rowOf VulnerabilityEntry.id vid (byId R comps vulnerabilities), ref ∈ e.affects := by
    constructor
    · rintro ⟨e, he, rfl, href⟩
      exact ⟨e, (mem_iff_rowOf (nodup_filed keyed_addTo _)).mp he, href⟩
    · rintro ⟨e, he, href⟩
      obtain ⟨hmem, hid⟩ := of_rowOf he
      exact ⟨e, hmem, hid, href⟩
  rw [hentry, byId, hrow, mem_affects_gathered]
  simp [and_assoc, and_left_comm]

end Guardian.Sbom

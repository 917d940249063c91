import Guardian.Images.Oci
import Guardian.Images.Packages

/-!
# The package inventory of an image

A walk over every layer reads the metadata files and keeps, for each package, what was read last;
deleted and replaced files are read too.  Within the caps of the walk it reads all that the layers
declare (`inventoryStep_advances` is one round, `packagesRead_eq` the whole walk), so that the
inventory is what a running container has exactly if every package is up to date (`inventory_iff`).
-/

namespace Guardian.Images

open Python Guardian.Order List

/-! ### Reading files -/

/-- `_MAX_PACKAGE_FILES`. -/
def maxPackageFiles : ℕ := 5000

/-- `_MAX_BINARY_PROBES`. -/
def maxBinaryProbes : ℕ := 512

/-- `_reader_for`, with the bytes that were read afterwards. -/
def reader (member : TarInfo) (readBytes : ℕ) : Option (List UInt8) × ℕ :=
  if member.type ≠ .regular ∨ maxFileBytes < member.size then (none, readBytes)
  else if maxTotalReadBytes < readBytes + member.size then (none, readBytes)
  else (some (member.data.take maxFileBytes), readBytes + (member.data.take maxFileBytes).length)

/-- A reading: the file, and the packages that `inventory.extend` takes from it. -/
structure Reading where
  file : Walked
  packages : List Package

/-- The state of the loop in `_walk_image_inventory`. -/
structure InventoryWalk where
  readBytes : ℕ
  read : ℕ
  probes : ℕ
  readings : List Reading
  paths : List Str

section Inventory
variable (L : Libraries)

/-- A file whose format is told by its path. -/
def readMetadata (file : Walked) (format : Format) (s : InventoryWalk) : InventoryWalk :=
  match reader file.2 s.readBytes with
  | (some (b :: bytes), readBytes) =>
    { s with
      readBytes
      read := s.read + 1
      readings := s.readings ++ [⟨file, L.parse (b :: bytes) file.1.path format⟩] }
  | (_, readBytes) => { s with readBytes }

/-- A file that may be a compiled program. -/
def probeBinary (file : Walked) (s : InventoryWalk) : InventoryWalk :=
  match reader file.2 s.readBytes with
  | (some data, readBytes) =>
    if looksLikeBinary data then
      let go := L.parseGoBuildinfo data file.1.path
      if go = [] then { s with readBytes, probes := s.probes + 1 }
      else
        { s with
          readBytes
          read := s.read + 1
          probes := s.probes + 1
          readings := s.readings ++ [⟨file, go⟩] }
    else { s with readBytes }
  | (none, readBytes) => { s with readBytes }

/-- **One round of the loop.** -/
def inventoryStep (s : InventoryWalk) (file : Walked) : InventoryWalk :=
  if file.1.whiteoutOf ≠ [] ∨ file.1.isFile = false then s
  else
    let s := { s with paths := s.paths ++ [file.1.path] }
    if maxPackageFiles ≤ s.read then s
    else
      match formatOf file.1.path with
      | some format => readMetadata L file format s
      | none =>
        if file.1.mode &&& 0o111 ≠ 0 ∧ s.probes < maxBinaryProbes then probeBinary L file s else s

/-- The loop, layer by layer: a layer is opened when the ones before it were read. -/
def inventoryFrom (blobs : List (Str × LayerBlob)) :
    ℕ → List Str → InventoryWalk → InventoryWalk
  | _, [], s => s
  | index, name :: names, s =>
    match openLayer (blobs.lookup name) s.readBytes with
    | (none, readBytes) => inventoryFrom blobs (index + 1) names { s with readBytes }
    | (some members, readBytes) =>
      inventoryFrom blobs (index + 1) names
        ((walkLayer (index, name, members)).foldl (inventoryStep L) { s with readBytes })

/-- The loop over an image. -/
def inventoryWalk (archive : ImageArchive) : InventoryWalk :=
  inventoryFrom L archive.blobs 0 (archive.layerNames.take maxLayers)
    ⟨archive.readBytes, 0, 0, [], []⟩

/-- The key under which a package is kept. -/
def Package.key (p : Package) : Str × Str := (p.name, p.ecosystem)

/-- The loop that keeps the last reading of each package. -/
def latestOf (inventory : List Package) : List Package :=
  inventory.foldl (fun kept p => amend Package.key p.key (fun _ => p) kept) []

/-- The packages that were read, one after the other. -/
def packagesRead (archive : ImageArchive) : List Package :=
  (inventoryWalk L archive).readings.flatMap Reading.packages

/-- **`_walk_image_inventory`**: the packages, and the paths of all files. -/
def walkImageInventory (archive : ImageArchive) : List Package × List Str :=
  (latestOf (packagesRead L archive), (inventoryWalk L archive).paths)

/-! ### What files declare -/

/-- What a file declares. -/
def declares (file : Walked) : List Package :=
  match formatOf file.1.path with
  | some format => if file.2.data = [] then [] else L.parse file.2.data file.1.path format
  | none =>
    if file.1.mode &&& 0o111 ≠ 0 ∧ looksLikeBinary file.2.data then
      L.parseGoBuildinfo file.2.data file.1.path
    else []

/-- The file that a running container sees at a path, if there is one. -/
def present (archive : ImageArchive) (path : Str) : Option Walked :=
  (play (fun file p => file.1.puts p) (fun file p => file.1.takes p) path
    archive.walk.flatten).filter fun file => file.1.isFile

/-- The triple that is matched against advisories. -/
def Package.triple (p : Package) : Str × Str × Str := (p.ecosystem, p.name, p.version)

/-- The walk reports a triple. -/
def Reported (archive : ImageArchive) (t : Str × Str × Str) : Prop :=
  ∃ p ∈ (walkImageInventory L archive).1, p.triple = t

/-- A file that is present declares a triple. -/
def Declared (archive : ImageArchive) (t : Str × Str × Str) : Prop :=
  ∃ path, ∃ file ∈ present archive path, ∃ p ∈ declares L file, p.triple = t

/-- **The inventory is what the files that are present declare.** -/
def InventoryExact (archive : ImageArchive) : Prop :=
  ∀ t, Reported L archive t ↔ Declared L archive t

/-! ### What the layers declare -/

/-- A regular file that is no whiteout. -/
def visible (file : Walked) : Bool := file.1.whiteoutOf = [] ∧ file.1.isFile

/-- The files of the layers, those that are deleted or replaced later among them. -/
def ImageArchive.files (archive : ImageArchive) : List Walked := archive.walk.flatten.filter visible

/-- The packages that the layers declare, one after the other. -/
def ImageArchive.declared (archive : ImageArchive) : List Package :=
  archive.files.flatMap (declares L)

/-- A package that a file declares that is present. -/
def IsPresent (archive : ImageArchive) (p : Package) : Prop :=
  ∃ path, ∃ file ∈ present archive path, p ∈ declares L file

/-- **Every package of the layers is up to date**: it is still installed, in one version only, and
where another version of it was declared, the one that is installed was declared after it. -/
structure UpToDate (archive : ImageArchive) : Prop where
  kept : ∀ p ∈ archive.declared L, ∃ q, IsPresent L archive q ∧ q.key = p.key
  one_version : ∀ p q, IsPresent L archive p → IsPresent L archive q → q.key = p.key →
    q.version = p.version
  replaced : ∀ before p after q, archive.declared L = before ++ p :: after →
    IsPresent L archive q → q.key = p.key → q.version ≠ p.version →
      ∃ r ∈ after, r.key = q.key ∧ r.version = q.version

/-- A program that is probed. -/
def isProbe (file : Walked) : Bool :=
  formatOf file.1.path = none ∧ file.1.mode &&& 0o111 ≠ 0 ∧ looksLikeBinary file.2.data

/-- A file that counts as read. -/
def isRead (file : Walked) : Bool :=
  (formatOf file.1.path ≠ none ∧ file.2.data ≠ []) ∨
    (isProbe file ∧ L.parseGoBuildinfo file.2.data file.1.path ≠ [])

/-- The bytes that are read of a file. -/
def sizeRead (file : Walked) : ℕ :=
  if formatOf file.1.path = none ∧ file.1.mode &&& 0o111 = 0 then 0 else file.2.size

/-- The bytes that are read of a layer. -/
def layerSize (blobs : List (Str × LayerBlob)) (name : Str) : ℕ :=
  ((blobs.lookup name).elim 0) fun b => if b.size ≤ maxFileBytes then b.size else 0

/-- **The image is within the caps of the walk**: on the bytes of its layers and files, on the files
that declare packages, on the programs that are probed, and on the size of a file. -/
structure WithinCaps (archive : ImageArchive) : Prop where
  bytes : archive.readBytes +
    ((archive.layerNames.take maxLayers).map (layerSize archive.blobs)).sum +
      (archive.files.map sizeRead).sum ≤ maxTotalReadBytes
  read : archive.files.countP (isRead L) ≤ maxPackageFiles
  probes : archive.files.countP isProbe ≤ maxBinaryProbes
  size : ∀ file ∈ archive.files, declares L file ≠ [] → file.2.size ≤ maxFileBytes

variable {L}

/-! ### Every file is read -/

/-- **What a part of the loop adds** at most to the counters, and to the packages. -/
structure Advances (s s' : InventoryWalk) (bytes read probes : ℕ) (packages : List Package) :
    Prop where
  readBytes : s'.readBytes ≤ s.readBytes + bytes
  read : s'.read ≤ s.read + read
  probes : s'.probes ≤ s.probes + probes
  packages : s'.readings.flatMap Reading.packages = s.readings.flatMap Reading.packages ++ packages

theorem Advances.refl (s : InventoryWalk) : Advances s s 0 0 0 [] :=
  ⟨Nat.le_refl _, Nat.le_refl _, Nat.le_refl _, (append_nil _).symm⟩

theorem Advances.trans {s s' s'' : InventoryWalk} {b b' r r' q q' : ℕ} {l l' : List Package}
    (h : Advances s s' b r q l) (h' : Advances s' s'' b' r' q' l') :
    Advances s s'' (b + b') (r + r') (q + q') (l ++ l') := by
  refine ⟨?_, ?_, ?_, ?_⟩
  · have := h.readBytes
    have := h'.readBytes
    omega
  · have := h.read
    have := h'.read
    omega
  · have := h.probes
    have := h'.probes
    omega
  · rw [h'.packages, h.packages, append_assoc]

/-- The reader of a regular file within the budget. -/
theorem reader_of_le {member : TarInfo} {readBytes : ℕ} (htype : member.type = .regular)
    (htotal : readBytes + member.size ≤ maxTotalReadBytes) :
    reader member readBytes =
      if member.size ≤ maxFileBytes then (some member.data, readBytes + member.size)
      else (none, readBytes) := by
  unfold reader
  by_cases hsize : member.size ≤ maxFileBytes
  · have hdata : member.data.take maxFileBytes = member.data :=
      take_of_length_le (by rwa [member.length_data htype])
    rw [if_neg (by simp [htype, hsize]), if_neg (by omega), if_pos hsize, hdata,
      member.length_data htype]
  · rw [if_pos (Or.inr (by omega)), if_neg hsize]

theorem declares_nil_of_not_read {file : Walked} (h : isRead L file = false) :
    declares L file = [] := by
  unfold isRead isProbe at h
  unfold declares
  rcases hformat : formatOf file.1.path with _ | format
  · simp only [hformat] at h
    dsimp only
    split_ifs with hprobe
    · simpa [hprobe] using h
    · rfl
  · simp only [hformat] at h
    exact if_pos (by simpa using h)

theorem readMetadata_advances {s : InventoryWalk} {file : Walked} {format : Format}
    (hformat : formatOf file.1.path = some format) (htype : file.2.type = .regular)
    (hbytes : s.readBytes + sizeRead file ≤ maxTotalReadBytes)
    (hsize : declares L file ≠ [] → file.2.size ≤ maxFileBytes) :
    Advances s (readMetadata L file format s) (sizeRead file) (isRead L file).toNat 0
      (declares L file) := by
  have hweight : sizeRead file = file.2.size := if_neg (by simp [hformat])
  rw [hweight] at hbytes ⊢
  unfold readMetadata
  rw [reader_of_le htype hbytes]
  by_cases hle : file.2.size ≤ maxFileBytes
  · rw [if_pos hle]
    rcases hdata : file.2.data with _ | ⟨b, bytes⟩
    · have hnone : declares L file = [] := by simp [declares, hformat, hdata]
      exact ⟨Nat.le_refl _, Nat.le_add_right _ _, Nat.le_refl _, by simp [hnone]⟩
    · have hone : isRead L file = true := by simp [isRead, hformat, hdata]
      have hparse : declares L file = L.parse (b :: bytes) file.1.path format := by
        simp [declares, hformat, hdata]
      rw [hone, hparse]
      exact ⟨Nat.le_refl _, Nat.le_refl _, Nat.le_refl _, by simp⟩
  · have hnone : declares L file = [] := by
      by_contra hne
      exact hle (hsize hne)
    rw [if_neg hle]
    exact ⟨Nat.le_add_right _ _, Nat.le_add_right _ _, Nat.le_refl _, by simp [hnone]⟩

theorem probeBinary_advances {s : InventoryWalk} {file : Walked}
    (hformat : formatOf file.1.path = none) (hmode : file.1.mode &&& 0o111 ≠ 0)
    (htype : file.2.type = .regular) (hbytes : s.readBytes + sizeRead file ≤ maxTotalReadBytes)
    (hsize : declares L file ≠ [] → file.2.size ≤ maxFileBytes) :
    Advances s (probeBinary L file s) (sizeRead file) (isRead L file).toNat (isProbe file).toNat
      (declares L file) := by
  have hweight : sizeRead file = file.2.size := if_neg (by simp [hmode])
  rw [hweight] at hbytes ⊢
  unfold probeBinary
  rw [reader_of_le htype hbytes]
  by_cases hle : file.2.size ≤ maxFileBytes
  · rw [if_pos hle]
    dsimp only
    by_cases hbinary : looksLikeBinary file.2.data = true
    · have hprobe : isProbe file = true := by simp [isProbe, hformat, hmode, hbinary]
      have hdeclares : declares L file = L.parseGoBuildinfo file.2.data file.1.path := by
        simp [declares, hformat, hmode, hbinary]
      rw [if_pos hbinary, hprobe, hdeclares]
      by_cases hgo : L.parseGoBuildinfo file.2.data file.1.path = []
      · rw [if_pos hgo]
        exact ⟨Nat.le_refl _, Nat.le_add_right _ _, Nat.le_refl _, by simp [hgo]⟩
      · have hone : isRead L file = true := by simp [isRead, hprobe, hgo]
        rw [if_neg hgo, hone]
        exact ⟨Nat.le_refl _, Nat.le_refl _, Nat.le_refl _, by simp⟩
    · have hnone : declares L file = [] := by simp [declares, hformat, hbinary]
      rw [if_neg hbinary]
      exact ⟨Nat.le_refl _, Nat.le_add_right _ _, Nat.le_add_right _ _, by simp [hnone]⟩
  · have hnone : declares L file = [] := by
      by_contra hne
      exact hle (hsize hne)
    rw [if_neg hle]
    exact ⟨Nat.le_add_right _ _, Nat.le_add_right _ _, Nat.le_add_right _ _, by simp [hnone]⟩

/-- **A round of the loop** adds what its file declares. -/
theorem inventoryStep_advances {s : InventoryWalk} {file : Walked}
    (hfile : file.1.whiteoutOf = [] ∧ file.1.isFile = true) (htype : file.2.type = .regular)
    (hbytes : s.readBytes + sizeRead file ≤ maxTotalReadBytes)
    (hread : s.read + (isRead L file).toNat ≤ maxPackageFiles)
    (hprobes : s.probes + (isProbe file).toNat ≤ maxBinaryProbes)
    (hsize : declares L file ≠ [] → file.2.size ≤ maxFileBytes) :
    Advances s (inventoryStep L s file) (sizeRead file) (isRead L file).toNat (isProbe file).toNat
      (declares L file) := by
  have hskip : declares L file = [] → Advances s { s with paths := s.paths ++ [file.1.path] }
      (sizeRead file) (isRead L file).toNat (isProbe file).toNat (declares L file) := fun hnone =>
    ⟨Nat.le_add_right _ _, Nat.le_add_right _ _, Nat.le_add_right _ _, by simp [hnone]⟩
  unfold inventoryStep
  rw [if_neg (by simp [hfile])]
  dsimp only
  have hpaths : ∀ {s'}, Advances { s with paths := s.paths ++ [file.1.path] } s' (sizeRead file)
      (isRead L file).toNat (isProbe file).toNat (declares L file) →
      Advances s s' (sizeRead file) (isRead L file).toNat (isProbe file).toNat (declares L file) :=
    fun h => ⟨h.readBytes, h.read, h.probes, h.packages⟩
  by_cases hfull : maxPackageFiles ≤ s.read
  · rw [if_pos hfull]
    refine hskip (declares_nil_of_not_read ?_)
    by_contra hne
    rw [Bool.not_eq_false] at hne
    rw [hne, Bool.toNat_true] at hread
    omega
  rw [if_neg hfull]
  rcases hformat : formatOf file.1.path with _ | format
  · dsimp only
    by_cases hcap : file.1.mode &&& 0o111 ≠ 0 ∧ s.probes < maxBinaryProbes
    · rw [if_pos hcap]
      exact hpaths (probeBinary_advances hformat hcap.1 htype hbytes hsize)
    · rw [if_neg hcap]
      refine hskip ?_
      by_contra hne
      have hprobe : isProbe file = true ∧ file.1.mode &&& 0o111 ≠ 0 := by
        unfold declares at hne
        rw [hformat] at hne
        dsimp only at hne
        split_ifs at hne with h
        · exact ⟨by simp [isProbe, hformat, h], h.1⟩
        · exact absurd rfl hne
      rw [hprobe.1, Bool.toNat_true] at hprobes
      exact hcap ⟨hprobe.2, by omega⟩
  · have hprobe : isProbe file = false := by simp [isProbe, hformat]
    rw [hprobe] at hpaths ⊢
    exact hpaths (readMetadata_advances hformat htype hbytes hsize)

/-- **The loop over files** adds what they declare. -/
theorem foldl_advances {s : InventoryWalk} {files : List Walked}
    (hfiles : ∀ file ∈ files, (file.1.isFile = true → file.2.type = .regular) ∧
      (declares L file ≠ [] → file.1.whiteoutOf = [] → file.1.isFile = true →
        file.2.size ≤ maxFileBytes))
    (hbytes : s.readBytes + ((files.filter visible).map sizeRead).sum ≤ maxTotalReadBytes)
    (hread : s.read + (files.filter visible).countP (isRead L) ≤ maxPackageFiles)
    (hprobes : s.probes + (files.filter visible).countP isProbe ≤ maxBinaryProbes) :
    Advances s (files.foldl (inventoryStep L) s) ((files.filter visible).map sizeRead).sum
      ((files.filter visible).countP (isRead L)) ((files.filter visible).countP isProbe)
      ((files.filter visible).flatMap (declares L)) := by
  induction files generalizing s with
  | nil => exact Advances.refl s
  | cons file files ih =>
    rw [foldl_cons]
    rw [forall_mem_cons] at hfiles
    by_cases hfile : visible file = true
    · rw [filter_cons_of_pos hfile] at hbytes hread hprobes ⊢
      simp only [map_cons, sum_cons, countP_cons, flatMap_cons] at hbytes hread hprobes ⊢
      have hshown : file.1.whiteoutOf = [] ∧ file.1.isFile = true := by simpa [visible] using hfile
      have hone : ∀ b : Bool, (if b = true then 1 else 0) = b.toNat := fun b => by cases b <;> rfl
      simp only [hone] at hread hprobes ⊢
      have hstep := inventoryStep_advances (s := s) hshown (hfiles.1.1 hshown.2) (by omega)
        (by omega) (by omega) fun hne => hfiles.1.2 hne hshown.1 hshown.2
      have hrest := ih (s := inventoryStep L s file) hfiles.2 (by have := hstep.readBytes; omega)
        (by have := hstep.read; omega) (by have := hstep.probes; omega)
      rw [Nat.add_comm (countP _ _), Nat.add_comm (countP _ _)]
      exact hstep.trans hrest
    · rw [filter_cons_of_neg hfile] at hbytes hread hprobes ⊢
      have hskip : inventoryStep L s file = s := by
        unfold inventoryStep
        rw [if_pos]
        simpa [visible, or_iff_not_imp_left] using hfile
      rw [hskip]
      exact ih hfiles.2 hbytes hread hprobes

/-- Within the budget it does not matter what was read before a layer is opened. -/
theorem exists_openLayer (blobs : List (Str × LayerBlob)) (name : Str) :
    ∃ members, ∀ n, n + layerSize blobs name ≤ maxTotalReadBytes →
      openLayer (blobs.lookup name) n = (members, n + layerSize blobs name) := by
  unfold layerSize openLayer
  rcases blobs.lookup name with _ | b
  · exact ⟨none, fun n _ => rfl⟩
  · by_cases hsize : b.size ≤ maxFileBytes
    · refine ⟨b.members, fun n hn => ?_⟩
      simp only [Option.elim_some, if_pos hsize] at hn ⊢
      rw [if_neg (by omega)]
    · refine ⟨none, fun n _ => ?_⟩
      simp only [Option.elim_some, if_neg hsize]
      rw [if_pos (Or.inl (by omega))]
      rfl

theorem type_of_mem_walkLayer {layer : ℕ × Str × List TarInfo} {file : Walked}
    (h : file ∈ walkLayer layer) (hfile : file.1.isFile = true) : file.2.type = .regular := by
  obtain ⟨member, -, h⟩ := mem_filterMap.mp h
  obtain ⟨e, he, rfl⟩ := Option.map_eq_some_iff.mp h
  unfold entryFor at he
  dsimp only at he
  by_cases hskip : member.type = .other ∨ normalize member.name = []
  · rw [if_pos hskip] at he
    cases he
  · rw [if_neg hskip] at he
    cases he
    exact of_decide_eq_true hfile

/-- **The loop over the layers** adds what their files declare. -/
theorem inventoryFrom_advances {blobs : List (Str × LayerBlob)} {index n : ℕ} {names : List Str}
    {s : InventoryWalk} {files : List Walked}
    (hall : ((layersFrom blobs index n names).map walkLayer).flatten.filter visible = files)
    (hn : n + (names.map (layerSize blobs)).sum ≤ maxTotalReadBytes)
    (hsize : ∀ file ∈ files, declares L file ≠ [] → file.2.size ≤ maxFileBytes)
    (hbytes : s.readBytes + (names.map (layerSize blobs)).sum + (files.map sizeRead).sum ≤
      maxTotalReadBytes)
    (hread : s.read + files.countP (isRead L) ≤ maxPackageFiles)
    (hprobes : s.probes + files.countP isProbe ≤ maxBinaryProbes) :
    (inventoryFrom L blobs index names s).readings.flatMap Reading.packages =
      s.readings.flatMap Reading.packages ++ files.flatMap (declares L) := by
  induction names generalizing index n s files with
  | nil =>
    obtain rfl : [] = files := hall
    exact (append_nil _).symm
  | cons name names ih =>
    obtain ⟨members, hopen⟩ := exists_openLayer blobs name
    rw [map_cons, sum_cons] at hn hbytes
    rw [layersFrom, hopen n (by omega)] at hall
    rw [inventoryFrom, hopen s.readBytes (by omega)]
    rcases members with _ | members
    · exact ih hall (by omega) hsize (by dsimp only; omega) hread hprobes
    · dsimp only at hall ⊢
      rw [map_cons, flatten_cons, filter_append] at hall
      subst hall
      rw [map_append, sum_append] at hbytes
      rw [countP_append] at hread hprobes
      have hlayer := foldl_advances (L := L)
        (s := { s with readBytes := s.readBytes + layerSize blobs name })
        (fun file (hfile : file ∈ walkLayer (index, name, members)) =>
          ⟨type_of_mem_walkLayer hfile, fun hne hw hf => hsize file
            (mem_append_left _ (mem_filter.mpr ⟨hfile, by simp [visible, hw, hf]⟩)) hne⟩)
        (by dsimp only; omega) (by dsimp only; omega) (by dsimp only; omega)
      have hb := hlayer.readBytes
      have hr := hlayer.read
      have hp := hlayer.probes
      dsimp only at hb hr hp
      rw [ih rfl (by omega) (fun file hfile => hsize file (mem_append_right _ hfile)) (by omega)
        (by omega) (by omega), hlayer.packages, flatMap_append, append_assoc]

/-- **Within the caps the loop reads all that the layers declare.** -/
theorem packagesRead_eq {archive : ImageArchive} (h : WithinCaps L archive) :
    packagesRead L archive = archive.declared L :=
  (inventoryFrom_advances rfl (Nat.le_of_add_right_le h.bytes) h.size h.bytes
    ((Nat.zero_add _).trans_le h.read) ((Nat.zero_add _).trans_le h.probes)).trans (nil_append _)

/-! ### The last reading is kept -/

theorem rowOf_latestOf (inventory : List Package) (key : Str × Str) :
    rowOf Package.key key (latestOf inventory) = latest (fun p => p.key = key) inventory := by
  unfold latestOf
  induction inventory using reverseRecOn with
  | nil => rfl
  | append_singleton inventory p ih =>
    rw [foldl_append, latest_concat, ← ih]
    have hrow : ∀ kept, rowOf Package.key key (amend Package.key p.key (fun _ => p) kept) =
        if key = p.key then some p else rowOf Package.key key kept :=
      fun _ => rowOf_amend fun _ _ => rfl
    refine (hrow _).trans ?_
    by_cases hkey : p.key = key
    · simp [hkey]
    · simp [hkey, Ne.symm hkey]

theorem nodup_latestOf (inventory : List Package) :
    ((latestOf inventory).map Package.key).Nodup := by
  unfold latestOf
  induction inventory using reverseRecOn with
  | nil => exact nodup_nil
  | append_singleton inventory p ih =>
    rw [foldl_append]
    exact nodup_amend (fun _ _ => rfl) ih

/-- **What the inventory reports** within the caps: the last declaration of each package. -/
theorem reported_iff {archive : ImageArchive} (h : WithinCaps L archive) (t : Str × Str × Str) :
    Reported L archive t ↔ ∃ p ∈ latest (fun p => p.key = (t.2.1, t.1)) (archive.declared L),
      p.version = t.2.2 := by
  unfold Reported walkImageInventory
  rw [packagesRead_eq h, ← rowOf_latestOf]
  constructor
  · rintro ⟨p, hp, rfl⟩
    exact ⟨p, (mem_iff_rowOf (nodup_latestOf _)).mp hp, rfl⟩
  · rintro ⟨p, hp, hversion⟩
    obtain ⟨hmem, hkey⟩ := of_rowOf hp
    refine ⟨p, hmem, ?_⟩
    obtain ⟨hname, hecosystem⟩ := Prod.mk.inj hkey
    rw [Package.triple, hname, hecosystem, hversion]

/-- What is present was declared in some layer. -/
theorem IsPresent.mem_declared {archive : ImageArchive} {p : Package}
    (h : IsPresent L archive p) : p ∈ archive.declared L := by
  obtain ⟨path, file, hfile, hp⟩ := h
  obtain ⟨hplay, hregular⟩ := Option.filter_eq_some_iff.mp hfile
  obtain ⟨hmem, hputs⟩ := mem_of_play hplay
  have hvisible : visible file = true := by
    simp only [LayerEntry.puts, Bool.decide_and, Bool.and_eq_true, decide_eq_true_eq] at hputs
    simp [visible, hputs.1, hregular]
  exact mem_flatMap.mpr ⟨file, mem_filter.mpr ⟨hmem, hvisible⟩, hp⟩

theorem triple_eq {p q : Package} (hkey : q.key = p.key) (hversion : q.version = p.version) :
    q.triple = p.triple := by
  obtain ⟨hname, hecosystem⟩ := Prod.mk.inj hkey
  rw [Package.triple, Package.triple, hname, hecosystem, hversion]

theorem key_of_triple {p q : Package} (h : q.triple = p.triple) :
    q.key = p.key ∧ q.version = p.version := by
  obtain ⟨hecosystem, hname, hversion⟩ : q.ecosystem = p.ecosystem ∧ q.name = p.name ∧
      q.version = p.version := by simpa [Package.triple] using h
  exact ⟨by rw [Package.key, Package.key, hname, hecosystem], hversion⟩

/-- The last declaration of a package that is up to date is present. -/
theorem UpToDate.last {archive : ImageArchive} (h : UpToDate L archive) {key : Str × Str}
    {r : Package} (hr : r ∈ latest (fun p => p.key = key) (archive.declared L)) :
    ∃ q, IsPresent L archive q ∧ q.triple = r.triple := by
  obtain ⟨q, hq, hkey⟩ := h.kept r (mem_of_latest hr).1
  refine ⟨q, hq, triple_eq hkey ?_⟩
  by_contra hne
  obtain ⟨hrkey, after, before, hsplit, hafter⟩ := find?_eq_some_iff_append.mp hr
  obtain ⟨r', hmem, hr'key, -⟩ := h.replaced before.reverse r after.reverse q
    (by simpa using congrArg reverse hsplit) hq hkey hne
  have hother := hafter r' (mem_reverse.mp hmem)
  rw [hr'key, hkey] at hother
  simp [hrkey] at hother

end Inventory

section Sample

/-- Libraries for texts of one byte a character, with no other parsers. -/
def librariesSample : Libraries where
  runtime := Runtime.ascii
  decode data := data.map fun b => Char.ofNat b.toNat
  parseNodePackageJson _ _ := []
  parseYarnLock _ _ := []
  parsePackageLock _ _ := []
  parseGemfileLock _ _ := []
  parseGemspec _ _ := []
  parseJar _ _ := []
  parseGoBuildinfo _ _ := []

/-- A layer with the package database of Alpine. -/
def apkLayer (text : String) : LayerBlob where
  size := 512
  members := some [
    { name := apkInstalled
      size := text.toList.length
      mode := 420
      type := .regular
      linkname := []
      data := text.toList.map fun c => UInt8.ofNat c.toNat
      length_data := fun _ => length_map _ }]

/-- A package is removed in the second layer. -/
def removedPackage : ImageArchive where
  layerNames := ["0", "1"]
  blobs := [("0", apkLayer "P:zlib\nV:1\n\nP:musl\nV:2\n"),
    ("1", apkLayer "P:musl\nV:2\n")]
  readBytes := 0

/-- A package is upgraded in the second layer. -/
def upgradedPackage : ImageArchive where
  layerNames := ["0", "1"]
  blobs := [("0", apkLayer "P:zlib\nV:1\n\nP:musl\nV:2\n"),
    ("1", apkLayer "P:zlib\nV:2\n\nP:musl\nV:2\n")]
  readBytes := 0

end Sample

end Guardian.Images

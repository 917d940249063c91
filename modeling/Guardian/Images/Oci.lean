import Guardian.Order.Stack
import Guardian.Order.Table
import Guardian.Python.Text

/-!
# The layers of a container image

An image is a stack of tar files.  A reader opens the layers one after the other within a budget of
bytes, and turns each member that it has a use for into an entry under a normalized path.
-/

namespace Guardian.Images

open Python Guardian.Order

/-! ### Paths -/

/-- One round of the loop in `posixpath.normpath`, over the components so far, the newest first. -/
def normStep (rooted : Bool) (comps : List Str) (comp : Str) : List Str :=
  if comp = [] ∨ comp = ".".toList then comps
  else if comp ≠ "..".toList ∨ (rooted = false ∧ comps = []) ∨ comps.head? = some "..".toList then
    comp :: comps
  else comps.tail

/-- The slashes that `normpath` keeps at the beginning. -/
def initialSlashes (path : Str) : ℕ :=
  if ¬ "/" <+: path then 0
  else if "//" <+: path ∧ ¬ "///" <+: path then 2
  else 1

/-- `posixpath.normpath`. -/
def normpath (path : Str) : Str :=
  if path = [] then "."
  else
    let slashes := initialSlashes path
    let comps := (path.splitOn '/').foldl (normStep (slashes ≠ 0)) []
    let joined := List.replicate slashes '/' ++ "/".toList.intercalate comps.reverse
    if joined = [] then "." else joined

/-- What is before the name, slashes at its end dropped unless it has nothing else. -/
def dirname (path : Str) : Str :=
  let head := path.rdropWhile (· != '/')
  if head.all (· == '/') then head else rstripChar '/' head

/-- `posixpath.basename`. -/
def basename (path : Str) : Str := path.rtakeWhile (· != '/')

/-- The loop that drops `../` from the beginning. -/
def dropUps : Str → Str
  | '.' :: '.' :: '/' :: rest => dropUps rest
  | path => path

/-- **`_normalize`.** -/
def normalize (path : Str) : Str :=
  let cleaned := (normpath (path.map fun c => if c = '\\' then '/' else c)).dropWhile (· == '/')
  let cleaned := dropUps cleaned
  if cleaned = "." ∨ cleaned = ".." then [] else cleaned

/-! ### Members -/

/-- The kinds of members of a tar file. -/
inductive MemberType
  | regular
  | directory
  | symlink
  | hardlink
  | other
  deriving DecidableEq

/-- `TarInfo`, with the bytes of the member: those of a file are as many as its size says. -/
structure TarInfo where
  name : Str
  size : ℕ
  mode : ℕ
  type : MemberType
  linkname : Str
  data : List UInt8
  length_data : type = .regular → data.length = size

/-- `WHITEOUT_PREFIX`. -/
def whiteoutPrefix : Str := ".wh."

/-- `OPAQUE_MARKER`. -/
def opaqueMarker : Str := ".wh..wh..opq"

def joinPath (parent name : Str) : Str := if parent = [] then name else parent ++ '/' :: name

/-- The path that the name of an entry deletes; the text is empty if it deletes none. -/
def deletedBy (path : Str) : Str :=
  let base := basename path
  let parent := dirname path
  if base = opaqueMarker then (if parent = [] then [] else parent ++ ['/'])
  else if whiteoutPrefix <+: base then joinPath parent (base.drop 4)
  else []

/-- `LayerEntry`.  What it deletes is read off its path. -/
structure LayerEntry where
  layerIndex : ℕ
  layerName : Str
  path : Str
  size : ℕ
  mode : ℕ
  isFile : Bool
  isSymlink : Bool
  linkTarget : Str
  whiteoutOf : Str
  whiteoutOf_eq : whiteoutOf = deletedBy path

/-- **`_entry_for`.** -/
def entryFor (member : TarInfo) (index : ℕ) (layerName : Str) : Option LayerEntry :=
  let path := normalize member.name
  if member.type = .other ∨ path = [] then none
  else some
    { layerIndex := index
      layerName
      path
      size := member.size
      mode := member.mode
      isFile := member.type = .regular
      isSymlink := member.type = .symlink ∨ member.type = .hardlink
      linkTarget := if member.linkname = [] then [] else normalize member.linkname
      whiteoutOf := deletedBy path
      whiteoutOf_eq := rfl }

/-! ### Layers -/

/-- `MAX_LAYERS`. -/
def maxLayers : ℕ := 128

/-- `MAX_MEMBERS_PER_LAYER`. -/
def maxMembersPerLayer : ℕ := 200000

/-- `MAX_FILE_BYTES`. -/
def maxFileBytes : ℕ := 8000000

/-- `MAX_TOTAL_READ_BYTES`. -/
def maxTotalReadBytes : ℕ := 400000000

/-- The member of the archive that a layer is in: its size, and the tar file in it, if its bytes
are one. -/
structure LayerBlob where
  size : ℕ
  members : Option (List TarInfo)

/-- `ImageArchive`: the names of the layers, the members of the archive, and the bytes that were
read. -/
structure ImageArchive where
  layerNames : List Str
  blobs : List (Str × LayerBlob)
  readBytes : ℕ

/-- `_open_layer`, with the bytes that were read afterwards. -/
def openLayer (blob : Option LayerBlob) (readBytes : ℕ) : Option (List TarInfo) × ℕ :=
  match blob with
  | none => (none, readBytes)
  | some b =>
    if maxFileBytes < b.size ∨ maxTotalReadBytes < readBytes + b.size then (none, readBytes)
    else (b.members, readBytes + b.size)

/-- `layers`: the layers that can be read, each with its index and its name. -/
def layersFrom (blobs : List (Str × LayerBlob)) :
    ℕ → ℕ → List Str → List (ℕ × Str × List TarInfo)
  | _, _, [] => []
  | index, readBytes, name :: names =>
    match openLayer (blobs.lookup name) readBytes with
    | (none, readBytes') => layersFrom blobs (index + 1) readBytes' names
    | (some members, readBytes') =>
      (index, name, members) :: layersFrom blobs (index + 1) readBytes' names

/-- What `walk` yields: an entry, and the member that its reader reads. -/
abbrev Walked : Type := LayerEntry × TarInfo

/-- `walk` within one layer. -/
def walkLayer (layer : ℕ × Str × List TarInfo) : List Walked :=
  (layer.2.2.take maxMembersPerLayer).filterMap fun member =>
    (entryFor member layer.1 layer.2.1).map (·, member)

/-- **`walk`**, layer by layer, when nothing is read on the way. -/
def ImageArchive.walk (archive : ImageArchive) : List (List Walked) :=
  (layersFrom archive.blobs 0 archive.readBytes (archive.layerNames.take maxLayers)).map walkLayer

def ImageArchive.entries (archive : ImageArchive) : List (List LayerEntry) :=
  archive.walk.map (·.map Prod.fst)

/-! ### The final filesystem -/

/-- The paths that are there, with the entry at each. -/
abbrev View : Type := List (Str × LayerEntry)

/-- One round of the loop in `final_filesystem`. -/
def viewStep (view : View) (entry : LayerEntry) : View :=
  if entry.whiteoutOf ≠ [] then
    if "/" <:+ entry.whiteoutOf then
      view.filter fun row => ¬ entry.whiteoutOf <+: row.1
    else view.filter fun row => row.1 ≠ entry.whiteoutOf
  else amend Prod.fst entry.path (fun _ => (entry.path, entry)) view

/-- **`final_filesystem`**, from the entries of the walk. -/
def finalView (stack : List (List LayerEntry)) : View := stack.flatten.foldl viewStep []

/-- `final_filesystem`. -/
def ImageArchive.finalFilesystem (archive : ImageArchive) : View := finalView archive.entries

/-- An entry that is put into the view under its path. -/
def LayerEntry.puts (e : LayerEntry) (p : Str) : Bool := e.whiteoutOf = [] ∧ e.path = p

/-- An entry that deletes a path from the view. -/
def LayerEntry.takes (e : LayerEntry) (p : Str) : Bool :=
  decide (e.whiteoutOf ≠ []) &&
    if "/" <:+ e.whiteoutOf then decide (e.whiteoutOf <+: p) else decide (p = e.whiteoutOf)

theorem rowOf_filter (keep : Str → Bool) (view : View) (p : Str) :
    rowOf Prod.fst p (view.filter fun row => keep row.1) =
      if keep p then rowOf Prod.fst p view else none := by
  unfold rowOf
  induction view with
  | nil => simp
  | cons row view ih =>
    by_cases hrow : row.1 = p
    · subst hrow
      by_cases hkeep : keep row.1 = true
      · simp [hkeep]
      · simpa [hkeep] using ih
    · by_cases hkeep : keep row.1 = true
      · simpa [hkeep, hrow] using ih
      · simpa [hkeep, hrow] using ih

/-- One more entry, seen at a path. -/
theorem rowOf_viewStep (view : View) (e : LayerEntry) (p : Str) :
    (rowOf Prod.fst p (viewStep view e)).map Prod.snd =
      playOne LayerEntry.puts LayerEntry.takes p ((rowOf Prod.fst p view).map Prod.snd) e := by
  unfold viewStep playOne
  by_cases hw : e.whiteoutOf = []
  · have htakes : e.takes p = false := by simp [LayerEntry.takes, hw]
    have hputs : e.puts p = decide (e.path = p) := by simp [LayerEntry.puts, hw]
    have hrow : rowOf Prod.fst p (amend Prod.fst e.path (fun _ => (e.path, e)) view) =
        if p = e.path then some (e.path, e) else rowOf Prod.fst p view :=
      rowOf_amend fun _ _ => rfl
    rw [if_neg (not_not_intro hw), htakes, hputs, hrow]
    by_cases hp : p = e.path
    · simp [hp]
    · simp [hp, Ne.symm hp]
  · have hputs : e.puts p = false := by simp [LayerEntry.puts, hw]
    rw [if_pos hw, hputs]
    by_cases hdir : "/" <:+ e.whiteoutOf
    · have htakes : e.takes p = decide (e.whiteoutOf <+: p) := by
        unfold LayerEntry.takes
        rw [if_pos hdir]
        simp [hw]
      rw [if_pos hdir, htakes, rowOf_filter fun q => ¬ e.whiteoutOf <+: q]
      by_cases hp : e.whiteoutOf <+: p <;> simp [hp]
    · have htakes : e.takes p = decide (p = e.whiteoutOf) := by
        unfold LayerEntry.takes
        rw [if_neg hdir]
        simp [hw]
      rw [if_neg hdir, htakes, rowOf_filter fun q => q ≠ e.whiteoutOf]
      by_cases hp : p = e.whiteoutOf <;> simp [hp]

/-- **What the final filesystem has at a path**: the entries of the walk, one after the other. -/
theorem rowOf_finalView (stack : List (List LayerEntry)) (p : Str) :
    (rowOf Prod.fst p (finalView stack)).map Prod.snd =
      play LayerEntry.puts LayerEntry.takes p stack.flatten := by
  unfold finalView
  induction stack.flatten using List.reverseRecOn with
  | nil => rfl
  | append_singleton log e ih =>
    rw [List.foldl_append, play_concat, ← ih]
    exact rowOf_viewStep _ e p

end Guardian.Images

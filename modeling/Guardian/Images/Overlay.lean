import Guardian.Images.Oci

/-!
# The overlay of the layers

A running container sees the layers over one another: a whiteout hides a path and what is beneath
it, an opaque marker hides what is beneath its directory, and what is not a directory hides what was
beneath its path, always in the layers below only.  `overlay_iff` says when the reader comes to the
same.
-/

namespace Guardian.Images

open Python Guardian.Order List

/-! ### What is hidden -/

/-- What the name of an entry says of the layers below. -/
inductive Marker
  | whiteout (path : Str)
  | opaqueDir (dir : Str)
  | unnamed
  deriving DecidableEq

/-- The marker that is at a path. -/
def markerOf (path : Str) : Option Marker :=
  if basename path = opaqueMarker then some (.opaqueDir (dirname path))
  else if basename path = whiteoutPrefix then some .unnamed
  else if whiteoutPrefix <+: basename path then
    some (.whiteout (joinPath (dirname path) ((basename path).drop 4)))
  else none

def beneath (dir path : Str) : Bool := dir ++ ['/'] <+: path

/-- What a marker hides in the layers below. -/
def Marker.hides : Marker → Str → Bool
  | .whiteout target, p => decide (p = target) || beneath target p
  | .opaqueDir dir, p => decide (dir = []) || beneath dir p
  | .unnamed, _ => false

namespace LayerEntry

/-- **What an entry hides in the layers below.** -/
def hides (e : LayerEntry) (p : Str) : Bool :=
  match markerOf e.path with
  | some marker => marker.hides p
  | none => (e.isFile || e.isSymlink) && beneath e.path p

/-- An entry is at a path, and is no marker. -/
def shows (e : LayerEntry) (p : Str) : Bool := markerOf e.path = none ∧ e.path = p

/-- A marker that names nothing deletes all of its directory. -/
def strays (e : LayerEntry) (p : Str) : Bool := markerOf e.path = some .unnamed ∧ e.takes p = true

/-- **What an entry hides and the reader keeps**: what is beneath a whiteout, everything for an
opaque marker at the root, and what was beneath something that is not a directory. -/
def misses (e : LayerEntry) (p : Str) : Bool :=
  match markerOf e.path with
  | some (.whiteout target) => beneath target p
  | some (.opaqueDir dir) => decide (dir = [])
  | some .unnamed => false
  | none => (e.isFile || e.isSymlink) && beneath e.path p

end LayerEntry

theorem slash_notMem_basename (path : Str) : '/' ∉ basename path := by
  intro h
  have hne := mem_rtakeWhile_imp h
  simp at hne

theorem not_slash_suffix_joinPath {parent name : Str} (hne : name ≠ []) (hslash : '/' ∉ name) :
    ¬ "/" <:+ joinPath parent name := by
  have hlast : ∀ before : Str, ¬ "/" <:+ before ++ name := by
    intro before hsuffix
    have hname : "/" <:+ name := by
      refine suffix_of_suffix_length_le hsuffix (suffix_append before name) ?_
      exact length_pos_of_ne_nil hne
    exact hslash (hname.subset (mem_singleton.mpr rfl))
  unfold joinPath
  split
  · exact hlast []
  · have hcons := hlast (parent ++ ['/'])
    rwa [append_assoc] at hcons

/-- A whiteout deletes a path with a name. -/
theorem of_whiteout {path target : Str} (h : markerOf path = some (.whiteout target)) :
    target ≠ [] ∧ ¬ "/" <:+ target := by
  unfold markerOf at h
  split at h
  · cases h
  split at h
  · cases h
  rename_i hbare
  split at h
  swap
  · cases h
  rename_i hprefix
  obtain rfl := Marker.whiteout.inj (Option.some.inj h)
  obtain ⟨name, hname⟩ := hprefix
  have hdrop : (basename path).drop 4 = name := by
    rw [← hname]
    rfl
  have hne : name ≠ [] := by
    rintro rfl
    exact hbare (by rw [← hname, append_nil])
  have hslash : '/' ∉ name := fun hmem =>
    slash_notMem_basename path (hname ▸ mem_append_right _ hmem)
  rw [hdrop]
  refine ⟨?_, not_slash_suffix_joinPath hne hslash⟩
  unfold joinPath
  split
  · exact hne
  · simp

theorem deletedBy_eq (path : Str) : deletedBy path =
    match markerOf path with
    | some (.whiteout target) => target
    | some (.opaqueDir dir) => if dir = [] then [] else dir ++ ['/']
    | some .unnamed => joinPath (dirname path) []
    | none => [] := by
  unfold deletedBy markerOf
  dsimp only
  by_cases hopaque : basename path = opaqueMarker
  · rw [if_pos hopaque, if_pos hopaque]
  · by_cases hbare : basename path = whiteoutPrefix
    · have hprefix : whiteoutPrefix <+: basename path := by rw [hbare]
      have hdrop : (basename path).drop 4 = [] := by
        rw [hbare]
        rfl
      rw [if_neg hopaque, if_neg hopaque, if_pos hbare, if_pos hprefix, hdrop]
    · rw [if_neg hopaque, if_neg hopaque, if_neg hbare]
      by_cases hprefix : whiteoutPrefix <+: basename path
      · rw [if_pos hprefix, if_pos hprefix]
      · rw [if_neg hprefix, if_neg hprefix]

/-- **What the reader deletes**: the path of a whiteout, and what is beneath a directory with an
opaque marker or with a marker that names nothing, unless it is the root. -/
theorem takes_eq (e : LayerEntry) (p : Str) : e.takes p =
    match markerOf e.path with
    | some (.whiteout target) => decide (p = target)
    | some (.opaqueDir dir) => decide (dir ≠ []) && beneath dir p
    | some .unnamed => decide (dirname e.path ≠ []) && beneath (dirname e.path) p
    | none => false := by
  have hdir : ∀ dir : Str, "/" <:+ dir ++ ['/'] := fun dir => ⟨dir, rfl⟩
  have hnone : e.whiteoutOf = [] → e.takes p = false := fun hw => by
    rw [LayerEntry.takes, hw]
    rfl
  have hbeneath : ∀ dir, e.whiteoutOf = dir ++ ['/'] → e.takes p = beneath dir p := by
    intro dir hw
    rw [LayerEntry.takes, hw, if_pos (hdir dir)]
    simp [beneath]
  have hdeleted := e.whiteoutOf_eq.trans (deletedBy_eq e.path)
  rcases hmarker : markerOf e.path with _ | target | dir | _ <;> rw [hmarker] at hdeleted
  · exact hnone hdeleted
  · obtain ⟨hne, hsuffix⟩ := of_whiteout hmarker
    have hw : e.whiteoutOf = target := hdeleted
    rw [LayerEntry.takes, hw, if_neg hsuffix]
    simp [hne]
  · by_cases hroot : dir = []
    · rw [hnone (hdeleted.trans (if_pos hroot))]
      simp [hroot]
    · rw [hbeneath dir (hdeleted.trans (if_neg hroot))]
      simp [hroot]
  · by_cases hroot : dirname e.path = []
    · rw [hnone (hdeleted.trans (if_pos hroot))]
      simp [hroot]
    · rw [hbeneath _ (hdeleted.trans (if_neg hroot))]
      simp [hroot]

/-- **What is hidden is what the reader deletes, and what it misses.** -/
theorem hides_iff {e : LayerEntry} {p : Str} :
    e.hides p = true ↔ (e.takes p = true ∧ e.strays p = false) ∨ e.misses p = true := by
  unfold LayerEntry.hides LayerEntry.misses LayerEntry.strays
  rw [takes_eq]
  rcases markerOf e.path with _ | target | dir | _
  · simp
  · simp [Marker.hides]
  · by_cases hdir : dir = [] <;> simp [Marker.hides, hdir]
  · simp [Marker.hides]

/-! ### Agreement -/

/-- **The final filesystem is the overlay of the layers** that the reader walks. -/
def IsOverlay (archive : ImageArchive) : Prop :=
  ∀ p, (rowOf Prod.fst p archive.finalFilesystem).map Prod.snd =
    layered LayerEntry.shows LayerEntry.hides p archive.entries

/-- **No path is deleted or kept against the overlay**: take the last entry at a path, where no
higher layer has a whiteout of the path or an opaque marker above it.  A later entry deletes the
path (in its own layer, or a marker that names nothing) just in case the path is that of a marker or
a higher layer hides it in a way that the reader misses. -/
def MarkersAgree (stack : List (List LayerEntry)) : Prop :=
  ∀ p e after above, LastAt LayerEntry.puts p stack e after above →
    (∀ m ∈ above.flatten, m.takes p = true → m.strays p = true) →
      ((∃ m ∈ after ++ above.flatten, m.takes p = true) ↔
        (markerOf p ≠ none ∨ ∃ m ∈ above.flatten, m.misses p = true))

theorem puts_of_shows {e : LayerEntry} {p : Str} (h : e.shows p = true) : e.puts p = true := by
  obtain ⟨hmarker, hp⟩ : markerOf e.path = none ∧ e.path = p := by
    simpa [LayerEntry.shows] using h
  have hw : e.whiteoutOf = [] := by rw [e.whiteoutOf_eq, deletedBy_eq, hmarker]
  simp [LayerEntry.puts, hw, hp]

theorem shows_of_puts {e : LayerEntry} {p : Str} (h : e.puts p = true) :
    e.shows p = decide (markerOf p = none) := by
  obtain ⟨-, rfl⟩ : e.whiteoutOf = [] ∧ e.path = p := by simpa [LayerEntry.puts] using h
  simp [LayerEntry.shows]

/-- **The final filesystem is the overlay of the layers** exactly when no path is deleted or kept
against it. -/
theorem overlay_iff (archive : ImageArchive) :
    IsOverlay archive ↔ MarkersAgree archive.entries := by
  unfold IsOverlay MarkersAgree ImageArchive.finalFilesystem
  simp only [rowOf_finalView]
  rw [play_eq_layered_iff (fun _ _ => puts_of_shows) fun a b k ha hb => by
    rw [shows_of_puts ha, shows_of_puts hb]]
  refine forall_congr' fun p => forall_congr' fun e => forall_congr' fun after =>
    forall_congr' fun above => forall_congr' fun hlast => ?_
  have hshows : e.shows p = false ↔ markerOf p ≠ none := by
    rw [shows_of_puts hlast.at_key]
    simp
  by_cases hcommon : ∀ m ∈ above.flatten, m.takes p = true → m.strays p = true
  · have hmisses : (∃ m ∈ above.flatten, m.hides p = true) ↔
        ∃ m ∈ above.flatten, m.misses p = true := by
      refine exists_congr fun m => and_congr_right fun hm => ?_
      rw [hides_iff]
      refine or_iff_right fun h => ?_
      rw [hcommon m hm h.1] at h
      cases h.2
    rw [hshows, hmisses]
    exact ⟨fun h _ => h, fun h => h hcommon⟩
  · obtain ⟨m, hm, htakes, hstrays⟩ : ∃ m ∈ above.flatten, m.takes p = true ∧
        m.strays p = false := by
      push Not at hcommon
      simpa using hcommon
    refine iff_of_true (iff_of_true ?_ ?_) fun h => absurd h hcommon
    · exact ⟨m, mem_append_right _ hm, htakes⟩
    · exact Or.inr ⟨m, hm, hides_iff.mpr (Or.inl ⟨htakes, hstrays⟩)⟩

section Sample

/-- A member of a tar file. -/
def memberSample (name : Str) (type : MemberType) : TarInfo where
  name := name
  size := 0
  mode := 420
  type := type
  linkname := []
  data := []
  length_data _ := rfl

/-- An image with these layers. -/
def imageSample (layers : List (List TarInfo)) : ImageArchive where
  layerNames := layers.zipIdx.map fun layer => [Char.ofNat (48 + layer.2)]
  blobs := layers.zipIdx.map fun layer => ([Char.ofNat (48 + layer.2)], ⟨512, some layer.1⟩)
  readBytes := 0

/-- A directory with a file in it, and a layer that deletes the directory. -/
def deletedDirectory : ImageArchive :=
  imageSample [[memberSample "app/" .directory, memberSample "app/key" .regular],
    [memberSample ".wh.app" .regular]]

/-- **A file in a directory that is deleted** stays in the final filesystem. -/
theorem deletedDirectory_not_overlay : ¬ IsOverlay deletedDirectory := by
  intro h
  have hkey := congrArg Option.isSome (h "app/key")
  exact absurd hkey (by decide)

end Sample

end Guardian.Images

import Guardian.Sbom.Builder

/-!
# References of a bill

The components of a bill are told apart by name, version and ecosystem, and referred to by their
package URLs, where the aliases of an ecosystem are one type, blanks are stripped and the parts are
written one after the other without escapes.  `resolves_iff` says when each reference stands for one
component.
-/

namespace Guardian.Sbom

open Python Guardian.Order List

/-! ### Marks -/

section Marks
variable {x : Char} {a b a' b' n v n' v' : Str}

/-- **The mark is taken later**: one text takes in the mark of the other. -/
def Shifted (x : Char) (a b a' b' : Str) : Prop := ∃ w, a' = a ++ x :: w ∧ b = w ++ x :: b'

theorem append_cons_eq_iff : a ++ x :: b = a' ++ x :: b' ↔
    (a = a' ∧ b = b') ∨ Shifted x a b a' b' ∨ Shifted x a' b' a b := by
  constructor
  · intro h
    rcases append_eq_append_iff.mp h with ⟨w, rfl, hw⟩ | ⟨w, rfl, hw⟩ <;>
      rcases w with _ | ⟨y, w⟩
    · exact Or.inl ⟨(append_nil a).symm, (List.cons.inj hw).2⟩
    · obtain ⟨rfl, rfl⟩ := List.cons.inj hw
      exact Or.inr (Or.inl ⟨w, rfl, rfl⟩)
    · exact Or.inl ⟨append_nil a', (List.cons.inj hw).2.symm⟩
    · obtain ⟨rfl, rfl⟩ := List.cons.inj hw
      exact Or.inr (Or.inr ⟨w, rfl, rfl⟩)
  · rintro (⟨rfl, rfl⟩ | ⟨w, rfl, rfl⟩ | ⟨w, rfl, rfl⟩) <;> simp

/-- **The version is taken later**: one name takes in the mark, and a part of the version. -/
def VersionShifted (n v n' v' : Str) : Prop :=
  v ≠ [] ∧ ∃ w, n' = n ++ '@' :: w ∧ v = w ++ versionSuffix v'

theorem versionSuffix_injective : Function.Injective versionSuffix := by
  intro s t h
  unfold versionSuffix at h
  split_ifs at h with hs ht ht
  · rw [hs, ht]
  · exact (List.cons.inj h).2

theorem append_versionSuffix_eq_iff : n ++ versionSuffix v = n' ++ versionSuffix v' ↔
    (n = n' ∧ v = v') ∨ VersionShifted n v n' v' ∨ VersionShifted n' v' n v := by
  have hshift : ∀ {n v v' : Str} {y : Char} {w : Str},
      versionSuffix v = y :: w ++ versionSuffix v' → VersionShifted n v (n ++ y :: w) v' := by
    intro n v v' y w h
    by_cases hv : v = []
    · rw [versionSuffix, if_pos hv] at h
      cases h
    · rw [versionSuffix, if_neg hv] at h
      obtain ⟨rfl, hw⟩ := List.cons.inj h
      exact ⟨hv, w, rfl, hw⟩
  constructor
  · intro h
    rcases append_eq_append_iff.mp h with ⟨w, rfl, hw⟩ | ⟨w, rfl, hw⟩ <;>
      rcases w with _ | ⟨y, w⟩
    · exact Or.inl ⟨(append_nil n).symm, versionSuffix_injective hw⟩
    · exact Or.inr (Or.inl (hshift hw))
    · exact Or.inl ⟨append_nil n', (versionSuffix_injective hw).symm⟩
    · exact Or.inr (Or.inr (hshift hw))
  · rintro (⟨rfl, rfl⟩ | ⟨hv, w, rfl, rfl⟩ | ⟨hv, w, rfl, rfl⟩)
    · rfl
    all_goals
      rw [versionSuffix.eq_def (w ++ _), if_neg hv]
      simp

end Marks

/-! ### Components -/

section
variable (R : Runtime) (c d : Component)

/-- **Two components are spelled alike**: their types are the same, and so are their names and
versions up to blanks, or one name takes in a part of the other's version. -/
def SpelledAlike : Prop :=
  purlType R c.ecosystem = purlType R d.ecosystem ∧
    ((strip R c.name = strip R d.name ∧ strip R c.version = strip R d.version) ∨
      VersionShifted (strip R c.name) (strip R c.version) (strip R d.name) (strip R d.version) ∨
        VersionShifted (strip R d.name) (strip R d.version) (strip R c.name) (strip R c.version))

/-- **A type takes in a part of the name**: the ecosystem of the second component is written like
that of the first one with the beginning of its name. -/
def TypeShifted : Prop :=
  Shifted '/' (purlType R c.ecosystem) (strip R c.name ++ versionSuffix (strip R c.version))
    (purlType R d.ecosystem) (strip R d.name ++ versionSuffix (strip R d.version))

variable {R c d}

theorem purl_eq_iff : c.purl R = d.purl R ↔
    SpelledAlike R c d ∨ TypeShifted R c d ∨ TypeShifted R d c := by
  unfold Component.purl purl SpelledAlike TypeShifted
  rw [append_assoc, append_assoc, append_right_inj, append_cons_eq_iff,
    append_versionSuffix_eq_iff]

end

/-! ### The bill -/

variable (R : Runtime) (components : List Component) (vulnerabilities : List Vulnerability)

/-- **Each reference stands for one component**: different components have different references,
and where a vulnerability is one of a component, what it adds to the entry of its advisory is the
reference of this component and of no other. -/
structure Resolves (document : Document) : Prop where
  nodup : (document.components.map ComponentEntry.bomRef).Nodup
  resolves : ∀ v ∈ vulnerabilities, v.vid R ≠ [] → ∀ c, Leads R components c →
    c.key R = v.key R → (∃ e ∈ document.vulnerabilities, e.id = v.vid R ∧
      v.ref R (kept R components) ∈ e.affects) ∧
        document.components.filter (fun d => d.bomRef = v.ref R (kept R components)) =
          [c.shown R]

variable {R components vulnerabilities}

theorem nodup_bomRef_iff : ((kept R components).map (Component.purl R)).Nodup ↔
    ∀ c d, Leads R components c → Leads R components d → c.key R ≠ d.key R →
      c.purl R ≠ d.purl R := by
  have hkeys : (kept R components).Nodup := nodup_keys_kept.of_map _
  rw [nodup_map_iff_inj_on hkeys]
  constructor
  · intro h c d hc hd hkey hpurl
    exact hkey (congrArg _ (h c (mem_kept_iff.mpr hc) d (mem_kept_iff.mpr hd) hpurl))
  · intro h c hc d hd hpurl
    by_contra hne
    refine h c d (mem_kept_iff.mp hc) (mem_kept_iff.mp hd) (fun hkey => hne ?_) hpurl
    exact inj_on_of_nodup_map nodup_keys_kept hc hd hkey

theorem filter_bomRef (hnodup : ((kept R components).map (Component.purl R)).Nodup)
    {c : Component} (hc : c ∈ kept R components) :
    ((kept R components).map (Component.shown R)).filter (fun d => d.bomRef = c.purl R) =
      [c.shown R] := by
  have hshown : ((kept R components).map (Component.shown R)).Nodup := by
    refine Nodup.of_map ComponentEntry.bomRef ?_
    rwa [map_map]
  refine perm_singleton.mp ((perm_ext_iff_of_nodup (hshown.filter _)
    (nodup_singleton _)).mpr fun e => ?_)
  rw [mem_filter, mem_map, mem_singleton]
  constructor
  · rintro ⟨⟨d, hd, rfl⟩, href⟩
    rw [inj_on_of_nodup_map hnodup hd hc (of_decide_eq_true href)]
  · rintro rfl
    exact ⟨⟨c, hc, rfl⟩, decide_eq_true rfl⟩

variable (R components vulnerabilities) in
/-- **Each reference of a bill stands for one component** exactly if no two components that are
listed under different keys are spelled alike, and no type takes in a part of a name. -/
theorem resolves_iff (subjectName subjectKind : Str) :
    Resolves R components vulnerabilities
        (buildSbom R components vulnerabilities subjectName subjectKind).document ↔
      ∀ c d, Leads R components c → Leads R components d → c.key R ≠ d.key R →
        ¬SpelledAlike R c d ∧ ¬TypeShifted R c d ∧ ¬TypeShifted R d c := by
  have hspelled : (∀ c d, Leads R components c → Leads R components d → c.key R ≠ d.key R →
      ¬SpelledAlike R c d ∧ ¬TypeShifted R c d ∧ ¬TypeShifted R d c) ↔
        ((kept R components).map (Component.purl R)).Nodup := by
    rw [nodup_bomRef_iff]
    simp only [ne_eq, purl_eq_iff, not_or]
  have hrefs : (buildSbom R components vulnerabilities subjectName subjectKind).document.components =
      (kept R components).map (Component.shown R) := map_entry_kept
  have hmap : ((kept R components).map (Component.shown R)).map ComponentEntry.bomRef =
      (kept R components).map (Component.purl R) := by
    rw [map_map]
    rfl
  rw [hspelled]
  constructor
  · intro h
    have hnodup := h.nodup
    rwa [hrefs, hmap] at hnodup
  · intro hnodup
    refine ⟨by rwa [hrefs, hmap], fun v hv hvid c hleads hkey => ?_⟩
    have hc := mem_kept_iff.mpr hleads
    have href : v.ref R (kept R components) = c.purl R := by
      rw [Vulnerability.ref, ← hkey, refs_of_mem nodup_keys_kept hc]
      rfl
    constructor
    · obtain ⟨e, he, hid, hmem⟩ := mem_affects.mpr ⟨v, hv, hvid, rfl, rfl⟩
      exact ⟨e, (mem_sortBy _).mpr he, hid, hmem⟩
    · rw [hrefs, href]
      exact filter_bomRef hnodup hc

/-- Two labels of one ecosystem. -/
theorem go_golang : ¬∀ (components : List Component) (vulnerabilities : List Vulnerability),
    Resolves Runtime.ascii components vulnerabilities
      (buildSbom Runtime.ascii components vulnerabilities [] []).document := by
  intro h
  have hnodup := (h [⟨"golang.org/x/net", "0.7.0", "go", []⟩,
    ⟨"golang.org/x/net", "0.7.0", "golang", []⟩] []).nodup
  revert hnodup
  decide

end Guardian.Sbom

import Guardian.Sbom.Builder

/-!
# Two bills of one inventory

The module promises that two bills of the same inventory are byte-identical. A component is taken
from the first one of its key, and the rating and the description of an advisory from the first of
its vulnerabilities, so that the promise is kept where the others say the same.  `document_perm_iff`
says when they do.
-/

namespace Guardian.Sbom

open Python Guardian.Order List

variable (R : Runtime)

/-! ### What is said -/

/-- What a component says of its key. -/
def Component.voice (c : Component) : Str × Str × Str := (c.name, c.source, c.purl R)

/-- What a vulnerability says of its advisory. -/
def Vulnerability.voice (comps : List Component) (v : Vulnerability) : Str × Option Str × Str :=
  (v.rating R, nonEmpty (v.description.take 1000), v.ref R comps)

/-- **A vulnerability refers** to a component that is listed, or to itself. -/
def Refers (components : List Component) (v : Vulnerability) (ref : Str) : Prop :=
  (∃ c ∈ named components, c.key R = v.key R ∧ Listed R components (c.key R) ∧ ref = c.purl R) ∨
    ¬Listed R components (v.key R) ∧ ref = v.ownRef R

/-- **The inventory says one thing** of each key that is listed, and of each advisory. -/
structure Unanimous (components : List Component) (vulnerabilities : List Vulnerability) :
    Prop where
  component : ∀ c ∈ named components, ∀ d ∈ named components, c.key R = d.key R →
    Listed R components (c.key R) → c.name = d.name ∧ c.source = d.source ∧ c.purl R = d.purl R
  vulnerability : ∀ v ∈ vulnerabilities, ∀ w ∈ vulnerabilities, v.vid R ≠ [] →
    v.vid R = w.vid R → v.rating R = w.rating R ∧
      v.description.take 1000 = w.description.take 1000 ∧
        ∀ ref ref', Refers R components v ref → Refers R components w ref' → ref = ref'

variable {R} {components cs comps comps' : List Component}
  {vulnerabilities vs : List Vulnerability}

theorem nonEmpty_injective : Function.Injective nonEmpty := by
  intro s t h
  unfold nonEmpty at h
  split_ifs at h with hs ht ht
  · rw [hs, ht]
  · exact Option.some.inj h

/-! ### Components -/

theorem firstSpeaks_setdefault : FirstSpeaks (Component.key R)
    (fun (c : Component) (seen : Option Component) => seen.getD c) (Component.shown R)
      (Component.voice R) where
  tells c d cs ds _ _ h := by
    rw [gathered_setdefault, gathered_setdefault, Option.map_some, Option.map_some,
      Option.some.injEq, Component.shown, Component.shown, ComponentEntry.mk.injEq] at h
    obtain ⟨hpurl, hname, -, -, hsource⟩ := h
    rw [Component.voice, Component.voice, hpurl, hname, nonEmpty_injective hsource]
  same c d cs ds _ hd := by
    obtain ⟨hkey, hvoice⟩ := hd d mem_cons_self
    obtain ⟨hname, hrest⟩ := Prod.mk.inj hvoice
    obtain ⟨hsource, hpurl⟩ := Prod.mk.inj hrest
    have hversion : d.version = c.version := (Prod.mk.inj (Prod.mk.inj hkey).2).1
    rw [gathered_setdefault, gathered_setdefault, Option.map_some, Option.map_some,
      Component.shown, Component.shown, hname, hsource, hpurl, hversion]

/-- **The components of the document** do not depend on the order of the inventory exactly if those
of each key that is listed say the same. -/
theorem components_perm_iff : (∀ cs, components.Perm cs →
      (kept R cs).map (Component.shown R) = (kept R components).map (Component.shown R)) ↔
    ∀ c ∈ named components, ∀ d ∈ named components, c.key R = d.key R →
      Listed R components (c.key R) → c.voice R = d.voice R := by
  have hfilter := forall_perm_filter_iff components (fun c => decide (c.name ≠ []))
    (P := fun cs => ((sortBy (rank ∘ Component.key R) (filed (Component.key R) (Component.key R)
      (fun c seen => seen.getD c) cs)).take maxComponents).map (Component.shown R) =
        (kept R components).map (Component.shown R))
  refine hfilter.trans ?_
  rw [show components.filter (fun c => decide (c.name ≠ [])) = named components from rfl]
  unfold kept dedupe
  rw [filed_perm_iff rank_injective keyed_setdefault firstSpeaks_setdefault]
  simp only [← keys_kept, mem_keys_kept]

theorem keys_kept_perm (h : components.Perm cs) :
    (kept R cs).map (Component.key R) = (kept R components).map (Component.key R) := by
  have hkeys := keys_filed_perm (keyed_setdefault (R := R)) (h.filter fun c => c.name ≠ [])
  rw [keys_kept, keys_kept]
  exact congrArg _ (sortBy_perm_eq (keyInj_of_injective rank_injective _) hkeys).symm

theorem length_dedupe_perm (h : components.Perm cs) :
    (dedupe R cs).length = (dedupe R components).length := by
  have hkeys := keys_filed_perm (keyed_setdefault (R := R)) (h.filter fun c => c.name ≠ [])
  have hlength := hkeys.length_eq
  rw [length_map, length_map] at hlength
  rw [dedupe, dedupe, (sortBy_perm _ _).length_eq, (sortBy_perm _ _).length_eq]
  exact hlength.symm

theorem refs_congr (hkeys : comps'.map (Component.key R) = comps.map (Component.key R))
    (hshown : comps'.map (Component.shown R) = comps.map (Component.shown R)) :
    refs R comps' = refs R comps := by
  have hfind : ∀ (comps : List Component) (k : Key), refs R comps k =
      (((comps.map (Component.key R)).zip (comps.map (Component.shown R))).find?
        fun p => p.1 = k).map fun p => p.2.purl := by
    intro comps k
    rw [zip_map', find?_map, Option.map_map]
    rfl
  funext k
  rw [hfind, hfind, hkeys, hshown]

/-! ### Vulnerabilities -/

variable (R comps) in
theorem gathered_addTo (v : Vulnerability) (vs : List Vulnerability) :
    ∃ e, gathered (fun v => Vulnerability.addTo R v comps) (v :: vs) = some e ∧
      e.rating = v.rating R ∧ e.description = nonEmpty (v.description.take 1000) ∧
        e.affects.head? = some (v.ref R comps) := by
  induction vs using reverseRecOn with
  | nil => exact ⟨_, rfl, rfl, rfl, rfl⟩
  | append_singleton vs w ih =>
    obtain ⟨e, he, hrating, hdescription, href⟩ := ih
    refine ⟨w.addTo R comps (some e), ?_, hrating, hdescription, ?_⟩
    · rw [← cons_append, gathered, foldl_append, ← gathered, he]
      rfl
    · unfold Vulnerability.addTo
      dsimp only [Option.getD_some]
      split_ifs with hmem
      · exact href
      · rw [head?_append, href]
        rfl

theorem gathered_addTo_of_voice {v : Vulnerability} : ∀ {vs : List Vulnerability}, vs ≠ [] →
    (∀ w ∈ vs, w.vid R = v.vid R ∧ w.voice R comps = v.voice R comps) →
      gathered (fun v => Vulnerability.addTo R v comps) vs =
        some ⟨v.vid R, v.rating R, [v.ref R comps], nonEmpty (v.description.take 1000)⟩ := by
  intro vs
  induction vs using reverseRecOn with
  | nil => exact fun h => absurd rfl h
  | append_singleton vs w ih =>
    intro _ hvs
    obtain ⟨hvid, hvoice⟩ := hvs w (by simp)
    obtain ⟨hrating, hrest⟩ := Prod.mk.inj hvoice
    obtain ⟨hdescription, href⟩ := Prod.mk.inj hrest
    rw [gathered, foldl_append, ← gathered]
    by_cases hnil : vs = []
    · subst hnil
      simp [gathered, Vulnerability.addTo, Vulnerability.newEntry, hvid, hrating, hdescription,
        href]
    · rw [ih hnil fun u hu => hvs u (by simp [hu])]
      simp [Vulnerability.addTo, href]

theorem firstSpeaks_addTo : FirstSpeaks (Vulnerability.vid R)
    (fun v => Vulnerability.addTo R v comps) id (Vulnerability.voice R comps) where
  tells v w vs ws _ _ h := by
    obtain ⟨e, he, hrating, hdescription, href⟩ := gathered_addTo R comps v vs
    obtain ⟨e', he', hrating', hdescription', href'⟩ :=
      gathered_addTo R comps w ws
    rw [he, he', Option.map_some, Option.map_some, Option.some.injEq, id, id] at h
    rw [h] at hrating hdescription href
    rw [Vulnerability.voice, Vulnerability.voice, ← hrating, ← hrating', ← hdescription,
      ← hdescription', Option.some.inj (href.symm.trans href')]
  same v w vs ws hvs hws := by
    have hall : ∀ u ∈ v :: vs, u.vid R = v.vid R ∧ u.voice R comps = v.voice R comps := by
      intro u hu
      rcases mem_cons.mp hu with rfl | hu
      · exact ⟨rfl, rfl⟩
      · exact hvs u hu
    rw [gathered_addTo_of_voice (cons_ne_nil _ _) hall,
      gathered_addTo_of_voice (cons_ne_nil _ _) hws]

/-- **The vulnerabilities of the document** do not depend on their order exactly if those of one
advisory say the same. -/
theorem vulnerabilities_perm_iff : (∀ vs, vulnerabilities.Perm vs →
      sortBy VulnerabilityEntry.id (byId R comps vs) =
        sortBy VulnerabilityEntry.id (byId R comps vulnerabilities)) ↔
    ∀ v ∈ vulnerabilities, ∀ w ∈ vulnerabilities, v.vid R ≠ [] → v.vid R = w.vid R →
      v.voice R comps = w.voice R comps := by
  have hkeyed : Keyed (Vulnerability.vid R) VulnerabilityEntry.id fun v => v.addTo R comps :=
    keyed_addTo
  have hfilter := forall_perm_filter_iff vulnerabilities
    (fun v => decide (v.vid R ≠ []))
    (P := fun vs => sortBy VulnerabilityEntry.id (filed (Vulnerability.vid R)
      VulnerabilityEntry.id (fun v => v.addTo R comps) vs) =
        sortBy VulnerabilityEntry.id (byId R comps vulnerabilities))
  have hid : Function.Injective (id : Str → Str) := Function.injective_id
  have hmain := filed_perm_iff_of_all hid hkeyed firstSpeaks_addTo
    (vulnerabilities.filter fun v => v.vid R ≠ [])
  simp only [map_id] at hmain
  refine hfilter.trans (hmain.trans ⟨fun h v hv w hw hne hvw => ?_, fun h v hv w hw hvw => ?_⟩)
  · exact h v (mem_filter.mpr ⟨hv, by simpa using hne⟩) w
      (mem_filter.mpr ⟨hw, by simpa [← hvw] using hne⟩) hvw
  · obtain ⟨hv, hne⟩ := mem_filter.mp hv
    exact h v hv w (mem_filter.mp hw).1 (by simpa using hne) hvw

theorem byId_congr (h : refs R comps' = refs R comps) (vs : List Vulnerability) :
    byId R comps' vs = byId R comps vs := by
  unfold byId Vulnerability.addTo Vulnerability.ref
  rw [h]

/-- Where the components of a key say the same, a vulnerability refers to one thing. -/
theorem refers_iff (hsame : ∀ c ∈ named components, ∀ d ∈ named components, c.key R = d.key R →
    Listed R components (c.key R) → c.voice R = d.voice R) {v : Vulnerability} {ref : Str} :
    Refers R components v ref ↔ v.ref R (kept R components) = ref := by
  by_cases hlisted : Listed R components (v.key R)
  · obtain ⟨c, hc, hkey⟩ := mem_map.mp (mem_keys_kept.mpr hlisted)
    have href : v.ref R (kept R components) = c.purl R := by
      rw [Vulnerability.ref, ← hkey, refs_of_mem nodup_keys_kept hc]
      rfl
    have hnamed := (of_rowOf (mem_kept_iff.mp hc).1).1
    rw [href]
    constructor
    · rintro (⟨d, hd, hdkey, hdlisted, rfl⟩ | ⟨hnot, -⟩)
      · exact (Prod.mk.inj (Prod.mk.inj
          (hsame d hd c hnamed (hdkey.trans hkey.symm) hdlisted)).2).2.symm
      · exact absurd hlisted hnot
    · rintro rfl
      exact Or.inl ⟨c, hnamed, hkey, hkey ▸ hlisted, rfl⟩
  · have href : v.ref R (kept R components) = v.ownRef R := by
      rw [Vulnerability.ref]
      rcases hrefs : refs R (kept R components) (v.key R) with _ | r
      · rfl
      · obtain ⟨c, hc, hkey, -⟩ := (refs_eq_some_iff nodup_keys_kept).mp hrefs
        exact absurd (hkey ▸ (mem_kept_iff.mp hc).2) hlisted
    rw [href]
    constructor
    · rintro (⟨d, -, hdkey, hdlisted, -⟩ | ⟨-, rfl⟩)
      · exact absurd (hdkey ▸ hdlisted) hlisted
      · rfl
    · rintro rfl
      exact Or.inr ⟨hlisted, rfl⟩

theorem unanimous_iff : Unanimous R components vulnerabilities ↔
    (∀ c ∈ named components, ∀ d ∈ named components, c.key R = d.key R →
      Listed R components (c.key R) → c.voice R = d.voice R) ∧
    ∀ v ∈ vulnerabilities, ∀ w ∈ vulnerabilities, v.vid R ≠ [] → v.vid R = w.vid R →
      v.voice R (kept R components) = w.voice R (kept R components) := by
  have hcomponent : ∀ c d : Component, c.voice R = d.voice R ↔
      c.name = d.name ∧ c.source = d.source ∧ c.purl R = d.purl R := by
    intro c d
    rw [Component.voice, Component.voice, Prod.mk.injEq, Prod.mk.injEq]
  constructor
  · rintro ⟨hc, hv⟩
    have hsame : ∀ c ∈ named components, ∀ d ∈ named components, c.key R = d.key R →
        Listed R components (c.key R) → c.voice R = d.voice R :=
      fun c hmem d hd hkey hlisted => (hcomponent c d).mpr (hc c hmem d hd hkey hlisted)
    refine ⟨hsame, fun v hmem w hw hne hvid => ?_⟩
    obtain ⟨hrating, hdescription, href⟩ := hv v hmem w hw hne hvid
    rw [Vulnerability.voice, Vulnerability.voice, hrating, hdescription,
      href _ _ ((refers_iff hsame).mpr rfl) ((refers_iff hsame).mpr rfl)]
  · rintro ⟨hsame, hv⟩
    refine ⟨fun c hmem d hd hkey hlisted => (hcomponent c d).mp (hsame c hmem d hd hkey hlisted),
      fun v hmem w hw hne hvid => ?_⟩
    obtain ⟨hrating, hrest⟩ := Prod.mk.inj (hv v hmem w hw hne hvid)
    obtain ⟨hdescription, href⟩ := Prod.mk.inj hrest
    refine ⟨hrating, nonEmpty_injective hdescription, fun ref ref' h h' => ?_⟩
    rw [← (refers_iff hsame).mp h, ← (refers_iff hsame).mp h', href]

/-! ### The document -/

variable (R components vulnerabilities) in
/-- **Two bills of one inventory are the same document**, in whatever order the inventory and the
vulnerabilities are given, exactly if these say one thing of each key and of each advisory. -/
theorem document_perm_iff (subjectName subjectKind : Str) :
    (∀ cs vs, components.Perm cs → vulnerabilities.Perm vs →
      (buildSbom R cs vs subjectName subjectKind).document =
        (buildSbom R components vulnerabilities subjectName subjectKind).document) ↔
      Unanimous R components vulnerabilities := by
  rw [unanimous_iff, ← components_perm_iff, ← vulnerabilities_perm_iff]
  constructor
  · intro h
    refine ⟨fun cs hcs => ?_, fun vs hvs => ?_⟩
    · have hcomponents := congrArg Document.components (h cs _ hcs (Perm.refl _))
      rw [← map_entry_kept, ← map_entry_kept]
      exact hcomponents
    · exact congrArg Document.vulnerabilities (h _ vs (Perm.refl _) hvs)
  · rintro ⟨hcomponents, hvulnerabilities⟩ cs vs hcs hvs
    have hrefs := refs_congr (keys_kept_perm hcs) (hcomponents cs hcs)
    unfold buildSbom
    simp only [Document.mk.injEq, true_and]
    refine ⟨?_, ?_, ?_⟩
    · rw [length_dedupe_perm hcs]
    · rw [map_entry_kept, map_entry_kept]
      exact hcomponents cs hcs
    · rw [byId_congr hrefs]
      exact hvulnerabilities vs hvs

/-- Two spellings of one package: the bill lists the first one. -/
theorem flask_twice : ¬∀ (components cs : List Component) (vulnerabilities vs : List Vulnerability),
    components.Perm cs → vulnerabilities.Perm vs →
      (buildSbom Runtime.ascii cs vs [] []).document =
        (buildSbom Runtime.ascii components vulnerabilities [] []).document := by
  intro h
  have hsame := h [⟨"Flask", "2.0", "pypi", []⟩,
      ⟨"flask", "2.0", "pypi", []⟩]
    [⟨"flask", "2.0", "pypi", []⟩,
      ⟨"Flask", "2.0", "pypi", []⟩] [] []
    (Perm.swap _ _ _) (Perm.refl _)
  revert hsame
  decide

end Guardian.Sbom

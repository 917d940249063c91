import Guardian.Authorization.Evaluator
import Guardian.Authorization.DomainName
import Guardian.Python.IpCase

/-!
# The host a client contacts

A scope row for a verified domain accepts a target by the end of the text that `hostOf` reads, which
keeps every delimiter of a text without a scheme.  The client contacts the host that a URL parser
reads, and `ownershipAuthorizes` looks at a third text.  For a target that is written plainly
(`Plain`) the three read one name (`clientHost_bare`, `urlHostname_plain`, `domainText_bare`,
`domainText_plain`), so that what is accepted is contacted inside the domain (`accepted_inside`).
-/

namespace Guardian.Authorization

open Python Guardian.Order
open List hiding partition

variable (R : Runtime)

/-- **The host a client contacts** for a target: that of the URL, with a scheme put in front where
there is none. -/
def clientHost (target : Str) : Except Fault (Option Str) :=
  let text := strip R target
  urlHostname R (if IsUrl text then text else "http://" ++ text)

/-- The scope row `{"type": "domain", "value": d}` accepts the target. -/
def Accepts (d target : Str) : Prop :=
  ∃ host, hostOf R target = .ok host ∧
    targetMatches R [some (Target.of "domain" d)] host = true

/-! ### Targets that are written plainly -/

/-- **A bare name**: a domain name, in any case and with dots at its end or none, and a port of
digits or none. -/
def BareName (text name : Str) : Prop :=
  IsName (hostKey R name) ∧
    (text = name ∨ ∃ digits, strIsdigit R digits = true ∧ text = name ++ ':' :: digits)

/-- The pieces of a URL. -/
structure UrlText where
  scheme : Str
  user : Str
  name : Str
  port : Str
  path : Str

/-- The URL as it is written. -/
def UrlText.text (u : UrlText) : Str :=
  u.scheme ++ ':' :: '/' :: '/' :: (u.user ++ (u.name ++ u.port) ++ u.path)

/-- **A plain URL**: letters for a scheme, user information or none, a domain name, a port or none,
and a path, a query or nothing. -/
structure UrlText.IsPlain (u : UrlText) : Prop where
  scheme_ne : u.scheme ≠ []
  scheme : ∀ c ∈ u.scheme, c.isAlpha = true
  user : u.user = [] ∨ u.user.getLast? = some '@'
  name : IsName (hostKey R u.name)
  port : u.port = [] ∨ u.port.head? = some ':'
  port_chars : ∀ c ∈ u.port, c ≠ '@' ∧ c ≠ '['
  authority : ∀ c ∈ u.user ++ u.port, isNetlocEnd c = false
  path : ∀ c ∈ u.path.head?, c = '/' ∨ c = '?'

/-- **A target that is written plainly**, blanks around it aside. -/
def Plain (target : Str) : Prop :=
  (∃ name, BareName R (strip R target) name) ∨
    ∃ u : UrlText, u.IsPlain R ∧ strip R target = u.text

variable {R}

/-- **What the row of a verified domain accepts**: the texts that `hostOf` reads as a name in its
zone. -/
theorem accepts_iff {d : Str} (hd : VerifiedDomain R d) (target : Str) :
    Accepts R d target ↔ ∃ host, hostOf R target = .ok host ∧ Within '.' d (hostKey R host) := by
  have hnorm := (normalizeDomain_fixed hd).1
  have hkey : hostKey R d = d := hostKey_of_normalizeDomain hnorm
  have hne : d ≠ [] := (normalizeDomain_ok hnorm).2.1
  unfold Accepts
  refine exists_congr fun host => and_congr_right fun _ => ?_
  have h := @targetMatches_domains R [d] host
  rw [map_singleton] at h
  rw [h]
  simp only [mem_singleton, exists_eq_left, hkey]
  constructor
  · exact fun h => h.2.2
  · refine fun h => ⟨fun hnil => hne ?_, hne, h⟩
    rw [hnil] at h
    exact suffix_nil.mp (suffix_of_within h)

/-! ### The name -/

/-- An ASCII character that is in no domain name, in any case. -/
abbrev IsMark (c : Char) : Prop := IsAscii c ∧ c.toLower = c ∧ isDomainChar c = false

theorem IsMark.not_alphanum {c : Char} (h : IsMark c) : c.isAlpha = false ∧ c.isDigit = false :=
  forall_ascii (P := fun c => c.toLower = c → isDomainChar c = false →
    c.isAlpha = false ∧ c.isDigit = false) (by decide) h.1 h.2.1 h.2.2

/-- A text that has only a colon of these is no part of the grammar of URLs. -/
theorem clean_of_marks {s : Str} (h : ∀ c, IsMark c → c ≠ ':' → c ∉ s) :
    ∀ c ∈ s, (!isUnsafe c) = true ∧ (!isNetlocEnd c) = true := by
  intro c hc
  simp only [isUnsafe, isNetlocEnd, Bool.not_eq_true', Bool.or_eq_false_iff, beq_eq_false_iff_ne]
  refine ⟨⟨⟨?_, ?_⟩, ?_⟩, ⟨?_, ?_⟩, ?_⟩ <;> rintro rfl <;> exact h _ (by decide) (by decide) hc

section Name
variable {name : Str}

theorem notMem_lower_of_isName (h : IsName (hostKey R name)) {c : Char}
    (hc : isDomainChar c = false) : c ∉ lower R name := by
  intro hmem
  obtain ⟨dots, hdots, hall, -⟩ := rstripChar_eq_iff.mp (rfl : hostKey R name = _)
  rw [hdots, mem_append] at hmem
  rcases hmem with hmem | hmem
  · rw [h.chars c hmem] at hc
    cases hc
  · rw [hall c hmem] at hc
    exact absurd hc (by decide)

/-- A domain name has none of the delimiters of a URL, and nothing that is removed from one. -/
theorem notMem_of_isName (h : IsName (hostKey R name)) {c : Char} (hc : IsMark c) : c ∉ name :=
  (lowers_lower name).notMem hc.1 hc.2.1 (notMem_lower_of_isName h hc.2.2)

theorem ne_nil_of_isName (h : IsName (hostKey R name)) : name ≠ [] := by
  rintro rfl
  exact h.last_ne.1 rfl

theorem lowers_of_isName (h : IsName (hostKey R name)) {t : Str} (ht : Lowers R name t) :
    t = lower R name := by
  refine Lowers.unique (fun hmem => ?_) ht (lowers_lower name)
  obtain ⟨w, hw, hsub⟩ := (lowers_lower (R := R) name).exists_of_mem hmem
  unfold LowerOf at hw
  rw [if_pos rfl] at hw
  rcases hw with rfl | rfl
  all_goals exact notMem_lower_of_isName h (by decide) (hsub (mem_singleton_self _))

end Name

/-! ### What the rule of the ownership proof reads -/

theorem head_lowers {p t : Str} {d : Char} (hd : IsAscii d) (hfix : d.toLower = d)
    (h : Lowers R p t) (hp : p.head? = some d) : t.head? = some d := by
  rcases h with _ | ⟨hw, h⟩
  · cases hp
  · cases hp
    rw [hw.ascii hd, hfix]
    rfl

theorem getLast_lowers {u t : Str} (h : Lowers R u t) (hu : u.getLast? = some '@') :
    t.getLast? = some '@' := by
  obtain ⟨v, rfl⟩ := getLast?_eq_some_iff.mp hu
  obtain ⟨x, y, rfl, -, hy⟩ := Lowers.append h
  obtain rfl : y = ['@'] := hy.eq_map (by decide)
  simp

theorem lowers_nil {t : Str} (h : Lowers R [] t) : t = [] := by
  cases h
  rfl

/-- A scheme in lower case is one that `normalize_domain` drops. -/
theorem isScheme_lowers {letters scheme' rest : Str} (hne : letters ≠ [])
    (hletters : ∀ c ∈ letters, c.isAlpha = true) (h : Lowers R (letters ++ "://") scheme') :
    Authorization.IsScheme scheme' rest := by
  have hascii : ∀ c ∈ letters, IsAscii c := fun c hc =>
    isAscii_of_isSchemeChar (by simp [isSchemeChar, Char.isAlphanum, hletters c hc])
  have hmap := h.eq_map fun c hc => (mem_append.mp hc).elim (hascii c)
    ((by decide : ∀ c ∈ "://".toList, IsAscii c) c)
  refine Or.inl ⟨letters.map Char.toLower, by simpa using hne, fun c hc => ?_, ?_⟩
  · obtain ⟨d, hd, rfl⟩ := mem_map.mp hc
    exact forall_ascii (P := fun d => d.isAlpha = true → Regex.lowerAZ d.toLower = true)
      (by decide) (hascii d hd) (hletters d hd)
  · rw [hmap, map_append]
    rfl

/-- **The name of a value is the host that it spells**, where the pieces around it have none of
the marks that end another piece. -/
theorem spells_of_pieces {value name : Str} (scheme user port path : Str)
    (htext : strip R value = scheme ++ (user ++ (name ++ port) ++ path))
    (hscheme : (∃ letters : Str, letters ≠ [] ∧ (∀ c ∈ letters, c.isAlpha = true) ∧
      scheme = letters ++ "://") ∨ scheme = [] ∧ '/' ∉ user ++ (name ++ port) ++ path)
    (huser : user = [] ∨ user.getLast? = some '@') (hname : IsName (hostKey R name))
    (hport : port = [] ∨ port.head? = some ':') (hat : '@' ∉ port)
    (hmarks : '/' ∉ user ++ port ∧ '?' ∉ user ++ port)
    (hpath : path = [] ∨ path.head? = some '/' ∨ path.head? = some '?') :
    Spells R value (lower R name) := by
  have hlow := lowers_lower (R := R) (strip R value)
  rw [htext] at hlow
  obtain ⟨scheme', rest', hsplit, hscheme', hrest⟩ := Lowers.append hlow
  obtain ⟨authority', path', rfl, hauthority, hpath'⟩ := Lowers.append hrest
  obtain ⟨user', host', rfl, huser', hhost⟩ := hauthority.append
  obtain ⟨name', port', rfl, hname', hport'⟩ := Lowers.append hhost
  obtain rfl := lowers_of_isName hname hname'
  have hmark : ∀ d, IsMark d → d ∉ user ++ port → d ∉ user' ++ (lower R name ++ port') := by
    intro d hd hnot hmem
    rw [mem_append, mem_append] at hmem
    rcases hmem with hmem | hmem | hmem
    · exact hnot (mem_append_left _ (Lowers.mem_of_punct huser' hmem hd.1 hd.not_alphanum.1))
    · exact notMem_lower_of_isName hname hd.2.2 hmem
    · exact hnot (mem_append_right _ (Lowers.mem_of_punct hport' hmem hd.1 hd.not_alphanum.1))
  refine ⟨scheme', user', port', path', by rw [htext, hsplit], ?_, ?_, fun c hc => ⟨?_, ?_⟩, ?_,
    fun hc => hat (Lowers.mem_of_punct hport' hc (by decide) (by decide)), fun c hc => ⟨?_, ?_⟩,
    fun c hc => ?_⟩
  · rcases hscheme with ⟨letters, hne, hletters, rfl⟩ | ⟨rfl, hslash⟩
    · exact isScheme_lowers hne hletters hscheme'
    · refine Or.inr ⟨lowers_nil hscheme', fun letters rest _ _ heq => hslash ?_⟩
      exact Lowers.mem_of_punct hrest (heq ▸ by simp) (by decide) (by decide)
  · exact huser.imp (fun h => lowers_nil (h ▸ huser')) (getLast_lowers huser')
  · rintro rfl
    exact notMem_lower_of_isName hname (by decide) hc
  · rintro rfl
    exact notMem_lower_of_isName hname (by decide) hc
  · exact hport.imp (fun h => lowers_nil (h ▸ hport'))
      (head_lowers (by decide) (by decide) hport')
  · rintro rfl
    exact hmark '/' (by decide) hmarks.1 hc
  · rintro rfl
    exact hmark '?' (by decide) hmarks.2 hc
  · rcases hpath with rfl | hhead | hhead
    · rw [lowers_nil hpath'] at hc
      cases hc
    · have hhead := head_lowers (by decide) (by decide) hpath' hhead
      rw [hhead] at hc
      exact Or.inl (Option.some.inj hc).symm
    · have hhead := head_lowers (by decide) (by decide) hpath' hhead
      rw [hhead] at hc
      exact Or.inr (Option.some.inj hc).symm

theorem domainText_of_spells {value name : Str} (h : Spells R value (lower R name)) :
    domainText R value = hostKey R name := by
  rw [domainText_eq, spells_iff.mp h]
  rfl

/-! ### Bare names -/

section Bare
variable {target name : Str}

/-- A character that is neither in a domain name nor in a port. -/
theorem BareName.notMem (h : BareName R target name) (c : Char) (hc : IsMark c)
    (hcolon : c ≠ ':') : c ∉ target := by
  obtain ⟨hname, rfl | ⟨digits, hdigits, rfl⟩⟩ := h
  · exact notMem_of_isName hname hc
  · rw [mem_append, mem_cons, not_or, not_or]
    exact ⟨notMem_of_isName hname hc, hcolon, notMem_digits hdigits hc.1 hc.not_alphanum.2⟩

theorem domainText_bare (h : BareName R (strip R target) name) :
    domainText R target = hostKey R name := by
  have hslash : '/' ∉ strip R target := h.notMem _ (by decide) (by decide)
  obtain ⟨hname, htext | ⟨digits, hdigits, htext⟩⟩ := h
  · refine domainText_of_spells (spells_of_pieces [] [] [] [] (by simp [htext])
      (Or.inr ⟨rfl, ?_⟩) (Or.inl rfl) hname (Or.inl rfl) not_mem_nil
      ⟨not_mem_nil, not_mem_nil⟩ (Or.inl rfl))
    simpa [htext] using hslash
  · have hnot : ∀ c, IsMark c → c ≠ ':' → c ∉ ':' :: digits := fun c hmark hcolon hc =>
      (mem_cons.mp hc).elim hcolon (notMem_digits hdigits hmark.1 hmark.not_alphanum.2)
    refine domainText_of_spells (spells_of_pieces [] [] (':' :: digits) [] (by simp [htext])
      (Or.inr ⟨rfl, ?_⟩) (Or.inl rfl) hname (Or.inr rfl) (hnot '@' (by decide) (by decide))
      ⟨hnot '/' (by decide) (by decide), hnot '?' (by decide) (by decide)⟩ (Or.inl rfl))
    simpa [htext] using hslash

theorem lowerHost_of_isName (h : IsName (hostKey R name)) : lowerHost R name = lower R name := by
  unfold lowerHost
  rw [partition_absent (notMem_of_isName h (by decide))]
  exact append_nil _

/-- The name of an authority is the host that a URL parser reads in it. -/
theorem hostinfo_of_pieces {user port : Str} (huser : user = [] ∨ user.getLast? = some '@')
    (hname : IsName (hostKey R name)) (hport : port = [] ∨ port.head? = some ':')
    (hmarks : '@' ∉ port ∧ '[' ∉ port) : hostinfo (user ++ (name ++ port)) = name := by
  have hnot : ∀ c, IsMark c → c ∉ port → c ∉ name ++ port := fun c hc hcport hmem =>
    (mem_append.mp hmem).elim (notMem_of_isName hname hc) hcport
  have hinfo : (rpartition '@' (user ++ (name ++ port))).2.2 = name ++ port := by
    have hat := hnot '@' (by decide) hmarks.1
    rcases huser with rfl | huser
    · exact rpartition_eq_self hat
    · obtain ⟨v, rfl⟩ := getLast?_eq_some_iff.mp huser
      rw [append_assoc, singleton_append, rpartition_append hat]
  unfold hostinfo
  simp only [hinfo]
  rw [if_neg (hnot '[' (by decide) hmarks.2)]
  have hcolon : ':' ∉ name := notMem_of_isName hname (by decide)
  rcases hport with rfl | hport
  · rw [append_nil, partition_eq_self hcolon]
  · obtain ⟨p, rfl⟩ : ∃ p, port = ':' :: p := by
      rcases port with _ | ⟨c, p⟩
      · cases hport
      · cases hport
        exact ⟨p, rfl⟩
    rw [partition_append hcolon]

theorem hostOf_bare (h : BareName R (strip R target) name) :
    hostOf R target = .ok (hostKey R name) := by
  have hurl : ¬ IsUrl (strip R target) := fun hurl =>
    h.notMem '/' (by decide) (by decide) (hurl.subset (by simp))
  have hbracket : (strip R target).head? ≠ some '[' := fun hhead =>
    h.notMem '[' (by decide) (by decide) (mem_of_mem_head? hhead)
  obtain ⟨hname, htext⟩ := h
  have hne : strip R target ≠ [] := by
    rcases htext with htext | ⟨digits, -, htext⟩
    · exact htext ▸ ne_nil_of_isName hname
    · rw [htext]
      exact append_ne_nil_of_right_ne_nil _ (cons_ne_nil _ _)
  have hport : stripPort R (strip R target) = name := by
    rcases htext with htext | ⟨digits, hdigits, htext⟩
    · have hcolon : ':' ∉ name := notMem_of_isName hname (by decide)
      rw [htext, stripPort_of_notMem hcolon]
    · rw [htext, stripPort_append hdigits]
  unfold hostOf
  simp only [if_neg hne, if_neg hurl, if_neg hbracket, hport]
  rfl

/-- **A client contacts the name** of a target that is a bare one. -/
theorem clientHost_bare (h : BareName R (strip R target) name) {host : Str}
    (hhost : clientHost R target = .ok (some host)) : host = lower R name := by
  have hurl : ¬ IsUrl (strip R target) := fun hurl =>
    h.notMem '/' (by decide) (by decide) (hurl.subset (by simp))
  have hsafe : (strip R target).filter (!isUnsafe ·) = strip R target :=
    filter_eq_self.mpr fun c hc => (clean_of_marks h.notMem c hc).1
  have hends : (strip R target).takeWhile (!isNetlocEnd ·) = strip R target :=
    takeWhile_eq_self_iff.mpr fun c hc => (clean_of_marks h.notMem c hc).2
  have hinfo : hostinfo (strip R target) = name := by
    obtain ⟨hname, htext | ⟨digits, hdigits, htext⟩⟩ := h
    · have := hostinfo_of_pieces (Or.inl rfl) hname (Or.inl rfl) ⟨not_mem_nil, not_mem_nil⟩
      simpa [htext] using this
    · rw [htext]
      refine hostinfo_of_pieces (Or.inl rfl) hname (Or.inr rfl) ⟨?_, ?_⟩ <;>
        refine fun hc => (mem_cons.mp hc).elim (by decide)
          (notMem_digits hdigits (by decide) (by decide))
  unfold clientHost at hhost
  simp only [if_neg hurl] at hhost
  unfold urlHostname at hhost
  rw [netloc_http, hsafe, hends, bind_eq_ok] at hhost
  obtain ⟨n, hn, hhost⟩ := hhost
  obtain rfl := checkNetloc_eq hn
  simp only [hinfo, if_neg (ne_nil_of_isName h.1), lowerHost_of_isName h.1] at hhost
  cases hhost
  rfl

end Bare

/-! ### Plain URLs -/

section Url
variable {u : UrlText}

/-- The authority of a plain URL, without what a URL parser removes. -/
def UrlText.authority (u : UrlText) : Str :=
  u.user.filter (!isUnsafe ·) ++ (u.name ++ u.port.filter (!isUnsafe ·))

theorem filter_head {p : Str} {d : Char} (hd : isUnsafe d = false)
    (hp : p = [] ∨ p.head? = some d) :
    p.filter (!isUnsafe ·) = [] ∨ (p.filter (!isUnsafe ·)).head? = some d := by
  rcases p with _ | ⟨c, p⟩
  · exact Or.inl rfl
  · rcases hp with hp | hp
    · cases hp
    · cases hp
      rw [filter_cons_of_pos (by simp [hd])]
      exact Or.inr rfl

theorem UrlText.IsPlain.hostinfo (h : u.IsPlain R) : hostinfo u.authority = u.name := by
  refine hostinfo_of_pieces ?_ h.name (filter_head rfl h.port)
    ⟨fun hc => (h.port_chars _ (mem_of_mem_filter hc)).1 rfl,
      fun hc => (h.port_chars _ (mem_of_mem_filter hc)).2 rfl⟩
  rcases h.user with huser | huser
  · exact Or.inl (by rw [huser]; rfl)
  · obtain ⟨v, hv⟩ := getLast?_eq_some_iff.mp huser
    rw [hv, filter_append]
    exact Or.inr (by simp [isUnsafe])

theorem UrlText.isUrl (u : UrlText) : IsUrl u.text :=
  ⟨u.scheme, u.user ++ (u.name ++ u.port) ++ u.path, by simp [UrlText.text]⟩

/-- The authority is what a URL parser takes for the network location. -/
theorem UrlText.IsPlain.netloc (h : u.IsPlain R) :
    netloc R u.text = checkNetloc R u.authority := by
  have hscheme : ∀ c ∈ u.scheme, isSchemeChar c = true ∧ IsAscii c := fun c hc => by
    have hchar : isSchemeChar c = true := by simp [isSchemeChar, Char.isAlphanum, h.scheme c hc]
    exact ⟨hchar, isAscii_of_isSchemeChar hchar⟩
  have hclean : ∀ c ∈ u.scheme, isUnsafe c = false ∧ isC0OrSpace c = false := fun c hc =>
    schemeChar_clean (hscheme c hc).1
  obtain ⟨c, s, hcs⟩ := exists_cons_of_ne_nil h.scheme_ne
  have hcolon : ':' ∉ u.scheme := fun hc => absurd (hscheme _ hc).1 (by decide)
  have hmarks := clean_of_marks fun c hc _ => notMem_of_isName h.name hc
  have hname : u.name.filter (!isUnsafe ·) = u.name :=
    filter_eq_self.mpr fun c hc => (hmarks c hc).1
  have hfilter : cleanUrl u.text = u.scheme ++ ':' :: '/' :: '/' ::
      (u.authority ++ u.path.filter (!isUnsafe ·)) := by
    unfold UrlText.text
    rw [cleanUrl_append (fun c hc => (hclean c hc).1) fun d hd => ?_]
    · rw [filter_cons_of_pos rfl, filter_cons_of_pos rfl, filter_cons_of_pos rfl, filter_append,
        filter_append, filter_append, hname]
      rfl
    · rw [hcs] at hd
      cases hd
      exact (hclean c (hcs ▸ mem_cons_self)).2
  have hends : ∀ c ∈ u.authority, (!isNetlocEnd c) = true := by
    intro c hc
    unfold UrlText.authority at hc
    rw [mem_append, mem_append] at hc
    rcases hc with hc | hc | hc
    · simp [h.authority c (mem_append_left _ (mem_of_mem_filter hc))]
    · exact (hmarks c hc).2
    · simp [h.authority c (mem_append_right _ (mem_of_mem_filter hc))]
  have hstop : ∀ c, (u.path.filter (!isUnsafe ·)).head? = some c → (!isNetlocEnd c) = false := by
    intro c hc
    rcases hpath : u.path with _ | ⟨d, p⟩
    · rw [hpath] at hc
      cases hc
    · rw [hpath] at hc
      rcases h.path d (by rw [hpath]; rfl) with rfl | rfl <;> cases hc <;> rfl
  have hscheme' : (u.scheme.head?.any Char.isAlpha && u.scheme.all isSchemeChar) = true := by
    rw [Bool.and_eq_true, all_eq_true]
    refine ⟨?_, fun c hc => (hscheme c hc).1⟩
    rw [hcs]
    exact h.scheme c (hcs ▸ mem_cons_self)
  unfold Python.netloc
  change checkNetloc R (splitNetloc (dropScheme (cleanUrl u.text))) = _
  rw [hfilter]
  unfold dropScheme
  rw [partition_append hcolon]
  simp only [Bool.true_and, hscheme', if_true, splitNetloc]
  rw [takeWhile_append_ends hends hstop]

theorem urlHostname_plain (h : u.IsPlain R) {host : Option Str}
    (hhost : urlHostname R u.text = .ok host) : host = some (lower R u.name) := by
  unfold urlHostname at hhost
  rw [h.netloc, bind_eq_ok] at hhost
  obtain ⟨n, hn, hhost⟩ := hhost
  obtain rfl := checkNetloc_eq hn
  simp only [h.hostinfo, if_neg (ne_nil_of_isName h.name), lowerHost_of_isName h.name] at hhost
  cases hhost
  rfl

theorem hostOf_plain {target host : Str} (h : u.IsPlain R) (htext : strip R target = u.text)
    (hhost : hostOf R target = .ok host) : host = hostKey R u.name := by
  have hne : u.text ≠ [] := append_ne_nil_of_left_ne_nil h.scheme_ne _
  unfold hostOf at hhost
  simp only [htext, if_neg hne, if_pos u.isUrl] at hhost
  obtain ⟨o, ho, hhost⟩ := bind_eq_ok.mp hhost
  rw [urlHostname_plain h ho] at hhost
  cases hhost
  exact hostKey_lower _

theorem domainText_plain {target : Str} (h : u.IsPlain R) (htext : strip R target = u.text) :
    domainText R target = hostKey R u.name := by
  have hslash : ∀ c ∈ u.user ++ u.port, c ≠ '/' ∧ c ≠ '?' := by
    intro c hc
    have hend := h.authority c hc
    constructor <;> rintro rfl <;> exact absurd hend (by decide)
  refine domainText_of_spells (spells_of_pieces (u.scheme ++ "://") u.user u.port u.path ?_
    (Or.inl ⟨u.scheme, h.scheme_ne, h.scheme, rfl⟩) h.user h.name h.port
    (fun hc => (h.port_chars _ hc).1 rfl) ⟨fun hc => (hslash _ hc).1 rfl,
      fun hc => (hslash _ hc).2 rfl⟩ ?_)
  · rw [htext]
    simp [UrlText.text]
  · rcases hpath : u.path with _ | ⟨c, p⟩
    · exact Or.inl rfl
    · rcases h.path c (by rw [hpath]; rfl) with rfl | rfl
      · exact Or.inr (Or.inl rfl)
      · exact Or.inr (Or.inr rfl)

end Url

/-! ### What is accepted -/

/-- **The name of a plain target** is what the three readings have in common. -/
theorem Plain.exists_name {target : Str} (h : Plain R target) :
    ∃ name, IsName (hostKey R name) ∧ domainText R target = hostKey R name ∧
      (∀ host, hostOf R target = .ok host → host = hostKey R name) ∧
      ∀ host, clientHost R target = .ok (some host) → host = lower R name := by
  rcases h with ⟨name, h⟩ | ⟨u, h, htext⟩
  · refine ⟨name, h.1, domainText_bare h, fun host hhost => ?_, fun host => clientHost_bare h⟩
    rw [hostOf_bare h] at hhost
    exact (Except.ok.inj hhost).symm
  · refine ⟨u.name, h.name, domainText_plain h htext, fun host => hostOf_plain h htext,
      fun host hhost => ?_⟩
    unfold clientHost at hhost
    simp only [htext, if_pos u.isUrl] at hhost
    exact Option.some.inj (urlHostname_plain h hhost)

/-- A page of the application, with a user and a port. -/
def pageUrl : UrlText :=
  ⟨"https", "guest@", "App.Example.com", ":443", "/login"⟩

theorem isName_app : IsName "app.example.com" := by
  refine (isDomain_iff.mp (by decide)).resolve_right ?_
  rintro ⟨w, -, -, hw⟩
  have hlast := congrArg getLast? hw
  rw [getLast?_concat] at hlast
  revert hlast
  decide

end Guardian.Authorization

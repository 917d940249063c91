import Guardian.Authorization.Ownership

/-!
# Domain names

`normalize_domain` promises the canonical form of a domain, or to raise.  The pattern that looks at
the form ends with `$`, which lets a newline at the end of a text pass, and what stood behind the
newline in the value is cut off before: the newline is then a part of the form.
`normalizeDomain_canonical_iff` says when what is returned is canonical.
-/

namespace Guardian.Authorization

open Python
open List hiding partition

/-! ### The grammar -/

/-- **A label**: letters, digits and hyphens, and no hyphen at either end. -/
structure IsLabel (l : Str) : Prop where
  ne_nil : l ≠ []
  length_le : l.length ≤ 63
  chars : ∀ c ∈ l, isLabelChar c = true
  head : l.head? ≠ some '-'
  last : l.getLast? ≠ some '-'

/-- **A domain name**: labels with dots between them. -/
def IsName (t : Str) : Prop :=
  t.length ≤ 253 ∧ ∃ labels : List Str, 2 ≤ labels.length ∧ (∀ l ∈ labels, IsLabel l) ∧
    t = ['.'].intercalate labels

section Pattern
variable {k k' : Cursor}

theorem head?_any_eq_false {c : Char} {o : Option Char} :
    o.any (Regex.exact c) = false ↔ o ≠ some c := by
  cases o <;> simp [Regex.exact]

/-- The pattern of a label takes the labels. -/
theorem takes_labelRe : Regex.Takes labelRe IsLabel := by
  have hchars : Regex.Takes (.seq (.cls isLabelChar) (Regex.upTo (.cls isLabelChar) 62))
      fun w => w ≠ [] ∧ w.length ≤ 63 ∧ ∀ c ∈ w, isLabelChar c = true := by
    refine (Regex.takes_seq Regex.takes_cls (Regex.takes_upTo_cls 62)).congr fun w => ?_
    constructor
    · rintro ⟨-, v, ⟨c, hc, rfl⟩, ⟨hv, hall⟩, rfl⟩
      refine ⟨cons_ne_nil _ _, Nat.succ_le_succ hv, fun d hd => ?_⟩
      rcases mem_cons.mp hd with rfl | hd
      · exact hc
      · exact hall d hd
    · rintro ⟨hne, hlength, hall⟩
      obtain ⟨c, w, rfl⟩ := exists_cons_of_ne_nil hne
      exact ⟨[c], w, ⟨c, hall c mem_cons_self, rfl⟩,
        ⟨Nat.le_of_succ_le_succ hlength, fun d hd => hall d (mem_cons_of_mem c hd)⟩, rfl⟩
  intro k k'
  have hrun : k' ∈ Regex.run labelRe k ↔ k.rest.head? ≠ some '-' ∧
      k' ∈ Regex.run (.seq (.cls isLabelChar) (Regex.upTo (.cls isLabelChar) 62)) k ∧
        k'.before.head? ≠ some '-' := by
    unfold labelRe
    simp only [Regex.run, mem_flatMap]
    rw [← head?_any_eq_false, ← head?_any_eq_false]
    constructor
    · rintro ⟨k0, h0, k1, h1, k2, h2, h3⟩
      split_ifs at h0 with hahead
      · cases h0
      obtain rfl := mem_singleton.mp h0
      split_ifs at h3 with hbehind
      · cases h3
      obtain rfl := mem_singleton.mp h3
      exact ⟨by simpa using hahead, ⟨k1, h1, h2⟩, by simpa using hbehind⟩
    · rintro ⟨hahead, ⟨k1, h1, h2⟩, hbehind⟩
      refine ⟨k, ?_, k1, h1, k', h2, ?_⟩
      · rw [hahead]
        exact mem_singleton_self k
      · rw [hbehind]
        exact mem_singleton_self k'
  rw [hrun, hchars k k']
  have hends : ∀ w : Str, w ≠ [] → Regex.Moves k w k' →
      k.rest.head? = w.head? ∧ k'.before.head? = w.getLast? := by
    intro w hne hmoves
    refine ⟨?_, ?_⟩
    · obtain ⟨c, w, rfl⟩ := exists_cons_of_ne_nil hne
      rw [hmoves.rest]
      rfl
    · rw [hmoves.before, head?_append_of_ne_nil _ (by simpa using hne), head?_reverse]
  constructor
  · rintro ⟨hahead, ⟨w, ⟨hne, hlength, hall⟩, hmoves⟩, hbehind⟩
    obtain ⟨hhead, hlast⟩ := hends w hne hmoves
    exact ⟨w, ⟨hne, hlength, hall, hhead ▸ hahead, hlast ▸ hbehind⟩, hmoves⟩
  · rintro ⟨w, hw, hmoves⟩
    obtain ⟨hhead, hlast⟩ := hends w hw.ne_nil hmoves
    exact ⟨hhead ▸ hw.head, ⟨w, ⟨hw.ne_nil, hw.length_le, hw.chars⟩, hmoves⟩, hlast ▸ hw.last⟩

theorem intercalate_eq_flatten (l : Str) (ls : List Str) :
    ['.'].intercalate (l :: ls) = l ++ (ls.map ('.' :: ·)).flatten := by
  induction ls generalizing l with
  | nil => simp
  | cons m ls ih =>
    rw [intercalate_cons_cons, ih]
    simp

theorem exists_labels_iff {w : Str} :
    (∃ labels : List Str, 2 ≤ labels.length ∧ (∀ l ∈ labels, IsLabel l) ∧
        w = ['.'].intercalate labels) ↔
      ∃ l m, IsLabel l ∧ IsLabel m ∧ ∃ ls : List Str, (∀ x ∈ ls, IsLabel x) ∧
        w = l ++ ('.' :: m ++ (ls.map ('.' :: ·)).flatten) := by
  constructor
  · rintro ⟨labels, hlength, hlabels, rfl⟩
    rcases labels with _ | ⟨l, _ | ⟨m, ls⟩⟩
    · cases hlength
    · simp at hlength
    rw [forall_mem_cons, forall_mem_cons] at hlabels
    refine ⟨l, m, hlabels.1, hlabels.2.1, ls, hlabels.2.2, ?_⟩
    rw [intercalate_eq_flatten]
    rfl
  · rintro ⟨l, m, hl, hm, ls, hls, rfl⟩
    refine ⟨l :: m :: ls, by simp, ?_, ?_⟩
    · rw [forall_mem_cons, forall_mem_cons]
      exact ⟨hl, hm, hls⟩
    · rw [intercalate_eq_flatten]
      rfl

/-- The pattern without its end takes labels with dots between them. -/
theorem takes_labels :
    Regex.Takes (.seq labelRe (Regex.plus (.seq (.cls (Regex.exact '.')) labelRe)))
      fun w => ∃ labels : List Str, 2 ≤ labels.length ∧ (∀ l ∈ labels, IsLabel l) ∧
        w = ['.'].intercalate labels := by
  have hdotted : Regex.Takes (.seq (.cls (Regex.exact '.')) labelRe)
      fun w => ∃ l, IsLabel l ∧ w = '.' :: l := by
    refine (Regex.takes_seq Regex.takes_cls takes_labelRe).congr fun w => ?_
    constructor
    · rintro ⟨-, l, ⟨c, hc, rfl⟩, hl, rfl⟩
      obtain rfl : c = '.' := by simpa [Regex.exact] using hc
      exact ⟨l, hl, rfl⟩
    · rintro ⟨l, hl, rfl⟩
      exact ⟨['.'], l, ⟨'.', rfl, rfl⟩, hl, rfl⟩
  have hne : ∀ w : Str, (∃ l, IsLabel l ∧ w = '.' :: l) → w ≠ [] := by
    rintro w ⟨l, -, rfl⟩
    exact cons_ne_nil _ _
  have hstar := Regex.takes_star hdotted hne
  refine (Regex.takes_seq takes_labelRe (Regex.takes_seq hdotted hstar)).congr fun w => ?_
  rw [exists_labels_iff]
  constructor
  · rintro ⟨l, -, hl, ⟨-, -, ⟨m, hm, rfl⟩, ⟨ws, hws, rfl⟩, rfl⟩, rfl⟩
    refine ⟨l, m, hl, hm, ws.map List.tail, fun x hx => ?_, ?_⟩
    · obtain ⟨y, hy, rfl⟩ := mem_map.mp hx
      obtain ⟨n, hn, rfl⟩ := hws y hy
      exact hn
    · have hmap : (ws.map List.tail).map ('.' :: ·) = ws := by
        rw [map_map]
        refine (map_congr_left fun y hy => ?_).trans (map_id ws)
        obtain ⟨n, -, rfl⟩ := hws y hy
        rfl
      rw [hmap]
  · rintro ⟨l, m, hl, hm, ls, hls, rfl⟩
    refine ⟨l, _, hl, ⟨_, _, ⟨m, hm, rfl⟩, ⟨ls.map ('.' :: ·), fun x hx => ?_, rfl⟩, rfl⟩, rfl⟩
    obtain ⟨y, hy, rfl⟩ := mem_map.mp hx
    exact ⟨y, hls y hy, rfl⟩

/-- **What the pattern accepts**: labels with dots between them, and a newline at the end or
none. -/
theorem rematch_domainRe_iff {t : Str} : (Regex.rematch domainRe t).isSome = true ↔
    ∃ w, (∃ labels : List Str, 2 ≤ labels.length ∧ (∀ l ∈ labels, IsLabel l) ∧
      w = ['.'].intercalate labels) ∧ (t = w ∨ t = w ++ ['\n']) := by
  rw [← Regex.rematch_eol_iff takes_labels]
  unfold Regex.rematch domainRe
  rw [isSome_head?, ← isEmpty_eq_false_iff, isEmpty_eq_false_iff_exists_mem]
  simp only [Regex.run, mem_flatMap]
  constructor
  · rintro ⟨k, k1, h1, k2, h2, h3⟩
    split_ifs at h3 with hend
    · exact ⟨k2, ⟨k1, h1, h2⟩, hend⟩
    · cases h3
  · rintro ⟨k2, ⟨k1, h1, h2⟩, hend⟩
    refine ⟨k2, k1, h1, k2, h2, ?_⟩
    rw [if_pos hend]
    exact mem_singleton_self k2

end Pattern

theorem getLast?_intercalate_ne {labels : List Str} (h : ∀ l ∈ labels, IsLabel l) :
    (['.'].intercalate labels).getLast? ≠ some '.' := by
  induction labels with
  | nil => simp
  | cons l ls ih =>
    rw [forall_mem_cons] at h
    rcases ls with _ | ⟨m, ls⟩
    · rw [intercalate_singleton]
      intro hlast
      exact absurd (h.1.chars '.' (mem_of_getLast? hlast)) (by decide)
    · have hne : ['.'].intercalate (m :: ls) ≠ [] := by
        rw [intercalate_eq_flatten]
        exact append_ne_nil_of_left_ne_nil (h.2 m mem_cons_self).ne_nil _
      rw [intercalate_cons_cons, List.getLast?_append_of_ne_nil _ hne]
      exact ih h.2

theorem IsName.last_ne {t : Str} (h : IsName t) : t ≠ [] ∧ t.getLast? ≠ some '.' := by
  obtain ⟨-, labels, hlength, hlabels, rfl⟩ := h
  refine ⟨?_, getLast?_intercalate_ne hlabels⟩
  rcases labels with _ | ⟨l, ls⟩
  · cases hlength
  · rw [intercalate_eq_flatten]
    exact append_ne_nil_of_left_ne_nil (hlabels l mem_cons_self).ne_nil _

theorem IsName.chars {t : Str} (h : IsName t) : ∀ c ∈ t, isDomainChar c = true := by
  obtain ⟨-, labels, -, hlabels, rfl⟩ := h
  intro c hc
  rcases mem_intercalate hc with rfl | ⟨l, hl, hcl⟩
  · rfl
  · rw [isDomainChar, (hlabels l hl).chars c hcl, Bool.true_or]

/-- **What `normalize_domain` accepts**: a name, or a name with a newline at its end. -/
theorem isDomain_iff {t : Str} :
    IsDomain t ↔ IsName t ∨ ∃ w, IsName w ∧ w.length < 253 ∧ t = w ++ ['\n'] := by
  unfold IsDomain
  rw [rematch_domainRe_iff]
  constructor
  · rintro ⟨-, hlength, w, hw, rfl | rfl⟩
    · exact Or.inl ⟨hlength, hw⟩
    · rw [length_append, length_singleton] at hlength
      exact Or.inr ⟨w, ⟨by omega, hw⟩, by omega, rfl⟩
  · rintro (⟨hlength, hw⟩ | ⟨w, ⟨-, hw⟩, hlt, rfl⟩)
    · exact ⟨(IsName.last_ne ⟨hlength, hw⟩).1, hlength, _, hw, Or.inl rfl⟩
    · refine ⟨by simp, ?_, w, hw, Or.inr rfl⟩
      rw [length_append, length_singleton]
      omega

/-! ### The host that a value spells -/

/-- **The scheme of a text**: letters and `://` at its start, or nothing where there is none. -/
def IsScheme (scheme text : Str) : Prop :=
  (∃ letters : Str, letters ≠ [] ∧ (∀ c ∈ letters, Regex.lowerAZ c = true) ∧
      scheme = letters ++ "://") ∨
    scheme = [] ∧ ∀ letters rest : Str, letters ≠ [] → (∀ c ∈ letters, Regex.lowerAZ c = true) →
      text ≠ letters ++ ("://" ++ rest)

/-- **The host that a value spells**, in lower case and without blanks around the value: behind a
scheme and what ends with `@`, and before a port, a path and a query. -/
def Spells (R : Runtime) (value host : Str) : Prop :=
  ∃ scheme user port path : Str,
    lower R (strip R value) = scheme ++ (user ++ (host ++ port) ++ path) ∧
    IsScheme scheme (user ++ (host ++ port) ++ path) ∧
    (user = [] ∨ user.getLast? = some '@') ∧
    (∀ c ∈ host, c ≠ '@' ∧ c ≠ ':') ∧
    (port = [] ∨ port.head? = some ':') ∧ '@' ∉ port ∧
    (∀ c ∈ user ++ (host ++ port), c ≠ '/' ∧ c ≠ '?') ∧
    ∀ c ∈ path.head?, c = '/' ∨ c = '?'

/-- The host that `normalize_domain` reads, before it takes off the dots at its end. -/
def hostText (R : Runtime) (value : Str) : Str :=
  let text := dropUrlScheme (lower R (strip R value))
  let text := (partition '?' (partition '/' text).1).1
  (partition ':' (rpartition '@' text).2.2).1

section Spells
variable {R : Runtime} {value host : Str}

theorem domainText_eq (value : Str) : domainText R value = rstripChar '.' (hostText R value) := rfl

theorem dropUrlScheme_append {letters rest : Str} (hne : letters ≠ [])
    (hletters : ∀ c ∈ letters, Regex.lowerAZ c = true) :
    dropUrlScheme (letters ++ ("://" ++ rest)) = rest := by
  have htake : (letters ++ ("://" ++ rest)).takeWhile Regex.lowerAZ = letters :=
    takeWhile_eq_iff.mpr ⟨_, rfl, hletters, fun c hc => by cases hc; rfl⟩
  have hdrop : (letters ++ ("://" ++ rest)).dropWhile Regex.lowerAZ =
      "://" ++ rest := by
    rw [dropWhile_append_of_pos hletters]
    rfl
  unfold dropUrlScheme
  dsimp only
  rw [htake, hdrop, if_pos ⟨hne, prefix_append _ _⟩]
  rfl

theorem dropUrlScheme_eq_self {text : Str} (h : ∀ letters rest : Str, letters ≠ [] →
    (∀ c ∈ letters, Regex.lowerAZ c = true) → text ≠ letters ++ ("://" ++ rest)) :
    dropUrlScheme text = text := by
  unfold dropUrlScheme
  refine if_neg fun ⟨hne, rest, hrest⟩ => ?_
  refine h _ rest hne (fun c hc => mem_takeWhile_imp hc) ?_
  rw [hrest, takeWhile_append_dropWhile]

theorem dropUrlScheme_eq_iff {text rest : Str} :
    dropUrlScheme text = rest ↔ ∃ scheme, text = scheme ++ rest ∧ IsScheme scheme rest := by
  constructor
  · rintro rfl
    by_cases h : ∃ letters rest : Str, letters ≠ [] ∧ (∀ c ∈ letters, Regex.lowerAZ c = true) ∧
        text = letters ++ ("://" ++ rest)
    · obtain ⟨letters, rest, hne, hletters, rfl⟩ := h
      rw [dropUrlScheme_append hne hletters]
      exact ⟨letters ++ "://", (append_assoc ..).symm,
        Or.inl ⟨letters, hne, hletters, rfl⟩⟩
    · have hnot : ∀ letters rest : Str, letters ≠ [] →
          (∀ c ∈ letters, Regex.lowerAZ c = true) → text ≠ letters ++ ("://" ++ rest) :=
        fun letters rest hne hletters htext => h ⟨letters, rest, hne, hletters, htext⟩
      rw [dropUrlScheme_eq_self hnot]
      exact ⟨[], rfl, Or.inr ⟨rfl, hnot⟩⟩
  · rintro ⟨scheme, rfl, ⟨letters, hne, hletters, rfl⟩ | ⟨rfl, hnot⟩⟩
    · rw [append_assoc, dropUrlScheme_append hne hletters]
    · exact dropUrlScheme_eq_self hnot

/-- **A value spells one host**: the one that is read. -/
theorem spells_iff : Spells R value host ↔ hostText R value = host := by
  have hauthority : ∀ text : Str, (partition '?' (partition '/' text).1).1 =
      text.takeWhile fun c => decide ((c != '?') = true ∧ (c != '/') = true) := fun text =>
    takeWhile_takeWhile _ _ text
  have hhead : ∀ {o : Option Char} {d : Char},
      (∀ c ∈ o, (c != d) = false) ↔ o = none ∨ o = some d := by
    intro o d
    cases o <;> simp
  unfold hostText Spells
  dsimp only
  rw [hauthority]
  simp only [partition, rpartition, takeWhile_eq_iff, rtakeWhile_eq_iff, dropUrlScheme_eq_iff]
  constructor
  · rintro ⟨scheme, user, port, path, htext, hscheme, huser, hhost, hport, hat, hmarks, hpath⟩
    refine ⟨port, ⟨user, ⟨path, ⟨scheme, htext, hscheme⟩, ?_, ?_⟩, ?_, ?_⟩, ?_, ?_⟩
    · intro c hc
      simpa using (hmarks c hc).symm
    · intro c hc
      rcases hpath c hc with rfl | rfl <;> decide
    · intro c hc
      rcases mem_append.mp hc with hc | hc
      · simpa using (hhost c hc).1
      · rw [bne_iff_ne]
        rintro rfl
        exact hat hc
    · rw [hhead]
      exact huser.imp (fun h => by rw [h]; rfl) id
    · intro c hc
      simpa using (hhost c hc).2
    · rw [hhead]
      exact hport.imp (fun h => by rw [h]; rfl) id
  · rintro ⟨port, ⟨user, ⟨path, ⟨scheme, htext, hscheme⟩, hmarks, hpath⟩, hat, huser⟩, hhost, hport⟩
    rw [hhead] at huser hport
    refine ⟨scheme, user, port, path, htext, hscheme, huser.imp_left getLast?_eq_none_iff.mp,
      fun c hc => ⟨?_, ?_⟩, hport.imp_left head?_eq_none_iff.mp, fun hc => ?_, ?_, ?_⟩
    · simpa using hat c (mem_append_left _ hc)
    · simpa using hhost c hc
    · simpa using hat '@' (mem_append_right _ hc)
    · intro c hc
      simpa [and_comm] using hmarks c hc
    · intro c hc
      have hmark := hpath c hc
      simp only [decide_eq_false_iff_not, bne_iff_ne, not_and_or, not_not] at hmark
      exact hmark.symm

end Spells

/-! ### What is returned -/

section Returned
variable {R : Runtime}

theorem normalizeDomain_name {d : Str} (h : IsName d) :
    normalizeDomain R d = .ok d ∧ lower R d = d := by
  have hne := h.last_ne
  have htext : domainText R d = d := by
    have hread := domainText_of_chars (R := R) h.chars (Or.inl rfl)
    rw [append_nil] at hread
    rw [hread]
    refine rdropWhile_eq_self.mpr fun c hc => ?_
    rw [beq_eq_false_iff_ne]
    rintro rfl
    exact hne.2 hc
  refine ⟨?_, lower_of_ascii fun c hc => ?_⟩
  · unfold normalizeDomain
    rw [htext, if_pos (isDomain_iff.mpr (Or.inl h))]
  · exact ⟨isAscii_of_isDomainChar (h.chars c hc), (isDomainChar_spec (h.chars c hc)).1⟩

theorem not_isName_newline (w : Str) : ¬IsName (w ++ ['\n']) := fun h =>
  absurd (h.chars '\n' (mem_append_right w (mem_singleton_self _))) (by decide)

/-- **What `normalize_domain` returns is canonical** exactly if the host that the value spells is
not a name with a newline, and dots or none, behind it. -/
theorem normalizeDomain_canonical_iff (value : Str) :
    (∀ d, normalizeDomain R value = .ok d →
        IsName d ∧ lower R d = d ∧ normalizeDomain R d = .ok d) ↔
      ∀ host, Spells R value host → ∀ name dots : Str, host = name ++ '\n' :: dots →
        (∀ c ∈ dots, c = '.') → name.length < 253 → ¬IsName name := by
  constructor
  · rintro h host hspells name dots rfl hdots hlength hname
    have htext : domainText R value = name ++ ['\n'] := by
      rw [domainText_eq, spells_iff.mp hspells, rstripChar_eq_iff]
      exact ⟨dots, by simp, hdots, by simp⟩
    have hdomain : IsDomain (name ++ ['\n']) :=
      isDomain_iff.mpr (Or.inr ⟨name, hname, hlength, rfl⟩)
    have hok : normalizeDomain R value = .ok (name ++ ['\n']) := by
      unfold normalizeDomain
      rw [htext, if_pos hdomain]
    exact not_isName_newline name (h _ hok).1
  · intro h d hd
    obtain ⟨htext, hdomain⟩ := normalizeDomain_ok hd
    rcases isDomain_iff.mp hdomain with hname | ⟨name, hname, hlength, rfl⟩
    · exact ⟨hname, (normalizeDomain_name hname).2, (normalizeDomain_name hname).1⟩
    · obtain ⟨dots, hhost, hdots, -⟩ :=
        rstripChar_eq_iff.mp ((domainText_eq value).symm.trans htext)
      rw [append_assoc] at hhost
      exact absurd hname (h _ (spells_iff.mpr rfl) name dots hhost hdots hlength)

/-- A path takes what stands behind the newline, which stays. -/
theorem newline_before_path :
    ¬∀ (R : Runtime) (value d : Str), normalizeDomain R value = .ok d →
      IsName d ∧ lower R d = d ∧ normalizeDomain R d = .ok d := by
  intro h
  have hok : normalizeDomain .ascii "example.com\n/" = .ok "example.com\n" := by
    decide
  exact not_isName_newline "example.com" (h _ _ _ hok).1

end Returned

end Guardian.Authorization

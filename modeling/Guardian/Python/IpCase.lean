import Guardian.Python.IpText

/-!
# Addresses and networks in lower case

A text that is no address is none in lower case either: `str.lower` changes no separator, and makes
no hexadecimal digit out of anything but such a digit.
-/

namespace Guardian.Python

open List
/-! ### Lower case, character by character -/

/-- **What the Unicode database says of lower case**, beyond the laws of a `Runtime`: every character
has a lower case, no character beyond ASCII is lowered to a hexadecimal digit, and lowering makes no
blank. -/
structure LowerLaws (R : Runtime) : Prop where
  ne_nil : ∀ c, R.toLower c ≠ []
  hex : ∀ c, ∀ d ∈ R.toLower c, hexValue d ≠ none → IsAscii c
  space : ∀ c, R.isSpace c = false → ∀ d ∈ R.toLower c, R.isSpace d = false
  sigma : R.isSpace 'σ' = false ∧ R.isSpace 'ς' = false

/-- What a character may become: a capital sigma becomes one of the two small ones. -/
def LowerOf (R : Runtime) (c : Char) (w : Str) : Prop :=
  if c = 'Σ' then w = ['σ'] ∨ w = ['ς'] else w = R.toLower c

/-- **A text and its lower case.** -/
inductive Lowers (R : Runtime) : Str → Str → Prop
  | nil : Lowers R [] []
  | cons {c : Char} {w s t : Str} (hw : LowerOf R c w) (h : Lowers R s t) :
      Lowers R (c :: s) (w ++ t)

variable {R : Runtime}

theorem lowers_lower (s : Str) : Lowers R s (lower R s) := by
  have hfrom : ∀ before, Lowers R s (lowerFrom R before s) := by
    induction s with
    | nil => exact fun _ => .nil
    | cons c s ih =>
      intro before
      rw [lowerFrom]
      refine .cons ?_ (ih _)
      unfold LowerOf
      by_cases hc : c = 'Σ'
      · rw [if_pos hc, if_pos hc]
        split_ifs
        · exact Or.inr rfl
        · exact Or.inl rfl
      · rw [if_neg hc, if_neg hc]
  exact hfrom []

section Characters
variable {c d : Char} {w : Str}

theorem LowerOf.ascii (h : LowerOf R c w) (hc : IsAscii c) : w = [c.toLower] := by
  have hsigma : c ≠ 'Σ' := by
    rintro rfl
    exact absurd hc (by decide)
  unfold LowerOf at h
  rwa [if_neg hsigma, R.toLower_ascii c hc] at h

theorem LowerOf.punct (h : LowerOf R c w) (hd : d ∈ w) (hascii : IsAscii d)
    (halpha : d.isAlpha = false) : c = d := by
  unfold LowerOf at h
  split_ifs at h with hc
  · rcases h with rfl | rfl
    all_goals
      rw [mem_singleton.mp hd] at hascii
      exact absurd hascii (by decide)
  · exact R.toLower_punct c d (h ▸ hd) hascii halpha

theorem LowerOf.hex (hR : LowerLaws R) (h : LowerOf R c w) (hd : d ∈ w)
    (hhex : hexValue d ≠ none) : IsAscii c := by
  unfold LowerOf at h
  split_ifs at h with hc
  · rcases h with rfl | rfl
    all_goals
      rw [mem_singleton.mp hd] at hhex
      exact absurd hhex (by decide)
  · exact hR.hex c d (h ▸ hd) hhex

theorem LowerOf.ne_nil (hR : LowerLaws R) (h : LowerOf R c w) : w ≠ [] := by
  unfold LowerOf at h
  split_ifs at h
  · rcases h with rfl | rfl <;> exact cons_ne_nil _ _
  · exact h ▸ hR.ne_nil c

theorem LowerOf.space (hR : LowerLaws R) (h : LowerOf R c w) (hc : R.isSpace c = false)
    (hd : d ∈ w) : R.isSpace d = false := by
  unfold LowerOf at h
  split_ifs at h
  · rcases h with rfl | rfl
    · rw [mem_singleton.mp hd]
      exact hR.sigma.1
    · rw [mem_singleton.mp hd]
      exact hR.sigma.2
  · exact hR.space c hc d (h ▸ hd)

end Characters

section Texts
variable {s t : Str} {sep : Char}

theorem Lowers.exists_of_mem (h : Lowers R s t) {c : Char} (hc : c ∈ s) :
    ∃ w, LowerOf R c w ∧ w ⊆ t := by
  induction h with
  | nil => cases hc
  | cons hw _ ih =>
    rcases mem_cons.mp hc with rfl | hc
    · exact ⟨_, hw, subset_append_left _ _⟩
    · obtain ⟨v, hv, hsub⟩ := ih hc
      exact ⟨v, hv, List.Subset.trans hsub (subset_append_right _ _)⟩

theorem Lowers.notMem (h : Lowers R s t) (hascii : IsAscii sep) (hfix : sep.toLower = sep)
    (ht : sep ∉ t) : sep ∉ s := by
  intro hs
  obtain ⟨w, hw, hsub⟩ := h.exists_of_mem hs
  rw [hw.ascii hascii, hfix] at hsub
  exact ht (hsub (mem_singleton_self sep))

theorem Lowers.eq_map (h : Lowers R s t) (hs : ∀ c ∈ s, IsAscii c) : t = s.map Char.toLower := by
  induction h with
  | nil => rfl
  | cons hw _ ih =>
    rw [hw.ascii (hs _ mem_cons_self), ih fun c hc => hs c (mem_cons_of_mem _ hc)]
    rfl

/-- Without a capital sigma the lower case of a text does not depend on what stands around it. -/
theorem Lowers.unique {s t t' : Str} (hs : 'Σ' ∉ s) (h : Lowers R s t) (h' : Lowers R s t') :
    t = t' := by
  induction h generalizing t' with
  | nil =>
    cases h'
    rfl
  | @cons c w s t hw h ih =>
    rw [mem_cons, not_or] at hs
    cases h' with
    | cons hw' h' =>
      unfold LowerOf at hw hw'
      rw [if_neg (Ne.symm hs.1)] at hw hw'
      rw [hw, hw', ih hs.2 h']

theorem Lowers.append {a b t : Str} (h : Lowers R (a ++ b) t) :
    ∃ x y, t = x ++ y ∧ Lowers R a x ∧ Lowers R b y := by
  induction a generalizing t with
  | nil => exact ⟨[], t, rfl, .nil, h⟩
  | cons c a ih =>
    cases h with
    | @cons _ w _ t hw h =>
      obtain ⟨x, y, rfl, hx, hy⟩ := ih h
      exact ⟨w ++ x, y, (append_assoc ..).symm, .cons hw hx, hy⟩

theorem Lowers.mem_of_punct {s t : Str} (h : Lowers R s t) {d : Char} (hd : d ∈ t) (hascii : IsAscii d)
    (halpha : d.isAlpha = false) : d ∈ s := by
  induction h with
  | nil => cases hd
  | cons hw _ ih =>
    rcases mem_append.mp hd with hd | hd
    · exact hw.punct hd hascii halpha ▸ mem_cons_self
    · exact mem_cons_of_mem _ (ih hd)

/-- **A text is split where its lower case is.** -/
theorem Lowers.split (hascii : IsAscii sep) (halpha : sep.isAlpha = false)
    (hfix : sep.toLower = sep) {u v : Str} (h : Lowers R s (u ++ sep :: v)) (hu : sep ∉ u) :
    ∃ a b, s = a ++ sep :: b ∧ Lowers R a u ∧ Lowers R b v := by
  generalize ht : u ++ sep :: v = t at h
  induction h generalizing u with
  | nil => simp at ht
  | @cons c w s t hw h ih =>
    by_cases hmem : sep ∈ w
    · obtain rfl := hw.punct hmem hascii halpha
      have hone := hw.ascii hascii
      rw [hfix] at hone
      subst hone
      rcases u with _ | ⟨d, u⟩
      · cases ht
        exact ⟨[], s, rfl, .nil, h⟩
      · cases ht
        exact absurd mem_cons_self hu
    · -- what is made of the first character is not split
      have hprefix : ∃ u', u = w ++ u' := by
        rcases append_eq_append_iff.mp ht with ⟨a, hw', ha⟩ | ⟨a, hu', -⟩
        · rcases a with _ | ⟨d, a⟩
          · exact ⟨[], by rw [hw', append_nil, append_nil]⟩
          · cases ha
            exact absurd (by simp [hw']) hmem
        · exact ⟨a, hu'⟩
      obtain ⟨u', rfl⟩ := hprefix
      rw [append_assoc, append_cancel_left_eq] at ht
      obtain ⟨a, b, rfl, ha, hb⟩ := ih (fun hmem => hu (mem_append_right w hmem)) ht
      exact ⟨c :: a, b, rfl, .cons hw ha, hb⟩

end Texts

/-! ### The case of hexadecimal digits -/

section Digits

theorem toLower_of_not_ascii {c : Char} (hc : ¬IsAscii c) : c.toLower = c := by
  unfold Char.toLower
  rw [dif_neg]
  intro h
  have hle : c.toNat ≤ 90 := h.2
  unfold IsAscii at hc
  omega

theorem hexValue_of_not_ascii {c : Char} (hc : ¬IsAscii c) : hexValue c = none := by
  have hle : ¬c.toNat ≤ 102 := fun h => hc (h.trans_lt (by decide))
  unfold hexValue
  rw [if_neg, if_neg, if_neg]
  · exact fun h => hle (le_trans h.2 (show (70 : ℕ) ≤ 102 by decide))
  · exact fun h => hle h.2
  · intro h
    simp only [Char.isDigit, Bool.and_eq_true, decide_eq_true_eq] at h
    exact hle (le_trans h.2 (show (57 : ℕ) ≤ 102 by decide))

theorem hexValue_toLower (c : Char) : hexValue c.toLower = hexValue c := by
  by_cases hc : IsAscii c
  · exact forall_ascii (P := fun c => hexValue c.toLower = hexValue c) (by decide) hc
  · rw [toLower_of_not_ascii hc]

theorem toLower_eq_colon {c : Char} : c.toLower = ':' ↔ c = ':' := by
  by_cases hc : IsAscii c
  · exact forall_ascii (P := fun c => c.toLower = ':' ↔ c = ':') (by decide) hc
  · rw [toLower_of_not_ascii hc]

theorem toLower_eq_dot {c : Char} : c.toLower = '.' ↔ c = '.' := by
  by_cases hc : IsAscii c
  · exact forall_ascii (P := fun c => c.toLower = '.' ↔ c = '.') (by decide) hc
  · rw [toLower_of_not_ascii hc]

theorem parseHextet_toLower (s : Str) : parseHextet (s.map Char.toLower) = parseHextet s := by
  have hdigits : (s.map Char.toLower).mapM hexValue = s.mapM hexValue := by
    rw [List.mapM_map]
    exact congrArg (fun f => s.mapM f) (funext hexValue_toLower)
  unfold parseHextet
  rw [hdigits, length_map]
  simp only [map_eq_nil_iff]

theorem splitOn_map {f : Char → Char} {sep : Char} (hf : ∀ c, f c = sep ↔ c = sep) (s : Str) :
    (s.map f).splitOn sep = (s.splitOn sep).map (List.map f) := by
  induction s with
  | nil => rfl
  | cons c s ih =>
    rw [map_cons, splitOn_cons_eq_if_modifyHead, splitOn_cons_eq_if_modifyHead, ih]
    obtain ⟨t, ts, hts⟩ := exists_cons_of_ne_nil (splitOn_ne_nil sep s)
    rw [hts]
    by_cases hc : c = sep
    · rw [if_pos (beq_iff_eq.mpr hc), if_pos (beq_iff_eq.mpr ((hf c).mpr hc))]
      rfl
    · rw [if_neg fun h => hc (beq_iff_eq.mp h), if_neg fun h => hc ((hf c).mp (beq_iff_eq.mp h))]
      rfl

theorem map_toLower_of_ipv4 {s : Str} {n : ℕ} (h : ipv4OfString (s.map Char.toLower) = some n) :
    s.map Char.toLower = s := by
  have hchars := (ipv4OfString_some h).2
  conv_rhs => rw [← map_id s]
  refine map_congr_left fun c hc => ?_
  have hlow := hchars c.toLower (mem_map_of_mem hc)
  by_cases hascii : IsAscii c
  · have halpha : c.toLower.isAlpha = false := by
      rcases hlow with h | h
      · exact forall_ascii (P := fun c => c.isDigit = true → c.isAlpha = false) (by decide)
          (isAscii_toLower hascii) h
      · rw [h]
        rfl
    exact (eq_toLower_of_not_isAlpha hascii halpha).symm
  · exact toLower_of_not_ascii hascii

theorem hexString_map_toLower {n : ℕ} (hn : n < 65536) :
    (hexString n).map Char.toLower = hexString n := by
  conv_rhs => rw [← map_id (hexString n)]
  refine map_congr_left fun c hc => ?_
  obtain ⟨ds, hds, -, -, hlt, -⟩ := hexString_eq hn
  rw [hds] at hc
  obtain ⟨d, hd, rfl⟩ := mem_map.mp hc
  have hall : ∀ d : Fin 16, (hexDigit d).toLower = hexDigit d := by decide
  exact hall ⟨d, hlt d hd⟩

theorem ipv6Parts_toLower {s : Str} {parts : List Str}
    (h : ipv6Parts (s.map Char.toLower) = some parts) :
    ∃ parts', ipv6Parts s = some parts' ∧ parts = parts'.map (List.map Char.toLower) := by
  have hsplit := splitOn_map (fun c => toLower_eq_colon (c := c)) s
  rcases eq_nil_or_concat (s.splitOn ':') with hnil | ⟨front, last, hlast⟩
  · exact absurd hnil (splitOn_ne_nil ':' s)
  rw [concat_eq_append] at hlast
  have hdot : '.' ∈ last.map Char.toLower ↔ '.' ∈ last := by
    rw [mem_map]
    exact ⟨fun ⟨c, hc, h⟩ => toLower_eq_dot.mp h ▸ hc, fun h => ⟨'.', h, rfl⟩⟩
  unfold ipv6Parts at h ⊢
  rw [hsplit, hlast] at h
  rw [hlast]
  simp only [map_append, map_cons, map_nil, length_append, length_map,
    length_singleton, getLastD_concat, dropLast_concat, hdot] at h ⊢
  by_cases hthree : front.length + 1 < 3
  · rw [if_pos hthree] at h
    cases h
  rw [if_neg hthree] at h ⊢
  split_ifs at h ⊢
  · obtain ⟨n, hn, h⟩ := Option.bind_eq_some_iff.mp h
    cases h
    rw [map_toLower_of_ipv4 hn] at hn
    have hlt : ∀ m : ℕ, m % 65536 < 65536 := fun m => Nat.mod_lt m (by decide)
    refine ⟨_, by rw [hn]; rfl, ?_⟩
    simp [hexString_map_toLower (hlt _)]
  · cases h
    exact ⟨_, rfl, by simp⟩

theorem ipv6Shape_map {f : Char → Char} (parts : List Str) :
    ipv6Shape (parts.map (List.map f)) = ipv6Shape parts := by
  have hempty : ∀ i : ℕ, (parts.map (List.map f))[i]? = some [] ↔ parts[i]? = some [] := by
    intro i
    rw [getElem?_map]
    rcases parts[i]? with _ | t
    · simp
    · simp
  have hskip : skipIndices (parts.map (List.map f)) = skipIndices parts := by
    unfold skipIndices
    simp only [length_map, hempty]
  have hhead : (parts.map (List.map f)).head? = some [] ↔ parts.head? = some [] := by
    rw [head?_eq_getElem?, head?_eq_getElem?, hempty]
  have hlast : (parts.map (List.map f)).getLast? = some [] ↔ parts.getLast? = some [] := by
    rw [getLast?_eq_getElem?, getLast?_eq_getElem?, hempty, length_map]
  unfold ipv6Shape
  simp only [hskip, hhead, hlast, length_map, ne_eq]

/-- **The case of the digits of an address does not matter.** -/
theorem ipv6OfString_toLower {s : Str} {n : ℕ} (h : ipv6OfString (s.map Char.toLower) = some n) :
    ipv6OfString s = some n := by
  have hgroups : ∀ ts : List Str, (ts.map (List.map Char.toLower)).mapM parseHextet =
      ts.mapM parseHextet := by
    intro ts
    rw [List.mapM_map]
    exact congrArg (fun f => ts.mapM f) (funext parseHextet_toLower)
  unfold ipv6OfString at h ⊢
  obtain ⟨parts, hparts, h⟩ := Option.bind_eq_some_iff.mp h
  obtain ⟨parts', hparts', rfl⟩ := ipv6Parts_toLower hparts
  rw [hparts']
  simp only [length_map, ipv6Shape_map, ← map_take, ← map_drop, hgroups] at h
  exact h

end Digits

/-! ### Addresses and networks -/

section Addresses
variable {s t : Str}

theorem Lowers.exists_mem (hR : LowerLaws R) (h : Lowers R s t) {c : Char} (hc : c ∈ s) :
    ∃ w d, LowerOf R c w ∧ d ∈ w ∧ d ∈ t := by
  obtain ⟨w, hw, hsub⟩ := h.exists_of_mem hc
  obtain ⟨d, w', rfl⟩ := exists_cons_of_ne_nil (hw.ne_nil hR)
  exact ⟨_, d, hw, mem_cons_self, hsub mem_cons_self⟩

theorem Lowers.eq_nil (hR : LowerLaws R) (h : Lowers R s []) : s = [] := by
  rcases s with _ | ⟨c, s⟩
  · rfl
  · obtain ⟨w, d, -, -, hd⟩ := h.exists_mem hR mem_cons_self
    cases hd

theorem Lowers.head (hR : LowerLaws R) (h : Lowers R s t) {d : Char} (hd : d ∈ t.head?) :
    ∃ c ∈ s.head?, ∃ w, LowerOf R c w ∧ d ∈ w := by
  cases h with
  | nil => cases hd
  | @cons c w s t hw h =>
    rw [head?_append_of_ne_nil _ (hw.ne_nil hR)] at hd
    exact ⟨c, rfl, w, hw, mem_of_head? hd⟩

theorem Lowers.getLast (hR : LowerLaws R) (h : Lowers R s t) {d : Char} (hd : d ∈ t.getLast?) :
    ∃ c ∈ s.getLast?, ∃ w, LowerOf R c w ∧ d ∈ w := by
  induction h with
  | nil => cases hd
  | @cons c w s t hw h ih =>
    rcases eq_or_ne t [] with rfl | hne
    · obtain rfl := h.eq_nil hR
      rw [append_nil] at hd
      exact ⟨c, rfl, w, hw, mem_of_getLast? hd⟩
    · rw [List.getLast?_append_of_ne_nil _ hne] at hd
      obtain ⟨c', hc', h'⟩ := ih hd
      have hs : s ≠ [] := ne_nil_of_mem (mem_of_getLast? hc')
      exact ⟨c', by rwa [getLast?_cons_of_ne_nil hs], h'⟩

theorem Lowers.eq_of_plain (hR : LowerLaws R) (h : Lowers R s t)
    (ht : ∀ d ∈ t, IsAscii d ∧ d.isAlpha = false) : s = t := by
  have hs : ∀ c ∈ s, c ∈ t := by
    intro c hc
    obtain ⟨w, d, hw, hd, hdt⟩ := h.exists_mem hR hc
    rwa [hw.punct hd (ht d hdt).1 (ht d hdt).2]
  rw [h.eq_map fun c hc => (ht c (hs c hc)).1]
  conv_lhs => rw [← map_id s]
  refine map_congr_left fun c hc => ?_
  obtain ⟨hascii, halpha⟩ := ht c (hs c hc)
  exact (forall_ascii (P := fun c => c.isAlpha = false → c.toLower = c) (by decide) hascii
    halpha).symm

theorem plain_of_digit {d : Char} (h : d.isDigit = true ∨ d = '.') :
    IsAscii d ∧ d.isAlpha = false := by
  rcases h with h | rfl
  · have hascii : IsAscii d := by
      simp only [Char.isDigit, Bool.and_eq_true, decide_eq_true_eq] at h
      have hle : d.toNat ≤ 57 := h.2
      exact hle.trans_lt (by decide)
    exact ⟨hascii, forall_ascii (P := fun c => c.isDigit = true → c.isAlpha = false) (by decide)
      hascii h⟩
  · decide

theorem ipv4OfString_lowers (hR : LowerLaws R) (h : Lowers R s t) {n : ℕ}
    (ht : ipv4OfString t = some n) : s = t :=
  h.eq_of_plain hR fun d hd => plain_of_digit ((ipv4OfString_some ht).2 d hd)

theorem ipv6OfString_lowers (hR : LowerLaws R) (h : Lowers R s t) {n : ℕ}
    (ht : ipv6OfString t = some n) : ipv6OfString s = some n := by
  have hascii : ∀ c ∈ s, IsAscii c := by
    intro c hc
    obtain ⟨w, d, hw, hd, hdt⟩ := h.exists_mem hR hc
    rcases (ipv6OfString_some ht).2 d hdt with hhex | rfl | rfl
    · exact hw.hex hR hd hhex
    · rw [hw.punct hd (by decide) rfl]
      decide
    · rw [hw.punct hd (by decide) rfl]
      decide
  rw [h.eq_map hascii] at ht
  exact ipv6OfString_toLower ht

theorem ipv6Address_lowers (hR : LowerLaws R) (h : Lowers R s t) {n : ℕ}
    (ht : ipv6Address t = some n) : ipv6Address s = some n := by
  obtain ⟨hslash, addr, z, rfl, hpercent, hz, haddr⟩ := ipv6Address_some ht
  have hslash' : '/' ∉ s := h.notMem (by decide) rfl hslash
  have hread : ∃ a z', s = a ++ z' ∧ '%' ∉ a ∧ IsZone z' ∧ Lowers R a addr := by
    rcases hz with rfl | ⟨scope, rfl, hne, hscope⟩
    · rw [append_nil] at h
      exact ⟨s, [], (append_nil s).symm, h.notMem (by decide) rfl hpercent, Or.inl rfl, h⟩
    · obtain ⟨a, b, rfl, ha, hb⟩ := h.split (by decide) rfl rfl hpercent
      refine ⟨a, '%' :: b, rfl, ha.notMem (by decide) rfl hpercent, Or.inr ⟨b, rfl, ?_, ?_⟩, ha⟩
      · rintro rfl
        cases hb
        exact hne rfl
      · exact hb.notMem (by decide) rfl hscope
  obtain ⟨a, z', rfl, ha, hz', hlow⟩ := hread
  unfold ipv6Address
  rw [if_neg hslash', (dropScopeId_append ha hz').1, Option.bind_eq_bind, Option.bind_some]
  exact ipv6OfString_lowers hR hlow haddr

/-- **What is an address in lower case is one as it is written.** -/
theorem ipAddressText_lower (hR : LowerLaws R) (h : ipAddressText s = none) :
    ipAddressText (lower R s) = none := by
  have hlow := lowers_lower (R := R) s
  unfold ipAddressText at h ⊢
  split at h
  · cases h
  · rename_i hv4
    rw [Option.map_eq_none_iff] at h
    split
    · rename_i n hn
      rw [ipv4OfString_lowers hR hlow hn, hn] at hv4
      cases hv4
    · rw [Option.map_eq_none_iff, Option.eq_none_iff_forall_ne_some]
      intro n hn
      rw [ipv6Address_lowers hR hlow hn] at h
      cases h

/-- **How a network is written**: an address, and its prefix or its mask behind a slash. -/
theorem splitAddrPrefix_some {addr : Str} {mask : Option Str}
    (h : splitAddrPrefix s = some (addr, mask)) : '/' ∉ addr ∧
      (mask = none ∧ s = addr ∨ ∃ m, mask = some m ∧ '/' ∉ m ∧ s = addr ++ '/' :: m) := by
  unfold splitAddrPrefix at h
  by_cases hs : '/' ∈ s
  · obtain ⟨a, b, rfl, ha⟩ := eq_append_cons_of_mem hs
    rw [splitOn_append_cons_self_of_not_mem ha] at h
    by_cases hb : '/' ∈ b
    · obtain ⟨c, d, rfl, hc⟩ := eq_append_cons_of_mem hb
      rw [splitOn_append_cons_self_of_not_mem hc] at h
      obtain ⟨e, es, hes⟩ := exists_cons_of_ne_nil (splitOn_ne_nil '/' d)
      rw [hes] at h
      cases h
    · rw [splitOn_eq_singleton hb] at h
      cases h
      exact ⟨ha, Or.inr ⟨b, rfl, hb, rfl⟩⟩
  · rw [splitOn_eq_singleton hs] at h
    cases h
    exact ⟨hs, Or.inl ⟨rfl, rfl⟩⟩

theorem plain_of_prefixOfString {bits p : ℕ} {m : Str} (h : prefixOfString R bits m = some p) :
    ∀ d ∈ m, IsAscii d ∧ d.isAlpha = false := by
  unfold prefixOfString at h
  split_ifs at h with hm
  have hdigits := hm.1
  unfold isAsciiDigits at hdigits
  rw [Bool.and_eq_true, all_eq_true] at hdigits
  exact fun d hd => plain_of_digit (Or.inl (hdigits.2 d hd))

theorem plain_of_netmask {p : ℕ} {m : Str} (h : makeNetmaskV4 R (some m) = some p) :
    ∀ d ∈ m, IsAscii d ∧ d.isAlpha = false := by
  rcases (Option.orElse_eq_some _ _ _).mp h with h | ⟨-, h⟩
  · exact plain_of_prefixOfString h
  · obtain ⟨ip, hip, -⟩ := Option.bind_eq_some_iff.mp h
    exact fun d hd => plain_of_digit ((ipv4OfString_some hip).2 d hd)

/-- The mask of a network, if it has one, and its lower case. -/
def LowersMask (R : Runtime) : Option Str → Option Str → Prop
  | none, none => True
  | some m, some m' => Lowers R m m'
  | _, _ => False

theorem splitAddrPrefix_lowers (h : Lowers R s t) {addr : Str} {mask : Option Str}
    (ht : splitAddrPrefix t = some (addr, mask)) : ∃ a m, splitAddrPrefix s = some (a, m) ∧
      Lowers R a addr ∧ LowersMask R m mask := by
  obtain ⟨haddr, ⟨rfl, rfl⟩ | ⟨m, rfl, hm, rfl⟩⟩ := splitAddrPrefix_some ht
  · exact ⟨s, none, splitAddrPrefix_of_notMem (h.notMem (by decide) rfl haddr), h, trivial⟩
  · obtain ⟨a, b, rfl, ha, hb⟩ := h.split (by decide) rfl rfl haddr
    exact ⟨a, some b, splitAddrPrefix_append (ha.notMem (by decide) rfl haddr)
      (hb.notMem (by decide) rfl hm), ha, hb⟩

theorem makeNetmask_lowers (hR : LowerLaws R) {m mask : Option Str} (h : LowersMask R m mask)
    {p : ℕ} : (makeNetmaskV4 R mask = some p → makeNetmaskV4 R m = some p) ∧
      (makeNetmaskV6 R mask = some p → makeNetmaskV6 R m = some p) := by
  rcases m with _ | m <;> rcases mask with _ | mask
  · exact ⟨id, id⟩
  · exact h.elim
  · exact h.elim
  · constructor
    · intro hp
      rwa [Lowers.eq_of_plain hR h (plain_of_netmask hp)]
    · intro hp
      rwa [Lowers.eq_of_plain hR h (plain_of_prefixOfString hp)]

/-- **What is a network in lower case is one as it is written.** -/
theorem ipNetworkText_lower (hR : LowerLaws R) (h : ipNetworkText R s = none) :
    ipNetworkText R (lower R s) = none := by
  rw [Option.eq_none_iff_forall_ne_some]
  intro text htext
  unfold ipNetworkText at htext
  obtain ⟨⟨addr, mask⟩, hsplit, htext⟩ := Option.bind_eq_some_iff.mp htext
  obtain ⟨a, m, hsplit', ha, hm⟩ := splitAddrPrefix_lowers (lowers_lower s) hsplit
  unfold ipNetworkText at h
  rw [hsplit', Option.bind_eq_bind, Option.bind_some] at h
  obtain ⟨hv4, hv6⟩ := (Option.orElse_eq_none _ _).mp h
  rcases (Option.orElse_eq_some _ _ _).mp htext with htext | ⟨-, htext⟩
  · obtain ⟨ip, hip, htext⟩ := Option.bind_eq_some_iff.mp htext
    obtain ⟨p, hp, -⟩ := Option.bind_eq_some_iff.mp htext
    unfold ipv4NetworkText at hv4
    rw [ipv4OfString_lowers hR ha hip, hip, (makeNetmask_lowers hR hm).1 hp] at hv4
    cases hv4
  · obtain ⟨ip, hip, htext⟩ := Option.bind_eq_some_iff.mp htext
    obtain ⟨p, hp, -⟩ := Option.bind_eq_some_iff.mp htext
    unfold ipv6NetworkText at hv6
    rw [ipv6Address_lowers hR ha hip, (makeNetmask_lowers hR hm).2 hp] at hv6
    cases hv6

end Addresses

end Guardian.Python

import Guardian.Python.JsonText

/-!
# The texts of addresses and networks

`str` of what `ip_address` and `ip_network` read.  The text is the normal spelling: an address is
read back from it, and written the same way again.
-/

namespace Guardian.Python

open List
/-! ### `str` -/

/-- `str(IPv4Address(n))` -/
def ipv4String (n : ℕ) : Str := intercalate ['.'] ((fixedDigits 256 4 n).map (Nat.toDigits 10))

/-- What `_compress_hextets` knows of the zeros that it has come by: the longest run, and the run
that it is in. -/
structure ZeroRuns where
  bestStart : ℕ
  bestLen : ℕ
  start : Option ℕ
  len : ℕ

/-- One round of the loop of `_compress_hextets`. -/
def ZeroRuns.next (runs : ZeroRuns) (hextet : Str × ℕ) : ZeroRuns :=
  if hextet.1 = ['0'] then
    let len := runs.len + 1
    let start := runs.start.getD hextet.2
    if runs.bestLen < len then ⟨start, len, some start, len⟩
    else ⟨runs.bestStart, runs.bestLen, some start, len⟩
  else ⟨runs.bestStart, runs.bestLen, none, 0⟩

/-- The loop of `_compress_hextets`. -/
def zeroRuns (hextets : List Str) : ZeroRuns :=
  hextets.zipIdx.foldl ZeroRuns.next ⟨0, 0, none, 0⟩

/-- `_compress_hextets` -/
def compressHextets (hextets : List Str) : List Str :=
  let runs := zeroRuns hextets
  if 1 < runs.bestLen then
    let stop := runs.bestStart + runs.bestLen
    -- for zeros at the end of the address
    let longer := if stop = hextets.length then hextets ++ [[]] else hextets
    let shorter := longer.take runs.bestStart ++ [] :: longer.drop stop
    -- for zeros at the beginning of the address
    if runs.bestStart = 0 then [] :: shorter else shorter
  else hextets

/-- `str(IPv6Address(n))` -/
def ipv6String (n : ℕ) : Str :=
  intercalate [':'] (compressHextets ((fixedDigits 65536 8 n).map hexString))

/-- The zone of an address with the sign before it, as `str` appends it. -/
def scopeSuffix (s : Str) : Str :=
  let (_, found, scope) := partition '%' s
  if found then '%' :: scope else []

/-- `str(ip_address(s))` -/
def ipAddressText (s : Str) : Option Str :=
  match ipv4OfString s with
  | some n => some (ipv4String n)
  | none => (ipv6Address s).map fun n => ipv6String n ++ scopeSuffix s

/-- `_make_netmask` of a network of IPv4. -/
def makeNetmaskV4 (R : Runtime) : Option Str → Option ℕ
  | none => some 32
  | some mask => prefixOfString R 32 mask <|> prefixOfIp mask

/-- `_make_netmask` of a network of IPv6. -/
def makeNetmaskV6 (R : Runtime) : Option Str → Option ℕ
  | none => some 128
  | some mask => prefixOfString R 128 mask

/-- `str(IPv4Network((addr, mask), strict=False))` -/
def ipv4NetworkText (R : Runtime) (addr : Str) (mask : Option Str) : Option Str := do
  let ip ← ipv4OfString addr
  let p ← makeNetmaskV4 R mask
  return ipv4String (maskTo 32 p ip) ++ '/' :: Nat.toDigits 10 p

/-- `str(IPv6Network((addr, mask), strict=False))`: a masked address has no zone. -/
def ipv6NetworkText (R : Runtime) (addr : Str) (mask : Option Str) : Option Str := do
  let ip ← ipv6Address addr
  let p ← makeNetmaskV6 R mask
  let zone := if maskTo 128 p ip = ip then scopeSuffix addr else []
  return ipv6String (maskTo 128 p ip) ++ zone ++ '/' :: Nat.toDigits 10 p

/-- `str(ip_network(s, strict=False))` -/
def ipNetworkText (R : Runtime) (s : Str) : Option Str := do
  let (addr, mask) ← splitAddrPrefix s
  ipv4NetworkText R addr mask <|> ipv6NetworkText R addr mask

/-! ### Numbers to base ten -/

variable {n : ℕ} {s : Str}

/-- **A number below 256 is read back from its digits.** -/
theorem parseOctet_toDigits (hn : n < 256) : parseOctet (Nat.toDigits 10 n) = some n := by
  have hdigits : ∀ c ∈ Nat.toDigits 10 n, c.isDigit = true := fun c hc =>
    Nat.isDigit_of_mem_toDigits (by decide) (by decide) hc
  have hascii : isAsciiDigits (Nat.toDigits 10 n) = true := by
    simpa [isAsciiDigits, Nat.toDigits_ne_nil] using hdigits
  have hlength : (Nat.toDigits 10 n).length ≤ 3 :=
    (Nat.length_toDigits_le_iff (by decide) (by decide)).mpr (by omega)
  have hzero : Nat.toDigits 10 n = ['0'] ∨ (Nat.toDigits 10 n).head? ≠ some '0' := by
    rcases Nat.eq_zero_or_pos n with rfl | hpos
    · exact Or.inl rfl
    · exact Or.inr (head_toDigits_ne hpos)
  have hvalue : ofDigits 10 decimalValue (Nat.toDigits 10 n) = n := Nat.ofDigitChars_ten_toDigits
  unfold parseOctet
  rw [hvalue, if_pos ⟨hascii, hlength, hzero, by omega⟩]

theorem notMem_toDigits {c : Char} (hc : c.isDigit = false) (n : ℕ) : c ∉ Nat.toDigits 10 n := by
  intro h
  rw [Nat.isDigit_of_mem_toDigits (by decide) (by decide) h] at hc
  cases hc

/-- **An address is read back from its text.** -/
theorem ipv4OfString_ipv4String (hn : n < 2 ^ 32) :
    ipv4OfString (ipv4String n) = some n := by
  have hparts : (ipv4String n).splitOn '.' = (fixedDigits 256 4 n).map (Nat.toDigits 10) := by
    refine splitOn_intercalate '.' ?_ ?_
    · intro s hs
      obtain ⟨d, -, rfl⟩ := mem_map.mp hs
      exact notMem_toDigits rfl d
    · exact ne_nil_of_length_pos (by simp)
  have hlength : ¬((fixedDigits 256 4 n).map (Nat.toDigits 10)).length ≠ 4 := by simp
  unfold ipv4OfString
  rw [hparts]
  simp only [if_neg hlength, mapM_map_eq_some fun d hd =>
    parseOctet_toDigits (lt_of_mem_fixedDigits (by decide) hd)]
  exact congrArg some (ofDigits_fixedDigits hn)

/-! ### Numbers to base sixteen -/

/-- The digits of a number of 16 bits, without leading zeros. -/
theorem hexString_eq (hn : n < 65536) :
    ∃ ds : List ℕ, hexString n = ds.map hexDigit ∧ ds ≠ [] ∧ ds.length ≤ 4 ∧ (∀ d ∈ ds, d < 16) ∧
      ds.foldl (fun m d => 16 * m + d) 0 = n := by
  have hzeros : ∀ ds : List ℕ, (ds.dropWhile (· == 0)).foldl (fun m d => 16 * m + d) 0 =
      ds.foldl (fun m d => 16 * m + d) 0 := by
    intro ds
    induction ds with
    | nil => rfl
    | cons d ds ih =>
      by_cases hd : d = 0
      · subst hd
        exact ih
      · rw [dropWhile_cons_of_neg (by simpa using hd)]
  have hsub := dropWhile_sublist (l := [n / 4096 % 16, n / 256 % 16, n / 16 % 16, n % 16])
    (· == 0)
  have hvalue := hzeros [n / 4096 % 16, n / 256 % 16, n / 16 % 16, n % 16]
  have hall : [n / 4096 % 16, n / 256 % 16, n / 16 % 16, n % 16].foldl
      (fun m d => 16 * m + d) 0 = n := by
    simp only [foldl_cons, foldl_nil]
    omega
  rw [hall] at hvalue
  unfold hexString
  dsimp only
  split_ifs with hnil
  · rw [hnil] at hvalue
    exact ⟨[0], rfl, cons_ne_nil _ _, by decide, by decide, hvalue⟩
  · refine ⟨_, rfl, hnil, hsub.length_le, fun d hd => ?_, hvalue⟩
    have hmem := hsub.subset hd
    simp only [mem_cons, not_mem_nil, or_false] at hmem
    omega

/-- A hexadecimal digit in lower case. -/
def isHexText (c : Char) : Bool := c.isDigit || decide ('a' ≤ c ∧ c ≤ 'f')

theorem isHexText_of_mem (hn : n < 65536) {c : Char} (hc : c ∈ hexString n) :
    isHexText c = true := by
  obtain ⟨ds, hds, -, -, hlt, -⟩ := hexString_eq hn
  rw [hds] at hc
  obtain ⟨d, hd, rfl⟩ := mem_map.mp hc
  have hall : ∀ d : Fin 16, isHexText (hexDigit d) = true := by decide
  exact hall ⟨d, hlt d hd⟩

theorem hexString_ne_nil (hn : n < 65536) : hexString n ≠ [] := by
  obtain ⟨ds, hds, hne, -⟩ := hexString_eq hn
  rw [hds]
  exact fun h => hne (map_eq_nil_iff.mp h)

/-- **A number of 16 bits is read back from its digits.** -/
theorem parseHextet_hexString (hn : n < 65536) : parseHextet (hexString n) = some n := by
  obtain ⟨ds, hds, hne, hlength, hlt, hvalue⟩ := hexString_eq hn
  have hdigits : (ds.map hexDigit).mapM hexValue = some ds :=
    mapM_map_eq_some fun d hd => hexValue_hexDigit (hlt d hd)
  unfold parseHextet
  rw [hds, hdigits]
  have hshort : ¬(ds.map hexDigit = [] ∨ 4 < (ds.map hexDigit).length) := by
    rw [map_eq_nil_iff, length_map, not_or]
    exact ⟨hne, not_lt.mpr hlength⟩
  simp only [if_neg hshort, hvalue, Option.bind_eq_bind, Option.bind_some, Option.pure_def]

theorem mapM_parseHextet {ns : List ℕ} (hns : ∀ n ∈ ns, n < 65536) :
    (ns.map hexString).mapM parseHextet = some ns :=
  mapM_map_eq_some fun n hn => parseHextet_hexString (hns n hn)

theorem hexString_eq_zero (hn : n < 65536) : hexString n = ['0'] ↔ n = 0 := by
  constructor
  · intro h
    have hread := parseHextet_hexString hn
    rw [h] at hread
    exact (Option.some.inj hread).symm
  · rintro rfl
    rfl

/-! ### The longest run of zeros -/

/-- What the loop knows is right: both runs consist of zeros, and the run that it is in ends where
the loop has come to. -/
structure ZeroRuns.Sound (runs : ZeroRuns) (seen : List Str) : Prop where
  best : ∃ before behind, seen = before ++ replicate runs.bestLen ['0'] ++ behind ∧
    before.length = runs.bestStart
  here : ∃ before, seen = before ++ replicate runs.len ['0'] ∧
    runs.start = if runs.len = 0 then none else some before.length

theorem ZeroRuns.Sound.next {runs : ZeroRuns} {seen : List Str} (h : runs.Sound seen) (s : Str) :
    (runs.next (s, seen.length)).Sound (seen ++ [s]) := by
  obtain ⟨⟨before, behind, hbest, hstart⟩, ⟨prior, hhere, hopt⟩⟩ := h
  have hkeep : ∃ before behind, seen ++ [s] =
      before ++ replicate runs.bestLen ['0'] ++ behind ∧ before.length = runs.bestStart :=
    ⟨before, behind ++ [s], by rw [hbest, append_assoc _ behind], hstart⟩
  unfold ZeroRuns.next
  dsimp only
  split_ifs with hzero hlonger
  all_goals try subst hzero
  all_goals
    have hrun : seen ++ [['0']] = prior ++ replicate (runs.len + 1) ['0'] ∧
        runs.start.getD seen.length = prior.length := by
      refine ⟨by rw [hhere, replicate_succ', append_assoc], ?_⟩
      rw [hopt]
      split_ifs with hlen
      · rw [hhere, hlen]
        simp
      · rfl
  · exact ⟨⟨prior, [], by rw [append_nil]; exact hrun.1, hrun.2.symm⟩,
      ⟨prior, hrun.1, by rw [if_neg (Nat.succ_ne_zero _), hrun.2]⟩⟩
  · exact ⟨hkeep, ⟨prior, hrun.1, by rw [if_neg (Nat.succ_ne_zero _), hrun.2]⟩⟩
  · exact ⟨hkeep, ⟨seen ++ [s], (append_nil _).symm, rfl⟩⟩

/-- **The loop finds a run of zeros.** -/
theorem zeroRuns_sound (hextets : List Str) : (zeroRuns hextets).Sound hextets := by
  have hrun : ∀ (rest seen : List Str) (runs : ZeroRuns), runs.Sound seen →
      ((rest.zipIdx seen.length).foldl ZeroRuns.next runs).Sound (seen ++ rest) := by
    intro rest
    induction rest with
    | nil =>
      intro seen runs h
      rwa [append_nil]
    | cons s rest ih =>
      intro seen runs h
      have hnext := ih (seen ++ [s]) _ (h.next s)
      rwa [length_append, length_singleton, append_assoc] at hnext
  exact hrun hextets [] _ ⟨⟨[], [], rfl, rfl⟩, ⟨[], rfl, rfl⟩⟩

/-- Groups with an empty one between them, and one more where there is none before or behind it. -/
def squeezed (high low : List Str) : List Str :=
  (if high = [] then [[]] else []) ++ high ++ [] :: (low ++ if low = [] then [[]] else [])

/-- **The longest run of zeros is left out**, if it is longer than one. -/
theorem compressHextets_eq (hextets : List Str) : compressHextets hextets = hextets ∨
    ∃ high low k, hextets = high ++ replicate (k + 2) ['0'] ++ low ∧
      compressHextets hextets = squeezed high low := by
  obtain ⟨high, low, hbest, hstart⟩ := (zeroRuns_sound hextets).best
  by_cases hlen : 1 < (zeroRuns hextets).bestLen
  · right
    refine ⟨high, low, (zeroRuns hextets).bestLen - 2, by rwa [Nat.sub_add_cancel hlen], ?_⟩
    have hend : (zeroRuns hextets).bestStart + (zeroRuns hextets).bestLen = hextets.length ↔
        low = [] := by
      conv_lhs => rhs; rw [hbest]
      rw [← hstart, length_append, length_append, length_replicate,
        ← length_eq_zero_iff]
      omega
    have hfirst : (zeroRuns hextets).bestStart = 0 ↔ high = [] := by
      rw [← hstart, length_eq_zero_iff]
    have hlonger : (if low = [] then hextets ++ [[]] else hextets) =
        high ++ (replicate (zeroRuns hextets).bestLen ['0'] ++
          (low ++ if low = [] then [[]] else [])) := by
      conv_lhs => rw [hbest]
      split_ifs <;> simp
    unfold compressHextets squeezed
    simp only [if_pos hlen, hend, hfirst, hlonger]
    rw [← hstart, take_left, ← drop_drop, drop_left,
      drop_left' (length_replicate ..)]
    split_ifs <;> rfl
  · left
    unfold compressHextets
    rw [if_neg hlen]

/-! ### Reading the groups back -/

section Groups
variable {high low : List Str}

theorem length_squeezed : (squeezed high low).length =
    (if high = [] then 1 else 0) + high.length + 1 + low.length + if low = [] then 1 else 0 := by
  unfold squeezed
  simp only [length_append, length_cons]
  split_ifs <;> simp <;> omega

variable (high low) in
theorem length_squeezed_bounds : 3 ≤ (squeezed high low).length ∧
    (squeezed high low).length ≤ high.length + low.length + 3 := by
  rw [length_squeezed]
  have hhigh := length_pos_iff (l := high)
  have hlow := length_pos_iff (l := low)
  split_ifs with h h' h'
  · omega
  · have := hlow.mpr h'
    omega
  · have := hhigh.mpr h
    omega
  · have := hlow.mpr h'
    have := hhigh.mpr h
    omega

theorem head_squeezed (hne : ∀ s ∈ high, s ≠ []) :
    (squeezed high low).head? = some [] ↔ high = [] := by
  unfold squeezed
  rcases high with _ | ⟨s, high⟩
  · simp
  · simpa using hne s mem_cons_self

theorem getLast_squeezed (hne : ∀ s ∈ low, s ≠ []) :
    (squeezed high low).getLast? = some [] ↔ low = [] := by
  unfold squeezed
  rcases eq_nil_or_concat low with rfl | ⟨low, s, rfl⟩
  · simp
  · have hs := hne s (by simp)
    have hlow : ¬low ++ [s] = [] := by simp
    rw [concat_eq_append, if_neg hlow, append_nil, ← cons_append,
      ← append_assoc, getLast?_concat, Option.some.injEq]
    exact iff_of_false hs hlow

/-- One empty group among others is the only one to be skipped. -/
theorem skipIndices_eq {first last : Str} (hhigh : ∀ s ∈ high, s ≠ []) (hlow : ∀ s ∈ low, s ≠ []) :
    skipIndices (first :: (high ++ [] :: low ++ [last])) = [high.length + 1] := by
  have hplace : ∀ i ∈ range' 1 (high.length + low.length + 1),
      decide ((first :: (high ++ [] :: low ++ [last]))[i]? = some []) = (i == high.length + 1) := by
    intro i hi
    obtain ⟨j, rfl⟩ := Nat.exists_eq_add_of_le' (mem_range'_1.mp hi).1
    have hj : j < high.length + (low.length + 1) := by
      have hlt := (mem_range'_1.mp hi).2
      omega
    rw [getElem?_cons_succ, append_assoc, cons_append, Bool.eq_iff_iff,
      decide_eq_true_eq, beq_iff_eq, Nat.add_right_cancel_iff]
    rcases lt_trichotomy j high.length with h | rfl | h
    · rw [getElem?_append_left h, getElem?_eq_getElem h, Option.some.injEq]
      exact iff_of_false (hhigh _ (getElem_mem h)) h.ne
    · rw [getElem?_append_right le_rfl, Nat.sub_self]
      exact iff_of_true rfl rfl
    · obtain ⟨k, rfl⟩ := Nat.exists_eq_add_of_lt h
      have hk : k < low.length := by omega
      rw [getElem?_append_right (by omega), show high.length + k + 1 - high.length = k + 1 by
        omega, getElem?_cons_succ, getElem?_append_left hk, getElem?_eq_getElem hk,
        Option.some.injEq]
      exact iff_of_false (hlow _ (getElem_mem hk)) (by omega)
  have hlength : (first :: (high ++ [] :: low ++ [last])).length - 2 =
      high.length + low.length + 1 := by
    simp
    omega
  unfold skipIndices
  rw [hlength, filter_congr hplace, filter_beq,
    (nodup_range' ..).count, if_pos (mem_range'_1.mpr (by omega))]
  rfl

theorem skipIndices_squeezed (hhigh : ∀ s ∈ high, s ≠ []) (hlow : ∀ s ∈ low, s ≠ []) :
    skipIndices (squeezed high low) = [if high = [] then 1 else high.length] := by
  have hfirst : ∃ first rest, (if high = [] then [[]] else []) ++ high = first :: rest ∧
      (∀ s ∈ rest, s ≠ []) ∧ rest.length + 1 = if high = [] then 1 else high.length := by
    rcases high with _ | ⟨s, high⟩
    · exact ⟨[], [], rfl, by simp, rfl⟩
    · exact ⟨s, high, rfl, fun t ht => hhigh t (mem_cons_of_mem s ht), rfl⟩
  have hlast : ∃ rest last, low ++ (if low = [] then [[]] else []) = rest ++ [last] ∧
      ∀ s ∈ rest, s ≠ [] := by
    rcases eq_nil_or_concat low with rfl | ⟨low, s, rfl⟩
    · exact ⟨[], [], rfl, by simp⟩
    · exact ⟨low, s, by simp, fun t ht => hlow t (by simp [ht])⟩
  obtain ⟨first, rest, hfirst, hne, hlength⟩ := hfirst
  obtain ⟨rest', last, hlast, hne'⟩ := hlast
  unfold squeezed
  rw [hfirst, hlast, ← cons_append, ← append_assoc, cons_append, cons_append,
    skipIndices_eq hne hne', hlength]

/-- **Where the groups stand**: those before and after the empty one. -/
theorem ipv6Shape_squeezed (hhigh : ∀ s ∈ high, s ≠ []) (hlow : ∀ s ∈ low, s ≠ [])
    (hlength : high.length + low.length < 8) : ipv6Shape (squeezed high low) =
      some (high.length, low.length, 8 - (high.length + low.length)) := by
  have hhi : (if high = [] then (if high = [] then 1 else high.length) - 1
      else if high = [] then 1 else high.length) = high.length := by
    split_ifs with h
    · rw [h]
      rfl
    · rfl
  have hlo : (if low = [] then (squeezed high low).length -
        (if high = [] then 1 else high.length) - 1 - 1
      else (squeezed high low).length - (if high = [] then 1 else high.length) - 1) =
        low.length := by
    rw [length_squeezed]
    split_ifs with h h' h'
    all_goals
      try rw [h]
      try rw [h']
      simp
      try omega
  unfold ipv6Shape
  rw [skipIndices_squeezed hhigh hlow]
  simp only [head_squeezed hhigh, getLast_squeezed hlow]
  rw [hhi, hlo, if_neg, if_pos hlength]
  rintro (⟨rfl, h⟩ | ⟨rfl, h⟩) <;> exact h rfl

variable (high low) in
theorem take_squeezed : (squeezed high low).take high.length = high := by
  unfold squeezed
  split_ifs with h <;> simp [h]

variable (high low) in
theorem drop_squeezed : (squeezed high low).drop ((squeezed high low).length - low.length) =
    low := by
  by_cases h : low = []
  · simp [h]
  · have hsplit : squeezed high low = ((if high = [] then [[]] else []) ++ high ++ [[]]) ++ low := by
      unfold squeezed
      rw [if_neg h, append_nil, append_assoc _ [[]]]
      rfl
    rw [hsplit]
    exact drop_left' (Nat.eq_sub_of_add_eq (by simp only [length_append]))

theorem mem_squeezed {s : Str} (h : s ∈ squeezed high low) : s ∈ high ∨ s ∈ low ∨ s = [] := by
  unfold squeezed at h
  split_ifs at h <;> simp at h <;> tauto

end Groups

theorem ipv6Parts_intercalate {parts : List Str} (hlength : 3 ≤ parts.length)
    (hparts : ∀ s ∈ parts, ∀ c ∈ s, isHexText c = true) :
    ipv6Parts (intercalate [':'] parts) = some parts := by
  have hcolon : ∀ s ∈ parts, ':' ∉ s := fun s hs hc => by cases hparts s hs _ hc
  have hdot : '.' ∉ parts.getLastD [] := by
    intro hc
    have hne : parts ≠ [] := ne_nil_of_length_pos (by omega)
    rw [getLastD_eq_getLast?, getLast?_eq_some_getLast hne, Option.getD_some] at hc
    cases hparts _ (getLast_mem hne) _ hc
  unfold ipv6Parts
  rw [splitOn_intercalate ':' hcolon (ne_nil_of_length_pos (by omega))]
  simp only [if_neg (not_lt.mpr hlength), if_neg hdot]
  rfl

/-- The number that stands for groups of 16 bits. -/
def ofHextets (init : ℕ) (ns : List ℕ) : ℕ := ns.foldl (fun n h => 65536 * n + h) init

section Value
variable {high low : List ℕ}

theorem ofHextets_zeros (k : ℕ) : ofHextets 0 (high ++ replicate k 0 ++ low) =
    ofHextets (ofHextets 0 high * 2 ^ (16 * k)) low := by
  have hzeros : ∀ n, ofHextets n (replicate k 0) = n * 2 ^ (16 * k) := by
    induction k with
    | zero =>
      intro n
      simp [ofHextets]
    | succ k ih =>
      intro n
      rw [replicate_succ]
      change ofHextets (65536 * n + 0) (replicate k 0) = _
      rw [ih, Nat.add_zero, Nat.mul_add 16, pow_add, mul_comm 65536 n, mul_assoc,
        mul_comm 65536]
      rfl
  unfold ofHextets at hzeros ⊢
  rw [foldl_append, foldl_append, hzeros]

theorem isHexText_group (hhigh : ∀ n ∈ high, n < 65536) {s : Str} (hs : s ∈ high.map hexString) :
    s ≠ [] ∧ ∀ c ∈ s, isHexText c = true := by
  obtain ⟨n, hn, rfl⟩ := mem_map.mp hs
  exact ⟨hexString_ne_nil (hhigh n hn), fun c hc => isHexText_of_mem (hhigh n hn) hc⟩

/-- **A shortened text** is read with zeros for what it leaves out. -/
theorem ipv6OfString_squeezed (hhigh : ∀ n ∈ high, n < 65536) (hlow : ∀ n ∈ low, n < 65536)
    (hlength : high.length + low.length ≤ 6) :
    ipv6OfString (intercalate [':'] (squeezed (high.map hexString) (low.map hexString))) =
      some (ofHextets (ofHextets 0 high * 2 ^ (16 * (8 - (high.length + low.length)))) low) := by
  have hparts : ∀ s ∈ squeezed (high.map hexString) (low.map hexString),
      ∀ c ∈ s, isHexText c = true := by
    intro s hs
    rcases mem_squeezed hs with h | h | rfl
    · exact (isHexText_group hhigh h).2
    · exact (isHexText_group hlow h).2
    · intro c hc
      cases hc
  obtain ⟨hthree, hnine⟩ := length_squeezed_bounds (high.map hexString) (low.map hexString)
  rw [length_map, length_map] at hnine
  have hshape := ipv6Shape_squeezed (fun s hs => (isHexText_group hhigh hs).1)
    (fun s hs => (isHexText_group hlow hs).1) (by simp only [length_map]; omega)
  have htake := take_squeezed (high.map hexString) (low.map hexString)
  have hdrop := drop_squeezed (high.map hexString) (low.map hexString)
  rw [length_map] at htake hdrop
  rw [length_map, length_map] at hshape
  unfold ipv6OfString
  rw [ipv6Parts_intercalate hthree hparts]
  simp only [Option.bind_eq_bind, Option.bind_some, hshape, htake, hdrop,
    if_neg (not_lt.mpr (hnine.trans (Nat.add_le_add_right hlength 3))), mapM_parseHextet hhigh,
    mapM_parseHextet hlow]
  rfl

/-- **A text of eight groups** is read group by group. -/
theorem ipv6OfString_full (hhigh : ∀ n ∈ high, n < 65536) (hlength : high.length = 8) :
    ipv6OfString (intercalate [':'] (high.map hexString)) = some (ofHextets 0 high) := by
  have hmap : (high.map hexString).length = 8 := by rw [length_map, hlength]
  have hne : ∀ i, (high.map hexString)[i]? ≠ some [] := fun i h =>
    (isHexText_group hhigh (mem_of_getElem? h)).1 rfl
  have hskip : skipIndices (high.map hexString) = [] := by
    unfold skipIndices
    rw [filter_eq_nil_iff]
    intro i _
    simpa using hne i
  have hhead : (high.map hexString).head? ≠ some [] := by
    rw [head?_eq_getElem?]
    exact hne 0
  have hlast : (high.map hexString).getLast? ≠ some [] := by
    rw [getLast?_eq_getElem?]
    exact hne _
  have hshape : ipv6Shape (high.map hexString) = some (8, 0, 0) := by
    unfold ipv6Shape
    rw [hskip]
    exact if_pos ⟨hmap, hhead, hlast⟩
  unfold ipv6OfString
  rw [ipv6Parts_intercalate (by omega) fun s hs => (isHexText_group hhigh hs).2]
  simp only [Option.bind_eq_bind, Option.bind_some, if_neg (show ¬9 < (high.map hexString).length by
    omega), hshape, take_of_length_le hmap.le, Nat.sub_zero, drop_length,
    mapM_parseHextet hhigh, mapM_nil, mul_zero, pow_zero, mul_one]
  rfl

end Value

/-- **An address is read back from its text.** -/
theorem ipv6OfString_ipv6String (hn : n < 2 ^ 128) :
    ipv6OfString (ipv6String n) = some n := by
  have hvalue : ofHextets 0 (fixedDigits 65536 8 n) = n := ofDigits_fixedDigits hn
  have hlt : ∀ d ∈ fixedDigits 65536 8 n, d < 65536 := fun d hd =>
    lt_of_mem_fixedDigits (by decide) hd
  unfold ipv6String
  rcases compressHextets_eq ((fixedDigits 65536 8 n).map hexString) with
    h | ⟨high, low, k, hsplit, h⟩
  · rw [h, ipv6OfString_full hlt (length_fixedDigits ..), hvalue]
  · obtain ⟨front, ls, hfront, hmap, rfl⟩ := map_eq_append_iff.mp hsplit
    obtain ⟨hs, zs, rfl, rfl, hzeros⟩ := map_eq_append_iff.mp hmap
    have hzs : zs = replicate (k + 2) 0 := by
      rw [eq_replicate_iff] at hzeros ⊢
      rw [length_map] at hzeros
      refine ⟨hzeros.1, fun z hz => (hexString_eq_zero ?_).mp (hzeros.2 _ (mem_map_of_mem hz))⟩
      exact hlt z (by simp [hfront, hz])
    subst hzs
    have hcount := congrArg List.length hfront
    rw [length_fixedDigits, length_append, length_append, length_replicate] at hcount
    rw [h, ipv6OfString_squeezed (fun d hd => hlt d (by simp [hfront, hd]))
      (fun d hd => hlt d (by simp [hfront, hd])) (by omega), ← hvalue, hfront, ofHextets_zeros]
    rw [show 8 - (hs.length + ls.length) = k + 2 by omega]

/-! ### What is read is an address -/

theorem hexValue_lt {c : Char} (h : hexValue c = some n) : n < 16 := by
  unfold hexValue at h
  split_ifs at h with hdigit hlower hupper
  all_goals cases h
  · simp only [Char.isDigit, Bool.and_eq_true, decide_eq_true_eq] at hdigit
    have hle : c.toNat ≤ 57 := hdigit.2
    omega
  · have hle : c.toNat ≤ 102 := hlower.2
    omega
  · have hle : c.toNat ≤ 70 := hupper.2
    omega

theorem parseOctet_some (h : parseOctet s = some n) :
    n < 256 ∧ ∀ c ∈ s, c.isDigit = true := by
  unfold parseOctet at h
  split_ifs at h with hs
  cases h
  refine ⟨by omega, fun c hc => ?_⟩
  have hdigits := hs.1
  unfold isAsciiDigits at hdigits
  rw [Bool.and_eq_true, all_eq_true] at hdigits
  exact hdigits.2 c hc

theorem ipv4OfString_some (h : ipv4OfString s = some n) :
    n < 2 ^ 32 ∧ ∀ c ∈ s, c.isDigit = true ∨ c = '.' := by
  unfold ipv4OfString at h
  dsimp only at h
  split_ifs at h with hlength
  obtain ⟨octets, hoctets, h⟩ := Option.bind_eq_some_iff.mp h
  cases h
  constructor
  · have hlt : ∀ o ∈ octets, o < 256 := by
      intro o ho
      obtain ⟨t, -, ht⟩ := exists_of_mem_mapM_some hoctets ho
      exact (parseOctet_some ht).1
    have hfour : octets.length = 4 := by
      rw [← (forall₂_of_mapM hoctets).length_eq]
      exact not_not.mp hlength
    have hbound := foldl_lt hlt 0
    rwa [hfour] at hbound
  · intro c hc
    rcases mem_splitOn '.' hc with rfl | ⟨t, ht, hct⟩
    · exact Or.inr rfl
    · obtain ⟨o, ho⟩ := exists_of_mem_mapM_some_left hoctets ht
      exact Or.inl ((parseOctet_some ho).2 c hct)

theorem parseHextet_some (h : parseHextet s = some n) :
    n < 65536 ∧ ∀ c ∈ s, hexValue c ≠ none := by
  unfold parseHextet at h
  obtain ⟨ds, hds, h⟩ := Option.bind_eq_some_iff.mp h
  split_ifs at h with hlength
  cases h
  rw [not_or, not_lt] at hlength
  constructor
  · have hlt : ∀ d ∈ ds, d < 16 := by
      intro d hd
      obtain ⟨c, -, hc⟩ := exists_of_mem_mapM_some hds hd
      exact hexValue_lt hc
    calc ds.foldl (fun n d => 16 * n + d) 0 < (0 + 1) * 16 ^ ds.length := foldl_lt hlt 0
      _ ≤ (0 + 1) * 16 ^ 4 := by
          rw [← (forall₂_of_mapM hds).length_eq]
          exact Nat.mul_le_mul_left _ (Nat.pow_le_pow_right (by decide) hlength.2)
      _ = 65536 := rfl
  · intro c hc
    obtain ⟨d, hd⟩ := exists_of_mem_mapM_some_left hds hc
    rw [hd]
    exact Option.some_ne_none d

/-- The groups of an address and the zeros left out are eight, and every group but an empty one is
among them. -/
theorem ipv6Shape_some {parts : List Str} {hi lo skipped : ℕ}
    (h : ipv6Shape parts = some (hi, lo, skipped)) : hi + lo + skipped = 8 ∧
      ∀ i s, parts[i]? = some s → s = [] ∨ i < hi ∨ parts.length - lo ≤ i := by
  unfold ipv6Shape at h
  split at h
  · split_ifs at h with hfull
    cases h
    refine ⟨rfl, fun i s hi => ?_⟩
    have hlt := (List.getElem?_eq_some_iff.mp hi).1
    omega
  · rename_i skip hskip
    have hmem : skip ∈ skipIndices parts := by
      rw [hskip]
      exact mem_singleton_self skip
    unfold skipIndices at hmem
    rw [mem_filter, mem_range'_1, decide_eq_true_eq] at hmem
    obtain ⟨⟨hone, hend⟩, hempty⟩ := hmem
    have hplace : ∀ i s, parts[i]? = some s → s = [] ∨
        (i < skip ∧ (parts.head? = some [] → 1 ≤ i)) ∨
          (skip < i ∧ i < parts.length ∧ (parts.getLast? = some [] → i < parts.length - 1)) := by
      intro i s hi
      have hlt := (List.getElem?_eq_some_iff.mp hi).1
      rw [head?_eq_getElem?, getLast?_eq_getElem?]
      by_cases hs : s = []
      · exact Or.inl hs
      rcases lt_trichotomy i skip with hi' | rfl | hi'
      · refine Or.inr (Or.inl ⟨hi', fun hhead => Nat.one_le_iff_ne_zero.mpr ?_⟩)
        rintro rfl
        exact hs (Option.some.inj (hi.symm.trans hhead))
      · exact Or.inl (Option.some.inj (hi.symm.trans hempty))
      · refine Or.inr (Or.inr ⟨hi', hlt, fun hlast => lt_of_le_of_ne (by omega) ?_⟩)
        rintro rfl
        exact hs (Option.some.inj (hi.symm.trans hlast))
    dsimp only at h
    by_cases hhead : parts.head? = some [] <;> by_cases hlast : parts.getLast? = some []
    all_goals
      simp only [hhead, hlast, if_true, if_false, true_and, false_and, or_false, false_or,
        true_imp_iff, false_imp_iff, and_true] at h hplace
      split_ifs at h with hbad
      cases h
      refine ⟨by omega, fun i s hi => ?_⟩
      rcases hplace i s hi with hs | hs | hs
      · exact Or.inl hs
      · omega
      · omega
  · cases h


/-- A character of a text is a colon, of the IPv4 suffix, or in one of its groups. -/
theorem ipv6Parts_some {parts : List Str} (h : ipv6Parts s = some parts) :
    ':' ∈ s ∧ ∀ c ∈ s, c = ':' ∨ (c.isDigit = true ∨ c = '.') ∨ ∃ t ∈ parts, c ∈ t := by
  unfold ipv6Parts at h
  dsimp only at h
  by_cases hthree : (s.splitOn ':').length < 3
  · rw [if_pos hthree] at h
    cases h
  rw [if_neg hthree] at h
  have hcolon : ':' ∈ s := by
    by_contra hc
    rw [splitOn_eq_singleton hc, length_singleton] at hthree
    exact hthree (by decide)
  refine ⟨hcolon, fun c hc => ?_⟩
  rcases mem_splitOn ':' hc with rfl | ⟨t, ht, hct⟩
  · exact Or.inl rfl
  split_ifs at h
  · obtain ⟨m, hm, h⟩ := Option.bind_eq_some_iff.mp h
    cases h
    rcases eq_nil_or_concat (s.splitOn ':') with hnil | ⟨front, last, hsplit⟩
    · exact absurd hnil (splitOn_ne_nil ':' s)
    rw [concat_eq_append] at hsplit
    rw [hsplit, getLastD_concat] at hm
    rw [hsplit] at ht ⊢
    rcases mem_append.mp ht with ht | ht
    · exact Or.inr (Or.inr ⟨t, by simp [ht], hct⟩)
    · rw [mem_singleton.mp ht] at hct
      exact Or.inr (Or.inl ((ipv4OfString_some hm).2 c hct))
  · cases h
    exact Or.inr (Or.inr ⟨t, ht, hct⟩)

theorem ipv6OfString_eq_some (h : ipv6OfString s = some n) :
    ∃ parts hi lo skipped high low, ipv6Parts s = some parts ∧
      ipv6Shape parts = some (hi, lo, skipped) ∧ (parts.take hi).mapM parseHextet = some high ∧
      (parts.drop (parts.length - lo)).mapM parseHextet = some low ∧
      n = ofHextets (ofHextets 0 high * 2 ^ (16 * skipped)) low := by
  unfold ipv6OfString at h
  obtain ⟨parts, hparts, h⟩ := Option.bind_eq_some_iff.mp h
  dsimp only at h
  split_ifs at h
  · cases h
  obtain ⟨⟨hi, lo, skipped⟩, hshape, h⟩ := Option.bind_eq_some_iff.mp h
  obtain ⟨high, hhigh, h⟩ := Option.bind_eq_some_iff.mp h
  obtain ⟨low, hlow, h⟩ := Option.bind_eq_some_iff.mp h
  exact ⟨parts, hi, lo, skipped, high, low, hparts, hshape, hhigh, hlow, (Option.some.inj h).symm⟩

/-- **The text of an IPv6 address** consists of hexadecimal digits, colons and dots, with a colon
among them. -/
theorem ipv6OfString_some (h : ipv6OfString s = some n) :
    ':' ∈ s ∧ ∀ c ∈ s, hexValue c ≠ none ∨ c = ':' ∨ c = '.' := by
  obtain ⟨parts, hi, lo, skipped, high, low, hparts, hshape, hhigh, hlow, -⟩ :=
    ipv6OfString_eq_some h
  obtain ⟨hcolon, hchars⟩ := ipv6Parts_some hparts
  refine ⟨hcolon, fun c hc => ?_⟩
  rcases hchars c hc with rfl | (hdigit | rfl) | ⟨t, ht, hct⟩
  · exact Or.inr (Or.inl rfl)
  · left
    unfold hexValue
    rw [if_pos hdigit]
    exact Option.some_ne_none _
  · exact Or.inr (Or.inr rfl)
  left
  obtain ⟨i, hi'⟩ := getElem?_of_mem ht
  rcases (ipv6Shape_some hshape).2 i t hi' with rfl | hlt | hle
  · cases hct
  · have hmem : t ∈ parts.take hi :=
      mem_of_getElem? (i := i) (by rwa [getElem?_take_of_lt hlt])
    obtain ⟨m, hm⟩ := exists_of_mem_mapM_some_left hhigh hmem
    exact (parseHextet_some hm).2 c hct
  · have hmem : t ∈ parts.drop (parts.length - lo) := by
      refine mem_of_getElem? (i := i - (parts.length - lo)) ?_
      rwa [getElem?_drop, Nat.add_sub_cancel' hle]
    obtain ⟨m, hm⟩ := exists_of_mem_mapM_some_left hlow hmem
    exact (parseHextet_some hm).2 c hct

theorem ipv6OfString_lt (h : ipv6OfString s = some n) : n < 2 ^ 128 := by
  obtain ⟨parts, hi, lo, skipped, high, low, -, hshape, hhigh, hlow, rfl⟩ := ipv6OfString_eq_some h
  have hbound : ∀ {ts : List Str} {ns : List ℕ}, ts.mapM parseHextet = some ns →
      ∀ m ∈ ns, m < 65536 := by
    intro ts ns hns m hm
    obtain ⟨t, -, ht⟩ := exists_of_mem_mapM_some hns hm
    exact (parseHextet_some ht).1
  have hcount : high.length ≤ hi ∧ low.length ≤ lo := by
    rw [← (forall₂_of_mapM hhigh).length_eq, ← (forall₂_of_mapM hlow).length_eq,
      length_take, length_drop]
    omega
  have hsum := (ipv6Shape_some hshape).1
  have hpow : ∀ k, 65536 ^ k = 2 ^ (16 * k) := fun k => (pow_mul 2 16 k).symm
  have hhi : ofHextets 0 high + 1 ≤ 2 ^ (16 * hi) := by
    have hlt := foldl_lt (hbound hhigh) 0
    rw [zero_add, one_mul, hpow] at hlt
    exact hlt.trans_le (Nat.pow_le_pow_right (by decide) (by omega))
  calc ofHextets (ofHextets 0 high * 2 ^ (16 * skipped)) low
      < (ofHextets 0 high * 2 ^ (16 * skipped) + 1) * 65536 ^ low.length :=
        foldl_lt (hbound hlow) _
    _ ≤ ((ofHextets 0 high + 1) * 2 ^ (16 * skipped)) * 2 ^ (16 * lo) := by
        rw [hpow]
        refine Nat.mul_le_mul ?_ (Nat.pow_le_pow_right (by decide) (by omega))
        rw [Nat.add_mul, one_mul]
        exact Nat.add_le_add_left Nat.one_le_two_pow _
    _ ≤ (2 ^ (16 * hi) * 2 ^ (16 * skipped)) * 2 ^ (16 * lo) := by
        exact Nat.mul_le_mul_right _ (Nat.mul_le_mul_right _ hhi)
    _ = 2 ^ 128 := by
        rw [← pow_add, ← pow_add]
        congr 1
        omega

/-! ### Zones -/

/-- A zone with the sign before it, or nothing. -/
def IsZone (z : Str) : Prop := z = [] ∨ ∃ scope, z = '%' :: scope ∧ scope ≠ [] ∧ '%' ∉ scope

theorem dropScopeId_append {addr z : Str} (haddr : '%' ∉ addr) (hz : IsZone z) :
    dropScopeId (addr ++ z) = some addr ∧ scopeSuffix (addr ++ z) = z := by
  unfold dropScopeId scopeSuffix
  rcases hz with rfl | ⟨scope, rfl, hne, hscope⟩
  · have hnone : (partition '%' addr).2.1 = false := decide_eq_false haddr
    rw [append_nil]
    simp [hnone, partition_eq_self haddr]
  · rw [partition_append haddr]
    simp [hne, hscope]

theorem dropScopeId_some {addr : Str} (h : dropScopeId s = some addr) :
    ∃ z, s = addr ++ z ∧ '%' ∉ addr ∧ IsZone z := by
  unfold dropScopeId at h
  by_cases hmem : '%' ∈ s
  · obtain ⟨front, scope, rfl, hfront⟩ := eq_append_cons_of_mem hmem
    rw [partition_append hfront] at h
    dsimp only at h
    split_ifs at h with hbad
    cases h
    simp only [Bool.true_and, Bool.or_eq_true, List.isEmpty_iff, decide_eq_true_eq, not_or] at hbad
    exact ⟨'%' :: scope, rfl, hfront, Or.inr ⟨scope, rfl, hbad⟩⟩
  · have hnone : (partition '%' s).2.1 = false := decide_eq_false hmem
    simp only [hnone, Bool.false_and, Bool.false_eq_true, if_false, partition_eq_self hmem] at h
    cases h
    exact ⟨[], (append_nil s).symm, hmem, Or.inl rfl⟩

/-! ### The characters of an address -/

/-- The characters of an address without a zone, as `str` writes it. -/
def isIpChar (c : Char) : Bool := isHexText c || c == ':' || c == '.'

theorem isIpChar_ipv4String : ∀ c ∈ ipv4String n, isIpChar c = true := by
  intro c hc
  rcases mem_intercalate hc with rfl | ⟨s, hs, hcs⟩
  · rfl
  · obtain ⟨d, -, rfl⟩ := mem_map.mp hs
    have hdigit := Nat.isDigit_of_mem_toDigits (by decide) (by decide) hcs
    simp [isIpChar, isHexText, hdigit]

theorem isIpChar_ipv6String : ∀ c ∈ ipv6String n, isIpChar c = true := by
  have hgroup : ∀ s ∈ (fixedDigits 65536 8 n).map hexString, ∀ c ∈ s, isHexText c = true :=
    fun s hs => (isHexText_group (fun d hd => lt_of_mem_fixedDigits (by decide) hd) hs).2
  intro c hc
  rcases mem_intercalate hc with rfl | ⟨s, hs, hcs⟩
  · rfl
  have hmem : s ∈ (fixedDigits 65536 8 n).map hexString := by
    rcases compressHextets_eq ((fixedDigits 65536 8 n).map hexString) with
      h | ⟨high, low, k, hsplit, h⟩
    · rwa [h] at hs
    · rw [h] at hs
      rw [hsplit]
      rcases mem_squeezed hs with h | h | rfl
      · simp [h]
      · simp [h]
      · cases hcs
  simp [isIpChar, hgroup s hmem c hcs]

theorem notMem_of_isIpChar (hs : ∀ c ∈ s, isIpChar c = true) {c : Char}
    (hc : isIpChar c = false) : c ∉ s := by
  intro h
  rw [hs c h] at hc
  cases hc

/-! ### The text of an address -/

theorem ipv4OfString_ipv6 {z : Str} (h : ipv6OfString s = some n) :
    ipv4OfString (s ++ z) = none := by
  rw [Option.eq_none_iff_forall_ne_some]
  intro m hm
  rcases (ipv4OfString_some hm).2 ':' (mem_append_left z (ipv6OfString_some h).1) with hc | hc
  · cases hc
  · cases hc

theorem ipv6Address_some (h : ipv6Address s = some n) :
    '/' ∉ s ∧ ∃ addr z, s = addr ++ z ∧ '%' ∉ addr ∧ IsZone z ∧ ipv6OfString addr = some n := by
  unfold ipv6Address at h
  split_ifs at h with hslash
  obtain ⟨addr, haddr, h⟩ := Option.bind_eq_some_iff.mp h
  obtain ⟨z, hs, hpercent, hz⟩ := dropScopeId_some haddr
  exact ⟨hslash, addr, z, hs, hpercent, hz, h⟩

/-- **An address is read back from its text**, with any zone. -/
theorem ipv6Address_append (hn : n < 2 ^ 128) {z : Str} (hz : IsZone z)
    (hslash : '/' ∉ z) : ipv6Address (ipv6String n ++ z) = some n ∧
      scopeSuffix (ipv6String n ++ z) = z := by
  have hpercent : '%' ∉ ipv6String n := notMem_of_isIpChar isIpChar_ipv6String rfl
  have hnone : '/' ∉ ipv6String n ++ z := by
    rw [mem_append, not_or]
    exact ⟨notMem_of_isIpChar isIpChar_ipv6String rfl, hslash⟩
  obtain ⟨hdrop, hscope⟩ := dropScopeId_append hpercent hz
  refine ⟨?_, hscope⟩
  unfold ipv6Address
  rw [if_neg hnone, hdrop, Option.bind_eq_bind, Option.bind_some, ipv6OfString_ipv6String hn]

/-- **The text of an address** is its own text, and consists of the characters of an address and the
zone that it is written with. -/
theorem ipAddressText_some {t : Str} (h : ipAddressText s = some t) : ipAddressText t = some t ∧
    ∃ body z, t = body ++ z ∧ body ≠ [] ∧ (∀ c ∈ body, isIpChar c = true) ∧ z <:+ s := by
  unfold ipAddressText at h
  split at h
  · rename_i n hn
    cases h
    have hread := ipv4OfString_ipv4String (ipv4OfString_some hn).1
    refine ⟨?_, ipv4String n, [], (append_nil _).symm, ?_, isIpChar_ipv4String,
      nil_suffix⟩
    · unfold ipAddressText
      rw [hread]
    · intro hnil
      rw [hnil] at hread
      cases hread
  · obtain ⟨n, hn, rfl⟩ := Option.map_eq_some_iff.mp h
    obtain ⟨hslash, addr, z, rfl, hpercent, hz, haddr⟩ := ipv6Address_some hn
    have hlt := ipv6OfString_lt haddr
    have hread := ipv6OfString_ipv6String hlt
    rw [(dropScopeId_append hpercent hz).2]
    obtain ⟨hback, hscope⟩ := ipv6Address_append hlt hz
      fun hc => hslash (mem_append_right addr hc)
    refine ⟨?_, ipv6String n, z, rfl, ?_, isIpChar_ipv6String, suffix_append addr z⟩
    · unfold ipAddressText
      rw [ipv4OfString_ipv6 hread, hback]
      simp only [Option.map_some, hscope]
    · intro hnil
      rw [hnil] at hread
      cases hread

/-! ### The text of a network -/

section Networks
variable {R : Runtime}

theorem maskTo_maskTo (bits p ip : ℕ) : maskTo bits p (maskTo bits p ip) = maskTo bits p ip := by
  unfold maskTo
  rw [Nat.mul_div_cancel _ (Nat.two_pow_pos _)]

theorem maskTo_le (bits p ip : ℕ) : maskTo bits p ip ≤ ip := Nat.div_mul_le_self ip _

theorem splitAddrPrefix_of_notMem {s : Str} (h : '/' ∉ s) : splitAddrPrefix s = some (s, none) := by
  unfold splitAddrPrefix
  rw [splitOn_eq_singleton h]

theorem splitAddrPrefix_append {addr mask : Str} (haddr : '/' ∉ addr) (hmask : '/' ∉ mask) :
    splitAddrPrefix (addr ++ '/' :: mask) = some (addr, some mask) := by
  unfold splitAddrPrefix
  rw [splitOn_append_cons_self_of_not_mem haddr, splitOn_eq_singleton hmask]

/-- **A prefix is read back from its digits**, if the interpreter reads numbers of three digits. -/
theorem prefixOfString_toDigits (hR : R.maxStrDigits = 0 ∨ 3 ≤ R.maxStrDigits) {bits p : ℕ}
    (hp : p ≤ bits) (hbits : bits ≤ 128) :
    prefixOfString R bits (Nat.toDigits 10 p) = some p := by
  have hascii : isAsciiDigits (Nat.toDigits 10 p) = true := by
    simpa [isAsciiDigits, Nat.toDigits_ne_nil] using fun c hc =>
      Nat.isDigit_of_mem_toDigits (by decide) (by decide) hc
  have hlength : (Nat.toDigits 10 p).length ≤ 3 :=
    (Nat.length_toDigits_le_iff (by decide) (by decide)).mpr (by omega)
  have hvalue : ofDigits 10 decimalValue (Nat.toDigits 10 p) = p := Nat.ofDigitChars_ten_toDigits
  unfold prefixOfString
  rw [hvalue, if_pos ⟨hascii, hR.imp_right hlength.trans, hp⟩]

theorem prefixOfString_le {bits p : ℕ} {s : Str} (h : prefixOfString R bits s = some p) :
    p ≤ bits := by
  unfold prefixOfString at h
  split_ifs at h with hs
  cases h
  exact hs.2.2

theorem prefixOfIp_le {p : ℕ} {s : Str} (h : prefixOfIp s = some p) : p ≤ 32 := by
  have hmask : ∀ {m : ℕ}, prefixOfMask m = some p → p ≤ 32 := by
    intro m hm
    have hmem := mem_of_find?_eq_some hm
    rw [mem_range] at hmem
    omega
  unfold prefixOfIp at h
  obtain ⟨m, -, h⟩ := Option.bind_eq_some_iff.mp h
  rcases (Option.orElse_eq_some _ _ _).mp h with h | ⟨-, h⟩
  · exact hmask h
  · exact hmask h

theorem makeNetmaskV4_le {p : ℕ} {mask : Option Str} (h : makeNetmaskV4 R mask = some p) :
    p ≤ 32 := by
  cases mask with
  | none =>
    cases h
    exact le_rfl
  | some mask =>
    rcases (Option.orElse_eq_some _ _ _).mp h with h | ⟨-, h⟩
    · exact prefixOfString_le h
    · exact prefixOfIp_le h

theorem makeNetmaskV6_le {p : ℕ} {mask : Option Str} (h : makeNetmaskV6 R mask = some p) :
    p ≤ 128 := by
  cases mask with
  | none =>
    cases h
    exact le_rfl
  | some mask => exact prefixOfString_le h

theorem ipNetworkText_v4 (hR : R.maxStrDigits = 0 ∨ 3 ≤ R.maxStrDigits) {ip p : ℕ}
    (hip : ip < 2 ^ 32) (hp : p ≤ 32) (hmask : maskTo 32 p ip = ip) :
    ipNetworkText R (ipv4String ip ++ '/' :: Nat.toDigits 10 p) =
      some (ipv4String ip ++ '/' :: Nat.toDigits 10 p) := by
  have hslash : '/' ∉ ipv4String ip := notMem_of_isIpChar isIpChar_ipv4String rfl
  have hread : makeNetmaskV4 R (some (Nat.toDigits 10 p)) = some p := by
    change (prefixOfString R 32 (Nat.toDigits 10 p) <|> prefixOfIp (Nat.toDigits 10 p)) = some p
    rw [prefixOfString_toDigits hR hp (by decide)]
    rfl
  have htext : ipv4NetworkText R (ipv4String ip) (some (Nat.toDigits 10 p)) =
      some (ipv4String ip ++ '/' :: Nat.toDigits 10 p) := by
    unfold ipv4NetworkText
    simp only [ipv4OfString_ipv4String hip, hread, Option.bind_eq_bind, Option.bind_some, hmask]
    rfl
  unfold ipNetworkText
  simp only [splitAddrPrefix_append hslash (notMem_toDigits rfl p), Option.bind_eq_bind,
    Option.bind_some, htext]
  rfl

theorem ipNetworkText_v6 (hR : R.maxStrDigits = 0 ∨ 3 ≤ R.maxStrDigits) {ip p : ℕ}
    (hip : ip < 2 ^ 128) (hp : p ≤ 128) {z : Str} (hz : IsZone z) (hslash : '/' ∉ z) :
    ipNetworkText R (ipv6String ip ++ z ++ '/' :: Nat.toDigits 10 p) =
      some (ipv6String (maskTo 128 p ip) ++ (if maskTo 128 p ip = ip then z else []) ++
        '/' :: Nat.toDigits 10 p) := by
  have hnone : '/' ∉ ipv6String ip ++ z := by
    rw [mem_append, not_or]
    exact ⟨notMem_of_isIpChar isIpChar_ipv6String rfl, hslash⟩
  obtain ⟨hread, hscope⟩ := ipv6Address_append hip hz hslash
  have hprefix : makeNetmaskV6 R (some (Nat.toDigits 10 p)) = some p :=
    prefixOfString_toDigits hR hp le_rfl
  have hv4 : ipv4NetworkText R (ipv6String ip ++ z) (some (Nat.toDigits 10 p)) = none := by
    unfold ipv4NetworkText
    rw [ipv4OfString_ipv6 (ipv6OfString_ipv6String hip)]
    rfl
  have hv6 : ipv6NetworkText R (ipv6String ip ++ z) (some (Nat.toDigits 10 p)) =
      some (ipv6String (maskTo 128 p ip) ++ (if maskTo 128 p ip = ip then z else []) ++
        '/' :: Nat.toDigits 10 p) := by
    unfold ipv6NetworkText
    simp only [hread, hprefix, Option.bind_eq_bind, Option.bind_some, hscope]
    rfl
  unfold ipNetworkText
  simp only [splitAddrPrefix_append hnone (notMem_toDigits rfl p), Option.bind_eq_bind,
    Option.bind_some, hv4, hv6]
  rfl

/-- **The text of a network** is its own text; it starts with an address, and ends with a digit. -/
theorem ipNetworkText_some (hR : R.maxStrDigits = 0 ∨ 3 ≤ R.maxStrDigits) {s t : Str}
    (h : ipNetworkText R s = some t) : ipNetworkText R t = some t ∧
      ∃ body rest p, t = body ++ rest ++ Nat.toDigits 10 p ∧ body ≠ [] ∧
        ∀ c ∈ body, isIpChar c = true := by
  unfold ipNetworkText at h
  obtain ⟨⟨addr, mask⟩, -, h⟩ := Option.bind_eq_some_iff.mp h
  rcases (Option.orElse_eq_some _ _ _).mp h with h | ⟨-, h⟩
  · obtain ⟨ip, hip, h⟩ := Option.bind_eq_some_iff.mp h
    obtain ⟨p, hp, h⟩ := Option.bind_eq_some_iff.mp h
    obtain rfl := Option.some.inj h
    have hlt := (maskTo_le 32 p ip).trans_lt (ipv4OfString_some hip).1
    refine ⟨ipNetworkText_v4 hR hlt (makeNetmaskV4_le hp) (maskTo_maskTo 32 p ip),
      ipv4String (maskTo 32 p ip), ['/'], p, by simp, ?_, isIpChar_ipv4String⟩
    intro hnil
    have hread := ipv4OfString_ipv4String hlt
    rw [hnil] at hread
    cases hread
  · obtain ⟨ip, hip, h⟩ := Option.bind_eq_some_iff.mp h
    obtain ⟨p, hp, h⟩ := Option.bind_eq_some_iff.mp h
    obtain rfl := Option.some.inj h
    obtain ⟨hslash, front, z, rfl, hpercent, hz, haddr⟩ := ipv6Address_some hip
    have hlt := (maskTo_le 128 p ip).trans_lt (ipv6OfString_lt haddr)
    rw [(dropScopeId_append hpercent hz).2]
    have hzone : IsZone (if maskTo 128 p ip = ip then z else []) ∧
        '/' ∉ (if maskTo 128 p ip = ip then z else []) := by
      split_ifs
      · exact ⟨hz, fun hc => hslash (mem_append_right front hc)⟩
      · exact ⟨Or.inl rfl, not_mem_nil⟩
    have hself := ipNetworkText_v6 hR hlt (makeNetmaskV6_le hp) hzone.1 hzone.2
    rw [maskTo_maskTo, if_pos rfl] at hself
    refine ⟨hself, ipv6String (maskTo 128 p ip),
      (if maskTo 128 p ip = ip then z else []) ++ ['/'], p, by simp, ?_, isIpChar_ipv6String⟩
    intro hnil
    have hread := ipv6OfString_ipv6String hlt
    rw [hnil] at hread
    cases hread

end Networks

end Guardian.Python

import Guardian.Python.IpAddress
import Mathlib.Order.Fin.Basic

/-!
# Digits and UUIDs

Numbers written with a fixed number of digits, and `uuid.UUID`: a number of 128 bits, its text, and
the constructor that reads a text.
-/

namespace Guardian.Python

open List
/-! ### Numbers of a fixed width -/

/-- The last digits of a number, the highest first. -/
def fixedDigits (base : ℕ) : ℕ → ℕ → List ℕ
  | 0, _ => []
  | width + 1, n => fixedDigits base width (n / base) ++ [n % base]

@[simp] theorem length_fixedDigits (base width n : ℕ) :
    (fixedDigits base width n).length = width := by
  induction width generalizing n with
  | zero => rfl
  | succ width ih => rw [fixedDigits, length_append, ih, length_singleton]

theorem lt_of_mem_fixedDigits {base width n d : ℕ} (hbase : 0 < base)
    (h : d ∈ fixedDigits base width n) : d < base := by
  induction width generalizing n with
  | zero => cases h
  | succ width ih =>
    rcases mem_append.mp h with h | h
    · exact ih h
    · rw [mem_singleton.mp h]
      exact Nat.mod_lt n hbase

/-- **A number is read back from its digits.** -/
theorem ofDigits_fixedDigits {base width n : ℕ} (h : n < base ^ width) :
    (fixedDigits base width n).foldl (fun m d => base * m + d) 0 = n := by
  induction width generalizing n with
  | zero =>
    rw [pow_zero, Nat.lt_one_iff] at h
    exact h.symm
  | succ width ih =>
    have hdiv : n / base < base ^ width := by
      rw [pow_succ] at h
      exact Nat.div_lt_of_lt_mul (by rwa [mul_comm])
    rw [fixedDigits, foldl_append, ih hdiv]
    exact Nat.div_add_mod n base

/-- **A number lies between** the one with zeros and the one with the highest digits behind it. -/
theorem foldl_bounds {base : ℕ} {ds : List ℕ} (hds : ∀ d ∈ ds, d < base) (n : ℕ) :
    n * base ^ ds.length ≤ ds.foldl (fun m d => base * m + d) n ∧
      ds.foldl (fun m d => base * m + d) n < (n + 1) * base ^ ds.length := by
  induction ds generalizing n with
  | nil => simp
  | cons d ds ih =>
    have hd := hds d mem_cons_self
    obtain ⟨hlow, hhigh⟩ := ih (fun e he => hds e (mem_cons_of_mem d he)) (base * n + d)
    rw [length_cons, pow_succ, mul_comm _ base, ← mul_assoc, ← mul_assoc, mul_comm n,
      mul_comm (n + 1)]
    constructor
    · exact (Nat.mul_le_mul_right _ (Nat.le_add_right _ d)).trans hlow
    · refine hhigh.trans_le (Nat.mul_le_mul_right _ ?_)
      rw [Nat.mul_add, mul_one, Nat.add_assoc]
      exact Nat.add_le_add_left hd _

theorem foldl_lt {base : ℕ} {ds : List ℕ} (hds : ∀ d ∈ ds, d < base) (n : ℕ) :
    ds.foldl (fun m d => base * m + d) n < (n + 1) * base ^ ds.length :=
  (foldl_bounds hds n).2

/-! ### Digits as characters -/

theorem hexValue_hexDigit {n : ℕ} (h : n < 16) : hexValue (hexDigit n) = some n := by
  have hall : ∀ n : Fin 16, hexValue (hexDigit n) = some n.val := by decide
  exact hall ⟨n, h⟩

theorem hexDigit_ne {n : ℕ} (h : n < 16) : hexDigit n ∉ "-_+\x7b\x7dxXu ".toList := by
  have hall : ∀ n : Fin 16, hexDigit n ∉ "-_+\x7b\x7dxXu ".toList := by decide
  exact hall ⟨n, h⟩

theorem isAscii_hexDigit {n : ℕ} (h : n < 16) : IsAscii (hexDigit n) := by
  have hall : ∀ n : Fin 16, (hexDigit n).toNat < 128 := by decide
  exact hall ⟨n, h⟩

/-! ### `int(s, 16)` -/

/-- The digits of a number to base 16, with single underscores between them; `after` a digit. -/
def readBase16 : Bool → ℕ → Str → Option ℕ
  | after, n, [] => if after then some n else none
  | after, n, c :: s =>
    if c = '_' then if after then readBase16 false n s else none
    else (hexValue c).bind fun d => readBase16 true (16 * n + d) s

/-- A text without its first underscore. -/
def dropUnderscore : Str → Str
  | '_' :: s => s
  | s => s

variable (R : Runtime)

/-- What `int` makes of a character: decimal digits and blanks of all alphabets count. -/
def asciiOf (c : Char) : Char :=
  if c.toNat < 128 then c
  else if R.isSpace c then ' '
  else if R.isDecimal c then Char.ofNat (48 + R.digitValue c)
  else '?'

/-- The blanks that `int` leaves out at the ends. -/
def isBlank (c : Char) : Bool := decide (9 ≤ c.toNat ∧ c.toNat ≤ 13) || c == ' '

/-- `int(s, 16)` for a text without a `-`. -/
def intBase16 (s : Str) : Option ℕ :=
  let s := ((s.map (asciiOf R)).dropWhile isBlank).rdropWhile isBlank
  let s := if s.head? = some '+' then s.tail else s
  match s with
  | '0' :: 'x' :: s => readBase16 false 0 (dropUnderscore s)
  | '0' :: 'X' :: s => readBase16 false 0 (dropUnderscore s)
  | s => readBase16 false 0 s

/-! ### `int(s)` -/

/-- The digits of a number, with single underscores between them; `after` a digit. -/
def readBase10 : Bool → ℕ → Str → Option ℕ
  | after, n, [] => if after then some n else none
  | after, n, c :: s =>
    if c = '_' then if after then readBase10 false n s else none
    else if c.isDigit then readBase10 true (10 * n + decimalValue c) s
    else none

/-- `int(s)`, which raises for a text that is no number, or has more digits than are allowed. -/
def intBase10 (s : Str) : Option ℤ :=
  let s := ((s.map (asciiOf R)).dropWhile isBlank).rdropWhile isBlank
  if R.maxStrDigits ≠ 0 ∧ R.maxStrDigits < s.countP Char.isDigit then none
  else match s with
    | '-' :: s => (readBase10 false 0 s).map fun n : ℕ => (-n : ℤ)
    | '+' :: s => (readBase10 false 0 s).map fun n : ℕ => (n : ℤ)
    | s => (readBase10 false 0 s).map fun n : ℕ => (n : ℤ)

/-! ### `uuid.UUID` -/

/-- **A UUID**: a number of 128 bits, by which UUIDs are ordered. -/
abbrev UUID := Fin (2 ^ 128)

/-- `'%032x' % u.int` -/
def uuidHex (u : UUID) : Str := (fixedDigits 16 32 u.val).map hexDigit

/-- The five groups of the digits. -/
def dashed (hex : Str) : Str :=
  hex.take 8 ++ '-' :: ((hex.drop 8).take 4 ++ '-' :: ((hex.drop 12).take 4 ++
    '-' :: ((hex.drop 16).take 4 ++ '-' :: hex.drop 20)))

/-- `str(u)` -/
def uuidText (u : UUID) : Str := dashed (uuidHex u)

/-- `s.replace(old, "")`, with `skip` characters of `old` still to come. -/
def eraseText (old : Str) : ℕ → Str → Str
  | _, [] => []
  | skip + 1, _ :: s => eraseText old skip s
  | 0, c :: s => if old <+: c :: s then eraseText old (old.length - 1) s else c :: eraseText old 0 s

/-- `s.strip` of both braces. -/
def stripBraces (s : Str) : Str :=
  let brace := fun c => c == '\x7b' || c == '\x7d'
  (s.dropWhile brace).rdropWhile brace

/-- **`uuid.UUID(s)`**, which raises for a text that is no UUID. -/
def uuidOf (s : Str) : Option UUID :=
  let hex := eraseText "uuid:" 0 (eraseText "urn:" 0 s)
  let hex := (stripBraces hex).filter (· ≠ '-')
  if hex.length = 32 then
    (intBase16 R hex).bind fun n => if h : n < 2 ^ 128 then some ⟨n, h⟩ else none
  else none

/-! ### The round trip -/

theorem eraseText_of_notMem {old s : Str} {c : Char} (hold : old.head? = some c) (h : c ∉ s) :
    eraseText old 0 s = s := by
  induction s with
  | nil => rfl
  | cons d s ih =>
    have hne : ¬ old <+: d :: s := by
      intro hstart
      rcases old with _ | ⟨c', old⟩
      · cases hold
      · rw [cons_prefix_cons] at hstart
        cases hold
        exact h (hstart.1 ▸ mem_cons_self ..)
    rw [eraseText, if_neg hne, ih fun hmem => h (mem_cons_of_mem _ hmem)]

theorem readBase16_hexDigit {ds : List ℕ} (hds : ∀ d ∈ ds, d < 16) (n : ℕ) :
    readBase16 true n (ds.map hexDigit) = some (ds.foldl (fun m d => 16 * m + d) n) := by
  induction ds generalizing n with
  | nil => rfl
  | cons d ds ih =>
    have hd := hds d (mem_cons_self ..)
    have hne : hexDigit d ≠ '_' := fun he => hexDigit_ne hd (by rw [he]; decide)
    rw [map_cons, readBase16, if_neg hne, hexValue_hexDigit hd, foldl_cons]
    exact ih (fun d' hd' => hds d' (mem_cons_of_mem _ hd')) _

theorem dropWhile_rdropWhile_eq_self {p : Char → Bool} {s : Str} (h : ∀ c ∈ s, p c = false) :
    (s.dropWhile p).rdropWhile p = s := by
  have hdrop : s.dropWhile p = s := by
    refine dropWhile_eq_self_iff.mpr fun hpos => ?_
    rw [h _ (getElem_mem hpos)]
    exact Bool.false_ne_true
  rw [hdrop, rdropWhile_eq_self_iff]
  intro hne
  rw [h _ (getLast_mem hne)]
  exact Bool.false_ne_true

/-- **Digits are read by `int`.** -/
theorem intBase16_hexDigit {ds : List ℕ} (hds : ∀ d ∈ ds, d < 16) (hne : ds ≠ []) :
    intBase16 R (ds.map hexDigit) = some (ds.foldl (fun m d => 16 * m + d) 0) := by
  have hascii : (ds.map hexDigit).map (asciiOf R) = ds.map hexDigit := by
    rw [map_map]
    refine map_congr_left fun d hd => ?_
    change asciiOf R (hexDigit d) = hexDigit d
    unfold asciiOf
    exact if_pos (isAscii_hexDigit (hds d hd))
  have hblank : ∀ c ∈ ds.map hexDigit, isBlank c = false := by
    intro c hc
    obtain ⟨d, hd, rfl⟩ := mem_map.mp hc
    have hall : ∀ n : Fin 16, isBlank (hexDigit n) = false := by decide
    exact hall ⟨d, hds d hd⟩
  unfold intBase16
  dsimp only
  rw [hascii, dropWhile_rdropWhile_eq_self hblank]
  rcases ds with _ | ⟨d, ds⟩
  · exact absurd rfl hne
  have hd := hds d (mem_cons_self ..)
  have hplus : hexDigit d ≠ '+' := fun he => hexDigit_ne hd (by rw [he]; decide)
  have hscore : hexDigit d ≠ '_' := fun he => hexDigit_ne hd (by rw [he]; decide)
  have hread : readBase16 false 0 ((d :: ds).map hexDigit) =
      some ((d :: ds).foldl (fun m d => 16 * m + d) 0) := by
    rw [← readBase16_hexDigit hds 0, map_cons, readBase16, readBase16, if_neg hscore,
      if_neg hscore]
  rw [map_cons, head?_cons, if_neg fun h => hplus (Option.some.inj h)]
  rw [map_cons] at hread
  have hsecond : ∀ c ∈ "xX".toList, ∀ s, hexDigit d :: ds.map hexDigit ≠ '0' :: c :: s := by
    intro c hc s heq
    have hmem : c ∈ ds.map hexDigit := by
      rw [(List.cons.inj heq).2]
      exact mem_cons_self ..
    obtain ⟨d', hd', rfl⟩ := mem_map.mp hmem
    have hsub : "xX".toList ⊆ "-_+\x7b\x7dxXu ".toList := by decide
    exact hexDigit_ne (hds d' (mem_cons_of_mem _ hd')) (hsub hc)
  split
  · exact absurd ‹_› (hsecond 'x' (by decide) _)
  · exact absurd ‹_› (hsecond 'X' (by decide) _)
  · exact hread

theorem mem_dashed {hex : Str} {c : Char} (h : c ∈ dashed hex) : c = '-' ∨ c ∈ hex := by
  unfold dashed at h
  simp only [mem_append, mem_cons] at h
  rcases h with h | h | h | h | h | h | h | h | h
  · exact Or.inr (mem_of_mem_take h)
  · exact Or.inl h
  · exact Or.inr (mem_of_mem_drop (mem_of_mem_take h))
  · exact Or.inl h
  · exact Or.inr (mem_of_mem_drop (mem_of_mem_take h))
  · exact Or.inl h
  · exact Or.inr (mem_of_mem_drop (mem_of_mem_take h))
  · exact Or.inl h
  · exact Or.inr (mem_of_mem_drop h)

/-- **The digits are what is left** without the dashes. -/
theorem filter_dashed {hex : Str} (h : '-' ∉ hex) : (dashed hex).filter (· ≠ '-') = hex := by
  have hself : ∀ s : Str, (∀ c ∈ s, c ∈ hex) → s.filter (· ≠ '-') = s := by
    intro s hs
    refine filter_eq_self.mpr fun c hc => ?_
    rw [decide_eq_true_eq]
    exact fun he => h (he ▸ hs c hc)
  have hdash : ∀ s : Str, ('-' :: s).filter (· ≠ '-') = s.filter (· ≠ '-') := by
    intro s
    rw [filter_cons_of_neg (by decide)]
  unfold dashed
  simp only [filter_append, hdash]
  rw [hself _ fun c hc => mem_of_mem_take hc,
    hself _ fun c hc => mem_of_mem_drop (mem_of_mem_take hc),
    hself _ fun c hc => mem_of_mem_drop (mem_of_mem_take hc),
    hself _ fun c hc => mem_of_mem_drop (mem_of_mem_take hc),
    hself _ fun c hc => mem_of_mem_drop hc]
  have hjoin : ∀ m n : ℕ, (hex.drop m).take n ++ hex.drop (m + n) = hex.drop m := by
    intro m n
    rw [← drop_drop, take_append_drop]
  rw [hjoin 16 4, hjoin 12 4, hjoin 8 4, take_append_drop]

theorem notMem_uuidHex (u : UUID) {c : Char} (hc : c ∈ "-_+\x7b\x7dxXu ".toList) :
    c ∉ uuidHex u := by
  intro hmem
  obtain ⟨d, hd, rfl⟩ := mem_map.mp hmem
  exact hexDigit_ne (lt_of_mem_fixedDigits (by decide) hd) hc

/-- **A UUID is read back from its text.** -/
theorem uuidOf_uuidText (u : UUID) : uuidOf R (uuidText u) = some u := by
  have hnotMem : ∀ c ∈ "\x7b\x7du".toList, c ∉ uuidText u := by
    intro c hc hmem
    rcases mem_dashed hmem with rfl | hmem
    · revert hc
      decide
    · refine notMem_uuidHex u ?_ hmem
      have hsub : "\x7b\x7du".toList ⊆ "-_+\x7b\x7dxXu ".toList := by decide
      exact hsub hc
  have hbraces : stripBraces (uuidText u) = uuidText u := by
    refine dropWhile_rdropWhile_eq_self fun c hc => ?_
    rw [Bool.or_eq_false_iff, beq_eq_false_iff_ne, beq_eq_false_iff_ne]
    constructor
    · exact fun he => hnotMem '\x7b' (by decide) (he ▸ hc)
    · exact fun he => hnotMem '\x7d' (by decide) (he ▸ hc)
  have hlength : (uuidHex u).length = 32 := by
    unfold uuidHex
    rw [length_map, length_fixedDigits]
  have hint : intBase16 R (uuidHex u) = some u.val := by
    unfold uuidHex
    rw [intBase16_hexDigit R fun d hd => lt_of_mem_fixedDigits (by decide) hd]
    · rw [ofDigits_fixedDigits (lt_of_lt_of_eq u.isLt (by decide))]
    · exact ne_nil_of_length_pos (by rw [length_fixedDigits]; decide)
  unfold uuidOf
  dsimp only
  rw [eraseText_of_notMem (c := 'u') rfl (hnotMem 'u' (by decide)),
    eraseText_of_notMem (c := 'u') rfl (hnotMem 'u' (by decide)), hbraces]
  unfold uuidText
  rw [filter_dashed (notMem_uuidHex u (by decide)), if_pos hlength, hint]
  exact dif_pos u.isLt

end Guardian.Python

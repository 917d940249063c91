import Guardian.Python.Text
import Mathlib.Tactic.IntervalCases

/-!
# Bytes and base64

`str.encode()` and `bytes.decode()` for UTF-8, `bytes.decode` with replacement for UTF-8 and UTF-16,
and the URL-safe base64 of the module `base64`: the decoder drops what is not in its alphabet, and
reads no further than the padding that completes a group.
-/

namespace Guardian.Python

open List
abbrev Bytes := List UInt8

/-- `s.encode()` -/
def encode (s : Str) : Bytes := (String.ofList s).toUTF8.data.toList

/-- `b.decode()`, which raises for what is not UTF-8. -/
def decode (b : Bytes) : Option Str := (ByteArray.mk b.toArray).utf8Decode?.map Array.toList

theorem decode_encode (s : Str) : decode (encode s) = some s := by
  have hbytes : ByteArray.mk (encode s).toArray = s.utf8Encode := rfl
  unfold decode
  rw [hbytes, utf8Decode?_utf8Encode]
  rfl

/-! ### Decoding with replacement -/

/-- What stands for bytes that are no character. -/
def replacement : Char := Char.ofNat 0xFFFD

/-- The bits of a lead byte and the ranges of the bytes that have to follow it. -/
def utf8Lead (b : ℕ) : Option (ℕ × List (ℕ × ℕ)) :=
  if 0xC2 ≤ b ∧ b ≤ 0xDF then some (b % 32, [(0x80, 0xBF)])
  else if b = 0xE0 then some (0, [(0xA0, 0xBF), (0x80, 0xBF)])
  else if b = 0xED then some (13, [(0x80, 0x9F), (0x80, 0xBF)])
  else if 0xE1 ≤ b ∧ b ≤ 0xEF then some (b % 16, [(0x80, 0xBF), (0x80, 0xBF)])
  else if b = 0xF0 then some (0, [(0x90, 0xBF), (0x80, 0xBF), (0x80, 0xBF)])
  else if 0xF1 ≤ b ∧ b ≤ 0xF3 then some (b % 8, [(0x80, 0xBF), (0x80, 0xBF), (0x80, 0xBF)])
  else if b = 0xF4 then some (4, [(0x80, 0x8F), (0x80, 0xBF), (0x80, 0xBF)])
  else none

/-- The characters that start at a byte: the character of a byte below 128 or the replacement, and
the bits and ranges of a sequence that it opens. -/
def utf8Start (b : ℕ) : Str × ℕ × List (ℕ × ℕ) :=
  if b < 0x80 then ([Char.ofNat b], 0, [])
  else
    match utf8Lead b with
    | some (bits, ranges) => ([], bits, ranges)
    | none => ([replacement], 0, [])

/-- `bytes.decode("utf-8", "replace")` within a sequence: its bits so far and the ranges of the
bytes that it misses.  One replacement stands for as much of a sequence as is there. -/
def utf8ReplaceFrom : ℕ → List (ℕ × ℕ) → Bytes → Str
  | _, [], [] => []
  | _, _ :: _, [] => [replacement]
  | _, [], b :: bs =>
    (utf8Start b.toNat).1 ++ utf8ReplaceFrom (utf8Start b.toNat).2.1 (utf8Start b.toNat).2.2 bs
  | bits, (lo, hi) :: ranges, b :: bs =>
    if lo ≤ b.toNat ∧ b.toNat ≤ hi then
      (if ranges = [] then [Char.ofNat (bits * 64 + b.toNat % 64)] else []) ++
        utf8ReplaceFrom (bits * 64 + b.toNat % 64) ranges bs
    else
      replacement :: (utf8Start b.toNat).1 ++
        utf8ReplaceFrom (utf8Start b.toNat).2.1 (utf8Start b.toNat).2.2 bs

/-- **`bytes.decode("utf-8", "replace")`** -/
def utf8Replace (b : Bytes) : Str := utf8ReplaceFrom 0 [] b

/-- **`bytes.decode("utf-16-le", "replace")`**: one replacement for each surrogate without its
partner, and one for an incomplete end. -/
def utf16Replace : Bytes → Str
  | [] => []
  | [_] => [replacement]
  | a :: b :: rest =>
    let unit := a.toNat + 256 * b.toNat
    if unit < 0xD800 ∨ 0xDFFF < unit then Char.ofNat unit :: utf16Replace rest
    else if 0xDC00 ≤ unit then replacement :: utf16Replace rest
    else
      match rest with
      | c :: d :: rest' =>
        let low := c.toNat + 256 * d.toNat
        if 0xDC00 ≤ low ∧ low ≤ 0xDFFF then
          Char.ofNat (0x10000 + (unit - 0xD800) * 1024 + (low - 0xDC00)) :: utf16Replace rest'
        else replacement :: utf16Replace (c :: d :: rest')
      | _ => [replacement]

/-! ### Digits -/

/-- The digits of the URL-safe alphabet. -/
def base64Alphabet : Str :=
  "ABCDEFGHIJKLMNOPQRSTUVWXYZabcdefghijklmnopqrstuvwxyz0123456789-_"

def base64Digit (n : ℕ) : Char := base64Alphabet.getD n 'A'

/-- The number of a digit; those of the standard alphabet are read, too. -/
def base64Value (c : Char) : Option ℕ :=
  if c = '+' then some 62 else if c = '/' then some 63 else base64Alphabet.idxOf? c

theorem base64_digits :
    ∀ n : Fin 64, base64Value (base64Digit n) = some n.val ∧ base64Digit n ≠ '=' := by
  decide +kernel

theorem base64Value_digit {n : ℕ} (h : n < 64) : base64Value (base64Digit n) = some n :=
  (base64_digits ⟨n, h⟩).1

theorem base64Digit_ne_pad {n : ℕ} (h : n < 64) : base64Digit n ≠ '=' := (base64_digits ⟨n, h⟩).2

/-! ### Encoding -/

/-- The digits of bytes, without padding. -/
def base64Data : Bytes → Str
  | a :: b :: c :: rest =>
    base64Digit (a.toNat / 4) :: base64Digit (a.toNat % 4 * 16 + b.toNat / 16) ::
      base64Digit (b.toNat % 16 * 4 + c.toNat / 64) :: base64Digit (c.toNat % 64) ::
        base64Data rest
  | [a, b] =>
    [base64Digit (a.toNat / 4), base64Digit (a.toNat % 4 * 16 + b.toNat / 16),
      base64Digit (b.toNat % 16 * 4)]
  | [a] => [base64Digit (a.toNat / 4), base64Digit (a.toNat % 4 * 16)]
  | [] => []

/-- `"=" * (-n % 4)` -/
def padding (n : ℕ) : Str := replicate ((4 - n % 4) % 4) '='

/-- **`base64.urlsafe_b64encode`**, with its result as a text. -/
def urlsafeB64encode (b : Bytes) : Str := base64Data b ++ padding (base64Data b).length

/-! ### Decoding -/

/-- Where the decoder is in a group of four digits, with the bits that are left over; `padded` after
one `=`. -/
inductive Quad
  | first
  | second (left : ℕ)
  | third (left : ℕ) (padded : Bool)
  | fourth (left : ℕ)

/-- `binascii.a2b_base64`, which raises for a group that is not complete. -/
def a2bBase64 : Quad → Str → Option Bytes
  | .first, [] => some []
  | _, [] => none
  | q, c :: s =>
    if c = '=' then
      match q with
      | .third left false => a2bBase64 (.third left true) s
      | .third _ true => some []
      | .fourth _ => some []
      | q => a2bBase64 q s
    else
      match base64Value c, q with
      | none, q => a2bBase64 q s
      | some v, .first => a2bBase64 (.second v) s
      | some v, .second left =>
        (a2bBase64 (.third (v % 16) false) s).map (UInt8.ofNat (left * 4 + v / 16) :: ·)
      | some v, .third left _ =>
        (a2bBase64 (.fourth (v % 4)) s).map (UInt8.ofNat (left * 16 + v / 4) :: ·)
      | some v, .fourth left => (a2bBase64 .first s).map (UInt8.ofNat (left * 64 + v) :: ·)

/-- **`base64.urlsafe_b64decode`** -/
def urlsafeB64decode (s : Str) : Option Bytes := a2bBase64 .first s

/-! ### The round trip -/

section Digits

variable {n left : ℕ} (hn : n < 64) (s : Str)
include hn

theorem a2bBase64_first : a2bBase64 .first (base64Digit n :: s) = a2bBase64 (.second n) s := by
  conv_lhs => unfold a2bBase64
  rw [if_neg (base64Digit_ne_pad hn), base64Value_digit hn]

theorem a2bBase64_second : a2bBase64 (.second left) (base64Digit n :: s) =
    (a2bBase64 (.third (n % 16) false) s).map (UInt8.ofNat (left * 4 + n / 16) :: ·) := by
  conv_lhs => unfold a2bBase64
  rw [if_neg (base64Digit_ne_pad hn), base64Value_digit hn]

theorem a2bBase64_third : a2bBase64 (.third left false) (base64Digit n :: s) =
    (a2bBase64 (.fourth (n % 4)) s).map (UInt8.ofNat (left * 16 + n / 4) :: ·) := by
  conv_lhs => unfold a2bBase64
  rw [if_neg (base64Digit_ne_pad hn), base64Value_digit hn]

theorem a2bBase64_fourth : a2bBase64 (.fourth left) (base64Digit n :: s) =
    (a2bBase64 .first s).map (UInt8.ofNat (left * 64 + n) :: ·) := by
  conv_lhs => unfold a2bBase64
  rw [if_neg (base64Digit_ne_pad hn), base64Value_digit hn]

end Digits

theorem ofNat_eq {m : ℕ} {a : UInt8} (h : m = a.toNat) : UInt8.ofNat m = a := by
  rw [h, UInt8.ofNat_toNat]

/-- **Bytes are read back from their digits**, padded to a multiple of four. -/
theorem urlsafeB64decode_data (b : Bytes) :
    urlsafeB64decode (base64Data b ++ padding (base64Data b).length) = some b := by
  unfold urlsafeB64decode
  induction b using base64Data.induct with
  | case1 a b c rest ih =>
    have ha := a.toNat_lt
    have hb := b.toNat_lt
    have hc := c.toNat_lt
    have hlen : padding (base64Data (a :: b :: c :: rest)).length =
        padding (base64Data rest).length := by
      unfold padding
      congr 1
      simp only [base64Data, length_cons]
      omega
    rw [hlen]
    simp only [base64Data, cons_append]
    rw [a2bBase64_first (by omega), a2bBase64_second (by omega), a2bBase64_third (by omega),
      a2bBase64_fourth (by omega), ih]
    simp only [Option.map_some]
    rw [ofNat_eq (a := a) (by omega), ofNat_eq (a := b) (by omega), ofNat_eq (a := c) (by omega)]
  | case2 a b =>
    have ha := a.toNat_lt
    have hb := b.toNat_lt
    simp only [base64Data, cons_append, nil_append]
    rw [a2bBase64_first (by omega), a2bBase64_second (by omega), a2bBase64_third (by omega)]
    rw [show padding ([_, _, _] : Str).length = ['='] from rfl]
    simp only [a2bBase64, if_true, Option.map_some]
    rw [ofNat_eq (a := a) (by omega), ofNat_eq (a := b) (by omega)]
  | case3 a =>
    have ha := a.toNat_lt
    simp only [base64Data, cons_append, nil_append]
    rw [a2bBase64_first (by omega), a2bBase64_second (by omega)]
    rw [show padding ([_, _] : Str).length = ['=', '='] from rfl]
    simp only [a2bBase64, if_true, Option.map_some]
    rw [ofNat_eq (a := a) (by omega)]
  | case4 => rfl

theorem urlsafeB64decode_encode (b : Bytes) : urlsafeB64decode (urlsafeB64encode b) = some b :=
  urlsafeB64decode_data b

theorem pad_notMem_data (b : Bytes) : '=' ∉ base64Data b := by
  have hne : ∀ {n}, n < 64 → '=' ≠ base64Digit n := fun hn => (base64Digit_ne_pad hn).symm
  induction b using base64Data.induct with
  | case1 a b c rest ih =>
    have ha := a.toNat_lt
    have hb := b.toNat_lt
    have hc := c.toNat_lt
    simp only [base64Data, mem_cons, not_or]
    exact ⟨hne (by omega), hne (by omega), hne (by omega), hne (by omega), ih⟩
  | case2 a b =>
    have ha := a.toNat_lt
    have hb := b.toNat_lt
    simp only [base64Data, mem_cons, not_or, not_mem_nil, not_false_eq_true, and_true]
    exact ⟨hne (by omega), hne (by omega), hne (by omega)⟩
  | case3 a =>
    have ha := a.toNat_lt
    simp only [base64Data, mem_cons, not_or, not_mem_nil, not_false_eq_true, and_true]
    exact ⟨hne (by omega), hne (by omega)⟩
  | case4 => exact not_mem_nil

/-- **The digits are what `rstrip("=")` leaves.** -/
theorem rstripChar_encode (b : Bytes) : rstripChar '=' (urlsafeB64encode b) = base64Data b := by
  have hpad : ∀ n, rstripChar '=' (replicate n '=') = [] := by
    intro n
    refine rdropWhile_eq_nil_iff.mpr fun c hc => ?_
    rw [(mem_replicate.mp hc).2]
    rfl
  unfold urlsafeB64encode padding
  rw [rstripChar_append, if_pos (hpad _)]
  refine rdropWhile_eq_self_iff.mpr fun hne => ?_
  rw [beq_iff_eq]
  exact fun heq => pad_notMem_data b (heq ▸ getLast_mem hne)

end Guardian.Python

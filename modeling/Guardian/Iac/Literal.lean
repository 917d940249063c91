import Mathlib.Data.Int.Log
import Mathlib.Data.List.Nodup
import Mathlib.Data.Rat.Floor
import Guardian.Iac.Split
import Guardian.Python.JsonText

/-!
# Literals of attributes

`literal` reads the text of an attribute: a literal becomes its value, and any other expression is
to stay as its text.  It looks at the ends of the text, and splits what is between brackets.
`Denotes` is the language, and `literal_iff` says when it is read.
-/

namespace Guardian.Iac

open Python
open List hiding partition

/-! ### `_literal` -/

/-- A number of binary floating point, or an infinity with its sign. -/
inductive Double
  | finite (q : ℚ)
  | infinite (negative : Bool)
  deriving DecidableEq

/-- The nearest integer, or the even one of two. -/
def roundHalfEven (q : ℚ) : ℤ :=
  if q - ⌊q⌋ < 1 / 2 ∨ q - ⌊q⌋ = 1 / 2 ∧ Even ⌊q⌋ then ⌊q⌋ else ⌊q⌋ + 1

/-- **The nearest number of binary64**: it has 53 binary digits, none of them below 2⁻¹⁰⁷⁴. -/
def toDouble (q : ℚ) : Double :=
  let ulp : ℚ := 2 ^ max (-1074) (Int.log 2 |q| - 52)
  let nearest := roundHalfEven (q / ulp) * ulp
  if |nearest| < 2 ^ 1024 then .finite nearest else .infinite (decide (q < 0))

/-- The first integer that has no number of its own. -/
example : toDouble 9007199254740993 = .finite 9007199254740992 := by decide +kernel

/-- **What an attribute may have**: an expression that is not evaluated, or a value. -/
inductive Value
  | unresolved (text : Str)
  | null
  | bool (b : Bool)
  | int (n : ℤ)
  | float (x : Double)
  | str (s : Str)
  | list (vs : List Value)
  | map (entries : List (Str × Value))

def unsigned (s : Str) : Str := if s.head? = some '-' then s.tail else s

/-- `\d+`, for a class of digits. -/
def numeral (digit : Char → Bool) (s : Str) : Bool := !s.isEmpty && s.all digit

/-- `-?\d+` -/
def isInteger (digit : Char → Bool) (s : Str) : Bool := numeral digit (unsigned s)

/-- `-?\d+\.\d+` -/
def isDecimal (digit : Char → Bool) (s : Str) : Bool :=
  let (whole, point, fraction) := partition '.' (unsigned s)
  numeral digit whole && point && numeral digit fraction

/-- The number of a text with a point, by what its digits are worth. -/
def decimal (digitValue : Char → ℕ) (s : Str) : ℚ :=
  let (whole, _, fraction) := partition '.' (unsigned s)
  let digits := (whole ++ fraction).foldl (fun n c => 10 * n + digitValue c) 0
  (if s.head? = some '-' then -(digits : ℚ) else digits) / 10 ^ fraction.length

/-- Quotes at both ends, and no interpolation. -/
def IsQuoted (value : Str) : Prop :=
  2 ≤ value.length ∧ value.head? = some '"' ∧ value.getLast? = some '"' ∧ ¬ ['$', '{'] <:+: value

instance (value : Str) : Decidable (IsQuoted value) := inferInstanceAs (Decidable (_ ∧ _))

variable (R : Runtime)

/-- What follows the first character, without the bracket at the end. -/
def inner (close : Char) (value : Str) : Str :=
  if value.getLast? = some close then value.tail.dropLast else value.tail

/-- `s.strip('"')` -/
def stripQuotes (s : Str) : Str := rstripChar '"' (s.dropWhile (· == '"'))

/-- The name and the text of the value in an item of a map. -/
def cutItem (item : Str) : Option (Str × Str) :=
  let (key, sep, raw) := if '=' ∈ item then partition '=' item else partition ':' item
  if sep ∧ stripQuotes (strip R key) ≠ [] then some (stripQuotes (strip R key), raw) else none

/-- `result[name] = value` -/
def setItem (result : List (Str × Value)) (name : Str) (value : Value) : List (Str × Value) :=
  if name ∈ result.map Prod.fst then
    result.map fun entry => if entry.1 = name then (name, value) else entry
  else result ++ [(name, value)]

/-- One turn of the loop of `_mapping`, by what reads the text of a value. -/
def readItem (read : Str → Except Fault Value) (result : List (Str × Value)) (item : Str) :
    Except Fault (List (Str × Value)) :=
  match cutItem R item with
  | some (name, raw) => setItem result name <$> read raw
  | none => .ok result

/-- `int(value)` for a text of digits with a sign. -/
def integer (value : Str) : Except Fault ℤ :=
  (fun n : ℕ => if value.head? = some '-' then -(n : ℤ) else n) <$> int R (unsigned value)

/-- **`_literal`**, with `_sequence` and `_mapping`, for a text with brackets nested so deep that
the interpreter allows so many calls. -/
def literal : ℕ → Str → Except Fault Value
  | 0, _ => .error .recursionError
  | n + 1, text =>
    let value := strip R text
    if value = [] then .ok (.unresolved [])
    else if value = "true" ∨ value = "false" then
      .ok (.bool (decide (value = "true")))
    else if value = "null" then .ok .null
    else if isInteger R.isDecimal value then .int <$> integer R value
    else if isDecimal R.isDecimal value then
      .ok (.float (toDouble (decimal R.digitValue value)))
    else if IsQuoted value then .ok (.str (unescape value.tail.dropLast))
    else if value.head? = some '[' then
      .list <$> (splitTopLevel R (inner ']' value)).mapM (literal n)
    else if value.head? = some '{' then
      .map <$> (splitTopLevel R (inner '}' value)).foldlM (readItem R (literal n)) []
    else .ok (.unresolved value)

/-- **A text that `literal` takes for a literal.** -/
def LooksLiteral (value : Str) : Prop :=
  value ∈ ["true".toList, "false".toList, "null".toList] ∨ isInteger R.isDecimal value ∨
    isDecimal R.isDecimal value ∨ IsQuoted value ∨ value.head? = some '[' ∨ value.head? = some '{'

/-! ### The language -/

/-- A number as the language writes it. -/
def Canonical (s : Str) : Prop :=
  let (whole, point, fraction) := partition '.' (unsigned s)
  s ≠ ['-', '0'] ∧ numeral Char.isDigit whole ∧ (whole = ['0'] ∨ whole.head? ≠ some '0') ∧
    (point → numeral Char.isDigit fraction ∧ fraction.getLast? ≠ some '0')

/-- **What the language takes from Unicode**: the characters of identifiers. -/
structure Tables where
  idStart : Char → Bool
  idContinue : Char → Bool
  idStart_ascii : ∀ c, IsAscii c → idStart c = c.isAlpha
  idContinue_ascii : ∀ c, IsAscii c → idContinue c = (c.isAlphanum || c == '_')

/-- Unicode as far as ASCII goes. -/
def Tables.ascii : Tables where
  idStart c := decide (IsAscii c) && c.isAlpha
  idContinue c := decide (IsAscii c) && (c.isAlphanum || c == '_')
  idStart_ascii := Runtime.ascii.isAlpha_ascii
  idContinue_ascii c hc := by simp [hc]

/-- The number of a text of ASCII digits with a point. -/
def decimalOf (s : Str) : ℚ := decimal (fun c => c.toNat - 48) s

variable (T : Tables)

/-- **The key of an item** and the name that it stands for: an identifier, a number, a string. -/
inductive Key : Str → Str → Prop
  | ident (s : Str) : s.head?.any (fun c => T.idStart c || c == '_') →
      (∀ c ∈ s, (T.idContinue c || c == '-') ∧ R.isSpace c = false) → Key s s
  | number (s : Str) : Canonical s → Key s s
  | str (ts : List Tok) : ValidString ts → Key ('"' :: (render ts ++ ['"'])) (meaning ts)

/-- An item of a map: how it is written, its name, and its value. -/
structure Item where
  key : Str
  before : Str
  sep : Char
  after : Str
  text : Str
  name : Str
  value : Value

namespace Item

def written (e : Item) : Str := e.key ++ (e.before ++ e.sep :: (e.after ++ e.text))

/-- An item of the language, as far as its value is. -/
def Valid (e : Item) : Prop :=
  Key R T e.key e.name ∧ Blanks e.before ∧ (e.sep = '=' ∨ e.sep = ':') ∧ Blanks e.after

/-- **The item is cut behind its key, and the key is the name or the name in quotes.** -/
def CutRightly (e : Item) : Prop :=
  (e.key = e.name ∨ e.key = '"' :: (e.name ++ ['"']) ∧ e.name ≠ []) ∧ '=' ∉ e.key ∧
    (e.sep = ':' → ':' ∉ e.key ∧ '=' ∉ e.text)

end Item

def dictOf (es : List Item) : List (Str × Value) :=
  es.foldl (fun result e => setItem result e.name e.value) []

/-- **A dialect**: the numbers, the strings, the items and the names in a map that it has, and the
dictionaries that it does not tell apart. -/
structure Dialect where
  int : Str → Prop
  float : Str → Prop
  str : List Tok → Prop
  item : Item → Prop
  names : List Str → Prop
  same : List (Str × Value) → List (Str × Value) → Prop

/-- **The literals of a dialect** with brackets nested less than so deep, and what they stand for.
-/
inductive Denotes (K : Dialect) : ℕ → Str → Value → Prop
  | yes (n : ℕ) : Denotes K (n + 1) "true" (.bool true)
  | no (n : ℕ) : Denotes K (n + 1) "false" (.bool false)
  | null (n : ℕ) : Denotes K (n + 1) "null" .null
  | int (n : ℕ) (s : Str) : isInteger Char.isDigit s → K.int s →
      Denotes K (n + 1) s (.int (integerOf s))
  | float (n : ℕ) (s : Str) : isDecimal Char.isDigit s → K.float s →
      Denotes K (n + 1) s (.float (.finite (decimalOf s)))
  | str (n : ℕ) (ts : List Tok) : ValidString ts → K.str ts →
      Denotes K (n + 1) ('"' :: (render ts ++ ['"'])) (.str (meaning ts))
  | list (n : ℕ) (es : List (Str × Value)) (body : Str) : Elements (es.map Prod.fst) body →
      (∀ e ∈ es, Denotes K n e.1 e.2) →
      Denotes K (n + 1) ('[' :: (body ++ [']'])) (.list (es.map Prod.snd))
  | map (n : ℕ) (es : List Item) (body : Str) (d : List (Str × Value)) :
      Items (es.map Item.written) body →
      (∀ e ∈ es, e.Valid R T ∧ K.item e) → (∀ e ∈ es.head?, e.key ≠ "for") →
      K.names (es.map Item.name) → (∀ e ∈ es, Denotes K n e.text e.value) → K.same d (dictOf es) →
      Denotes K (n + 1) ('{' :: (body ++ ['}'])) (.map d)

/-- **The language**, whose maps have no order. -/
def Dialect.hcl : Dialect where
  int _ := True
  float _ := True
  str _ := True
  item _ := True
  names _ := True
  same d d' := d.Perm d'

/-- The language with maps that are cut where they should be, and in which no name comes twice. -/
def Dialect.cut : Dialect := { Dialect.hcl with item := Item.CutRightly, names := Nodup }

/-- **What `literal` reads as the language does**: integers within the limit of the interpreter,
numbers with a point that are not rounded, strings in plain tokens, and maps that are cut where they
should be. -/
def Dialect.rightly : Dialect where
  int s := R.maxStrDigits = 0 ∨ (unsigned s).length ≤ R.maxStrDigits
  float s := toDouble (decimalOf s) = .finite (decimalOf s)
  str := Plain
  item := Item.CutRightly
  names _ := True
  same d d' := d = d'

/-- **What `literal` is for**: a text is left as it is or is a literal of the language, and a string
that is read is read again from its escapes. -/
def Meets (n : ℕ) (text : Str) : Prop :=
  ∃ v, literal R (n + 1) text = .ok v ∧
    (v = .unresolved (strip R text) ∨ ∃ m, Denotes R T Dialect.hcl m (strip R text) v) ∧
    ∀ s, v = .str s → literal R (n + 1) ('"' :: (encode s ++ ['"'])) = .ok (.str s)

/-! ### The texts of literals -/

section Texts
variable {R : Runtime} {T : Tables} {K : Dialect} {n : ℕ} {text : Str} {v : Value}

def numberChar (c : Char) : Bool := c.isDigit || c == '-' || c == '.'

theorem numberChar_spec {c : Char} (h : numberChar c = true) :
    (Tame c ∧ R.isSpace c = false) ∧ c ≠ '=' ∧ c ≠ ':' ∧ c ≠ '"' := by
  have hc : IsAscii c := by
    simp only [numberChar, Bool.or_eq_true, beq_iff_eq] at h
    rcases h with (h | rfl) | rfl
    · exact isAscii_of_isDigit h
    · decide
    · decide
  have hall : ∀ n : Fin 128, numberChar (Char.ofNat n) = true → (Tame (Char.ofNat n) ∧
      asciiSpace (Char.ofNat n) = false) ∧ Char.ofNat n ≠ '=' ∧ Char.ofNat n ≠ ':' ∧
        Char.ofNat n ≠ '"' := by decide
  have := forall_ascii (P := fun c => numberChar c = true → (Tame c ∧ asciiSpace c = false) ∧
    c ≠ '=' ∧ c ≠ ':' ∧ c ≠ '"') hall hc h
  rwa [R.isSpace_ascii c hc]

theorem mem_unsigned {s : Str} {c : Char} (hc : c ∈ s) : c = '-' ∨ c ∈ unsigned s := by
  unfold unsigned
  split_ifs with h
  · obtain ⟨s, rfl⟩ := head?_eq_some_iff.mp h
    exact mem_cons.mp hc
  · exact Or.inr hc

theorem numeral_digit {s : Str} (h : numeral Char.isDigit s = true) {c : Char} (hc : c ∈ s) :
    numberChar c = true := by
  simp only [numeral, Bool.and_eq_true, all_eq_true] at h
  simp [numberChar, h.2 c hc]

theorem isInteger_chars {s : Str} (h : isInteger Char.isDigit s = true) :
    s ≠ [] ∧ ∀ c ∈ s, numberChar c = true := by
  refine ⟨by rintro rfl; exact absurd h (by decide), fun c hc => ?_⟩
  rcases mem_unsigned hc with rfl | hc
  · decide
  · exact numeral_digit h hc

theorem isDecimal_chars {s : Str} (h : isDecimal Char.isDigit s = true) :
    s ≠ [] ∧ ∀ c ∈ s, numberChar c = true := by
  refine ⟨by rintro rfl; exact absurd h (by decide), fun c hc => ?_⟩
  simp only [isDecimal, Bool.and_eq_true] at h
  rcases mem_unsigned hc with rfl | hc
  · decide
  · rcases mem_partition (d := '.') hc with hc | rfl | hc
    · exact numeral_digit h.1.1 hc
    · decide
    · exact numeral_digit h.2 hc

theorem Canonical.chars {s : Str} (h : Canonical s) : s ≠ [] ∧ ∀ c ∈ s, numberChar c = true := by
  obtain ⟨-, hwhole, -, hfraction⟩ := h
  refine ⟨by rintro rfl; exact absurd hwhole (by decide), fun c hc => ?_⟩
  rcases mem_unsigned hc with rfl | hc
  · decide
  · by_cases hpoint : '.' ∈ unsigned s
    · rcases mem_partition (d := '.') hc with hc | rfl | hc
      · exact numeral_digit hwhole hc
      · decide
      · exact numeral_digit (hfraction (by simpa [partition] using hpoint)).1 hc
    · have hall : (partition '.' (unsigned s)).1 = unsigned s := partition_eq_self hpoint
      exact numeral_digit (hall ▸ hwhole) hc

theorem idChar_spec {c : Char} (h : (T.idContinue c || c == '-') = true) :
    Tame c ∧ c ≠ '=' ∧ c ≠ ':' ∧ c ≠ '"' := by
  by_cases hc : IsAscii c
  · have hall : ∀ n : Fin 128, ((Char.ofNat n).isAlphanum || Char.ofNat n == '_' ||
        Char.ofNat n == '-') = true → Tame (Char.ofNat n) ∧ Char.ofNat n ≠ '=' ∧
          Char.ofNat n ≠ ':' ∧ Char.ofNat n ≠ '"' := by decide
    rw [T.idContinue_ascii c hc] at h
    exact forall_ascii (P := fun c => (c.isAlphanum || c == '_' || c == '-') = true →
      Tame c ∧ c ≠ '=' ∧ c ≠ ':' ∧ c ≠ '"') hall hc h
  · have hne (d : Char) (hd : IsAscii d) : c ≠ d := fun h => hc (h ▸ hd)
    refine ⟨fun hmem => hc ?_, hne _ (by decide), hne _ (by decide), hne _ (by decide)⟩
    have hall : ∀ d ∈ ['"', '[', '{', '(', ']', '}', ')', ',', '\n'], IsAscii d := by decide
    exact hall c hmem

theorem Key.found {key name : Str} (h : Key R T key name) : Found R key := by
  cases h with
  | ident _ hstart hall =>
    refine found_word ?_ fun c hc => ⟨(idChar_spec (hall c hc).1).1, (hall c hc).2⟩
    rintro rfl
    exact absurd hstart (by simp)
  | number _ h => exact found_word h.chars.1 fun c hc => (numberChar_spec (h.chars.2 c hc)).1
  | str ts h => exact found_string h.1

/-- **An item is found by the scan**, if its value is. -/
theorem Item.Valid.found {e : Item} (h : e.Valid R T) (htext : Found R e.text) :
    Found R e.written := by
  obtain ⟨hkey, hbefore, hsep, hafter⟩ := h
  have hkey := hkey.found
  have hsep : Passes 0 [e.sep] := passes_tame (by rcases hsep with h | h <;> simp [h, Tame])
  refine ⟨?_, ?_, ?_⟩
  · exact hkey.1.append ((passes_blanks hbefore).append
      (hsep.append ((passes_blanks hafter).append htext.1)))
  · have := strip_around (m := e.before ++ e.sep :: e.after) hkey.2.1 hkey.2.2 htext.2.1 htext.2.2
    rwa [append_assoc, cons_append] at this
  · simp [Item.written]

/-- **A literal is found by the scan.** -/
theorem Denotes.found (h : Denotes R T K n text v) : Found R text := by
  have hword {s : Str} (hne : s ≠ []) (hall : ∀ c ∈ s, IsAscii c ∧ Tame c ∧ asciiSpace c = false) :
      Found R s :=
    found_word hne fun c hc =>
      ⟨(hall c hc).2.1, by rw [R.isSpace_ascii c (hall c hc).1, (hall c hc).2.2]⟩
  induction h with
  | yes n => exact hword (by decide) (by decide)
  | no n => exact hword (by decide) (by decide)
  | null n => exact hword (by decide) (by decide)
  | int n s h _ =>
    exact found_word (isInteger_chars h).1 fun c hc =>
      (numberChar_spec ((isInteger_chars h).2 c hc)).1
  | float n s h =>
    exact found_word (isDecimal_chars h).1 fun c hc =>
      (numberChar_spec ((isDecimal_chars h).2 c hc)).1
  | str n ts h _ => exact found_string h.1
  | list n es body hbody _ ih =>
    exact (hbody.found (forall_mem_map.mpr ih)).1
  | map n es body d hbody hvalid _ _ _ _ ih =>
    exact (hbody.found (forall_mem_map.mpr fun e he => (hvalid e he).1.found (ih e he))).1

end Texts

/-! ### What `literal` reads -/

section Reads
variable {R : Runtime} {T : Tables} {K : Dialect} {n : ℕ} {s text : Str} {v : Value}

theorem literal_strip : literal R n (strip R text) = literal R n text := by
  cases n with
  | zero => rfl
  | succ n => rw [literal, literal, strip_strip]

theorem head_of_number {digit : Char → Bool} {c : Char}
    (h : isInteger digit (c :: s) = true ∨ isDecimal digit (c :: s) = true) :
    c = '-' ∨ digit c = true := by
  by_cases hc : c = '-'
  · exact Or.inl hc
  · have hunsigned : unsigned (c :: s) = c :: s := by simp [unsigned, hc]
    refine Or.inr ?_
    rcases h with h | h
    · simp only [isInteger, hunsigned, numeral, Bool.and_eq_true, all_cons] at h
      exact h.2.1
    · simp only [isDecimal, hunsigned, partition, Bool.and_eq_true] at h
      by_cases hpoint : c = '.'
      · simp [hpoint, numeral] at h
      · simp only [numeral, takeWhile_cons, bne_iff_ne, ne_eq, hpoint, not_false_eq_true,
          if_true, all_cons, Bool.and_eq_true] at h
        exact h.1.1.2.1

theorem literal_of_head {c : Char} (hc : c ∈ ['"', '[', '{']) (h : strip R text = c :: s) :
    literal R (n + 1) text =
      if IsQuoted (c :: s) then .ok (.str (unescape s.dropLast))
      else if c = '[' then .list <$> (splitTopLevel R (inner ']' (c :: s))).mapM (literal R n)
      else if c = '{' then
        .map <$> (splitTopLevel R (inner '}' (c :: s))).foldlM (readItem R (literal R n)) []
      else .ok (.unresolved (c :: s)) := by
  have hne : c ≠ '-' ∧ c ≠ 't' ∧ c ≠ 'f' ∧ c ≠ 'n' ∧ R.isDecimal c = false := by
    simp only [mem_cons, not_mem_nil, or_false] at hc
    rcases hc with rfl | rfl | rfl <;>
      exact ⟨by decide, by decide, by decide, by decide, R.isDecimal_ascii _ (by decide)⟩
  have hnumber :
      ¬ (isInteger R.isDecimal (c :: s) = true ∨ isDecimal R.isDecimal (c :: s) = true) := by
    intro h
    rcases head_of_number h with h | h
    · exact hne.1 h
    · exact absurd (h.symm.trans hne.2.2.2.2) (by decide)
  rw [not_or] at hnumber
  rw [literal, h]
  simp [hne, hnumber]

theorem inner_bracket {o c : Char} {body : Str} : inner c (o :: (body ++ [c])) = body := by
  have hlast : (o :: (body ++ [c])).getLast? = some c := by
    rw [← cons_append, getLast?_concat]
  rw [inner, if_pos hlast, tail_cons, dropLast_concat]

theorem literal_list {body : Str} (h : strip R text = '[' :: (body ++ [']'])) :
    literal R (n + 1) text = .list <$> (splitTopLevel R body).mapM (literal R n) := by
  have hquoted : ¬ IsQuoted ('[' :: (body ++ [']'])) := fun h => absurd h.2.1 (by simp)
  rw [literal_of_head (by simp) h, if_neg hquoted, if_pos rfl, inner_bracket]

theorem literal_map {body : Str} (h : strip R text = '{' :: (body ++ ['}'])) :
    literal R (n + 1) text =
      .map <$> (splitTopLevel R body).foldlM (readItem R (literal R n)) [] := by
  have hquoted : ¬ IsQuoted ('{' :: (body ++ ['}'])) := fun h => absurd h.2.1 (by simp)
  rw [literal_of_head (by simp) h, if_neg hquoted, if_neg (by decide), if_pos rfl, inner_bracket]

theorem literal_string {body : Str} (h : strip R text = '"' :: (body ++ ['"'])) :
    literal R (n + 1) text =
      if ['$', '{'] <:+: '"' :: (body ++ ['"']) then .ok (.unresolved (strip R text))
      else .ok (.str (unescape body)) := by
  have hlast : ('"' :: (body ++ ['"'])).getLast? = some '"' := by
    rw [← cons_append, getLast?_concat]
  have hquoted : IsQuoted ('"' :: (body ++ ['"'])) ↔ ¬ ['$', '{'] <:+: '"' :: (body ++ ['"']) :=
    ⟨fun h => h.2.2.2, fun h => ⟨by simp, rfl, hlast, h⟩⟩
  rw [literal_of_head (by simp) h, h]
  by_cases hinter : ['$', '{'] <:+: '"' :: (body ++ ['"'])
  · rw [if_neg (fun h => hquoted.mp h hinter), if_neg (by decide), if_neg (by decide),
      if_pos hinter]
  · rw [if_pos (hquoted.mpr hinter), if_neg hinter, dropLast_concat]

theorem literal_yes (h : strip R text = "true") :
    literal R (n + 1) text = .ok (.bool true) := by
  rw [literal, h]
  rfl

theorem literal_no (h : strip R text = "false") :
    literal R (n + 1) text = .ok (.bool false) := by
  rw [literal, h]
  rfl

theorem literal_null (h : strip R text = "null") : literal R (n + 1) text = .ok .null := by
  rw [literal, h]
  rfl

theorem numeral_mono (h : numeral Char.isDigit s = true) : numeral R.isDecimal s = true := by
  simp only [numeral, Bool.and_eq_true, all_eq_true] at h ⊢
  exact ⟨h.1, fun c hc => by rw [R.isDecimal_ascii c (isAscii_of_isDigit (h.2 c hc)), h.2 c hc]⟩

theorem not_word (hne : s ≠ []) (h : ∀ c ∈ s, numberChar c = true) :
    s ≠ [] ∧ s ≠ "true" ∧ s ≠ "false" ∧ s ≠ "null" := by
  refine ⟨hne, ?_, ?_, ?_⟩
  all_goals
    rintro rfl
    exact absurd h (by decide)

/-- **`int` on the digits of the language.** -/
theorem integer_eq_ok (h : isInteger Char.isDigit s = true) {m : ℤ} :
    integer R s = .ok m ↔ (Dialect.rightly R).int s ∧ integerOf s = m := by
  have hdigits : ∀ c ∈ unsigned s, c.isDigit = true := by
    simp only [isInteger, numeral, Bool.and_eq_true, all_eq_true] at h
    exact h.2
  have hvalue : (unsigned s).foldl (fun n c => 10 * n + R.digitValue c) 0 =
      Nat.ofDigitChars 10 (unsigned s) 0 := by
    refine foldl_ext _ _ _ fun n c hc => ?_
    rw [R.digitValue_ascii c (isAscii_of_isDigit (hdigits c hc)) (hdigits c hc)]
    rfl
  have hsign : integerOf s = if s.head? = some '-' then
      -(Nat.ofDigitChars 10 (unsigned s) 0 : ℤ) else Nat.ofDigitChars 10 (unsigned s) 0 := by
    unfold integerOf unsigned
    split_ifs <;> rfl
  have hnumeral : numeral R.isDecimal (unsigned s) = true := numeral_mono h
  simp only [numeral, Bool.and_eq_true, Bool.not_eq_true', isEmpty_eq_false_iff] at hnumeral
  rw [integer, int, hvalue, hsign]
  by_cases hlimit : R.maxStrDigits = 0 ∨ (unsigned s).length ≤ R.maxStrDigits
  · rw [if_pos ⟨hnumeral.1, hnumeral.2, hlimit⟩]
    constructor
    · intro heq
      cases heq
      exact ⟨hlimit, rfl⟩
    · rintro ⟨-, rfl⟩
      rfl
  · rw [if_neg fun hall => hlimit hall.2.2]
    exact ⟨fun heq => (by cases heq), fun hall => absurd hall.1 hlimit⟩

theorem literal_int (hs : strip R text = s) (h : isInteger Char.isDigit s = true) :
    literal R (n + 1) text = .int <$> integer R s := by
  obtain ⟨hne, hyes, hno, hnull⟩ := not_word (isInteger_chars h).1 (isInteger_chars h).2
  have hint : isInteger R.isDecimal s = true := numeral_mono h
  simp only [literal, hs, if_neg hne, if_neg (not_or.mpr ⟨hyes, hno⟩), if_neg hnull, if_pos hint]

theorem decimal_digitValue (h : isDecimal Char.isDigit s = true) :
    decimal R.digitValue s = decimalOf s := by
  simp only [isDecimal, numeral, Bool.and_eq_true, all_eq_true] at h
  unfold decimalOf decimal
  have hdigits : ∀ (n : ℕ), ∀ c ∈ (partition '.' (unsigned s)).1 ++ (partition '.' (unsigned s)).2.2,
      10 * n + R.digitValue c = 10 * n + (c.toNat - 48) := by
    intro n c hc
    have hdigit : c.isDigit = true := (mem_append.mp hc).elim (h.1.1.2 c) (h.2.2 c)
    rw [R.digitValue_ascii c (isAscii_of_isDigit hdigit) hdigit]
  dsimp only
  rw [foldl_ext _ _ 0 hdigits]

theorem literal_float (hs : strip R text = s) (h : isDecimal Char.isDigit s = true) :
    literal R (n + 1) text = .ok (.float (toDouble (decimalOf s))) := by
  obtain ⟨hne, hyes, hno, hnull⟩ := not_word (isDecimal_chars h).1 (isDecimal_chars h).2
  rw [← decimal_digitValue (R := R) h]
  simp only [isDecimal, Bool.and_eq_true] at h
  have hdecimal : isDecimal R.isDecimal s = true := by
    simp only [isDecimal, Bool.and_eq_true]
    exact ⟨⟨numeral_mono h.1.1, h.1.2⟩, numeral_mono h.2⟩
  have hint : ¬ isInteger R.isDecimal s = true := by
    intro hint
    have hpoint : '.' ∈ unsigned s := by simpa [partition] using h.1.2
    simp only [isInteger, numeral, Bool.and_eq_true, all_eq_true] at hint
    have hdot : R.isDecimal '.' = false := R.isDecimal_ascii '.' (by decide)
    exact absurd (hint.2 '.' hpoint) (by rw [hdot]; decide)
  simp only [literal, hs, if_neg hne, if_neg (not_or.mpr ⟨hyes, hno⟩), if_neg hnull, if_neg hint,
    if_pos hdecimal]

/-! ### Items -/

theorem stripQuotes_eq_self (h : '"' ∉ s) : stripQuotes s = s := by
  unfold stripQuotes rstripChar
  refine dropBoth_eq_self.mpr ⟨fun c hc => ?_, fun c hc => ?_⟩
  · simp only [beq_eq_false_iff_ne, ne_eq]
    rintro rfl
    exact h (mem_of_mem_head? hc)
  · simp only [beq_eq_false_iff_ne, ne_eq]
    rintro rfl
    exact h (mem_of_getLast? hc)

theorem stripQuotes_quoted (h : '"' ∉ s) : stripQuotes ('"' :: (s ++ ['"'])) = s := by
  by_cases hne : s = []
  · subst hne
    rfl
  · obtain ⟨c, s, rfl⟩ := exists_cons_of_ne_nil hne
    have hc : c ≠ '"' := fun hc => h (hc ▸ mem_cons_self)
    rw [stripQuotes, dropWhile_cons_of_pos (by decide), cons_append,
      dropWhile_cons_of_neg (by simpa using hc), ← cons_append, rstripChar,
      rdropWhile_concat_pos _ _ _ (by decide)]
    have := stripQuotes_eq_self h
    rwa [stripQuotes, dropWhile_cons_of_neg (by simpa using hc)] at this

theorem Key.stripQuotes {key name : Str} (h : Key R T key name)
    (hname : key = name ∨ key = '"' :: (name ++ ['"']) ∧ name ≠ []) :
    Iac.stripQuotes key = name ∧ name ≠ [] := by
  cases h with
  | ident _ hstart hall =>
    refine ⟨stripQuotes_eq_self fun hmem => ?_, by rintro rfl; exact absurd hstart (by simp)⟩
    exact (idChar_spec (hall _ hmem).1).2.2.2 rfl
  | number _ h =>
    refine ⟨stripQuotes_eq_self fun hmem => ?_, h.chars.1⟩
    exact (numberChar_spec (R := R) (h.chars.2 _ hmem)).2.2.2 rfl
  | str ts h =>
    have hle := length_meaning_le_render h.1
    rcases hname with hname | ⟨hname, hne⟩
    · have := congrArg List.length hname
      simp only [length_cons, length_append, length_nil] at this
      omega
    · have hrender : render ts = meaning ts := by simpa using hname
      refine ⟨?_, hne⟩
      rw [stripQuotes_quoted (quote_notMem_render h.1 (by rw [hrender])), hrender]

theorem Blanks.isSpace (h : Blanks s) : ∀ c ∈ s, R.isSpace c = true :=
  fun c hc => (h.gapChar c hc).isSpace

theorem Blanks.notMem (h : Blanks s) {c : Char} (hc : lineBlank c = false) : c ∉ s := by
  intro hmem
  rw [h c hmem] at hc
  exact absurd hc (by decide)

/-- **The cut of an item** behind its key. -/
theorem cutItem_written {e : Item} (h : e.Valid R T) (hcut : e.CutRightly) :
    cutItem R e.written = some (e.name, e.after ++ e.text) := by
  obtain ⟨hkey, hbefore, hsep, hafter⟩ := h
  obtain ⟨hname, heq, hcolon⟩ := hcut
  obtain ⟨hstrip, hne⟩ := hkey.stripQuotes hname
  have hwritten : e.written = (e.key ++ e.before) ++ e.sep :: (e.after ++ e.text) := by
    rw [Item.written, append_assoc]
  have hkeystrip : strip R (e.key ++ e.before) = e.key := by
    rw [strip_append_blank hbefore.isSpace, hkey.found.2.1]
  have hnotmem {c : Char} (hc : c ∉ e.key) (hblank : lineBlank c = false) :
      c ∉ e.key ++ e.before := by
    rw [mem_append, not_or]
    exact ⟨hc, hbefore.notMem hblank⟩
  have hpartition : (if '=' ∈ e.written then partition '=' e.written else partition ':' e.written) =
      (e.key ++ e.before, true, e.after ++ e.text) := by
    rcases hsep with hsep | hsep
    · rw [hwritten, hsep, if_pos (by simp), partition_append (hnotmem heq (by decide))]
    · obtain ⟨hkeycolon, htext⟩ := hcolon hsep
      have hno : '=' ∉ e.written := by
        intro hmem
        rw [hwritten, hsep] at hmem
        rcases mem_append.mp hmem with hmem | hmem
        · exact hnotmem heq (by decide) hmem
        · rcases mem_append.mp (mem_of_ne_of_mem (by decide) hmem) with hmem | hmem
          · exact hafter.notMem (by decide) hmem
          · exact htext hmem
      rw [if_neg hno, hwritten, hsep, partition_append (hnotmem hkeycolon (by decide))]
  simp only [cutItem, hpartition, hkeystrip, hstrip, if_pos (And.intro trivial hne)]

theorem readItem_written {e : Item} (h : e.Valid R T) (hcut : e.CutRightly)
    (result : List (Str × Value)) :
    readItem R (literal R n) result e.written = setItem result e.name <$> literal R n e.text := by
  have hread : literal R n (e.after ++ e.text) = literal R n e.text := by
    rw [← literal_strip, strip_blank_append h.2.2.2.isSpace, literal_strip]
  simp only [readItem, cutItem_written h hcut, hread]

/-! ### Values and meanings -/

theorem mapM_eq_ok_iff {f : Str → Except Fault Value} {es : List (Str × Value)} :
    (es.map Prod.fst).mapM f = .ok (es.map Prod.snd) ↔ ∀ e ∈ es, f e.1 = .ok e.2 := by
  induction es with
  | nil => simp [pure, Except.pure]
  | cons e es ih =>
    rw [map_cons, map_cons, mapM_cons_eq_ok, forall_mem_cons, ← ih]
    constructor
    · rintro ⟨b, bs, hb, hbs, heq⟩
      cases heq
      exact ⟨hb, hbs⟩
    · rintro ⟨hb, hbs⟩
      exact ⟨e.2, _, hb, hbs, rfl⟩

theorem foldlM_written {es : List Item} (h : ∀ e ∈ es, e.Valid R T ∧ e.CutRightly)
    (hread : ∀ e ∈ es, literal R n e.text = .ok e.value)
    (result : List (Str × Value)) :
    (es.map Item.written).foldlM (readItem R (literal R n)) result =
      .ok (es.foldl (fun result e => setItem result e.name e.value) result) := by
  induction es generalizing result with
  | nil => rfl
  | cons e es ih =>
    obtain ⟨hvalid, hcut⟩ := h e mem_cons_self
    rw [map_cons, foldlM_cons, readItem_written hvalid hcut, hread e mem_cons_self]
    exact ih (fun e he => h e (mem_cons_of_mem _ he))
      (fun e he => hread e (mem_cons_of_mem _ he)) _

theorem Found.strip_eq (h : Found R text) : strip R text = text := h.2.1

theorem Plain.not_interpolation {ts : List Tok} (h : ValidString ts) (hp : Plain ts) :
    ¬ ['$', '{'] <:+: '"' :: (render ts ++ ['"']) := by
  rw [infix_cons_iff, not_or]
  exact ⟨by simp, Iac.not_interpolation h hp.1⟩

/-- **What is in `rightly` is read as it stands.** -/
theorem literal_of_denotes (h : Denotes R T (.rightly R) n text v) : literal R n text = .ok v := by
  have hstrip := h.found.strip_eq
  induction h with
  | yes n => exact literal_yes hstrip
  | no n => exact literal_no hstrip
  | null n => exact literal_null hstrip
  | int n s h hlimit =>
    rw [literal_int hstrip h, (integer_eq_ok h).mpr ⟨hlimit, rfl⟩]
    rfl
  | float n s h hexact => rw [literal_float hstrip h, show toDouble _ = _ from hexact]
  | str n ts h hplain =>
    rw [literal_string hstrip, if_neg (hplain.not_interpolation h),
      (unescape_eq_iff h.1).mpr hplain]
  | list n es body hbody hes ih =>
    have hfound : ∀ t ∈ es.map Prod.fst, Found R t :=
      forall_mem_map.mpr fun e he => (hes e he).found
    rw [literal_list hstrip, (hbody.found hfound).2,
      mapM_eq_ok_iff.mpr fun e he => ih e he (hes e he).found.strip_eq]
    rfl
  | map n es body d hbody hvalid _ _ hes hd ih =>
    have hfound : ∀ t ∈ es.map Item.written, Found R t :=
      forall_mem_map.mpr fun e he => (hvalid e he).1.found (hes e he).found
    have hd : d = dictOf es := hd
    rw [hd, literal_map hstrip, (hbody.found hfound).2,
      foldlM_written hvalid fun e he => ih e he (hes e he).found.strip_eq]
    rfl

theorem setItem_of_notMem {result : List (Str × Value)} {name : Str}
    (h : name ∉ result.map Prod.fst) : setItem result name v = result ++ [(name, v)] := by
  rw [setItem, if_neg h]

theorem foldl_setItem {es : List Item} {result : List (Str × Value)}
    (h : (result.map Prod.fst ++ es.map Item.name).Nodup) :
    es.foldl (fun result e => setItem result e.name e.value) result =
      result ++ es.map fun e => (e.name, e.value) := by
  induction es generalizing result with
  | nil => simp
  | cons e es ih =>
    have hnew : e.name ∉ result.map Prod.fst := by
      have := (nodup_append.mp h).2.2
      exact fun hmem => this _ hmem _ mem_cons_self rfl
    rw [foldl_cons, setItem_of_notMem hnew, ih (by simpa using h)]
    simp

theorem of_foldlM_written {es : List Item} {result d : List (Str × Value)}
    (h : ∀ e ∈ es, e.Valid R T ∧ e.CutRightly)
    (hnodup : (result.map Prod.fst ++ es.map Item.name).Nodup)
    (hread : (es.map Item.written).foldlM (readItem R (literal R n)) result = .ok d) :
    ∃ f : Str → Value, (∀ e ∈ es, literal R n e.text = .ok (f e.text)) ∧
      d = result ++ es.map fun e => (e.name, f e.text) := by
  refine ⟨fun t => ((literal R n t).toOption).getD .null, ?_⟩
  induction es generalizing result with
  | nil =>
    cases hread
    simp
  | cons e es ih =>
    have hnew : e.name ∉ result.map Prod.fst := by
      have := (nodup_append.mp hnodup).2.2
      exact fun hmem => this _ hmem _ mem_cons_self rfl
    obtain ⟨hvalid, hcut⟩ := h e mem_cons_self
    rw [map_cons, foldlM_cons, readItem_written hvalid hcut, bind_eq_ok] at hread
    obtain ⟨result', hfirst, hread⟩ := hread
    obtain ⟨w, hw, rfl⟩ := map_eq_ok.mp hfirst
    rw [setItem_of_notMem hnew] at hread
    obtain ⟨hall, rfl⟩ :=
      ih (fun e he => h e (mem_cons_of_mem _ he)) (by simpa using hnodup) hread
    refine ⟨forall_mem_cons.mpr ⟨by simp [hw, Except.toOption], hall⟩, ?_⟩
    simp [hw, Except.toOption]

/-- **Items with names of their own** that were read as a dictionary with their entries were read as
their values. -/
theorem values_of_foldlM {es : List Item} {d : List (Str × Value)}
    (h : ∀ e ∈ es, e.Valid R T ∧ e.CutRightly) (hnodup : (es.map Item.name).Nodup)
    (hsame : d.Perm (dictOf es))
    (hread : (es.map Item.written).foldlM (readItem R (literal R n)) [] = .ok d) :
    (∀ e ∈ es, literal R n e.text = .ok e.value) ∧ d = dictOf es := by
  have hnames : (([] : List (Str × Value)).map Prod.fst ++ es.map Item.name).Nodup := hnodup
  have hdict : dictOf es = es.map fun e => (e.name, e.value) := foldl_setItem hnames
  obtain ⟨f, hf, hd⟩ := of_foldlM_written h hnames hread
  rw [nil_append] at hd
  have hvalue : ∀ e ∈ es, f e.text = e.value := by
    intro e he
    have hmem : (e.name, f e.text) ∈ dictOf es :=
      hsame.subset (hd ▸ mem_map.mpr ⟨e, he, rfl⟩)
    rw [hdict] at hmem
    obtain ⟨e', he', heq⟩ := mem_map.mp hmem
    obtain ⟨hname, hvalue⟩ := Prod.mk.inj heq
    rw [← hvalue, inj_on_of_nodup_map hnodup he' he hname]
  refine ⟨fun e he => by rw [hf e he, hvalue e he], ?_⟩
  rw [hd, hdict]
  exact map_congr_left fun e he => by rw [hvalue e he]

theorem pos_of_literal (h : literal R n text = .ok v) : ∃ k, n = k + 1 := by
  cases n with
  | zero => cases h
  | succ n => exact ⟨n, rfl⟩

/-- **What is read rightly is in `rightly`**, where maps are cut where they should be. -/
theorem denotes_of_literal {m : ℕ} (h : Denotes R T .cut m text v)
    (hread : literal R n text = .ok v) : Denotes R T (.rightly R) n text v := by
  induction h generalizing n with
  | yes m =>
    obtain ⟨n, rfl⟩ := pos_of_literal hread
    exact .yes n
  | no m =>
    obtain ⟨n, rfl⟩ := pos_of_literal hread
    exact .no n
  | null m =>
    obtain ⟨n, rfl⟩ := pos_of_literal hread
    exact .null n
  | int m s h hint =>
    obtain ⟨n, rfl⟩ := pos_of_literal hread
    have hstrip := (Denotes.int (R := R) (T := T) m s h hint).found.strip_eq
    rw [literal_int hstrip h] at hread
    obtain ⟨k, hk, -⟩ := map_eq_ok.mp hread
    exact .int n s h ((integer_eq_ok h).mp hk).1
  | float m s h hfloat =>
    obtain ⟨n, rfl⟩ := pos_of_literal hread
    have hstrip := (Denotes.float (R := R) (T := T) m s h hfloat).found.strip_eq
    rw [literal_float hstrip h] at hread
    injection hread with hread
    injection hread with hread
    exact .float n s h hread
  | str m ts h _ =>
    obtain ⟨n, rfl⟩ := pos_of_literal hread
    rw [literal_string (found_string h.1).strip_eq] at hread
    split_ifs at hread with hinter
    · cases hread
    · refine .str n ts h ((unescape_eq_iff h.1).mp ?_)
      injection hread with hread
      injection hread
  | list m es body hbody hes ih =>
    obtain ⟨n, rfl⟩ := pos_of_literal hread
    have hfound : ∀ t ∈ es.map Prod.fst, Found R t :=
      forall_mem_map.mpr fun e he => (hes e he).found
    obtain ⟨hlist, hsplit⟩ := hbody.found hfound
    rw [literal_list hlist.strip_eq, hsplit] at hread
    obtain ⟨vs, hvs, heq⟩ := map_eq_ok.mp hread
    injection heq with heq
    rw [heq] at hvs
    exact .list n es body hbody fun e he => ih e he (mapM_eq_ok_iff.mp hvs e he)
  | map m es body d hbody hvalid hfor hnodup hes hsame ih =>
    obtain ⟨n, rfl⟩ := pos_of_literal hread
    have hfound : ∀ t ∈ es.map Item.written, Found R t :=
      forall_mem_map.mpr fun e he => (hvalid e he).1.found (hes e he).found
    obtain ⟨hmap, hsplit⟩ := hbody.found hfound
    rw [literal_map hmap.strip_eq, hsplit] at hread
    obtain ⟨d', hd, heq⟩ := map_eq_ok.mp hread
    injection heq with heq
    obtain ⟨hvalues, hdict⟩ := values_of_foldlM hvalid hnodup hsame (heq ▸ hd)
    exact .map n es body d hbody hvalid hfor trivial (fun e he => ih e he (hvalues e he)) hdict

theorem not_looksLiteral_nil : ¬ LooksLiteral R [] := by
  simp [LooksLiteral, isInteger, isDecimal, unsigned, numeral, partition, IsQuoted]

/-- A text that looks like a literal is not left as it is. -/
theorem ne_unresolved (h : LooksLiteral R (strip R text)) (hread : literal R n text = .ok v) :
    ∀ s, v ≠ .unresolved s := by
  obtain ⟨n, rfl⟩ := pos_of_literal hread
  rintro s rfl
  simp only [literal] at hread
  split_ifs at hread with hnil hbool hnull hint hdecimal hquoted hlist hmap
  · exact not_looksLiteral_nil (hnil ▸ h)
  · cases hread
  · cases hread
  · obtain ⟨m, -, heq⟩ := map_eq_ok.mp hread
    cases heq
  · cases hread
  · cases hread
  · obtain ⟨m, -, heq⟩ := map_eq_ok.mp hread
    cases heq
  · obtain ⟨m, -, heq⟩ := map_eq_ok.mp hread
    cases heq
  · rcases h with hword | h | h | h | h | h
    · simp only [mem_cons, not_mem_nil, or_false] at hword
      rcases hword with h | h | h
      · exact hbool (Or.inl h)
      · exact hbool (Or.inr h)
      · exact hnull h
    · exact hint h
    · exact hdecimal h
    · exact hquoted h
    · exact hlist h
    · exact hmap h

/-- **Any other text is left as it is.** -/
theorem literal_of_not_looksLiteral (h : ¬ LooksLiteral R (strip R text)) :
    literal R (n + 1) text = .ok (.unresolved (strip R text)) := by
  simp only [LooksLiteral, mem_cons, not_mem_nil, or_false, not_or] at h
  obtain ⟨⟨hyes, hno, hnull⟩, hint, hdecimal, hquoted, hlist, hmap⟩ := h
  simp only [literal, if_neg (not_or.mpr ⟨hyes, hno⟩), if_neg hnull, if_neg hint, if_neg hdecimal,
    if_neg hquoted, if_neg hlist, if_neg hmap]
  split_ifs with hnil
  · rw [hnil]
  · rfl

/-! ### When texts are read as the language does -/

theorem Denotes.of_rightly (h : Denotes R T (.rightly R) n text v) : Denotes R T .hcl n text v := by
  induction h with
  | yes n => exact .yes n
  | no n => exact .no n
  | null n => exact .null n
  | int n s h _ => exact .int n s h trivial
  | float n s h _ => exact .float n s h trivial
  | str n ts h _ => exact .str n ts h trivial
  | list n es body hbody _ ih => exact .list n es body hbody ih
  | map n es body d hbody hvalid hfor _ _ hd ih =>
    exact .map n es body d hbody (fun e he => ⟨(hvalid e he).1, trivial⟩) hfor trivial ih
      (Perm.of_eq hd)

theorem Denotes.of_str (h : Denotes R T K n text (.str s)) :
    ∃ ts, ValidString ts ∧ K.str ts ∧ text = '"' :: (render ts ++ ['"']) ∧ s = meaning ts := by
  cases h with
  | str n ts h hstr => exact ⟨ts, h, hstr, rfl, rfl⟩

theorem literal_encode {ts : List Tok} (h : ValidString ts) (hp : Plain ts) :
    literal R (n + 1) ('"' :: (encode (meaning ts) ++ ['"'])) = .ok (.str (meaning ts)) := by
  obtain ⟨hvalid, hplain⟩ := tokens_valid h hp
  have hread :=
    literal_of_denotes (R := R) (T := .ascii) (.str n (tokens (meaning ts)) hvalid hplain)
  rwa [meaning_tokens] at hread

variable (R T) in
/-- **When a text is read as the language does**: if it looks like a literal, it is one that is read
rightly. -/
def ReadRightly (n : ℕ) (text : Str) : Prop :=
  LooksLiteral R (strip R text) → ∃ v, Denotes R T (.rightly R) (n + 1) (strip R text) v

theorem meets_of_readRightly (h : ReadRightly R T n text) : Meets R T n text := by
  by_cases hlooks : LooksLiteral R (strip R text)
  · obtain ⟨v, hv⟩ := h hlooks
    have hread := literal_of_denotes hv
    rw [literal_strip] at hread
    refine ⟨v, hread, Or.inr ⟨n + 1, hv.of_rightly⟩, ?_⟩
    rintro s rfl
    obtain ⟨ts, hts, hplain, -, rfl⟩ := hv.of_str
    exact literal_encode hts hplain
  · refine ⟨_, literal_of_not_looksLiteral hlooks, Or.inl rfl, ?_⟩
    rintro s h
    cases h

theorem readRightly_of_meets (hcut : ∀ m v, Denotes R T .hcl m (strip R text) v →
    Denotes R T .cut m (strip R text) v) (h : Meets R T n text) : ReadRightly R T n text := by
  intro hlooks
  obtain ⟨v, hread, hv | ⟨m, hv⟩, -⟩ := h
  · exact absurd hv (ne_unresolved hlooks hread _)
  · exact ⟨v, denotes_of_literal (hcut m v hv) (literal_strip.trans hread)⟩

/-- **When `literal` does what it is for.**  The condition is enough for every text, and needed
where the items of maps are cut behind their keys and have names of their own. -/
theorem literal_iff (R : Runtime) (T : Tables) (n : ℕ) (text : Str) :
    (ReadRightly R T n text → Meets R T n text) ∧
      ((∀ m v, Denotes R T .hcl m (strip R text) v → Denotes R T .cut m (strip R text) v) →
        (Meets R T n text ↔ ReadRightly R T n text)) :=
  ⟨meets_of_readRightly, fun hcut => ⟨readRightly_of_meets hcut, meets_of_readRightly⟩⟩

theorem render_cons_spec {ts : List Tok} (h : ∀ t ∈ ts, t.Valid) {c : Char}
    (heq : render ts = c :: s) :
    c ≠ '"' ∧ (c ∉ ['\\', '$', '%'] → ∃ ts', ts = .char c :: ts') := by
  cases ts with
  | nil => cases heq
  | cons t ts =>
    have ht := h t mem_cons_self
    rw [render_cons] at heq
    cases t with
    | char d =>
      obtain ⟨rfl, -⟩ := List.cons.inj heq
      exact ⟨ht.1, fun _ => ⟨ts, rfl⟩⟩
    | rare raw value =>
      obtain ⟨d, ds, -, ⟨rfl, -⟩ | ⟨rfl, hd⟩⟩ := Rare.shape ht
      · obtain ⟨rfl, -⟩ := List.cons.inj heq
        exact ⟨by decide, fun h => absurd (by simp) h⟩
      · obtain ⟨rfl, -⟩ := List.cons.inj heq
        rcases hd with rfl | rfl <;> exact ⟨by decide, fun h => absurd (by simp) h⟩
    | _ =>
      obtain ⟨rfl, -⟩ := List.cons.inj heq
      exact ⟨by decide, fun h => absurd (by simp) h⟩

/-- A comparison of two strings. -/
theorem comparison_resolved : ¬ Meets .ascii .ascii 0 "\"a\" == \"b\"" := by
  rintro ⟨v, hread, hv, -⟩
  have hvalue : literal .ascii 1 "\"a\" == \"b\"" = .ok (.str "a\" == \"b") := rfl
  rw [hvalue] at hread
  cases hread
  rcases hv with hv | ⟨m, hv⟩
  · cases hv
  · obtain ⟨ts, hts, -, htext, -⟩ := hv.of_str
    have hstrip : strip .ascii "\"a\" == \"b\"" = "\"a\" == \"b\"" := rfl
    rw [hstrip] at htext
    have hrender : render ts = "a\" == \"b" := by
      have := congrArg (fun s => s.tail.dropLast) htext
      simpa using this.symm
    obtain ⟨ts, rfl⟩ := (render_cons_spec hts.1 hrender).2 (by decide)
    have htail : render ts = "\" == \"b" := (List.cons.inj hrender).2
    exact (render_cons_spec (fun t ht => hts.1 t (mem_cons_of_mem _ ht)) htail).1 rfl

end Reads

end Guardian.Iac

import Guardian.Python.DateTime
import Guardian.Python.Base64
import Guardian.Python.Json

/-!
# JSON texts

`json.dumps` of a dictionary of numbers and texts, and `json.loads` of what it writes.  What else
`json.loads` may be given is left to a parameter.
-/

namespace Guardian.Python

open List
/-- `"` -/
abbrev quote : Char := '\x22'

/-! ### Writing -/

/-- The characters that stand for themselves in a text. -/
def plain (c : Char) : Bool := decide (32 ≤ c.toNat ∧ c.toNat < 127) && c ≠ quote && c ≠ '\x5c'

def unicodeEscape (n : ℕ) : Str := '\x5c' :: 'u' :: (fixedDigits 16 4 n).map hexDigit

/-- What is written for a character. -/
def escapeChar (c : Char) : Str :=
  if plain c then [c]
  else if c = quote then ['\x5c', quote]
  else if c = '\x5c' then ['\x5c', '\x5c']
  else if c = '\n' then ['\x5c', 'n']
  else if c = '\r' then ['\x5c', 'r']
  else if c = '\t' then ['\x5c', 't']
  else if c = '\x0c' then ['\x5c', 'f']
  else if c = '\x08' then ['\x5c', 'b']
  else if c.toNat < 65536 then unicodeEscape c.toNat
  else unicodeEscape (55296 + (c.toNat - 65536) / 1024) ++
    unicodeEscape (56320 + (c.toNat - 65536) % 1024)

/-- `json.dumps(s)` -/
def dumpsText (s : Str) : Str := quote :: (s.flatMap escapeChar ++ [quote])

/-- `str(n)` -/
def integerText (n : ℤ) : Str :=
  if n < 0 then '-' :: Nat.toDigits 10 n.natAbs else Nat.toDigits 10 n.natAbs

/-- **A number or a text.** -/
inductive Scalar
  | int (n : ℤ)
  | str (s : Str)

/-- The value that a number or a text is. -/
def Scalar.json : Scalar → Json
  | .int n => .number (integerText n)
  | .str s => .str s

/-- `json.dumps` of a number or a text. -/
def Scalar.dumps : Scalar → Str
  | .int n => integerText n
  | .str s => dumpsText s

def dumpsEntry (entry : Str × Scalar) : Str :=
  dumpsText entry.1 ++ ':' :: ' ' :: entry.2.dumps

def dumpsEntries (d : List (Str × Scalar)) : Str := [',', ' '].intercalate (d.map dumpsEntry)

/-- **`json.dumps(d)`** -/
def dumps (d : List (Str × Scalar)) : Str := '\x7b' :: (dumpsEntries d ++ ['\x7d'])

/-! ### Reading -/

/-- The text without the blanks at its start. -/
def skipBlank (s : Str) : Str := s.dropWhile fun c => c ∈ [' ', '\t', '\n', '\r']

/-- The rest of a text of characters that stand for themselves, and what follows. -/
def readPlain : Str → Option (Str × Str)
  | [] => none
  | c :: s =>
    if c = quote then some ([], s)
    else if plain c then (readPlain s).map fun read => (c :: read.1, read.2)
    else none

/-- Each limit for the digits of a number that may be set allows this many. -/
def minStrDigits : ℕ := 640

/-- The digits of a whole number, and what follows. -/
def readDigits (s : Str) : Option (Str × Str) :=
  let digits := s.takeWhile Char.isDigit
  if digits = ['0'] ∨ digits ≠ [] ∧ digits.head? ≠ some '0' ∧ digits.length ≤ minStrDigits then
    some (digits, s.dropWhile Char.isDigit)
  else none

/-- A whole number, and what follows. -/
def readInteger (s : Str) : Option (Str × Str) :=
  if s.head? = some '-' then (readDigits s.tail).map fun read => ('-' :: read.1, read.2)
  else readDigits s

/-- A whole number or a text, and what follows. -/
def readScalar (s : Str) : Option (Json × Str) :=
  if s.head? = some quote then (readPlain s.tail).map fun read => (.str read.1, read.2)
  else (readInteger s).map fun read => (.number read.1, read.2)

/-- The entries of a dictionary, after the ones that were read; `fuel` of them at most. -/
def readEntries : ℕ → Json.Dict → Str → Option Json.Dict
  | 0, _, _ => none
  | fuel + 1, d, s => do
    let s ← readChar quote s
    let (key, s) ← readPlain s
    let s ← readChar ':' (skipBlank s)
    let (value, s) ← readScalar (skipBlank s)
    let d := Json.put key value d
    let s := skipBlank s
    if s.head? = some ',' then readEntries fuel d (skipBlank s.tail)
    else if s.head? = some '\x7d' ∧ skipBlank s.tail = [] then some d
    else none

/-- A dictionary of whole numbers and texts without escapes. -/
def readObject (s : Str) : Option Json.Dict := do
  let s ← readChar '\x7b' (skipBlank s)
  readEntries s.length [] (skipBlank s)

/-- **`json.loads(b)`**, with what it makes of other texts. -/
def loads (other : Bytes → Except Fault Json) (b : Bytes) : Except Fault Json :=
  match (decode b).bind readObject with
  | some d => .ok (.dict d)
  | none => other b

/-- The number that a text of digits is, after its sign. -/
def integerOf (s : Str) : ℤ :=
  if s.head? = some '-' then -(Nat.ofDigitChars 10 s.tail 0 : ℤ) else (Nat.ofDigitChars 10 s 0 : ℤ)

/-- **`int(x)`** for what `json.loads` returns: a whole number is read as such. -/
def intOf (other : Json → Except Fault ℤ) : Json → Except Fault ℤ
  | .number text =>
    if (readInteger text).map Prod.snd = some [] then .ok (integerOf text) else other (.number text)
  | value => other value

/-! ### Texts that are written as they are -/

theorem plain_of_isDigit {c : Char} (h : c.isDigit = true) : plain c = true := by
  obtain ⟨hlow, hhigh⟩ := Char.isDigit_iff_toNat.mp h
  have hrange : 48 ≤ c.toNat ∧ c.toNat ≤ 57 := ⟨hlow, hhigh⟩
  have hall : ∀ n : Fin 58, 48 ≤ n.val → plain (Char.ofNat n) = true := by decide
  have hc := hall ⟨c.toNat, by omega⟩ hrange.1
  rwa [Char.ofNat_toNat] at hc

theorem plain_isoformat (d : DateTime) : d.isoformat.all plain := by
  rw [all_eq_true]
  intro c hc
  rcases mem_isoformat hc with hdigit | hmark
  · exact plain_of_isDigit hdigit
  · have hall : ∀ c ∈ isoMarks, plain c = true := by decide
    exact hall c hmark

theorem plain_uuidText (u : UUID) : (uuidText u).all plain := by
  rw [all_eq_true]
  intro c hc
  rcases mem_dashed hc with rfl | hc
  · decide
  · obtain ⟨d, hd, rfl⟩ := mem_map.mp hc
    have hall : ∀ d : Fin 16, plain (hexDigit d) = true := by decide
    exact hall ⟨d, lt_of_mem_fixedDigits (by decide) hd⟩

/-! ### The round trip -/

theorem put_of_notMem {key : Str} {value : Json} {d : Json.Dict} (h : key ∉ d.map Prod.fst) :
    Json.put key value d = d ++ [(key, value)] := by
  induction d with
  | nil => rfl
  | cons e d ih =>
    rw [map_cons, mem_cons, not_or] at h
    obtain ⟨k, v⟩ := e
    rw [Json.put, if_neg (Ne.symm h.1), ih h.2, cons_append]

theorem readPlain_append {s : Str} (h : s.all plain) (rest : Str) :
    readPlain (s ++ quote :: rest) = some (s, rest) := by
  induction s with
  | nil => exact if_pos rfl
  | cons c s ih =>
    rw [all_cons, Bool.and_eq_true] at h
    have hquote : c ≠ quote := by
      rintro rfl
      exact absurd h.1 (by decide)
    rw [cons_append, readPlain, if_neg hquote, if_pos h.1, ih h.2]
    rfl

theorem dumpsText_of_plain {s : Str} (h : s.all plain) : dumpsText s = quote :: (s ++ [quote]) := by
  have hself : s.flatMap escapeChar = s := by
    induction s with
    | nil => rfl
    | cons c s ih =>
      rw [all_cons, Bool.and_eq_true] at h
      rw [flatMap_cons, ih h.2, escapeChar, if_pos h.1]
      rfl
  unfold dumpsText
  rw [hself]

theorem head_toDigits_ne {n : ℕ} (h : 0 < n) : (Nat.toDigits 10 n).head? ≠ some '0' := by
  induction n using Nat.strongRecOn with
  | ind n ih =>
    rw [Nat.toDigits_eq_if (by decide)]
    split_ifs with hlt
    · interval_cases n <;> decide
    · rw [head?_append_of_ne_nil _ Nat.toDigits_ne_nil]
      exact ih (n / 10) (Nat.div_lt_self h (by decide)) (by omega)

/-- **A number is read back from its digits**, if no digit follows. -/
theorem readDigits_toDigits {n : ℕ} (hn : n < 10 ^ minStrDigits) {rest : Str}
    (hrest : ∀ c ∈ rest.head?, c.isDigit = false) :
    readDigits (Nat.toDigits 10 n ++ rest) = some (Nat.toDigits 10 n, rest) := by
  have hdigits : ∀ c ∈ Nat.toDigits 10 n, c.isDigit = true := fun c hc =>
    Nat.isDigit_of_mem_toDigits (by decide) (by decide) hc
  have hstop : rest.takeWhile Char.isDigit = [] ∧ rest.dropWhile Char.isDigit = rest := by
    rcases rest with _ | ⟨c, rest⟩
    · exact ⟨rfl, rfl⟩
    · have hc := hrest c rfl
      rw [takeWhile_cons, dropWhile_cons, hc]
      exact ⟨rfl, rfl⟩
  have htake : (Nat.toDigits 10 n ++ rest).takeWhile Char.isDigit = Nat.toDigits 10 n := by
    rw [takeWhile_append_of_pos hdigits, hstop.1, append_nil]
  have hdrop : (Nat.toDigits 10 n ++ rest).dropWhile Char.isDigit = rest := by
    rw [dropWhile_append_of_pos hdigits, hstop.2]
  unfold readDigits
  dsimp only
  rw [htake, hdrop, if_pos]
  rcases Nat.eq_zero_or_pos n with rfl | hpos
  · exact Or.inl rfl
  · refine Or.inr ⟨Nat.toDigits_ne_nil, head_toDigits_ne hpos, ?_⟩
    exact (Nat.length_toDigits_le_iff (by decide) (by decide)).mpr hn

/-- The numbers and texts that are written as they are, and read. -/
def Scalar.Plain : Scalar → Prop
  | .int n => n.natAbs < 10 ^ minStrDigits
  | .str s => s.all plain

theorem readInteger_integerText {n : ℤ} (hn : n.natAbs < 10 ^ minStrDigits) {rest : Str}
    (hrest : ∀ c ∈ rest.head?, c.isDigit = false) :
    readInteger (integerText n ++ rest) = some (integerText n, rest) := by
  have hread := readDigits_toDigits hn hrest
  unfold readInteger integerText
  split_ifs with hneg hsign hsign
  · change (readDigits (Nat.toDigits 10 n.natAbs ++ rest)).map _ = _
    rw [hread]
    rfl
  · exact absurd rfl hsign
  · rw [head?_append_of_ne_nil _ Nat.toDigits_ne_nil] at hsign
    have hdigit := Nat.isDigit_of_mem_toDigits (by decide) (by decide) (mem_of_head? hsign)
    exact absurd hdigit (by decide)
  · exact hread

theorem head_integerText_ne (n : ℤ) (rest : Str) :
    (integerText n ++ rest).head? ≠ some quote := by
  intro hhead
  unfold integerText at hhead
  split_ifs at hhead with hneg
  · exact absurd (Option.some.inj hhead) (by decide)
  · rw [head?_append_of_ne_nil _ Nat.toDigits_ne_nil] at hhead
    have hdigit := Nat.isDigit_of_mem_toDigits (by decide) (by decide) (mem_of_head? hhead)
    exact absurd hdigit (by decide)

theorem readScalar_dumps {x : Scalar} (hx : x.Plain) {rest : Str}
    (hrest : ∀ c ∈ rest.head?, c.isDigit = false) :
    readScalar (x.dumps ++ rest) = some (x.json, rest) := by
  unfold readScalar
  cases x with
  | int n =>
    change (if (integerText n ++ rest).head? = some quote then _ else
      (readInteger (integerText n ++ rest)).map _) = _
    rw [if_neg (head_integerText_ne n rest), readInteger_integerText hx hrest]
    rfl
  | str s =>
    change (if (dumpsText s ++ rest).head? = some quote then
      (readPlain (dumpsText s ++ rest).tail).map _ else _) = _
    rw [dumpsText_of_plain hx, cons_append, if_pos head?_cons, tail_cons,
      append_assoc, singleton_append, readPlain_append hx]
    rfl

/-! ### Dictionaries -/

theorem skipBlank_of_head {s : Str} (h : ∀ c ∈ s.head?, c ∉ [' ', '\t', '\n', '\r']) :
    skipBlank s = s := by
  rcases s with _ | ⟨c, s⟩
  · rfl
  · exact dropWhile_cons_of_neg (by simpa using h c rfl)

theorem skipBlank_blank (s : Str) : skipBlank (' ' :: s) = skipBlank s := rfl

theorem skipBlank_dumps {x : Scalar} (hx : x.Plain) (rest : Str) :
    skipBlank (x.dumps ++ rest) = x.dumps ++ rest := by
  refine skipBlank_of_head fun c hc => ?_
  cases x with
  | int n =>
    change c ∈ (integerText n ++ rest).head? at hc
    unfold integerText at hc
    split_ifs at hc with hneg
    · cases hc
      decide
    · rw [head?_append_of_ne_nil _ Nat.toDigits_ne_nil] at hc
      have hdigit : c.isDigit = true :=
        Nat.isDigit_of_mem_toDigits (by decide) (by decide) (mem_of_head? hc)
      intro hmem
      have hall : ∀ c ∈ [' ', '\t', '\n', '\r'], c.isDigit = false := by decide
      rw [hall c hmem] at hdigit
      cases hdigit
  | str s =>
    cases hc
    decide

theorem readEntries_entry {key : Str} {x : Scalar} (hkey : key.all plain) (hx : x.Plain)
    (fuel : ℕ) (d : Json.Dict) {c : Char} (hc : c.isDigit = false) (rest : Str) :
    readEntries (fuel + 1) d (dumpsEntry (key, x) ++ c :: rest) =
      let s := skipBlank (c :: rest)
      if s.head? = some ',' then readEntries fuel (Json.put key x.json d) (skipBlank s.tail)
      else if s.head? = some '\x7d' ∧ skipBlank s.tail = [] then some (Json.put key x.json d)
      else none := by
  have hscalar : readScalar (x.dumps ++ c :: rest) = some (x.json, c :: rest) :=
    readScalar_dumps hx fun _ h => by cases h; exact hc
  have htext : dumpsEntry (key, x) ++ c :: rest =
      quote :: (key ++ quote :: ':' :: ' ' :: (x.dumps ++ c :: rest)) := by
    unfold dumpsEntry
    rw [dumpsText_of_plain hkey]
    simp only [cons_append, append_assoc, nil_append]
  have hcolon : skipBlank (':' :: ' ' :: (x.dumps ++ c :: rest)) =
      ':' :: ' ' :: (x.dumps ++ c :: rest) := skipBlank_of_head fun _ h => by cases h; decide
  rw [htext, readEntries]
  simp only [readChar_cons, readPlain_append hkey, hcolon, skipBlank_blank, skipBlank_dumps hx,
    hscalar, Option.bind_eq_bind, Option.bind_some]

theorem dumpsEntries_cons (e e' : Str × Scalar) (d : List (Str × Scalar)) :
    dumpsEntries (e :: e' :: d) = dumpsEntry e ++ ',' :: ' ' :: dumpsEntries (e' :: d) := by
  unfold dumpsEntries
  rw [map_cons, map_cons, intercalate_cons_cons, append_assoc]
  rfl

theorem length_le_dumpsEntries (d : List (Str × Scalar)) : d.length ≤ (dumpsEntries d).length := by
  induction d with
  | nil => exact Nat.zero_le _
  | cons e d ih =>
    rcases d with _ | ⟨e', d⟩
    · unfold dumpsEntries
      rw [map_singleton, intercalate_singleton]
      exact Nat.succ_le_succ (Nat.zero_le _)
    · rw [dumpsEntries_cons]
      simp only [length_append, length_cons] at ih ⊢
      omega

/-- The entries are read after those that were read before, under other keys. -/
theorem readEntries_dumps {d : List (Str × Scalar)} (hne : d ≠ [])
    (hd : ∀ e ∈ d, e.1.all plain ∧ e.2.Plain) {read : Json.Dict}
    (hkeys : (read.map Prod.fst ++ d.map Prod.fst).Nodup) {fuel : ℕ} (hfuel : d.length ≤ fuel) :
    readEntries fuel read (dumpsEntries d ++ ['\x7d']) =
      some (read ++ d.map fun e => (e.1, e.2.json)) := by
  induction d generalizing read fuel with
  | nil => exact absurd rfl hne
  | cons e d ih =>
    obtain ⟨key, x⟩ := e
    obtain ⟨hkey, hx⟩ := hd (key, x) (mem_cons_self ..)
    obtain ⟨fuel, rfl⟩ : ∃ n, fuel = n + 1 :=
      Nat.exists_eq_succ_of_ne_zero (Nat.ne_of_gt (lt_of_lt_of_le (Nat.succ_pos _) hfuel))
    have hput : Json.put key x.json read = read ++ [(key, x.json)] := by
      refine put_of_notMem fun hmem => ?_
      exact (nodup_append.mp hkeys).2.2 key hmem key (mem_cons_self ..) rfl
    rcases d with _ | ⟨e', d⟩
    · have hlast : dumpsEntries [(key, x)] = dumpsEntry (key, x) := intercalate_singleton
      rw [hlast, readEntries_entry hkey hx fuel read (by decide), hput]
      rfl
    · have hnext : readEntries fuel (read ++ [(key, x.json)]) (dumpsEntries (e' :: d) ++ ['\x7d']) =
          some (read ++ [(key, x.json)] ++ (e' :: d).map fun e => (e.1, e.2.json)) := by
        refine ih (cons_ne_nil _ _) (fun e he => hd e (mem_cons_of_mem _ he)) ?_
          (Nat.le_of_succ_le_succ hfuel)
        rw [map_append, append_assoc]
        exact hkeys
      have hcut : dumpsEntries ((key, x) :: e' :: d) ++ ['\x7d'] =
          dumpsEntry (key, x) ++ ',' :: ' ' :: (dumpsEntries (e' :: d) ++ ['\x7d']) := by
        rw [dumpsEntries_cons, append_assoc]
        rfl
      have hstart : skipBlank (dumpsEntries (e' :: d) ++ ['\x7d']) =
          dumpsEntries (e' :: d) ++ ['\x7d'] := by
        refine skipBlank_of_head fun c hc => ?_
        rcases d with _ | ⟨e'', d⟩ <;> cases hc <;> decide
      rw [hcut, readEntries_entry hkey hx fuel read (by decide), hput]
      change readEntries fuel _ (skipBlank (' ' :: _)) = _
      rw [skipBlank_blank, hstart, hnext, append_assoc]
      rfl

/-- **A dictionary is read back from its text.** -/
theorem readObject_dumps {d : List (Str × Scalar)} (hne : d ≠ [])
    (hd : ∀ e ∈ d, e.1.all plain ∧ e.2.Plain) (hkeys : (d.map Prod.fst).Nodup) :
    readObject (dumps d) = some (d.map fun e => (e.1, e.2.json)) := by
  have hbrace : skipBlank (dumps d) = dumps d := skipBlank_of_head fun c hc => by cases hc; decide
  have hstart : skipBlank (dumpsEntries d ++ ['\x7d']) = dumpsEntries d ++ ['\x7d'] := by
    refine skipBlank_of_head fun c hc => ?_
    rcases d with _ | ⟨e, _ | ⟨e', d⟩⟩ <;> cases hc <;> decide
  have hfuel : d.length ≤ (dumpsEntries d ++ ['\x7d']).length := by
    rw [length_append]
    exact (length_le_dumpsEntries d).trans (Nat.le_add_right _ _)
  unfold readObject
  rw [hbrace]
  simp only [dumps, readChar_cons, Option.bind_eq_bind, Option.bind_some, hstart]
  have hfresh : (([] : Json.Dict).map Prod.fst ++ d.map Prod.fst).Nodup := hkeys
  exact readEntries_dumps hne hd hfresh hfuel

theorem loads_dumps (other : Bytes → Except Fault Json) {d : List (Str × Scalar)} (hne : d ≠ [])
    (hd : ∀ e ∈ d, e.1.all plain ∧ e.2.Plain) (hkeys : (d.map Prod.fst).Nodup) :
    loads other (encode (dumps d)) = .ok (.dict (d.map fun e => (e.1, e.2.json))) := by
  unfold loads
  rw [decode_encode, Option.bind_some, readObject_dumps hne hd hkeys]

theorem intOf_int (other : Json → Except Fault ℤ) {n : ℤ} (hn : n.natAbs < 10 ^ minStrDigits) :
    intOf other (Scalar.int n).json = .ok n := by
  have hread : readInteger (integerText n ++ []) = some (integerText n, []) :=
    readInteger_integerText hn fun _ hc => (by cases hc)
  rw [append_nil] at hread
  have hvalue : integerOf (integerText n) = n := by
    unfold integerOf integerText
    by_cases hneg : n < 0
    · rw [if_pos hneg, if_pos head?_cons, tail_cons, Nat.ofDigitChars_ten_toDigits]
      omega
    · have hhead : (Nat.toDigits 10 n.natAbs).head? ≠ some '-' := by
        intro hhead
        have hdigit := Nat.isDigit_of_mem_toDigits (by decide) (by decide) (mem_of_head? hhead)
        exact absurd hdigit (by decide)
      rw [if_neg hneg, if_neg hhead, Nat.ofDigitChars_ten_toDigits]
      omega
  change (if (readInteger (integerText n)).map Prod.snd = some [] then
    Except.ok (integerOf (integerText n)) else _) = _
  rw [hread, hvalue]
  rfl

/-! ### Whole numbers -/

theorem ofDigitChars_lt {s : Str} (hs : ∀ c ∈ s, c.isDigit = true) :
    Nat.ofDigitChars 10 s 0 < 10 ^ s.length := by
  induction s with
  | nil => decide
  | cons c s ih =>
    have hc := Char.isDigit_iff_toNat.mp (hs c mem_cons_self)
    have hlt := ih fun d hd => hs d (mem_cons_of_mem c hd)
    have hdigit : c.toNat - '0'.toNat ≤ 9 := by
      have hhigh : c.toNat ≤ 57 := hc.2
      exact Nat.sub_le_of_le_add hhigh
    rw [Nat.ofDigitChars_cons, Nat.ofDigitChars_eq_ofDigitChars_zero, length_cons, pow_succ]
    calc 10 ^ s.length * (10 * 0 + (c.toNat - '0'.toNat)) + Nat.ofDigitChars 10 s 0
        < 10 ^ s.length * 9 + 10 ^ s.length :=
          Nat.add_lt_add_of_le_of_lt (Nat.mul_le_mul_left _ (by omega)) hlt
      _ = 10 ^ s.length * 10 := rfl

theorem of_readDigits {s : Str} (h : (readDigits s).map Prod.snd = some []) :
    (∀ c ∈ s, c.isDigit = true) ∧ s.length ≤ minStrDigits := by
  unfold readDigits at h
  dsimp only at h
  split_ifs at h with hdigits
  · have hrest : s.dropWhile Char.isDigit = [] := Option.some.inj h
    have hall : s.takeWhile Char.isDigit = s := by
      have hsplit := takeWhile_append_dropWhile (p := Char.isDigit) (l := s)
      rwa [hrest, append_nil] at hsplit
    rw [hall] at hdigits
    refine ⟨fun c hc => ?_, ?_⟩
    · rw [← hall] at hc
      exact mem_takeWhile_imp hc
    · rcases hdigits with rfl | ⟨-, -, hle⟩
      · decide
      · exact hle
  · cases h

theorem of_readInteger {s : Str} (h : (readInteger s).map Prod.snd = some []) :
    ∀ c ∈ s, c = '-' ∨ c.isDigit = true := by
  unfold readInteger at h
  split_ifs at h with hsign
  · obtain ⟨t, rfl⟩ := head?_eq_some_iff.mp hsign
    rw [Option.map_map] at h
    intro c hc
    rcases mem_cons.mp hc with rfl | hc
    · exact Or.inl rfl
    · exact Or.inr ((of_readDigits h).1 c hc)
  · exact fun c hc => Or.inr ((of_readDigits h).1 c hc)

/-- **A whole number that is read** has no more digits than are always allowed. -/
theorem natAbs_integerOf_lt {s : Str} (h : (readInteger s).map Prod.snd = some []) :
    (integerOf s).natAbs < 10 ^ minStrDigits := by
  have hlt : ∀ {t : Str}, (readDigits t).map Prod.snd = some [] →
      Nat.ofDigitChars 10 t 0 < 10 ^ minStrDigits := fun ht =>
    (ofDigitChars_lt (of_readDigits ht).1).trans_le
      (Nat.pow_le_pow_right (by decide) (of_readDigits ht).2)
  unfold readInteger at h
  unfold integerOf
  split_ifs at h ⊢ with hsign
  · rw [Int.natAbs_neg, Int.natAbs_natCast]
    rw [Option.map_map] at h
    exact hlt h
  · rw [Int.natAbs_natCast]
    exact hlt h

end Guardian.Python

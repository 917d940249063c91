import Guardian.Python.Uuid
import Mathlib.Algebra.GroupWithZero.Nat

/-!
# Dates and times

`datetime.datetime` with the offset of its time zone: its text, the text read back, and the instant
that it stands for.
-/

namespace Guardian.Python

open List
/-! ### Dates and times -/

/-- Leap years of the Gregorian calendar. -/
def isLeap (year : ℕ) : Bool := year % 4 == 0 && (year % 100 != 0 || year % 400 == 0)

/-- `_days_in_month` -/
def daysInMonth (year month : ℕ) : ℕ :=
  if month = 2 then if isLeap year then 29 else 28
  else if month ∈ [4, 6, 9, 11] then 30
  else 31

def microsecondsOfDay : ℕ := 86400 * 1000000

/-- **A date and time**, with the microseconds by which its time zone is ahead of UTC, if it has
one. -/
structure DateTime where
  year : ℕ
  month : ℕ
  day : ℕ
  hour : ℕ
  minute : ℕ
  second : ℕ
  microsecond : ℕ
  offset : Option ℤ
  year_range : 1 ≤ year ∧ year ≤ 9999
  month_range : 1 ≤ month ∧ month ≤ 12
  day_range : 1 ≤ day ∧ day ≤ daysInMonth year month
  hour_lt : hour < 24
  minute_lt : minute < 60
  second_lt : second < 60
  microsecond_lt : microsecond < 1000000
  offset_lt : ∀ o ∈ offset, o.natAbs < microsecondsOfDay
  deriving DecidableEq

/-- The fields of a date and time, if they are in their ranges. -/
def dateTimeOf (year month day hour minute second microsecond : ℕ) (offset : Option ℤ) :
    Option DateTime :=
  if h : (1 ≤ year ∧ year ≤ 9999) ∧ (1 ≤ month ∧ month ≤ 12) ∧
      (1 ≤ day ∧ day ≤ daysInMonth year month) ∧ hour < 24 ∧ minute < 60 ∧ second < 60 ∧
      microsecond < 1000000 ∧ ∀ o ∈ offset, o.natAbs < microsecondsOfDay then
    some ⟨year, month, day, hour, minute, second, microsecond, offset, h.1, h.2.1, h.2.2.1,
      h.2.2.2.1, h.2.2.2.2.1, h.2.2.2.2.2.1, h.2.2.2.2.2.2.1, h.2.2.2.2.2.2.2⟩
  else none

theorem dateTimeOf_self (d : DateTime) : dateTimeOf d.year d.month d.day d.hour d.minute d.second
    d.microsecond d.offset = some d :=
  dif_pos ⟨d.year_range, d.month_range, d.day_range, d.hour_lt, d.minute_lt, d.second_lt,
    d.microsecond_lt, d.offset_lt⟩

/-- The days before a date, from the first day of the year 1. -/
def daysBefore (year month day : ℕ) : ℕ :=
  let y := year - 1
  y * 365 + y / 4 - y / 100 + y / 400 +
    ((range' 1 (month - 1)).map (daysInMonth year)).sum + (day - 1)

/-- **The instant** of a date and time, in microseconds; without a time zone it is read as UTC. -/
def DateTime.instant (d : DateTime) : ℤ :=
  (daysBefore d.year d.month d.day * microsecondsOfDay +
    ((d.hour * 60 + d.minute) * 60 + d.second) * 1000000 + d.microsecond : ℕ) - d.offset.getD 0

/-! ### `isoformat` -/

/-- `'%0nd' % m` for a number that has no more digits. -/
def zeroPad (width n : ℕ) : Str := (fixedDigits 10 width n).map hexDigit

/-- The fraction of a second, unless it is zero. -/
def isoFraction (microsecond : ℕ) : Str :=
  if microsecond = 0 then [] else '.' :: zeroPad 6 microsecond

/-- Hours and minutes, and seconds unless they are zero. -/
def isoDistance (n : ℕ) : Str :=
  zeroPad 2 (n / 1000000 / 3600) ++ ':' :: (zeroPad 2 (n / 1000000 / 60 % 60) ++
    if n % 60000000 = 0 then []
    else ':' :: (zeroPad 2 (n / 1000000 % 60) ++ isoFraction (n % 1000000)))

/-- `_format_offset` -/
def isoOffset : Option ℤ → Str
  | none => []
  | some o => (if o < 0 then '-' else '+') :: isoDistance o.natAbs

/-- **`d.isoformat()`** -/
def DateTime.isoformat (d : DateTime) : Str :=
  zeroPad 4 d.year ++ '-' :: (zeroPad 2 d.month ++ '-' :: (zeroPad 2 d.day ++ 'T' ::
    (zeroPad 2 d.hour ++ ':' :: (zeroPad 2 d.minute ++ ':' :: (zeroPad 2 d.second ++
      (isoFraction d.microsecond ++ isoOffset d.offset))))))

/-! ### Reading it back -/

/-- A number of some digits, and what follows. -/
def readNumber (width : ℕ) (s : Str) : Option (ℕ × Str) :=
  if width ≤ s.length ∧ (s.take width).all Char.isDigit then
    some (ofDigits 10 decimalValue (s.take width), s.drop width)
  else none

/-- A number of minutes or seconds, and what follows. -/
def readSixtieth (s : Str) : Option (ℕ × Str) := (readNumber 2 s).filter fun read => read.1 < 60

/-- A character, and what follows. -/
def readChar (c : Char) : Str → Option Str
  | [] => none
  | d :: s => if d = c then some s else none

/-- The fraction of a second, if there is one. -/
def readFraction : Str → Option (ℕ × Str)
  | '.' :: s => readNumber 6 s
  | s => some (0, s)

/-- Hours and minutes, and seconds if there are any, in microseconds. -/
def readOffset (s : Str) : Option ℕ := do
  let (hours, s) ← readNumber 2 s
  let s ← readChar ':' s
  let (minutes, s) ← readSixtieth s
  if s = [] then return (hours * 60 + minutes) * 60000000
  let s ← readChar ':' s
  let (seconds, s) ← readSixtieth s
  let (microseconds, s) ← readFraction s
  if s = [] then return ((hours * 60 + minutes) * 60 + seconds) * 1000000 + microseconds
  else none

/-- The offset at the end. -/
def readZone : Str → Option (Option ℤ)
  | [] => some none
  | '+' :: s => (readOffset s).map fun n : ℕ => some (n : ℤ)
  | '-' :: s => (readOffset s).map fun n : ℕ => some (-n : ℤ)
  | _ => none

/-- **The format that `isoformat` writes.** -/
def readIso (s : Str) : Option DateTime := do
  let (year, s) ← readNumber 4 s
  let s ← readChar '-' s
  let (month, s) ← readNumber 2 s
  let s ← readChar '-' s
  let (day, s) ← readNumber 2 s
  let s ← readChar 'T' s
  let (hour, s) ← readNumber 2 s
  let s ← readChar ':' s
  let (minute, s) ← readNumber 2 s
  let s ← readChar ':' s
  let (second, s) ← readNumber 2 s
  let (microsecond, s) ← readFraction s
  dateTimeOf year month day hour minute second microsecond (← readZone s)

/-! ### The round trip -/

theorem length_zeroPad (width n : ℕ) : (zeroPad width n).length = width := by
  unfold zeroPad
  rw [length_map, length_fixedDigits]

theorem exists_of_mem_zeroPad {width n : ℕ} {c : Char} (h : c ∈ zeroPad width n) :
    ∃ d, d < 10 ∧ c = hexDigit d := by
  obtain ⟨d, hd, rfl⟩ := mem_map.mp h
  exact ⟨d, lt_of_mem_fixedDigits (by decide) hd, rfl⟩

theorem isDigit_of_mem_zeroPad {width n : ℕ} {c : Char} (h : c ∈ zeroPad width n) :
    c.isDigit = true := by
  obtain ⟨d, hd, rfl⟩ := exists_of_mem_zeroPad h
  have hall : ∀ d : Fin 10, (hexDigit d).isDigit = true := by decide
  exact hall ⟨d, hd⟩

/-- **A number is read back from its digits**, whatever follows. -/
theorem readNumber_zeroPad {width n : ℕ} (h : n < 10 ^ width) (s : Str) :
    readNumber width (zeroPad width n ++ s) = some (n, s) := by
  have htake : (zeroPad width n ++ s).take width = zeroPad width n :=
    take_left' (length_zeroPad width n)
  have hdrop : (zeroPad width n ++ s).drop width = s := drop_left' (length_zeroPad width n)
  have hdigit : (zeroPad width n).all Char.isDigit = true :=
    all_eq_true.mpr fun _ => isDigit_of_mem_zeroPad
  have hvalue : ofDigits 10 decimalValue (zeroPad width n) = n := by
    conv_rhs => rw [← ofDigits_fixedDigits h]
    unfold ofDigits zeroPad
    rw [foldl_map]
    refine foldl_ext _ _ _ fun m d hd => ?_
    have hall : ∀ d : Fin 10, decimalValue (hexDigit d) = d.val := by decide
    rw [hall ⟨d, lt_of_mem_fixedDigits (by decide) hd⟩]
  unfold readNumber
  rw [htake, hdrop, hvalue, if_pos]
  refine ⟨?_, hdigit⟩
  rw [length_append, length_zeroPad]
  exact Nat.le_add_right _ _

theorem readSixtieth_zeroPad {n : ℕ} (h : n < 60) (s : Str) :
    readSixtieth (zeroPad 2 n ++ s) = some (n, s) := by
  unfold readSixtieth
  rw [readNumber_zeroPad (h.trans (by decide))]
  exact if_pos (decide_eq_true h)

theorem readChar_cons (c : Char) (s : Str) : readChar c (c :: s) = some s := if_pos rfl

theorem readFraction_isoFraction {microsecond : ℕ} (h : microsecond < 1000000) {s : Str}
    (hs : s.head? ≠ some '.') :
    readFraction (isoFraction microsecond ++ s) = some (microsecond, s) := by
  unfold isoFraction
  split_ifs with hzero
  · rw [hzero, nil_append]
    unfold readFraction
    split
    · exact absurd rfl hs
    · rfl
  · exact readNumber_zeroPad (by omega) s

theorem readOffset_isoDistance {n : ℕ} (h : n < microsecondsOfDay) :
    readOffset (isoDistance n) = some n := by
  unfold microsecondsOfDay at h
  have hhours : n / 1000000 / 3600 < 10 ^ 2 := by omega
  have hminutes : n / 1000000 / 60 % 60 < 60 := Nat.mod_lt _ (by decide)
  have hseconds : n / 1000000 % 60 < 60 := Nat.mod_lt _ (by decide)
  unfold isoDistance readOffset
  rw [readNumber_zeroPad hhours]
  simp only [Option.bind_eq_bind, Option.bind_some, readChar_cons]
  split_ifs with hwhole
  · rw [readSixtieth_zeroPad hminutes]
    simp only [Option.bind_some, if_true]
    exact congrArg some (by omega)
  · have hfraction : readFraction (isoFraction (n % 1000000) ++ []) = some (n % 1000000, []) :=
      readFraction_isoFraction (by omega) (by decide)
    rw [append_nil] at hfraction
    rw [readSixtieth_zeroPad hminutes]
    simp only [Option.bind_some, reduceCtorEq, if_false, readChar_cons]
    rw [readSixtieth_zeroPad hseconds]
    simp only [Option.bind_some, hfraction, if_true]
    exact congrArg some (by omega)

theorem readZone_isoOffset {offset : Option ℤ} (h : ∀ o ∈ offset, o.natAbs < microsecondsOfDay) :
    readZone (isoOffset offset) = some offset ∧ (isoOffset offset).head? ≠ some '.' := by
  rcases offset with _ | o
  · exact ⟨rfl, by decide⟩
  have hread := readOffset_isoDistance (h o rfl)
  change readZone ((if o < 0 then '-' else '+') :: isoDistance o.natAbs) = some (some o) ∧
    some (if o < 0 then '-' else '+') ≠ some '.'
  have hplus : ∀ t, readZone ('+' :: t) = (readOffset t).map fun n : ℕ => some (n : ℤ) :=
    fun _ => rfl
  have hminus : ∀ t, readZone ('-' :: t) = (readOffset t).map fun n : ℕ => some (-n : ℤ) :=
    fun _ => rfl
  by_cases hneg : o < 0
  · rw [if_pos hneg, hminus, hread]
    exact ⟨congrArg (fun n => some (some n)) (by omega), by simp⟩
  · rw [if_neg hneg, hplus, hread]
    exact ⟨congrArg (fun n => some (some n)) (by omega), by simp⟩

/-- The characters that separate the numbers. -/
def isoMarks : Str := "-T:+."

theorem mem_isoFraction {microsecond : ℕ} {c : Char} (h : c ∈ isoFraction microsecond) :
    c.isDigit = true ∨ c ∈ isoMarks := by
  unfold isoFraction at h
  split_ifs at h
  · cases h
  · rcases mem_cons.mp h with rfl | h
    · exact Or.inr (by decide)
    · exact Or.inl (isDigit_of_mem_zeroPad h)

theorem mem_isoOffset {offset : Option ℤ} {c : Char} (h : c ∈ isoOffset offset) :
    c.isDigit = true ∨ c ∈ isoMarks := by
  have hcolon : ':' ∈ isoMarks := by decide
  rcases offset with _ | o
  · cases h
  rcases mem_cons.mp h with rfl | h
  · right
    split_ifs <;> decide
  · unfold isoDistance at h
    split_ifs at h
    all_goals
      simp only [mem_append, mem_cons, not_mem_nil, or_false] at h
    · rcases h with h | rfl | h
      · exact Or.inl (isDigit_of_mem_zeroPad h)
      · exact Or.inr hcolon
      · exact Or.inl (isDigit_of_mem_zeroPad h)
    · rcases h with h | rfl | h | rfl | h | h
      · exact Or.inl (isDigit_of_mem_zeroPad h)
      · exact Or.inr hcolon
      · exact Or.inl (isDigit_of_mem_zeroPad h)
      · exact Or.inr hcolon
      · exact Or.inl (isDigit_of_mem_zeroPad h)
      · exact mem_isoFraction h

/-- **The text** has digits and the characters that separate them only. -/
theorem mem_isoformat {d : DateTime} {c : Char} (h : c ∈ d.isoformat) :
    c.isDigit = true ∨ c ∈ isoMarks := by
  have hmarks : '-' ∈ isoMarks ∧ 'T' ∈ isoMarks ∧ ':' ∈ isoMarks := by decide
  unfold DateTime.isoformat at h
  simp only [mem_append, mem_cons] at h
  rcases h with h | rfl | h | rfl | h | rfl | h | rfl | h | rfl | h | h | h
  · exact Or.inl (isDigit_of_mem_zeroPad h)
  · exact Or.inr hmarks.1
  · exact Or.inl (isDigit_of_mem_zeroPad h)
  · exact Or.inr hmarks.1
  · exact Or.inl (isDigit_of_mem_zeroPad h)
  · exact Or.inr hmarks.2.1
  · exact Or.inl (isDigit_of_mem_zeroPad h)
  · exact Or.inr hmarks.2.2
  · exact Or.inl (isDigit_of_mem_zeroPad h)
  · exact Or.inr hmarks.2.2
  · exact Or.inl (isDigit_of_mem_zeroPad h)
  · exact mem_isoFraction h
  · exact mem_isoOffset h

/-- **A date and time is read back from its text.** -/
theorem readIso_isoformat (d : DateTime) : readIso d.isoformat = some d := by
  obtain ⟨hzone, hdot⟩ := readZone_isoOffset d.offset_lt
  have hyear : d.year < 10 ^ 4 := Nat.lt_succ_of_le d.year_range.2
  have hmonth : d.month < 10 ^ 2 := lt_of_le_of_lt d.month_range.2 (by decide)
  have hday : d.day < 10 ^ 2 := by
    refine lt_of_le_of_lt d.day_range.2 ?_
    unfold daysInMonth
    split_ifs <;> decide
  have hhour : d.hour < 10 ^ 2 := d.hour_lt.trans (by decide)
  have hminute : d.minute < 10 ^ 2 := d.minute_lt.trans (by decide)
  have hsecond : d.second < 10 ^ 2 := d.second_lt.trans (by decide)
  unfold DateTime.isoformat readIso
  simp only [readNumber_zeroPad hyear, readNumber_zeroPad hmonth, readNumber_zeroPad hday,
    readNumber_zeroPad hhour, readNumber_zeroPad hminute, readNumber_zeroPad hsecond,
    readChar_cons, readFraction_isoFraction d.microsecond_lt hdot, hzone, Option.bind_eq_bind,
    Option.bind_some, dateTimeOf_self]

end Guardian.Python

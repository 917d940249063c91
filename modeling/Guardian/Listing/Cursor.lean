import Guardian.Python.JsonText

/-!
# Cursors

The cursor of a page names the row at which the page ends by the columns that the list is ordered
by: in the findings workbench their JSON, in the lists that have the newest rows first the time and
the id.  Both are written in base64.  `decodeCursor_settles_iff` gives the texts that are read or
refused.
-/

namespace Guardian.Listing

open Python List

/-- What the library makes of texts in other forms than those that are written here. -/
structure Readers where
  runtime : Runtime
  loads : Bytes → Except Fault Json
  int : Json → Except Fault ℤ
  fromisoformat : Str → Except Fault DateTime

/-- The library for the forms that are written here alone. -/
def Readers.strict (R : Runtime) : Readers :=
  ⟨R, fun _ => .error .valueError, fun _ => .error .valueError, fun _ => .error .valueError⟩

variable (V : Readers)

/-- What may be raised while a cursor is read. -/
inductive Raised
  | keyError
  | fault (f : Fault)
  deriving DecidableEq

/-- What is raised for a cursor: `InvalidCursor`, or what is not caught. -/
inductive CursorError
  | invalidCursor
  | uncaught (raised : Raised)
  deriving DecidableEq

/-- `except caught as exc: raise InvalidCursor(..) from exc` -/
def orInvalid {A : Type} (caught : List Raised) : Except Raised A → Except CursorError A
  | .ok a => .ok a
  | .error raised => .error (if raised ∈ caught then .invalidCursor else .uncaught raised)

/-- The result of a call, or a `ValueError`. -/
def orValueError {A : Type} (x : Option A) : Except Raised A :=
  x.elim (.error (.fault .valueError)) .ok

/-- A call of the library. -/
def call {A : Type} : Except Fault A → Except Raised A
  | .ok a => .ok a
  | .error f => .error (.fault f)

theorem orValueError_some {A : Type} (a : A) : orValueError (some a) = .ok a := rfl

theorem call_ok {A : Type} (a : A) : call (.ok a) = .ok a := rfl

/-- `dt.datetime.fromisoformat(s)` -/
def fromisoformat (s : Str) : Except Fault DateTime := (readIso s).elim (V.fromisoformat s) .ok

theorem fromisoformat_isoformat (d : DateTime) : fromisoformat V d.isoformat = .ok d := by
  unfold fromisoformat
  rw [readIso_isoformat]
  rfl

/-! ### The findings workbench -/

namespace Workbench

/-- **A finding**: the columns that the list is ordered by, and those that only filters read. -/
structure Finding (D : Type) where
  severity : Str
  riskScore : ℤ
  createdAt : DateTime
  id : UUID
  details : D
  /-- The column is an `Integer`. -/
  riskScore_range : -2 ^ 31 ≤ riskScore ∧ riskScore < 2 ^ 31

variable {D : Type}

/-- `SEVERITY_RANK.get(severity, _UNKNOWN_RANK)`, and `severity_rank_expr` on the column. -/
def severityRank (severity : Str) : ℤ :=
  if severity = "critical" then 0
  else if severity = "high" then 1
  else if severity = "medium" then 2
  else if severity = "low" then 3
  else if severity = "info" then 4
  else 9

/-- `Cursor` -/
structure Cursor where
  rank : ℤ
  risk : ℤ
  createdAt : DateTime
  id : UUID

def cursorOf (finding : Finding D) : Cursor :=
  ⟨severityRank finding.severity, finding.riskScore, finding.createdAt, finding.id⟩

/-- `payload` -/
def payload (finding : Finding D) : List (Str × Scalar) :=
  [("r", .int (severityRank finding.severity)), ("s", .int finding.riskScore),
    ("t", .str finding.createdAt.isoformat), ("i", .str (uuidText finding.id))]

/-- **`encode_cursor`** -/
def encodeCursor (finding : Finding D) : Str :=
  rstripChar '=' (urlsafeB64encode (encode (dumps (payload finding))))

/-- What is written for a cursor. -/
def entriesOf (cursor : Cursor) : List (Str × Scalar) :=
  [("r", .int cursor.rank), ("s", .int cursor.risk),
    ("t", .str cursor.createdAt.isoformat), ("i", .str (uuidText cursor.id))]

def textOf (cursor : Cursor) : Str :=
  rstripChar '=' (urlsafeB64encode (encode (dumps (entriesOf cursor))))

theorem textOf_cursorOf (finding : Finding D) : textOf (cursorOf finding) = encodeCursor finding :=
  rfl

/-- `payload[key]` -/
def item (key : Str) : Json → Except Raised Json
  | .dict d => (Json.get d key).elim (.error .keyError) .ok
  | _ => .error (.fault .typeError)

/-- `dt.datetime.fromisoformat(x)` -/
def fromisoformatOf : Json → Except Fault DateTime
  | .str s => fromisoformat V s
  | _ => .error .typeError

/-- `uuid.UUID(x)` -/
def uuidOfJson : Json → Except Fault UUID
  | .str s => (uuidOf V.runtime s).elim (.error .valueError) .ok
  | .null => .error .typeError
  | _ => .error .attributeError

/-- The body of `decode_cursor`. -/
def readCursor (raw : Str) : Except Raised Cursor := do
  let padded := raw ++ padding raw.length
  let payload ← call (loads V.loads (← orValueError (urlsafeB64decode padded)))
  let rank ← call (intOf V.int (← item "r" payload))
  let risk ← call (intOf V.int (← item "s" payload))
  let createdAt ← call (fromisoformatOf V (← item "t" payload))
  let id ← call (uuidOfJson V (← item "i" payload))
  return ⟨rank, risk, createdAt, id⟩

/-- **`decode_cursor`** -/
def decodeCursor (raw : Str) : Except CursorError Cursor :=
  orInvalid [.keyError, .fault .valueError, .fault .typeError] (readCursor V raw)

theorem fromisoformatOf_str (s : Str) : fromisoformatOf V (.str s) = fromisoformat V s := rfl

theorem fromisoformatOf_isoformat (d : DateTime) :
    fromisoformatOf V (.str d.isoformat) = .ok d := by
  rw [fromisoformatOf_str, fromisoformat_isoformat]

theorem uuidOfJson_str (s : Str) :
    uuidOfJson V (.str s) = (uuidOf V.runtime s).elim (.error .valueError) .ok := rfl

theorem uuidOfJson_uuidText (u : UUID) : uuidOfJson V (.str (uuidText u)) = .ok u := by
  rw [uuidOfJson_str, uuidOf_uuidText]
  rfl

theorem plain_entriesOf {cursor : Cursor} (hrank : cursor.rank.natAbs < 10 ^ minStrDigits)
    (hrisk : cursor.risk.natAbs < 10 ^ minStrDigits) :
    ∀ e ∈ entriesOf cursor, e.1.all plain ∧ e.2.Plain := by
  intro e he
  rcases mem_cons.mp he with rfl | he
  · exact ⟨rfl, hrank⟩
  rcases mem_cons.mp he with rfl | he
  · exact ⟨rfl, hrisk⟩
  rcases mem_cons.mp he with rfl | he
  · exact ⟨rfl, plain_isoformat cursor.createdAt⟩
  · rw [mem_singleton.mp he]
    exact ⟨rfl, plain_uuidText cursor.id⟩

theorem loads_entriesOf {cursor : Cursor} (hrank : cursor.rank.natAbs < 10 ^ minStrDigits)
    (hrisk : cursor.risk.natAbs < 10 ^ minStrDigits) :
    loads V.loads (encode (dumps (entriesOf cursor))) =
      .ok (.dict ((entriesOf cursor).map fun e => (e.1, e.2.json))) := by
  have hkeys : ((entriesOf cursor).map Prod.fst).Nodup := by
    change ["r".toList, "s".toList, "t".toList, "i".toList].Nodup
    decide
  exact loads_dumps V.loads (cons_ne_nil _ _) (plain_entriesOf hrank hrisk) hkeys

/-- **A cursor is read back from its text**, if its JSON and its numbers are. -/
theorem decodeCursor_textOf_of {cursor : Cursor}
    (hpayload : loads V.loads (encode (dumps (entriesOf cursor))) =
      .ok (.dict ((entriesOf cursor).map fun e => (e.1, e.2.json))))
    (hrank : intOf V.int (.number (integerText cursor.rank)) = .ok cursor.rank)
    (hrisk : intOf V.int (.number (integerText cursor.risk)) = .ok cursor.risk) :
    decodeCursor V (textOf cursor) = .ok cursor := by
  have hbytes : urlsafeB64decode (textOf cursor ++ padding (textOf cursor).length) =
      some (encode (dumps (entriesOf cursor))) := by
    unfold textOf
    rw [rstripChar_encode, urlsafeB64decode_data]
  have hr : item "r" (.dict ((entriesOf cursor).map fun e => (e.1, e.2.json))) =
      .ok (.number (integerText cursor.rank)) := rfl
  have hs : item "s" (.dict ((entriesOf cursor).map fun e => (e.1, e.2.json))) =
      .ok (.number (integerText cursor.risk)) := rfl
  have ht : item "t" (.dict ((entriesOf cursor).map fun e => (e.1, e.2.json))) =
      .ok (.str cursor.createdAt.isoformat) := rfl
  have hi : item "i" (.dict ((entriesOf cursor).map fun e => (e.1, e.2.json))) =
      .ok (.str (uuidText cursor.id)) := rfl
  unfold decodeCursor readCursor
  simp only [hbytes, orValueError_some, call_ok, ok_bind, hpayload, hr, hrank, hs, hrisk, ht,
    fromisoformatOf_isoformat, hi, uuidOfJson_uuidText]
  rfl

/-- **A cursor is read back from its text.** -/
theorem decodeCursor_encodeCursor (finding : Finding D) :
    decodeCursor V (encodeCursor finding) = .ok (cursorOf finding) := by
  have hrank : (cursorOf finding).rank.natAbs < 10 ^ minStrDigits := by
    have hle : (severityRank finding.severity).natAbs ≤ 9 := by
      unfold severityRank
      split_ifs <;> decide
    exact lt_of_le_of_lt hle (Nat.lt_of_lt_of_le (by decide)
      (Nat.pow_le_pow_right (by decide) (by decide : 1 ≤ minStrDigits)))
  have hrisk : (cursorOf finding).risk.natAbs < 10 ^ minStrDigits := by
    have hle : finding.riskScore.natAbs ≤ 2 ^ 31 := by
      have hrange := finding.riskScore_range
      omega
    exact lt_of_le_of_lt hle (Nat.lt_of_lt_of_le (by decide)
      (Nat.pow_le_pow_right (by decide) (by decide : 10 ≤ minStrDigits)))
  rw [← textOf_cursorOf]
  exact decodeCursor_textOf_of V (loads_entriesOf V hrank hrisk) (intOf_int V.int hrank)
    (intOf_int V.int hrisk)

theorem encodeCursor_ne_nil (finding : Finding D) : encodeCursor finding ≠ [] := by
  intro hnil
  have hread := decodeCursor_encodeCursor (Readers.strict Runtime.ascii) finding
  rw [hnil] at hread
  cases hread

/-! ### Cursors that are not issued here -/

/-- `int` reads and writes the number. -/
def WithinLimit (R : Runtime) (n : ℤ) : Prop :=
  R.maxStrDigits = 0 ∨ (Nat.toDigits 10 n.natAbs).length ≤ R.maxStrDigits

/-- From here on a number is rounded to an infinite float. -/
def floatLimit : ℕ := 2 ^ 1024 - 2 ^ 970

/-- The exponent that follows a number. -/
def exponentOf (s : Str) : ℤ :=
  if s.head? = some 'e' ∨ s.head? = some 'E' then
    if s.tail.head? = some '+' then integerOf s.tail.tail else integerOf s.tail
  else 0

/-- `math.isinf(x)` for what `json.loads` makes of the text of a number. -/
def infinite (text : Str) : Bool :=
  if text = "Infinity" ∨ text = "-Infinity" then true
  else if '.' ∈ text ∨ 'e' ∈ text ∨ 'E' ∈ text then
    let s := if text.head? = some '-' then text.tail else text
    let whole := s.takeWhile Char.isDigit
    let s := s.dropWhile Char.isDigit
    let fraction := if s.head? = some '.' then s.tail.takeWhile Char.isDigit else []
    let exponent := exponentOf (if s.head? = some '.' then s.tail.dropWhile Char.isDigit else s)
    let mantissa := Nat.ofDigitChars 10 (whole ++ fraction) 0
    let e := exponent - fraction.length
    decide (floatLimit * 10 ^ (-e).toNat ≤ mantissa * 10 ^ e.toNat)
  else false

/-- **What the documentation of the library says** of the texts that are left to it. -/
structure Documented : Prop where
  limit : V.runtime.maxStrDigits = 0 ∨ minStrDigits ≤ V.runtime.maxStrDigits
  /-- `json.loads` raises `JSONDecodeError` or `UnicodeDecodeError`, or runs out of stack. -/
  loads : ∀ b f, V.loads b = .error f → f = .valueError ∨ f = .recursionError
  /-- What is written with `json.dumps` is read back. -/
  loads_dumps : ∀ cursor : Cursor, WithinLimit V.runtime cursor.rank →
    WithinLimit V.runtime cursor.risk → Python.loads V.loads (encode (dumps (entriesOf cursor))) =
      .ok (.dict ((entriesOf cursor).map fun e => (e.1, e.2.json)))
  /-- A whole number is read back from its digits. -/
  int_digits : ∀ n, WithinLimit V.runtime n → intOf V.int (.number (integerText n)) = .ok n
  int_limit : ∀ x n, V.int x = .ok n → WithinLimit V.runtime n
  /-- `int` raises `OverflowError` for the infinite numbers. -/
  int_infinite : ∀ text, infinite text = true → intOf V.int (.number text) = .error .overflowError
  int : ∀ x f, V.int x = .error f → f = .valueError ∨ f = .typeError ∨
    f = .overflowError ∧ ∃ text, x = .number text ∧ infinite text = true
  fromisoformat : ∀ s f, V.fromisoformat s = .error f → f = .valueError

/-- What `decode_cursor` catches. -/
def caught : List Raised := [.keyError, .fault .valueError, .fault .typeError]

/-- What a call raises, if anything, is caught. -/
def Quiet {A : Type} (x : Except Raised A) : Prop := ∀ raised, x = .error raised → raised ∈ caught

theorem quiet_ok {A : Type} (a : A) : Quiet (.ok a) := fun _ h => nomatch h

theorem quiet_error {A : Type} {raised : Raised} :
    Quiet (.error raised : Except Raised A) ↔ raised ∈ caught :=
  ⟨fun h => h raised rfl, fun h _ heq => Except.error.inj heq ▸ h⟩

/-- **One call after the other.** -/
theorem quiet_bind {A B : Type} {x : Except Raised A} {f : A → Except Raised B} :
    Quiet (x >>= f) ↔ Quiet x ∧ ∀ a, x = .ok a → Quiet (f a) := by
  cases x with
  | error raised =>
    refine ⟨fun h => ⟨quiet_error.mpr (quiet_error.mp h), fun a ha => nomatch ha⟩, fun h => ?_⟩
    exact quiet_error.mpr (quiet_error.mp h.1)
  | ok a =>
    refine ⟨fun h => ⟨quiet_ok a, fun b hb => ?_⟩, fun h => h.2 a rfl⟩
    rw [← Except.ok.inj hb]
    exact h

theorem quiet_orValueError {A : Type} (x : Option A) : Quiet (orValueError x) := by
  cases x with
  | none => exact quiet_error.mpr (by decide)
  | some a => exact quiet_ok a

theorem quiet_item (key : Str) (payload : Json) : Quiet (item key payload) := by
  unfold item
  split
  · cases Json.get _ key with
    | none => exact quiet_error.mpr (by decide)
    | some value => exact quiet_ok value
  · exact quiet_error.mpr (by decide)

theorem item_eq_ok_iff {key : Str} {payload value : Json} :
    item key payload = .ok value ↔ ∃ d, payload = .dict d ∧ Json.get d key = some value := by
  unfold item
  constructor
  · intro h
    split at h
    · rename_i d
      rcases hget : Json.get d key with _ | v
      · rw [hget] at h
        cases h
      · rw [hget] at h
        cases h
        exact ⟨d, rfl, hget⟩
    · cases h
  · rintro ⟨d, rfl, hget⟩
    simp only [hget]
    rfl

theorem quiet_call {A : Type} {x : Except Fault A} :
    Quiet (call x) ↔ ∀ f, x = .error f → Raised.fault f ∈ caught := by
  cases x with
  | error f => exact quiet_error.trans ⟨fun h g hg => Except.error.inj hg ▸ h, fun h => h f rfl⟩
  | ok a => exact iff_of_true (quiet_ok a) fun f hf => nomatch hf

theorem call_eq_ok_iff {A : Type} {x : Except Fault A} {a : A} :
    call x = .ok a ↔ x = .ok a := by
  cases x with
  | error f => exact iff_of_false (fun h => nomatch h) fun h => nomatch h
  | ok b => exact ⟨fun h => by cases h; rfl, fun h => by cases h; rfl⟩

variable {V}

theorem quiet_loads (hV : Documented V) (b : Bytes) :
    Quiet (call (loads V.loads b)) ↔ loads V.loads b ≠ .error .recursionError := by
  rw [quiet_call]
  constructor
  · intro h hrec
    exact absurd (h _ hrec) (by decide)
  · intro h f hf
    have hother : V.loads b = .error f := by
      unfold loads at hf
      split at hf
      · cases hf
      · exact hf
    rcases hV.loads b f hother with rfl | rfl
    · decide
    · exact absurd hf h

def IsInfinite (x : Json) : Prop := ∃ text, x = .number text ∧ infinite text = true

theorem quiet_int (hV : Documented V) (x : Json) :
    Quiet (call (intOf V.int x)) ↔ ¬IsInfinite x := by
  rw [quiet_call]
  constructor
  · rintro h ⟨text, rfl, hinf⟩
    exact absurd (h _ (hV.int_infinite text hinf)) (by decide)
  · intro hinf f hf
    have hother : V.int x = .error f := by
      unfold intOf at hf
      split at hf
      · split_ifs at hf
        exact hf
      · exact hf
    rcases hV.int x f hother with rfl | rfl | ⟨rfl, hx⟩
    · decide
    · decide
    · exact absurd hx hinf

theorem quiet_fromisoformat (hV : Documented V) (x : Json) :
    Quiet (call (fromisoformatOf V x)) := by
  rw [quiet_call]
  intro f hf
  unfold fromisoformatOf at hf
  split at hf
  · rename_i s
    unfold fromisoformat at hf
    rcases hread : readIso s with _ | d
    · rw [hread, Option.elim_none] at hf
      rw [hV.fromisoformat s f hf]
      decide
    · rw [hread] at hf
      cases hf
  · cases hf
    decide

/-- A text, or `null`. -/
def IsTextOrNull : Json → Prop
  | .str _ => True
  | .null => True
  | _ => False

theorem quiet_uuid (x : Json) : Quiet (call (uuidOfJson V x)) ↔ IsTextOrNull x := by
  rw [quiet_call]
  cases x with
  | str s =>
    refine iff_of_true (fun f hf => ?_) trivial
    rw [uuidOfJson_str] at hf
    rcases hread : uuidOf V.runtime s with _ | u
    · rw [hread] at hf
      cases hf
      decide
    · rw [hread] at hf
      cases hf
  | null =>
    refine iff_of_true (fun f hf => ?_) trivial
    cases hf
    decide
  | _ =>
    refine iff_of_false (fun h => ?_) (fun h => h)
    exact absurd (h .attributeError rfl) (by decide)

theorem withinLimit_of_lt (hV : Documented V) {n : ℤ} (h : n.natAbs < 10 ^ minStrDigits) :
    WithinLimit V.runtime n := by
  rcases hV.limit with hnone | hlimit
  · exact Or.inl hnone
  · exact Or.inr (((Nat.length_toDigits_le_iff (by decide) (by decide)).mpr h).trans hlimit)

theorem intOf_limit (hV : Documented V) {x : Json} {n : ℤ} (h : intOf V.int x = .ok n) :
    WithinLimit V.runtime n := by
  unfold intOf at h
  split at h
  · split_ifs at h with hread
    · rw [← Except.ok.inj h]
      exact withinLimit_of_lt hV (natAbs_integerOf_lt hread)
    · exact hV.int_limit _ n h
  · exact hV.int_limit _ n h

theorem withinLimit_of_readCursor (hV : Documented V) {raw : Str} {cursor : Cursor}
    (h : readCursor V raw = .ok cursor) :
    WithinLimit V.runtime cursor.rank ∧ WithinLimit V.runtime cursor.risk := by
  unfold readCursor at h
  obtain ⟨bytes, -, h⟩ := bind_eq_ok.mp h
  obtain ⟨payload, -, h⟩ := bind_eq_ok.mp h
  obtain ⟨r, -, h⟩ := bind_eq_ok.mp h
  obtain ⟨rank, hrank, h⟩ := bind_eq_ok.mp h
  obtain ⟨s, -, h⟩ := bind_eq_ok.mp h
  obtain ⟨risk, hrisk, h⟩ := bind_eq_ok.mp h
  obtain ⟨t, -, h⟩ := bind_eq_ok.mp h
  obtain ⟨created, -, h⟩ := bind_eq_ok.mp h
  obtain ⟨i, -, h⟩ := bind_eq_ok.mp h
  obtain ⟨id, -, h⟩ := bind_eq_ok.mp h
  cases h
  exact ⟨intOf_limit hV (call_eq_ok_iff.mp hrank), intOf_limit hV (call_eq_ok_iff.mp hrisk)⟩

variable (V) in
/-- **The payload raises nothing but what is caught**: the parser has stack enough for it, and of
the fields that are read, up to the first one that is refused, the numbers are not infinite and the
id is a text or `null`. -/
def Tame (raw : Str) : Prop :=
  ∀ bytes, urlsafeB64decode (raw ++ padding raw.length) = some bytes →
    loads V.loads bytes ≠ .error .recursionError ∧
      ∀ d, loads V.loads bytes = .ok (.dict d) → ∀ r, Json.get d "r" = some r →
        ¬IsInfinite r ∧ ∀ rank, intOf V.int r = .ok rank → ∀ s, Json.get d "s" = some s →
          ¬IsInfinite s ∧ ∀ risk, intOf V.int s = .ok risk →
            ∀ t created, Json.get d "t" = some t → fromisoformatOf V t = .ok created →
              ∀ i, Json.get d "i" = some i → IsTextOrNull i

theorem quiet_readCursor_iff (hV : Documented V) (raw : Str) :
    Quiet (readCursor V raw) ↔ Tame V raw := by
  have hbytes : ∀ b, orValueError (urlsafeB64decode (raw ++ padding raw.length)) = .ok b ↔
      urlsafeB64decode (raw ++ padding raw.length) = some b := by
    intro b
    cases urlsafeB64decode (raw ++ padding raw.length) with
    | none => exact iff_of_false (fun h => nomatch h) fun h => nomatch h
    | some c => exact ⟨fun h => by cases h; rfl, fun h => by cases h; rfl⟩
  unfold readCursor Tame
  simp only [quiet_bind, quiet_orValueError, quiet_loads hV, quiet_item, quiet_int hV,
    quiet_fromisoformat hV, quiet_uuid, call_eq_ok_iff, item_eq_ok_iff, hbytes, true_and]
  refine forall₂_congr fun bytes _ => and_congr_right fun _ => ?_
  constructor
  · intro h d hd r hr
    obtain ⟨hinf, h⟩ := h (.dict d) hd r ⟨d, rfl, hr⟩
    refine ⟨hinf, fun rank hrank s hs => ?_⟩
    obtain ⟨hinf', h⟩ := h rank hrank s ⟨d, rfl, hs⟩
    refine ⟨hinf', fun risk hrisk t created ht hcreated i hi => ?_⟩
    exact (h risk hrisk t ⟨d, rfl, ht⟩ created hcreated i ⟨d, rfl, hi⟩).1
  · rintro h _ hd r ⟨d, rfl, hr⟩
    obtain ⟨hinf, h⟩ := h d hd r hr
    refine ⟨hinf, ?_⟩
    rintro rank hrank s ⟨_, ⟨⟩, hs⟩
    obtain ⟨hinf', h⟩ := h rank hrank s hs
    refine ⟨hinf', ?_⟩
    rintro risk hrisk t ⟨_, ⟨⟩, ht⟩ created hcreated i ⟨_, ⟨⟩, hi⟩
    exact ⟨h risk hrisk t created ht hcreated i hi, fun id _ => quiet_ok _⟩

/-- **A cursor is read, so that it is read again from its own text, or refused**, exactly if its
payload raises nothing but what is caught. -/
theorem decodeCursor_settles_iff (hV : Documented V) (raw : Str) :
    ((∃ cursor, decodeCursor V raw = .ok cursor ∧ decodeCursor V (textOf cursor) = .ok cursor) ∨
        decodeCursor V raw = .error .invalidCursor) ↔ Tame V raw := by
  rw [← quiet_readCursor_iff hV]
  rcases hread : readCursor V raw with raised | cursor
  · have hdecode : decodeCursor V raw =
        .error (if raised ∈ caught then .invalidCursor else .uncaught raised) := by
      unfold decodeCursor
      rw [hread]
      rfl
    rw [quiet_error, hdecode]
    split_ifs with hcaught
    · exact iff_of_true (Or.inr rfl) hcaught
    · refine iff_of_false ?_ hcaught
      rintro (⟨_, h, -⟩ | h) <;> cases h
  · have hdecode : decodeCursor V raw = .ok cursor := by
      unfold decodeCursor
      rw [hread]
      rfl
    obtain ⟨hrank, hrisk⟩ := withinLimit_of_readCursor hV hread
    have hagain := decodeCursor_textOf_of V (hV.loads_dumps cursor hrank hrisk)
      (hV.int_digits _ hrank) (hV.int_digits _ hrisk)
    exact iff_of_true (Or.inl ⟨cursor, hdecode, hagain⟩)
      (quiet_ok cursor)

/-- An interpreter for ASCII with the smallest limit for digits, and a library that refuses each
text that is left to it. -/
def refusing : Readers where
  runtime := { Runtime.ascii with maxStrDigits := minStrDigits }
  loads _ := .error .valueError
  int
    | .number text => .error (if infinite text then .overflowError else .valueError)
    | _ => .error .typeError
  fromisoformat _ := .error .valueError

theorem not_infinite_of_readInteger {text : Str} (h : (readInteger text).map Prod.snd = some []) :
    infinite text = false := by
  have hdigits := of_readInteger h
  have hfree : ∀ c : Char, c ≠ '-' → c.isDigit = false → c ∉ text := by
    intro c hc hnot hmem
    rcases hdigits c hmem with rfl | hdigit
    · exact hc rfl
    · rw [hnot] at hdigit
      cases hdigit
  unfold infinite
  rw [if_neg, if_neg]
  · rintro (hmem | hmem | hmem)
    · exact hfree '.' (by decide) (by decide) hmem
    · exact hfree 'e' (by decide) (by decide) hmem
    · exact hfree 'E' (by decide) (by decide) hmem
  · rintro (rfl | rfl)
    · exact hfree 'I' (by decide) (by decide) (by decide)
    · exact hfree 'I' (by decide) (by decide) (by decide)

theorem lt_of_withinLimit {n : ℤ} (h : WithinLimit refusing.runtime n) :
    n.natAbs < 10 ^ minStrDigits := by
  rcases h with hnone | hlimit
  · exact absurd hnone (by decide)
  · exact (Nat.length_toDigits_le_iff (by decide) (by decide)).mp hlimit

/-- A library that refuses the other texts keeps to its documentation. -/
theorem documented_refusing : Documented refusing where
  limit := Or.inr le_rfl
  loads _ _ h := Or.inl (Except.error.inj h).symm
  loads_dumps _ hrank hrisk :=
    loads_entriesOf refusing (lt_of_withinLimit hrank) (lt_of_withinLimit hrisk)
  int_digits _ hn := intOf_int refusing.int (lt_of_withinLimit hn)
  int_limit x n h := by
    cases x <;> cases h
  int_infinite text h := by
    unfold intOf
    dsimp only
    rw [if_neg]
    · show Except.error (if infinite text then Fault.overflowError else .valueError) = _
      rw [if_pos h]
    · intro hread
      rw [not_infinite_of_readInteger hread] at h
      cases h
  int x f h := by
    cases x with
    | number text =>
      have hf := Except.error.inj h
      split_ifs at hf with hinf
      · exact Or.inr (Or.inr ⟨hf.symm, text, rfl, hinf⟩)
      · exact Or.inl hf.symm
    | _ => exact Or.inr (Or.inl (Except.error.inj h).symm)
  fromisoformat _ _ h := (Except.error.inj h).symm

def sampleCursor : Cursor where
  rank := 0
  risk := 95
  createdAt := ⟨2024, 1, 1, 0, 0, 0, 0, some 0, by decide, by decide, by decide, by decide,
    by decide, by decide, by decide, by decide⟩
  id := ⟨5, by decide⟩

theorem decodeCursor_sampleCursor :
    decodeCursor refusing (textOf sampleCursor) = .ok sampleCursor :=
  decodeCursor_textOf_of refusing (loads_entriesOf refusing (by decide +kernel) (by decide +kernel))
    (intOf_int refusing.int (by decide +kernel)) (intOf_int refusing.int (by decide +kernel))

theorem tame_sampleCursor : Tame refusing (textOf sampleCursor) :=
  (decodeCursor_settles_iff documented_refusing (textOf sampleCursor)).mp
    (Or.inl ⟨sampleCursor, decodeCursor_sampleCursor, decodeCursor_sampleCursor⟩)

/-- A payload whose id is a number. -/
def numberAsId : List (Str × Scalar) :=
  [("r", .int 0), ("s", .int 0), ("t", .str sampleCursor.createdAt.isoformat),
    ("i", .int 5)]

/-- An id that is a number raises an `AttributeError`. -/
theorem number_as_id_escapes :
    ¬∀ V : Readers, Documented V → ∀ raw,
      (∃ cursor, decodeCursor V raw = .ok cursor ∧ decodeCursor V (textOf cursor) = .ok cursor) ∨
        decodeCursor V raw = .error .invalidCursor := by
  intro h
  have hbytes : urlsafeB64decode (rstripChar '=' (urlsafeB64encode (encode (dumps numberAsId))) ++
      padding (rstripChar '=' (urlsafeB64encode (encode (dumps numberAsId)))).length) =
        some (encode (dumps numberAsId)) := by
    rw [rstripChar_encode, urlsafeB64decode_data]
  have hescapes : decodeCursor refusing
      (rstripChar '=' (urlsafeB64encode (encode (dumps numberAsId)))) =
        .error (.uncaught (.fault .attributeError)) := by
    unfold decodeCursor readCursor
    simp only [hbytes, orValueError_some, ok_bind]
    rfl
  rcases h refusing documented_refusing
    (rstripChar '=' (urlsafeB64encode (encode (dumps numberAsId)))) with ⟨cursor, hok, -⟩ | hinvalid
  · rw [hescapes] at hok
    cases hok
  · rw [hescapes] at hinvalid
    cases hinvalid

end Workbench

/-! ### The newest first -/

namespace Pagination

/-- `TimeCursor` -/
structure TimeCursor where
  createdAt : DateTime
  id : UUID

/-- **`encode_cursor`** -/
def encodeCursor (createdAt : DateTime) (id : UUID) : Str :=
  urlsafeB64encode (encode (createdAt.isoformat ++ '|' :: uuidText id))

/-- The body of `decode_cursor`. -/
def readCursor (raw : Str) : Except Raised TimeCursor := do
  let decoded ← orValueError (decode (← orValueError (urlsafeB64decode raw)))
  let (timestamp, _, rowId) := partition '|' decoded
  let createdAt ← call (fromisoformat V timestamp)
  let id ← orValueError (uuidOf V.runtime rowId)
  return ⟨createdAt, id⟩

/-- **`decode_cursor`** -/
def decodeCursor (raw : Str) : Except CursorError TimeCursor :=
  orInvalid [.fault .valueError] (readCursor V raw)

/-- **A cursor is read back from its text.** -/
theorem decodeCursor_encodeCursor (createdAt : DateTime) (id : UUID) :
    decodeCursor V (encodeCursor createdAt id) = .ok ⟨createdAt, id⟩ := by
  have hbar : '|' ∉ createdAt.isoformat := by
    intro hmem
    rcases mem_isoformat hmem with hdigit | hmark
    · exact absurd hdigit (by decide)
    · exact absurd hmark (by decide)
  have hcut : partition '|' (createdAt.isoformat ++ '|' :: uuidText id) =
      (createdAt.isoformat, true, uuidText id) := partition_append hbar _
  have hbytes : urlsafeB64decode (encodeCursor createdAt id) =
      some (encode (createdAt.isoformat ++ '|' :: uuidText id)) := urlsafeB64decode_encode _
  unfold decodeCursor readCursor
  simp only [hbytes, decode_encode, orValueError_some, call_ok, ok_bind, hcut,
    fromisoformat_isoformat, uuidOf_uuidText]
  rfl

theorem encodeCursor_ne_nil (createdAt : DateTime) (id : UUID) :
    encodeCursor createdAt id ≠ [] := by
  intro hnil
  have hread := decodeCursor_encodeCursor (Readers.strict Runtime.ascii) createdAt id
  rw [hnil] at hread
  cases hread

end Pagination

end Guardian.Listing

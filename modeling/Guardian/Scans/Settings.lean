import Guardian.Apisec.Document
import Guardian.Scans.Blackout
import Mathlib.Data.List.ReduceOption
import Mathlib.Data.Rat.Floor
import Mathlib.Tactic.Linarith

/-!
# The safe-scanning settings

`parse_policy` reads the policy out of the settings of a customer, which are untyped.  An entry of
the blackout windows that cannot be read is to be refused, so that no scan runs through it.
`parsePolicy_honest_iff` says when none does.
-/

namespace Guardian.Scans

open Python Apisec List

/-! ### Windows that close -/

namespace Window

variable {R : Runtime} {window : Window}

/-- **A window comes**: it names a day of the week or none, and an hour of the day is in it. -/
def Occurs (R : Runtime) (window : Window) : Prop :=
  (∃ day, window.OnDay R day) ∧
    if window.startHour ≤ window.endHour then
      window.startHour < window.endHour ∧ window.startHour < 24 ∧ 0 < window.endHour
    else window.startHour < 24 ∨ 0 < window.endHour

/-- The moment at an hour, counted from the epoch, of the customer's time. -/
def atHour (window : Window) (h : ℤ) : ℤ := h * hour - window.utcOffset

theorem localTime_atHour (h : ℤ) : window.localTime (window.atHour h) = h * hour := by
  unfold localTime atHour
  omega

/-- **A window contains a moment** exactly if it comes. -/
theorem exists_contains_iff : (∃ moment, window.contains R moment = true) ↔ window.Occurs R := by
  constructor
  · rintro ⟨moment, hmoment⟩
    obtain ⟨hday, hhours⟩ := contains_iff_today.mp hmoment
    refine ⟨⟨_, hday⟩, ?_⟩
    have hlow : 0 ≤ window.hourOf moment ∧ window.hourOf moment < 24 := by
      unfold hourOf hour
      omega
    split_ifs at hhours ⊢ <;> omega
  · rintro ⟨⟨day, hday⟩, hhours⟩
    obtain ⟨h, hlow, hhigh, hin⟩ : ∃ h, 0 ≤ h ∧ h < 24 ∧
        if window.startHour ≤ window.endHour then window.startHour ≤ h ∧ h < window.endHour
        else window.startHour ≤ h ∨ h < window.endHour := by
      by_cases hstart : window.startHour < 24
      · refine ⟨max window.startHour 0, by omega, by omega, ?_⟩
        split_ifs at hhours ⊢ <;> omega
      · refine ⟨0, le_rfl, by omega, ?_⟩
        split_ifs at hhours ⊢ <;> omega
    refine ⟨window.atHour (day * 24 + h), contains_iff_today.mpr ⟨?_, ?_⟩⟩
    · have htoday : window.today (window.atHour (day * 24 + h)) = day := by
        unfold today
        rw [localTime_atHour]
        unfold hour
        omega
      rwa [htoday]
    · have hhour : window.hourOf (window.atHour (day * 24 + h)) = h := by
        unfold hourOf
        rw [localTime_atHour]
        unfold hour
        omega
      rwa [hhour]

end Window

/-! ### `parse_policy` -/

/-- What the library makes of a value: its number, `int(v)`, `float(v)`, `timedelta(hours=h)` in
microseconds, and the `repr` of lists and dictionaries. -/
structure Coercions (H : Type) where
  runtime : Runtime
  repr : Doc → Str
  /-- The number that a value is or writes. -/
  number : Doc → Option ℚ
  int : Doc → Except Fault ℤ
  /-- `int` cuts off what follows the point. -/
  int_number : ∀ v (q : ℚ), number v = some q → int v = .ok (q.num.tdiv q.den)
  float : Doc → Except Fault H
  timedelta : H → Except Fault ℤ

/-- What `parse_policy` raises: `SafeScanRefusal`, or anything else. -/
inductive PolicyError
  | refusal
  | uncaught (f : Fault)
  deriving DecidableEq

/-- `Window`, as it is parsed. -/
structure ParsedWindow (H : Type) where
  days : List Str
  startHour : ℤ
  endHour : ℤ
  utcOffsetHours : H
  label : Str

/-- `Policy`, as it is parsed. -/
structure ParsedPolicy (H : Type) where
  profile : Str
  windows : List (ParsedWindow H)
  paused : Bool
  pauseReason : Str
  maxConcurrentScansPerAsset : ℤ

section Parse
variable {H : Type} (C : Coercions H)

/-- `d.get(key, default)`. -/
def getOr (d : Doc.Dict) (key : String) (default : Doc) : Doc :=
  (Doc.find d key.toList).getD default

/-- `entry.get("days") or ()`, item by item. -/
def daysOf (entry : Doc.Dict) : Option (List Doc) :=
  ((Doc.get entry "days").orElse (.list [])).iter?

/-- `entry.get("start_hour", 0)`. -/
def startOf (entry : Doc.Dict) : Doc := getOr entry "start_hour" (.scalar ['0'] false)

/-- `entry.get("end_hour", 0)`. -/
def endOf (entry : Doc.Dict) : Doc := getOr entry "end_hour" (.scalar ['0'] false)

/-- The window of an entry. -/
def readWindow (entry : Doc.Dict) : Except Fault (ParsedWindow H) := do
  let days ← (daysOf entry).elim (.error .typeError) .ok
  let startHour ← C.int (startOf entry)
  let endHour ← C.int (endOf entry)
  let utcOffsetHours ← C.float (getOr entry "utc_offset_hours" (.scalar ['0'] false))
  return {
    days := days.map (Doc.text C.repr)
    startHour := startHour
    endHour := endHour
    utcOffsetHours := utcOffsetHours
    label := ((Doc.get entry "label").orElse (.str [])).text C.repr }

/-- One round of the loop over the entries. -/
def readEntry : Doc → Except PolicyError (Option (ParsedWindow H))
  | .dict entry =>
    match readWindow C entry with
    | .ok window => .ok (some window)
    | .error f => .error (if f = .typeError ∨ f = .valueError then .refusal else .uncaught f)
  | _ => .ok none

/-- The dictionary that has a `get`. -/
def dictOf (v : Doc) : Except PolicyError Doc.Dict :=
  v.entries?.elim (.error (.uncaught .attributeError)) .ok

/-- The settings of safe scanning. -/
def safeScanning (settings : Doc) : Except PolicyError Doc.Dict := do
  let whole ← dictOf (settings.orElse (.dict []))
  dictOf ((Doc.get whole "safe_scanning").orElse (.dict []))

/-- The entries of the blackout windows. -/
def blackoutWindows (raw : Doc.Dict) : Except PolicyError (List Doc) :=
  ((Doc.get raw "blackout_windows").orElse (.list [])).iter?.elim
    (.error (.uncaught .typeError)) .ok

/-- `max_concurrent_scans_per_asset`, before it is made positive. -/
def mostScans (raw : Doc.Dict) : Except Fault ℤ :=
  C.int ((Doc.get raw "max_concurrent_scans_per_asset").orElse (.scalar ['1'] true))

/-- The policy. -/
def policyOf (raw : Doc.Dict) (windows : List (ParsedWindow H)) (most : ℤ) : ParsedPolicy H :=
  let profile := lower C.runtime (((Doc.get raw "profile").orElse (.str "safe")).text C.repr)
  { profile := if (profiles.lookup profile).isSome then profile else "safe"
    windows := windows
    paused := (Doc.get raw "paused").truthy
    pauseReason := ((Doc.get raw "pause_reason").orElse (.str [])).text C.repr
    maxConcurrentScansPerAsset := max 1 most }

/-- **`parse_policy`.** -/
def parsePolicy (settings : Doc) : Except PolicyError (ParsedPolicy H) := do
  let raw ← safeScanning settings
  let entries ← blackoutWindows raw
  let windows ← entries.mapM (readEntry C)
  let most ← (mostScans C raw).mapError .uncaught
  return policyOf C raw windows.reduceOption most

/-! ### What becomes of an entry -/

/-- The days of the calendar, in microseconds. -/
def calendarSpan : ℤ := 3652059 * (24 * hour)

/-- There is a moment whose local time is in the calendar. -/
def InCalendar (offset : ℤ) : Prop := -calendarSpan < offset ∧ offset < calendarSpan

instance (offset : ℤ) : Decidable (InCalendar offset) := inferInstanceAs (Decidable (_ ∧ _))

/-- The window in the customer's time. -/
def ParsedWindow.window (window : ParsedWindow H) (offset : ℤ) : Window :=
  ⟨window.days, window.startHour, window.endHour, offset, window.label⟩

/-- **`Window.contains`**, for a moment whose local time is in the calendar.  If the offset is too
large there is no such moment. -/
def ParsedWindow.containsAt (window : ParsedWindow H) (moment : ℤ) : Except Fault Bool := do
  let offset ← C.timedelta window.utcOffsetHours
  if InCalendar offset then return (window.window offset).contains C.runtime moment
  else .error .overflowError

/-! ### What an entry names -/

/-- The names of the days of the week, in short and in full. -/
def weekdays : List (List Str) :=
  [["mon", "monday"], ["tue", "tuesday"], ["wed", "wednesday"], ["thu", "thursday"],
    ["fri", "friday"], ["sat", "saturday"], ["sun", "sunday"]].map (·.map String.toList)

/-- A value names a day of the week. -/
def IsWeekday (R : Runtime) (item : Doc) (weekday : ℕ) : Prop :=
  ∃ s names, item = .str s ∧ weekdays[weekday]? = some names ∧ lower R s ∈ names

/-- A day, counted from the epoch, is named by the values; no value at all names every day. -/
def NamesDay (R : Runtime) (items : List Doc) (day : ℤ) : Prop :=
  items = [] ∨ ∃ item ∈ items, IsWeekday R item ((day + 3) % 7).toNat

/-- The days of an entry, and its hours as they are written. -/
structure Named where
  days : List Doc
  start : ℚ
  stop : ℚ

/-- **The times that an entry names**, in the customer's time: from its start to its end on its days,
and across midnight if the end comes first. -/
def Named.At (R : Runtime) (named : Named) (time : ℤ) : Prop :=
  if named.start ≤ named.stop then
    NamesDay R named.days (time / (24 * hour)) ∧
      named.start * hour ≤ (time % (24 * hour) : ℤ) ∧
      (time % (24 * hour) : ℤ) < named.stop * hour
  else
    ∃ day : ℤ, NamesDay R named.days day ∧ day * (24 * hour) + named.start * hour ≤ time ∧
      time < (day + 1) * (24 * hour) + named.stop * hour

/-- **An entry names times**: its hours are numbers of the day, its days are days of the week. -/
structure Names (entry : Doc.Dict) (named : Named) : Prop where
  days : daysOf entry = some named.days
  start : C.number (startOf entry) = some named.start
  stop : C.number (endOf entry) = some named.stop
  ofDay : (0 ≤ named.start ∧ named.start ≤ 24) ∧ 0 ≤ named.stop ∧ named.stop ≤ 24
  ofWeek : ∀ item ∈ named.days, ∃ weekday, IsWeekday C.runtime item weekday

/-- **An entry is represented by a window**: the window is closed at every time that the entry
names, and at some time. -/
def Represents (entry : Doc) (window : ParsedWindow H) : Prop :=
  ∃ d named, entry = .dict d ∧ readWindow C d = .ok window ∧ Names C d named ∧
    (∀ offset, C.timedelta window.utcOffsetHours = .ok offset → InCalendar offset →
      ∀ moment, named.At C.runtime (moment + offset) → window.containsAt C moment = .ok true) ∧
    ∃ moment, window.containsAt C moment = .ok true

/-- **Every entry is represented by a window, or the settings are refused.** -/
def Honest (settings : Doc) : Prop :=
  (∃ policy raw entries, parsePolicy C settings = .ok policy ∧ safeScanning settings = .ok raw ∧
      blackoutWindows raw = .ok entries ∧
      ∀ entry ∈ entries, ∃ window ∈ policy.windows, Represents C entry window) ∨
    parsePolicy C settings = .error .refusal

/-- **The entry is sound**: it names times, the offset is one that the calendar can bear, the end is
on the hour, the start is not in the same hour, and an entry that goes on after midnight names every
day. -/
structure Named.Sound (entry : Doc.Dict) (window : ParsedWindow H) (named : Named) : Prop where
  names : Names C entry named
  offset : ∃ offset, C.timedelta window.utcOffsetHours = .ok offset ∧ InCalendar offset
  onTheHour : (⌊named.stop⌋ : ℚ) = named.stop
  lasts : ⌊named.start⌋ ≠ ⌊named.stop⌋ ∧ ¬(named.start = 24 ∧ ⌊named.stop⌋ = 0)
  everyDay : named.stop < named.start → 0 < named.stop → ∀ day, NamesDay C.runtime named.days day

/-- The entry is a dictionary with a value that raises a `TypeError` or a `ValueError`. -/
def Malformed (entry : Doc) : Prop :=
  ∃ d f, entry = .dict d ∧ readWindow C d = .error f ∧ (f = .typeError ∨ f = .valueError)

/-- The entry is read. -/
def Passed (entry : Doc) : Prop := ∀ d, entry = .dict d → Returns (readWindow C d)

/-- **The settings are well formed**, or an entry is malformed before anything else is raised. -/
def WellFormed (settings : Doc) : Prop :=
  ∃ raw entries, safeScanning settings = .ok raw ∧ blackoutWindows raw = .ok entries ∧
    ((∃ before entry after, entries = before ++ entry :: after ∧ (∀ e ∈ before, Passed C e) ∧
        Malformed C entry) ∨
      (∀ entry ∈ entries, ∃ d window, ∃ named : Named, entry = .dict d ∧
        readWindow C d = .ok window ∧ named.Sound C d window) ∧ Returns (mostScans C raw))

variable {C}

theorem containsAt_eq {window : ParsedWindow H} {offset : ℤ}
    (hoffset : C.timedelta window.utcOffsetHours = .ok offset) (h : InCalendar offset)
    (moment : ℤ) :
    window.containsAt C moment = .ok ((window.window offset).contains C.runtime moment) := by
  unfold ParsedWindow.containsAt
  rw [hoffset]
  exact if_pos h

/-! ### Named days and hours, and those of the window -/

theorem take_weekday {R : Runtime} {item : Doc} {weekday : ℕ} (h : IsWeekday R item weekday)
    (repr : Doc → Str) : weekday < 7 ∧
      (lower R (item.text repr)).take 3 = dayNames.getD weekday [] := by
  obtain ⟨s, names, rfl, hnames, hmem⟩ := h
  have hall : ∀ i < 7, ∀ n ∈ weekdays.getD i [], n.take 3 = dayNames.getD i [] := by decide
  have hlt : weekday < 7 := by
    obtain ⟨hlt, -⟩ := List.getElem?_eq_some_iff.mp hnames
    exact hlt
  refine ⟨hlt, hall weekday hlt _ ?_⟩
  rw [getD_eq_getElem?_getD, hnames]
  exact hmem

theorem onDay_iff {R : Runtime} {window : Window} {items : List Doc} {repr : Doc → Str}
    (hdays : window.days = items.map (Doc.text repr))
    (hweek : ∀ item ∈ items, ∃ weekday, IsWeekday R item weekday) (day : ℤ) :
    window.OnDay R day ↔ NamesDay R items day := by
  have hinj : ∀ i < 7, ∀ j < 7, dayNames.getD i [] = dayNames.getD j [] → i = j := by decide
  have hlt : ((day + 3) % 7).toNat < 7 := by omega
  unfold Window.OnDay NamesDay
  rw [hdays, map_map, map_eq_nil_iff]
  refine or_congr Iff.rfl ⟨fun hmem => ?_, ?_⟩
  · obtain ⟨item, hitem, hname⟩ := mem_map.mp hmem
    obtain ⟨weekday, hweekday⟩ := hweek item hitem
    obtain ⟨hlt', htake⟩ := take_weekday hweekday repr
    rw [← hinj _ hlt' _ hlt (htake.symm.trans hname)]
    exact ⟨item, hitem, hweekday⟩
  · rintro ⟨item, hitem, hweekday⟩
    exact mem_map.mpr ⟨item, hitem, (take_weekday hweekday repr).2⟩

/-- Some day is named. -/
theorem exists_namesDay {R : Runtime} {items : List Doc}
    (hweek : ∀ item ∈ items, ∃ weekday, IsWeekday R item weekday) : ∃ day, NamesDay R items day := by
  rcases items with _ | ⟨item, items⟩
  · exact ⟨0, Or.inl rfl⟩
  · obtain ⟨weekday, hweekday⟩ := hweek item mem_cons_self
    have hlt := (take_weekday hweekday fun _ => []).1
    refine ⟨weekday - 3, Or.inr ⟨item, mem_cons_self, ?_⟩⟩
    rwa [show (((weekday : ℤ) - 3 + 3) % 7).toNat = weekday by omega]

/-- A set of days of the week with the day after each of them has all of them. -/
theorem namesDay_of_succ {R : Runtime} {items : List Doc} {day : ℤ} (hday : NamesDay R items day)
    (hstep : ∀ day, NamesDay R items day → NamesDay R items (day + 1)) (later : ℤ) :
    NamesDay R items later := by
  have hafter : ∀ n : ℕ, NamesDay R items (day + n) := by
    intro n
    induction n with
    | zero => simpa using hday
    | succ n ih =>
      rw [Nat.cast_succ, ← add_assoc]
      exact hstep _ ih
  -- a day of the same name that comes later
  have hsame := hafter ((later - day) % 7).toNat
  have hmod : (day + ((later - day) % 7).toNat + 3) % 7 = (later + 3) % 7 := by omega
  unfold NamesDay at hsame ⊢
  rwa [hmod] at hsame

section Hours
variable {R : Runtime} {window : Window} {named : Named}

/-- The hours of a window are those of an entry, without what follows the point. -/
structure Reads (R : Runtime) (window : Window) (named : Named) : Prop where
  onDay : ∀ day, window.OnDay R day ↔ NamesDay R named.days day
  start : window.startHour = ⌊named.start⌋
  stop : window.endHour = ⌊named.stop⌋
  ofDay : (0 ≤ named.start ∧ named.start ≤ 24) ∧ 0 ≤ named.stop ∧ named.stop ≤ 24
  day : ∃ day, NamesDay R named.days day

theorem Reads.floor_mem (h : Reads R window named) :
    (0 ≤ ⌊named.start⌋ ∧ ⌊named.start⌋ ≤ 24) ∧ 0 ≤ ⌊named.stop⌋ ∧ ⌊named.stop⌋ ≤ 24 := by
  obtain ⟨⟨hs, hs'⟩, he, he'⟩ := h.ofDay
  refine ⟨⟨Int.floor_nonneg.mpr hs, ?_⟩, Int.floor_nonneg.mpr he, ?_⟩
  · exact_mod_cast (Int.floor_le named.start).trans hs'
  · exact_mod_cast (Int.floor_le named.stop).trans he'

theorem occurs_iff (h : Reads R window named) : window.Occurs R ↔
    ⌊named.start⌋ ≠ ⌊named.stop⌋ ∧ ¬(named.start = 24 ∧ ⌊named.stop⌋ = 0) := by
  obtain ⟨⟨hs, hs'⟩, he, he'⟩ := h.floor_mem
  have htop : named.start = 24 ↔ ⌊named.start⌋ = 24 := by
    constructor
    · intro heq
      rw [heq]
      norm_num
    · intro hfloor
      have hle := Int.floor_le named.start
      rw [hfloor] at hle
      exact le_antisymm h.ofDay.1.2 (by exact_mod_cast hle)
  have hday : ∃ day, window.OnDay R day := h.day.imp fun day => (h.onDay day).mpr
  unfold Window.Occurs
  rw [h.start, h.stop, and_iff_right hday, htop]
  split_ifs <;> omega

/-- The hours of an entry that ends in a later hour than it starts in. -/
theorem closed_iff_of_le (h : Reads R window named) (hle : named.start ≤ named.stop)
    (hlasts : ⌊named.start⌋ ≠ ⌊named.stop⌋) :
    (∀ moment, named.At R (window.localTime moment) → window.contains R moment = true) ↔
      (⌊named.stop⌋ : ℚ) = named.stop := by
  have hlt : ⌊named.start⌋ < ⌊named.stop⌋ := lt_of_le_of_ne (Int.floor_mono hle) hlasts
  have hstart := Int.floor_le named.start
  have hstop := Int.floor_le named.stop
  obtain ⟨⟨hs, -⟩, -, he'⟩ := h.floor_mem
  constructor
  · intro hclosed
    by_contra hne
    have hfrac : (⌊named.stop⌋ : ℚ) < named.stop := lt_of_le_of_ne hstop hne
    have hless : ⌊named.stop⌋ < 24 := by exact_mod_cast hfrac.trans_le h.ofDay.2.2
    have hbefore : named.start < ⌊named.stop⌋ :=
      (Int.lt_floor_add_one named.start).trans_le (by exact_mod_cast hlt)
    obtain ⟨day, hday⟩ := h.day
    -- the hour that is cut off
    have hnamed : named.At R (window.localTime (window.atHour (day * 24 + ⌊named.stop⌋))) := by
      have htime : (day * 24 + ⌊named.stop⌋) * hour % (24 * hour) = ⌊named.stop⌋ * hour := by
        unfold hour
        omega
      have hdate : (day * 24 + ⌊named.stop⌋) * hour / (24 * hour) = day := by
        unfold hour
        omega
      unfold Named.At
      rw [if_pos hle, Window.localTime_atHour, htime, hdate]
      push_cast [hour]
      exact ⟨hday, by linarith, by linarith⟩
    have hin := (Window.contains_iff_today.mp (hclosed _ hnamed)).2
    have hhour : window.hourOf (window.atHour (day * 24 + ⌊named.stop⌋)) = ⌊named.stop⌋ := by
      unfold Window.hourOf
      rw [Window.localTime_atHour]
      unfold hour
      omega
    rw [h.start, h.stop, if_pos hlt.le, hhour] at hin
    exact absurd hin.2 (lt_irrefl _)
  · intro hwhole moment hat
    unfold Named.At at hat
    rw [if_pos hle, ← hwhole] at hat
    obtain ⟨hday, hfrom, hto⟩ := hat
    refine Window.contains_iff_today.mpr ⟨(h.onDay _).mpr hday, ?_⟩
    rw [h.start, h.stop, if_pos hlt.le]
    unfold Window.hourOf
    generalize window.localTime moment % (24 * hour) = time at hfrom hto
    have hfrom' : ⌊named.start⌋ * hour ≤ time := by
      have : (⌊named.start⌋ * hour : ℚ) ≤ time := by
        push_cast [hour] at hfrom ⊢
        linarith
      exact_mod_cast this
    have hto' : time < ⌊named.stop⌋ * hour := by exact_mod_cast hto
    unfold hour at *
    omega

/-- The hours of an entry that goes on after midnight. -/
theorem closed_iff_of_lt (h : Reads R window named) (hlt : named.stop < named.start)
    (hlasts : ⌊named.start⌋ ≠ ⌊named.stop⌋) :
    (∀ moment, named.At R (window.localTime moment) → window.contains R moment = true) ↔
      (⌊named.stop⌋ : ℚ) = named.stop ∧ (0 < named.stop → ∀ day, NamesDay R named.days day) := by
  have hfloors : ⌊named.stop⌋ < ⌊named.start⌋ :=
    lt_of_le_of_ne (Int.floor_mono hlt.le) hlasts.symm
  have hstart := Int.floor_le named.start
  have hstop := Int.floor_le named.stop
  obtain ⟨⟨hs, hs'⟩, he, -⟩ := h.floor_mem
  obtain ⟨⟨-, htop⟩, hzero, -⟩ := h.ofDay
  -- the time at an hour of the morning after a named day
  have hnext : ∀ day (n : ℤ), NamesDay R named.days day → 0 ≤ n → (n : ℚ) < named.stop → n < 24 →
      named.At R (window.localTime (window.atHour ((day + 1) * 24 + n))) ∧
        window.hourOf (window.atHour ((day + 1) * 24 + n)) = n ∧
        window.today (window.atHour ((day + 1) * 24 + n)) = day + 1 := by
    intro day n hday hn hn' hn24
    unfold Named.At Window.hourOf Window.today
    rw [if_neg (not_le.mpr hlt), Window.localTime_atHour]
    have hnq : (0 : ℚ) ≤ n := by exact_mod_cast hn
    refine ⟨⟨day, hday, ?_, ?_⟩, ?_, ?_⟩
    · push_cast [hour]
      linarith
    · push_cast [hour]
      linarith
    · unfold hour
      omega
    · unfold hour
      omega
  constructor
  · intro hclosed
    obtain ⟨day, hday⟩ := h.day
    refine ⟨?_, fun hpos => ?_⟩
    · by_contra hne
      obtain ⟨hat, hhour, -⟩ := hnext day _ hday he (lt_of_le_of_ne hstop hne) (by omega)
      have hin := (Window.contains_iff_today.mp (hclosed _ hat)).2
      rw [h.start, h.stop, if_neg (not_le.mpr hfloors), hhour] at hin
      omega
    · have hstep : ∀ day, NamesDay R named.days day → NamesDay R named.days (day + 1) := by
        intro day hday
        obtain ⟨hat, -, htoday⟩ := hnext day 0 hday le_rfl (by exact_mod_cast hpos) (by norm_num)
        rw [← htoday]
        exact (h.onDay _).mp (Window.contains_iff_today.mp (hclosed _ hat)).1
      exact namesDay_of_succ hday hstep
  · rintro ⟨hwhole, hevery⟩ moment hat
    unfold Named.At at hat
    rw [if_neg (not_le.mpr hlt), ← hwhole] at hat
    obtain ⟨day, hday, hfrom, hto⟩ := hat
    have hfrom' : day * (24 * hour) + ⌊named.start⌋ * hour ≤ window.localTime moment := by
      have : (day * (24 * hour) + ⌊named.start⌋ * hour : ℚ) ≤ window.localTime moment := by
        push_cast [hour] at hfrom ⊢
        linarith
      exact_mod_cast this
    have hto' : window.localTime moment < (day + 1) * (24 * hour) + ⌊named.stop⌋ * hour := by
      exact_mod_cast hto
    refine Window.contains_iff_today.mpr ⟨(h.onDay _).mpr ?_, ?_⟩
    · by_cases hlater : window.localTime moment < (day + 1) * (24 * hour)
      · have htoday : window.today moment = day := by
          unfold Window.today
          unfold hour at *
          omega
        rwa [htoday]
      · have hpos : 0 < ⌊named.stop⌋ := by
          unfold hour at *
          omega
        have hposq : (0 : ℚ) < ⌊named.stop⌋ := by exact_mod_cast hpos
        exact hevery (hposq.trans_le hstop) _
    · rw [h.start, h.stop, if_neg (not_le.mpr hfloors)]
      unfold Window.hourOf
      unfold hour at *
      omega

theorem closed_iff (h : Reads R window named) (hlasts : ⌊named.start⌋ ≠ ⌊named.stop⌋) :
    (∀ moment, named.At R (window.localTime moment) → window.contains R moment = true) ↔
      (⌊named.stop⌋ : ℚ) = named.stop ∧
        (named.stop < named.start → 0 < named.stop → ∀ day, NamesDay R named.days day) := by
  rcases le_or_gt named.start named.stop with hle | hlt
  · rw [closed_iff_of_le h hle hlasts, and_iff_left fun hlt => absurd hle (not_le.mpr hlt)]
  · rw [closed_iff_of_lt h hlt hlasts, forall_prop_of_true hlt]

end Hours

theorem tdiv_eq_floor {q : ℚ} (h : 0 ≤ q) : q.num.tdiv q.den = ⌊q⌋ := by
  rw [Int.tdiv_eq_ediv_of_nonneg (Rat.num_nonneg.mpr h), Rat.floor_def']

theorem reads_of_names {d : Doc.Dict} {window : ParsedWindow H} {named : Named}
    (hread : readWindow C d = .ok window) (h : Names C d named) (offset : ℤ) :
    Reads C.runtime (window.window offset) named := by
  obtain ⟨days, hdays, hread⟩ := bind_eq_ok.mp hread
  obtain ⟨startHour, hstart, hread⟩ := bind_eq_ok.mp hread
  obtain ⟨endHour, hstop, hread⟩ := bind_eq_ok.mp hread
  obtain ⟨utcOffsetHours, -, hread⟩ := bind_eq_ok.mp hread
  rw [h.days] at hdays
  rw [C.int_number _ _ h.start, tdiv_eq_floor h.ofDay.1.1] at hstart
  rw [C.int_number _ _ h.stop, tdiv_eq_floor h.ofDay.2.1] at hstop
  cases hdays
  cases hstart
  cases hstop
  cases hread
  exact ⟨onDay_iff rfl h.ofWeek, rfl, rfl, h.ofDay, exists_namesDay h.ofWeek⟩

theorem represents_iff {entry : Doc} {window : ParsedWindow H} : Represents C entry window ↔
    ∃ d, ∃ named : Named, entry = .dict d ∧ readWindow C d = .ok window ∧
      named.Sound C d window := by
  refine exists_congr fun d => exists_congr fun named => and_congr_right fun _ =>
    and_congr_right fun hread => ?_
  constructor
  · rintro ⟨hnames, hnamed, moment, hmoment⟩
    obtain ⟨offset, hoffset, hif⟩ := bind_eq_ok.mp hmoment
    have hin : InCalendar offset := by
      by_contra hout
      rw [if_neg hout] at hif
      cases hif
    have hclosed : ∀ m, window.containsAt C m = .ok true ↔
        (window.window offset).contains C.runtime m = true := by
      intro m
      rw [containsAt_eq hoffset hin, Except.ok.injEq]
    have hreads := reads_of_names hread hnames offset
    have hlasts := (occurs_iff hreads).mp
      (Window.exists_contains_iff.mp ⟨moment, (hclosed moment).mp hmoment⟩)
    obtain ⟨hwhole, hevery⟩ := (closed_iff hreads hlasts.1).mp fun m hm =>
      (hclosed m).mp (hnamed offset hoffset hin m hm)
    exact ⟨hnames, ⟨offset, hoffset, hin⟩, hwhole, hlasts, hevery⟩
  · rintro ⟨hnames, ⟨offset, hoffset, hin⟩, hwhole, hlasts, hevery⟩
    have hreads := reads_of_names hread hnames offset
    refine ⟨hnames, fun offset' hoffset' hin' m hm => ?_, ?_⟩
    · obtain rfl : offset = offset' := Except.ok.inj (hoffset.symm.trans hoffset')
      rw [containsAt_eq hoffset hin, (closed_iff hreads hlasts.1).mpr ⟨hwhole, hevery⟩ m hm]
    · obtain ⟨moment, hmoment⟩ := Window.exists_contains_iff.mpr ((occurs_iff hreads).mpr hlasts)
      exact ⟨moment, (containsAt_eq hoffset hin moment).trans (congrArg _ hmoment)⟩


theorem readEntry_refusal_iff {entry : Doc} :
    readEntry C entry = .error .refusal ↔ Malformed C entry := by
  unfold Malformed
  cases entry with
  | dict d =>
    rw [readEntry]
    cases hread : readWindow C d with
    | ok window => simp [hread]
    | error f => by_cases hf : f = .typeError ∨ f = .valueError <;> simp [hread, hf]
  | _ => simp [readEntry]

theorem returns_readEntry_iff {entry : Doc} : Returns (readEntry C entry) ↔ Passed C entry := by
  unfold Passed
  cases entry with
  | dict d =>
    rw [readEntry]
    cases hread : readWindow C d with
    | ok window => simp [hread, returns_ok]
    | error f => simp [hread, not_returns_error]
  | _ => exact iff_of_true (returns_ok _) fun d h => nomatch h

theorem readEntry_eq_ok_iff {entry : Doc} {window : ParsedWindow H} :
    readEntry C entry = .ok (some window) ↔
      ∃ d, entry = .dict d ∧ readWindow C d = .ok window := by
  cases entry with
  | dict d =>
    rw [readEntry]
    cases hread : readWindow C d <;> simp [hread]
  | _ => simp [readEntry]

section Settings
variable {settings : Doc} {raw : Doc.Dict} {entries : List Doc}

theorem parsePolicy_eq (hraw : safeScanning settings = .ok raw)
    (hentries : blackoutWindows raw = .ok entries) :
    parsePolicy C settings = entries.mapM (readEntry C) >>= fun windows =>
      (mostScans C raw).mapError .uncaught >>= fun most =>
        .ok (policyOf C raw windows.reduceOption most) := by
  unfold parsePolicy
  rw [hraw, ok_bind, hentries, ok_bind]
  rfl

theorem parsePolicy_refusal_iff (hraw : safeScanning settings = .ok raw)
    (hentries : blackoutWindows raw = .ok entries) :
    parsePolicy C settings = .error .refusal ↔
      ∃ before entry after, entries = before ++ entry :: after ∧ (∀ e ∈ before, Passed C e) ∧
        Malformed C entry := by
  have hmap : parsePolicy C settings = .error .refusal ↔
      entries.mapM (readEntry C) = .error .refusal := by
    rw [parsePolicy_eq hraw hentries]
    cases entries.mapM (readEntry C) with
    | error e =>
      constructor <;> intro h <;> cases h <;> rfl
    | ok windows =>
      rw [ok_bind]
      cases mostScans C raw <;> constructor <;> exact fun h => nomatch h
  rw [hmap, mapM_eq_error_iff]
  simp only [returns_readEntry_iff, readEntry_refusal_iff]

theorem dictOf_ne_refusal (v : Doc) : dictOf v ≠ .error .refusal := by
  unfold dictOf
  cases v.entries? <;> exact fun h => nomatch h

/-- Nothing is refused before the entries are there. -/
theorem exists_entries (h : parsePolicy C settings = .error .refusal) :
    ∃ raw entries, safeScanning settings = .ok raw ∧ blackoutWindows raw = .ok entries := by
  unfold parsePolicy at h
  cases hraw : safeScanning settings with
  | error e =>
    rw [hraw] at h
    cases h
    unfold safeScanning at hraw
    cases hwhole : dictOf (settings.orElse (.dict [])) with
    | error e =>
      rw [hwhole] at hraw
      cases hraw
      exact absurd hwhole (dictOf_ne_refusal _)
    | ok whole =>
      rw [hwhole] at hraw
      exact absurd hraw (dictOf_ne_refusal _)
  | ok raw =>
    rw [hraw, ok_bind] at h
    cases hentries : blackoutWindows raw with
    | error e =>
      rw [hentries] at h
      cases h
      unfold blackoutWindows at hentries
      revert hentries
      cases ((Doc.get raw "blackout_windows").orElse (.list [])).iter? <;> exact fun h => nomatch h
    | ok entries => exact ⟨raw, entries, rfl, hentries⟩

theorem parsePolicy_eq_ok_iff (hraw : safeScanning settings = .ok raw)
    (hentries : blackoutWindows raw = .ok entries) {policy : ParsedPolicy H} :
    parsePolicy C settings = .ok policy ↔ ∃ windows most,
      entries.mapM (readEntry C) = .ok windows ∧ mostScans C raw = .ok most ∧
        policyOf C raw windows.reduceOption most = policy := by
  rw [parsePolicy_eq hraw hentries, bind_eq_ok]
  constructor
  · rintro ⟨windows, hwindows, h⟩
    obtain ⟨most, hmost, h⟩ := bind_eq_ok.mp h
    cases hread : mostScans C raw with
    | error f =>
      rw [hread] at hmost
      cases hmost
    | ok n =>
      rw [hread] at hmost
      cases hmost
      exact ⟨windows, most, hwindows, rfl, Except.ok.inj h⟩
  · rintro ⟨windows, most, hwindows, hmost, rfl⟩
    refine ⟨windows, hwindows, ?_⟩
    rw [hmost]
    rfl

/-- Every entry is represented when each of them is a sound window. -/
theorem represented_iff (hraw : safeScanning settings = .ok raw)
    (hentries : blackoutWindows raw = .ok entries) :
    (∃ policy, parsePolicy C settings = .ok policy ∧
        ∀ entry ∈ entries, ∃ window ∈ policy.windows, Represents C entry window) ↔
      (∀ entry ∈ entries, ∃ d window, ∃ named : Named, entry = .dict d ∧
        readWindow C d = .ok window ∧ named.Sound C d window) ∧ Returns (mostScans C raw) := by
  constructor
  · rintro ⟨policy, hpolicy, hall⟩
    obtain ⟨windows, most, -, hmost, -⟩ := (parsePolicy_eq_ok_iff hraw hentries).mp hpolicy
    refine ⟨fun entry hentry => ?_, most, hmost⟩
    obtain ⟨window, -, hrepresents⟩ := hall entry hentry
    obtain ⟨d, named, hd, hread, hsound⟩ := represents_iff.mp hrepresents
    exact ⟨d, window, named, hd, hread, hsound⟩
  · rintro ⟨hsound, most, hmost⟩
    have hread : ∀ entry ∈ entries, ∃ window, readEntry C entry = .ok (some window) ∧
        Represents C entry window := by
      intro entry hentry
      obtain ⟨d, window, named, hd, hread, hsound⟩ := hsound entry hentry
      exact ⟨window, readEntry_eq_ok_iff.mpr ⟨d, hd, hread⟩,
        represents_iff.mpr ⟨d, named, hd, hread, hsound⟩⟩
    obtain ⟨windows, hwindows⟩ := exists_mapM fun entry hentry =>
      let ⟨window, hwindow, _⟩ := hread entry hentry
      ⟨some window, hwindow⟩
    refine ⟨_, (parsePolicy_eq_ok_iff hraw hentries).mpr ⟨windows, most, hwindows, hmost, rfl⟩,
      fun entry hentry => ?_⟩
    obtain ⟨window, hwindow, hrepresents⟩ := hread entry hentry
    obtain ⟨w, hw, hentry'⟩ := exists_of_mem_mapM_left hwindows entry hentry
    rw [hwindow] at hentry'
    cases hentry'
    exact ⟨window, reduceOption_mem_iff.mpr hw, hrepresents⟩

end Settings

/-- **When every entry is a closed window, or the settings are refused.** -/
theorem parsePolicy_honest_iff {H : Type} (C : Coercions H) (settings : Doc) :
    Honest C settings ↔ WellFormed C settings := by
  constructor
  · rintro (⟨policy, raw, entries, hpolicy, hraw, hentries, hall⟩ | hrefused)
    · exact ⟨raw, entries, hraw, hentries,
        Or.inr ((represented_iff hraw hentries).mp ⟨policy, hpolicy, hall⟩)⟩
    · obtain ⟨raw, entries, hraw, hentries⟩ := exists_entries hrefused
      exact ⟨raw, entries, hraw, hentries,
        Or.inl ((parsePolicy_refusal_iff hraw hentries).mp hrefused)⟩
  · rintro ⟨raw, entries, hraw, hentries, hmalformed | hsound⟩
    · exact Or.inr ((parsePolicy_refusal_iff hraw hentries).mpr hmalformed)
    · obtain ⟨policy, hpolicy, hall⟩ := (represented_iff hraw hentries).mpr hsound
      exact Or.inl ⟨policy, raw, entries, hpolicy, hraw, hentries, hall⟩

/-- A window that is written as a text. -/
def textEntry : Doc :=
  .dict [(.str "safe_scanning", .dict [(.str "blackout_windows",
    .list [.str "mon-fri 9-17"])])]

/-- A library that reads the defaults alone. -/
def defaultsOnly : Coercions ℤ where
  runtime := .ascii
  repr := fun _ => []
  number
    | .scalar text _ => some (if text = ['0'] then 0 else 1)
    | _ => none
  int
    | .scalar text _ => .ok (if text = ['0'] then 0 else 1)
    | _ => .error .typeError
  int_number := by
    intro v q h
    cases v with
    | scalar text truthy =>
      cases h
      dsimp only
      split_ifs <;> rfl
    | _ => cases h
  float := fun _ => .ok 0
  timedelta := .ok

/-- **An entry that is no dictionary is dropped**, and no window is left. -/
theorem text_entry_dropped : ¬ ∀ (C : Coercions ℤ) (settings : Doc), Honest C settings := by
  intro h
  have hraw : safeScanning textEntry =
      .ok [(.str "blackout_windows", .list [.str "mon-fri 9-17"])] := rfl
  have hentries : blackoutWindows
      [(.str "blackout_windows", .list [.str "mon-fri 9-17"])] =
        .ok [.str "mon-fri 9-17"] := rfl
  rcases h defaultsOnly textEntry with ⟨policy, raw, entries, -, hraw', hentries', hall⟩ | hrefused
  · obtain rfl := Except.ok.inj (hraw.symm.trans hraw')
    obtain rfl := Except.ok.inj (hentries.symm.trans hentries')
    obtain ⟨window, -, d, named, hd, -⟩ := hall _ (mem_singleton_self _)
    cases hd
  · obtain ⟨before, entry, after, hsplit, -, d, f, hd, -⟩ :=
      (parsePolicy_refusal_iff hraw hentries).mp hrefused
    have hmem : entry ∈ [Doc.str "mon-fri 9-17"] := by
      rw [hsplit]
      exact mem_append_right _ mem_cons_self
    rw [mem_singleton.mp hmem] at hd
    cases hd

end Parse

end Guardian.Scans

import Guardian.Scans.SafeScan

/-!
# Blackout windows

A window recurs on the days of the week that it names, between two hours.  A window that ends before
it starts wraps midnight: it begins on one of its days and ends on the following one.  The code asks
for the day of the moment, also after midnight.  `contains_iff` and `nextOpen_iff` say when that
comes to the same.
-/

namespace Guardian.Scans

open Python

variable (R : Runtime)

/-! ### What a window covers -/

namespace Window

variable (window : Window)

/-- The time of the customer, in microseconds. -/
def localTime (moment : ℤ) : ℤ := moment + window.utcOffset

/-- The day of the customer, counted from the epoch. -/
def today (moment : ℤ) : ℤ := window.localTime moment / (24 * hour)

/-- The hour of that day. -/
def hourOf (moment : ℤ) : ℤ := window.localTime moment % (24 * hour) / hour

/-- **A day is one of the window's.**  A window that names no day has all of them. -/
def OnDay (day : ℤ) : Prop :=
  window.days = [] ∨
    dayNames.getD ((day + 3) % 7).toNat [] ∈ window.days.map fun d => (lower R d).take 3

instance (day : ℤ) : Decidable (window.OnDay R day) := inferInstanceAs (Decidable (_ ∨ _))

/-- **What a window covers**: the time between its hours on one of its days; if it wraps midnight,
the interval that begins on one of its days and ends on the following one. -/
def Covers (moment : ℤ) : Prop :=
  if window.startHour ≤ window.endHour then
    window.OnDay R (window.today moment) ∧
      window.startHour * hour ≤ window.localTime moment % (24 * hour) ∧
      window.localTime moment % (24 * hour) < window.endHour * hour
  else
    ∃ day, window.OnDay R day ∧
      day * (24 * hour) + window.startHour * hour ≤ window.localTime moment ∧
      window.localTime moment < (day + 1) * (24 * hour) + window.endHour * hour

/-- The day on which the hour that the window starts at last came. -/
def lastStart (moment : ℤ) : ℤ :=
  (window.localTime moment - window.startHour * hour) / (24 * hour)

/-- The window lasts longer than the time since then. -/
def Lasts (moment : ℤ) : Prop :=
  (window.localTime moment - window.startHour * hour) % (24 * hour) <
    (24 - (window.startHour - window.endHour)) * hour

/-- The hour of the moment is before the end of the window or not before its start. -/
def InHours (moment : ℤ) : Prop :=
  window.startHour ≤ window.hourOf moment ∨ window.hourOf moment < window.endHour

/-- **The day of the moment is the right one to ask for**: the window does not wrap midnight, or it
is not after midnight in it, or the day of the moment and the day before it are both the window's or
both not.  Where the window has hours that no day has, it may last beyond the hours asked for, or
not as long: then the day that is asked for without it, or not asked for with it, is not the
window's. -/
def RightDay (moment : ℤ) : Prop :=
  if window.startHour ≤ window.endHour then True
  else if 0 ≤ window.endHour ∧ window.startHour ≤ 24 then
    window.hourOf moment < window.endHour →
      (window.OnDay R (window.today moment) ↔ window.OnDay R (window.today moment - 1))
  else
    (window.InHours moment → window.Lasts moment →
        (window.OnDay R (window.today moment) ↔ window.OnDay R (window.lastStart moment))) ∧
      (window.InHours moment → ¬ window.Lasts moment → ¬ window.OnDay R (window.today moment)) ∧
      (¬ window.InHours moment → window.Lasts moment → ¬ window.OnDay R (window.lastStart moment))

variable {R window} {moment : ℤ}

theorem contains_iff_today :
    window.contains R moment = true ↔ window.OnDay R (window.today moment) ∧
      if window.startHour ≤ window.endHour then
        window.startHour ≤ window.hourOf moment ∧ window.hourOf moment < window.endHour
      else window.startHour ≤ window.hourOf moment ∨ window.hourOf moment < window.endHour := by
  have hnot : (window.days ≠ [] ∧
      dayNames.getD ((window.today moment + 3) % 7).toNat [] ∉
        window.days.map fun d => (lower R d).take 3) ↔
      ¬ window.OnDay R (window.today moment) := not_or.symm
  have hcontains : window.contains R moment =
      if window.OnDay R (window.today moment) then
        if window.startHour ≤ window.endHour then
          decide (window.startHour ≤ window.hourOf moment ∧
            window.hourOf moment < window.endHour)
        else decide (window.startHour ≤ window.hourOf moment ∨
          window.hourOf moment < window.endHour)
      else false := by
    by_cases hday : window.OnDay R (window.today moment)
    · exact (if_neg fun h => hnot.mp h hday).trans (if_pos hday).symm
    · exact (if_pos (hnot.mpr hday)).trans (if_neg hday).symm
  rw [hcontains]
  split_ifs <;> simp [*]

theorem covers_iff_lastStart (hwraps : ¬ window.startHour ≤ window.endHour) :
    window.Covers R moment ↔ window.OnDay R (window.lastStart moment) ∧ window.Lasts moment := by
  unfold Covers Lasts
  rw [if_neg hwraps]
  constructor
  · rintro ⟨day, hday, hfrom, hto⟩
    have hstart : window.lastStart moment = day := by
      unfold lastStart
      unfold hour at *
      omega
    refine ⟨hstart ▸ hday, ?_⟩
    unfold hour at *
    omega
  · rintro ⟨hday, hlasts⟩
    refine ⟨_, hday, ?_, ?_⟩
    · unfold lastStart hour
      omega
    · unfold lastStart
      unfold hour at *
      omega

/-- **A window contains what it covers** exactly if the day of the moment is the right one to ask
for. -/
theorem contains_iff (window : Window) (moment : ℤ) :
    (window.contains R moment = true ↔ window.Covers R moment) ↔ window.RightDay R moment := by
  rw [contains_iff_today]
  unfold RightDay
  by_cases hwraps : window.startHour ≤ window.endHour
  · have hhours : window.startHour * hour ≤ window.localTime moment % (24 * hour) ∧
        window.localTime moment % (24 * hour) < window.endHour * hour ↔
          window.startHour ≤ window.hourOf moment ∧ window.hourOf moment < window.endHour := by
      unfold hourOf hour
      omega
    unfold Covers
    rw [if_pos hwraps, if_pos hwraps, if_pos hwraps, hhours]
    exact iff_of_true Iff.rfl trivial
  · rw [if_neg hwraps, if_neg hwraps, covers_iff_lastStart hwraps]
    split_ifs with hday
    swap
    · change (_ ∧ window.InHours moment ↔ _) ↔ _
      by_cases hin : window.InHours moment <;> by_cases hlasts : window.Lasts moment <;>
        simp [hin, hlasts]
    by_cases hbefore : window.hourOf moment < window.endHour
    · -- the window began the day before
      have hstart : window.lastStart moment = window.today moment - 1 := by
        unfold lastStart today
        unfold hourOf at hbefore
        unfold hour at *
        omega
      have hlasts : window.Lasts moment := by
        unfold Lasts
        unfold hourOf at hbefore
        unfold hour at *
        omega
      simp only [hstart, hlasts, hbefore, or_true, and_true, true_implies]
    · have hstart : window.startHour ≤ window.hourOf moment →
          window.lastStart moment = window.today moment := by
        intro hafter
        unfold lastStart today
        unfold hourOf at hbefore hafter
        unfold hour at *
        omega
      have hlasts : window.startHour ≤ window.hourOf moment ↔ window.Lasts moment := by
        unfold Lasts
        unfold hourOf at *
        unfold hour at *
        omega
      simp only [hbefore, or_false, false_implies, iff_true]
      rw [← hlasts]
      exact and_congr_left fun hafter => by rw [hstart hafter]

end Window

/-- The window from Friday night to Saturday morning. -/
def fridayNight : Window := ⟨["fri"], 22, 6, 0, []⟩

/-- **Saturday morning is not kept**, and the morning of Friday is: the day of the moment is asked
for, not that on which the night began. -/
theorem friday_night :
    ¬ ∀ (window : Window) (moment : ℤ),
      window.contains .ascii moment = true ↔ window.Covers .ascii moment := by
  intro h
  -- three o'clock on the first Saturday
  have hsaturday := h fridayNight (2 * (24 * hour) + 3 * hour)
  have hcovers : fridayNight.Covers .ascii (2 * (24 * hour) + 3 * hour) :=
    ⟨1, by decide, by decide, by decide⟩
  exact absurd (hsaturday.mpr hcovers) (by decide)

/-! ### The end of a blackout -/

variable {R}

/-- The moment is in no blackout window. -/
def Open (R : Runtime) (windows : List Window) (moment : ℤ) : Prop :=
  ∀ window ∈ windows, window.contains R moment = false

instance (windows : List Window) (moment : ℤ) : Decidable (Open R windows moment) :=
  inferInstanceAs (Decidable (∀ _ ∈ _, _))

/-- The moment some half hours later. -/
def halfHours (moment : ℤ) (k : ℕ) : ℤ := moment + k * (hour / 2)

/-- **Some half-hour step** among the next ones is outside the windows. -/
def OpensWithin (R : Runtime) (windows : List Window) (moment : ℤ) (n : ℕ) : Prop :=
  ∃ k, 1 ≤ k ∧ k ≤ n ∧ Open R windows (halfHours moment k)

variable {windows : List Window}

theorem any_contains_iff {moment : ℤ} :
    windows.any (·.contains R moment) = true ↔ ¬ Open R windows moment := by
  simp [Open]

theorem halfHours_succ (moment : ℤ) (k : ℕ) :
    halfHours moment (k + 1) = halfHours (moment + hour / 2) k := by
  unfold halfHours hour
  push_cast
  omega

/-- **The search finds** the first half-hour step outside the windows. -/
theorem nextOpenFrom_of_opens (moment : ℤ) {n : ℕ} {probe : ℤ}
    (h : OpensWithin R windows probe n) :
    probe < nextOpenFrom R windows moment n probe ∧
      Open R windows (nextOpenFrom R windows moment n probe) := by
  induction n generalizing probe with
  | zero =>
    obtain ⟨k, hk, hn, -⟩ := h
    omega
  | succ n ih =>
    have hlater : probe < probe + hour / 2 := by
      unfold hour
      omega
    rw [nextOpenFrom]
    by_cases hopen : Open R windows (probe + hour / 2)
    · rw [if_neg fun hany => any_contains_iff.mp hany hopen]
      exact ⟨hlater, hopen⟩
    · rw [if_pos (any_contains_iff.mpr hopen)]
      obtain ⟨k, hk, hn, hk'⟩ := h
      obtain ⟨k, rfl⟩ : ∃ j, k = j + 1 := ⟨k - 1, by omega⟩
      rw [halfHours_succ] at hk'
      have hpos : 1 ≤ k := by
        by_contra hzero
        obtain rfl : k = 0 := by omega
        exact hopen (by simpa [halfHours] using hk')
      obtain ⟨hlt, hnext⟩ := ih ⟨k, hpos, by omega, hk'⟩
      exact ⟨hlater.trans hlt, hnext⟩

/-- **A search that finds nothing** returns the next day. -/
theorem nextOpenFrom_of_closed (moment : ℤ) {n : ℕ} {probe : ℤ}
    (h : ¬ OpensWithin R windows probe n) :
    nextOpenFrom R windows moment n probe = moment + 24 * hour := by
  induction n generalizing probe with
  | zero => rfl
  | succ n ih =>
    have hclosed : ¬ Open R windows (probe + hour / 2) := fun hopen =>
      h ⟨1, le_rfl, by omega, by simpa [halfHours] using hopen⟩
    rw [nextOpenFrom, if_pos (any_contains_iff.mpr hclosed)]
    refine ih ?_
    rintro ⟨k, hk, hn, hopen⟩
    exact h ⟨k + 1, by omega, by omega, by rwa [halfHours_succ]⟩

/-- **`next_open` returns a later moment outside the windows**, for windows that are closed and open
at some half-hour step within eight days, exactly if they open within four: so far its steps go. -/
theorem nextOpen_iff (windows : List Window) (now : ℤ) :
    (¬ Open R windows now → OpensWithin R windows now (8 * 48) →
        now < nextOpen R windows now ∧ Open R windows (nextOpen R windows now)) ↔
      (¬ Open R windows now → OpensWithin R windows now (8 * 48) →
        OpensWithin R windows now (4 * 48)) := by
  refine imp_congr_right fun _ => imp_congr_right fun _ => ⟨fun h => ?_, nextOpenFrom_of_opens now⟩
  by_contra hclosed
  -- the next day is one of the steps
  have hday : nextOpen R windows now = halfHours now 48 := by
    rw [nextOpen, nextOpenFrom_of_closed now hclosed]
    unfold halfHours hour
    omega
  rw [hday] at h
  exact hclosed ⟨48, by omega, by omega, h.2⟩

/-- A freeze from Monday to Friday. -/
def weekdayFreeze : Window :=
  ⟨["mon", "tue", "wed", "thu", "fri"].map String.toList, 0, 24, 0, []⟩

/-- **On Monday morning** the end of the freeze is said to be on Tuesday morning. -/
theorem weekday_freeze :
    ¬ ∀ (windows : List Window) (now : ℤ), ¬ Open .ascii windows now →
      OpensWithin .ascii windows now (8 * 48) →
        now < nextOpen .ascii windows now ∧ Open .ascii windows (nextOpen .ascii windows now) := by
  intro h
  -- ten minutes after midnight on the first Monday
  have hnow := h [weekdayFreeze] (4 * (24 * hour) + hour / 6) (by decide)
    ⟨5 * 48, by decide, by decide, by decide⟩
  exact absurd hnow.2 (by decide +kernel)

end Guardian.Scans

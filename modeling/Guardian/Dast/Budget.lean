import Guardian.Dast.Checks
import Mathlib.Tactic.Linarith

/-!
# Requests, rate and wall clock

The application that answers, the clock that is read, and the `Budget` that every request of a scan
is claimed from.
-/

namespace Guardian.Dast

open Python

/-! ### The application -/

/-- `Response`. -/
structure Response where
  status : ℤ
  headers : Headers
  body : Str
  error : Str
  elapsedMs : ℚ
  deriving DecidableEq

/-- What a call of `fetch` comes to. -/
inductive Outcome
  | raised (error : Str)
  | noResponse
  | response (r : Response)
  deriving DecidableEq

/-- A call of `fetch`, and what it is for. -/
structure Fetch (A : Type) where
  url : Str
  headers : Headers
  reason : A
  start : ℚ
  outcome : Outcome
  deriving DecidableEq

/-- **What is around a scanner**: the application, which answers as it likes on everything it has
been sent, and the time that passes before each reading of the clock. -/
structure World (A : Type) where
  respond : List (Fetch A) → Str → Headers → Outcome
  elapsed : ℕ → ℚ
  elapsed_nonneg : ∀ n, 0 ≤ elapsed n

/-- The clock, the number of its readings, and the calls of `fetch`, the last one first. -/
structure Wire (A : Type) where
  clock : ℚ
  readings : ℕ
  log : List (Fetch A)

variable {A : Type}

/-- A world in which no time passes. -/
def World.still (respond : List (Fetch A) → Str → Headers → Outcome) : World A :=
  ⟨respond, fun _ => 0, fun _ => le_rfl⟩

/-- Time passes, and the clock is read. -/
def World.read (world : World A) (w : Wire A) : Wire A :=
  { w with clock := w.clock + world.elapsed w.readings, readings := w.readings + 1 }

/-- A call of `fetch`. -/
def World.fetch (world : World A) (url : Str) (headers : Headers) (reason : A) (w : Wire A) :
    Outcome × Wire A :=
  let outcome := world.respond w.log url headers
  (outcome, { w with log := ⟨url, headers, reason, w.clock, outcome⟩ :: w.log })

theorem clock_le_read (world : World A) (w : Wire A) : w.clock ≤ (world.read w).clock :=
  le_add_of_nonneg_right (world.elapsed_nonneg w.readings)

/-! ### The budget -/

/-- The parameters of a `Budget`, and the time at which it is made. -/
structure BudgetLimits where
  maxRequests : ℤ
  ratePerSecond : ℚ
  deadlineSeconds : ℚ
  start : ℚ

/-- The fields of a `Budget` that change. -/
structure Budget where
  last : Option ℚ
  spent : ℕ
  exhausted : Bool
  expired : Bool

def Budget.new : Budget := ⟨none, 0, false, false⟩

namespace BudgetLimits

variable (limits : BudgetLimits)

/-- `self._interval`. -/
def interval : ℚ := if 0 < limits.ratePerSecond then 1 / limits.ratePerSecond else 0

/-- `self._deadline`. -/
def deadline : ℚ := limits.start + limits.deadlineSeconds

/-- **`take`**: whether the request is granted, the clock after the sleep, and the budget.  No time
passes in it but the sleep. -/
def take (b : Budget) (now : ℚ) : Bool × ℚ × Budget :=
  if limits.maxRequests ≤ b.spent then (false, now, { b with exhausted := true })
  else if limits.deadline ≤ now then (false, now, { b with expired := true })
  else
    let wait := match b.last with
      | none => 0
      | some last => if limits.interval = 0 then 0 else last + limits.interval - now
    let clock := if 0 < wait then now + wait else now
    (true, clock, { b with last := some clock, spent := b.spent + 1 })

end BudgetLimits

variable {limits : BudgetLimits} {b b' : Budget} {now clock : ℚ}

theorem interval_nonneg (limits : BudgetLimits) : 0 ≤ limits.interval := by
  unfold BudgetLimits.interval
  split_ifs with hrate
  · exact (one_div_pos.mpr hrate).le
  · exact le_rfl

theorem take_of_lt (hspent : (b.spent : ℤ) < limits.maxRequests)
    (hdeadline : now < limits.deadline) : (limits.take b now).1 = true := by
  unfold BudgetLimits.take
  rw [if_neg (not_le.mpr hspent), if_neg (not_le.mpr hdeadline)]

/-- **A claim that is refused** takes no time, and leaves what is spent as it is. -/
theorem take_refused (h : limits.take b now = (false, clock, b')) :
    clock = now ∧ b'.spent = b.spent ∧ b'.last = b.last := by
  unfold BudgetLimits.take at h
  by_cases hspent : limits.maxRequests ≤ b.spent
  · rw [if_pos hspent] at h
    cases h
    exact ⟨rfl, rfl, rfl⟩
  rw [if_neg hspent] at h
  by_cases hdeadline : limits.deadline ≤ now
  · rw [if_pos hdeadline] at h
    cases h
    exact ⟨rfl, rfl, rfl⟩
  · rw [if_neg hdeadline] at h
    cases h

/-- **A claim that is granted** is one of the budget, and ends when a request may start. -/
theorem take_granted (h : limits.take b now = (true, clock, b'))
    (hpast : ∀ last, b.last = some last → last ≤ now) :
    b.spent < limits.maxRequests ∧ b'.spent = b.spent + 1 ∧ b'.last = some clock ∧
      (∀ last, b.last = some last → last + limits.interval ≤ clock) ∧
      clock ≤ limits.deadline + limits.interval := by
  have hinterval := interval_nonneg limits
  unfold BudgetLimits.take at h
  by_cases hspent : limits.maxRequests ≤ b.spent
  · rw [if_pos hspent] at h
    cases h
  rw [if_neg hspent] at h
  by_cases hdeadline : limits.deadline ≤ now
  · rw [if_pos hdeadline] at h
    cases h
  rw [if_neg hdeadline] at h
  cases h
  rw [not_le] at hdeadline
  refine ⟨not_le.mp hspent, rfl, rfl, fun last hlast => ?_, ?_⟩
  · have hle := hpast last hlast
    simp only [hlast]
    split_ifs <;> linarith
  · rcases hlast : b.last with _ | last
    · simp only [lt_self_iff_false, if_false]
      linarith
    · have hle := hpast last hlast
      simp only
      split_ifs <;> linarith

end Guardian.Dast

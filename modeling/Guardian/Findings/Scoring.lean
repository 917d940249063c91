import Guardian.Python.Text
import Mathlib.Algebra.Order.Ring.Rat
import Mathlib.Algebra.GroupWithZero.Nat

/-!
# The risk engine

`assess` turns the signals of a finding into a severity and a score between 0 and 100.  A float is
the rational number that it stands for.
-/

namespace Guardian.Findings

open Python

/-! ### Severities -/

/-- `Severity`. -/
inductive Severity
  | info
  | low
  | medium
  | high
  | critical
  deriving DecidableEq

namespace Severity

/-- `Severity.rank`. -/
def rank : Severity → ℕ
  | info => 0
  | low => 1
  | medium => 2
  | high => 3
  | critical => 4

/-- `Severity.value`. -/
def value : Severity → Str
  | info => "info"
  | low => "low"
  | medium => "medium"
  | high => "high"
  | critical => "critical"

/-- The severities in ascending order. -/
def order : List Severity := [info, low, medium, high, critical]

/-- `Severity(value)`, if there is one with that value. -/
def ofValue (v : Str) : Option Severity := order.find? fun s => s.value = v

/-- The severity some steps above, capped. -/
def bump (s : Severity) (steps : ℕ) : Severity := order.getD (min 4 (s.rank + steps)) critical

theorem rank_le (s : Severity) : s.rank ≤ 4 := by cases s <;> decide

theorem rank_bump (s : Severity) (steps : ℕ) : (s.bump steps).rank = min 4 (s.rank + steps) := by
  have hrank : ∀ n ≤ 4, (order.getD n critical).rank = n := by decide
  exact hrank _ (min_le_left _ _)

end Severity

/-! ### The signals -/

/-- The exploit signals of a finding. -/
structure Signals where
  cvssBase : Option ℚ
  epssScore : Option ℚ
  kev : Bool
  exploitMaturity : Option Str
  ransomware : Bool
  deriving DecidableEq

/-- `ScoreInputs`. -/
structure ScoreInputs where
  baseSeverity : Severity
  signals : Signals
  exposure : Str
  assetCriticality : Str
  businessImpact : Str
  deriving DecidableEq

/-- The value of a text in a table, or zero. -/
def weightIn (table : List (Str × ℕ)) (key : Str) : ℕ := (table.lookup key).getD 0

/-- The float `0.1`. -/
def tenth : ℚ := 3602879701896397 / 36028797018963968

/-- `_from_cvss`. -/
def fromCvss (cvss : ℚ) : Severity :=
  if 9 ≤ cvss then .critical
  else if 7 ≤ cvss then .high
  else if 4 ≤ cvss then .medium
  else if tenth ≤ cvss then .low
  else .info

/-- `_CRIT_BUMP`. -/
def critBump : List (Str × ℕ) :=
  [("critical", 2), ("high", 1), ("medium", 0), ("low", 0)]

/-- `_MATURITY_BUMP`. -/
def maturityBump : List (Str × ℕ) := [("high", 1), ("functional", 1)]

/-- `_MATURITY_WEIGHT`. -/
def maturityWeight : List (Str × ℕ) :=
  [("high", 10), ("functional", 6), ("poc", 2), ("unproven", 0)]

/-- What a rationale says of an exploit's maturity. -/
def maturityText (maturity : Str) : Str :=
  if maturity = "high" then "weaponized, reliable exploit code is public"
  else if maturity = "functional" then "working exploit code is public"
  else "a proof of concept is public"

/-- `_CRITICALITY_WEIGHT`. -/
def criticalityWeight : List (Str × ℕ) :=
  [("critical", 12), ("high", 8), ("medium", 4), ("low", 0)]

/-- `_BUSINESS_IMPACT_WEIGHT`. -/
def businessImpactWeight : List (Str × ℕ) :=
  [("critical", 12), ("high", 8), ("medium", 4), ("low", 0),
    ("none", 0)]

/-- `_SEVERITY_BASE_SCORE`. -/
def severityBaseScore : Severity → ℕ
  | .critical => 90
  | .high => 72
  | .medium => 50
  | .low => 25
  | .info => 5

/-- `_MAX_SIGNAL_POINTS`. -/
def maxSignalPoints : ℕ := 8 + 8 + 10 + 6 + 6 + 12 + 12

/-! ### The assessment -/

/-- **`score_severity`.** -/
def scoreSeverity (inp : ScoreInputs) : Severity :=
  let start := match inp.signals.cvssBase with
    | some cvss => fromCvss cvss
    | none => inp.baseSeverity
  let exploited :=
    if inp.signals.kev then
      let bumped := start.bump 1
      if bumped.rank < Severity.high.rank then Severity.high else bumped
    else start
  let probable := match inp.signals.epssScore with
    | some epss => if 1 / 2 ≤ epss then exploited.bump 1 else exploited
    | none => exploited
  let mature := probable.bump (weightIn maturityBump (inp.signals.exploitMaturity.getD []))
  if inp.exposure = "public" then mature.bump (weightIn critBump inp.assetCriticality)
  else mature

/-- A quotient, rounded to the nearest integer, halves to the even one: `round(n / d)`. -/
def roundDiv (n d : ℕ) : ℕ :=
  if 2 * (n % d) < d then n / d
  else if d < 2 * (n % d) then n / d + 1
  else if n / d % 2 = 0 then n / d
  else n / d + 1

/-- `str(n)`. -/
def decimal (n : ℕ) : Str := (Nat.repr n).toList

/-- `format(x, ".2f")` of a number that is not negative. -/
def fixedTwo (x : ℚ) : Str :=
  let n := roundDiv (x.num.toNat * 100) x.den
  decimal (n / 100) ++ '.' :: decimal (n % 100 / 10) ++ decimal (n % 10)

/-- A signal that counts, unless its weight is zero. -/
def signal (weight : ℕ) (text : Str) : List (ℕ × Str) :=
  if weight = 0 then [] else [(weight, text)]

/-- The signals of `assess`, with their weights and texts. -/
def earnedSignals (inp : ScoreInputs) : List (ℕ × Str) :=
  (if inp.signals.kev then [(8, "CISA KEV — actively exploited in the wild".toList)] else []) ++
  (if inp.signals.ransomware then [(8, "used in known ransomware campaigns".toList)] else []) ++
  signal (weightIn maturityWeight (inp.signals.exploitMaturity.getD []))
    (maturityText (inp.signals.exploitMaturity.getD [])) ++
  (match inp.signals.epssScore with
    | none => []
    | some epss =>
      if 1 / 2 ≤ epss then
        [(6, "high EPSS (" ++ fixedTwo epss ++ " exploit probability)")]
      else if tenth ≤ epss then
        [(3, "moderate EPSS (" ++ fixedTwo epss ++ ")")]
      else []) ++
  (if inp.exposure = "public".toList then [(6, "publicly exposed asset".toList)]
    else if inp.exposure = "unknown" then [(2, "exposure unknown (conservative)")]
    else []) ++
  signal (weightIn criticalityWeight inp.assetCriticality)
    ("asset criticality: " ++ inp.assetCriticality) ++
  signal (weightIn businessImpactWeight inp.businessImpact)
    ("business impact: " ++ inp.businessImpact)

/-- `RiskAssessment`. -/
structure RiskAssessment where
  severity : Severity
  score : ℕ
  rationale : List Str
  deriving DecidableEq

/-- **`assess`.** -/
def assess (inp : ScoreInputs) : RiskAssessment :=
  let severity := scoreSeverity inp
  let signals := earnedSignals inp
  let floor := severityBaseScore severity
  let earned := (signals.map Prod.fst).sum
  let headroom := 100 - floor
  let bonus := roundDiv (headroom * min earned maxSignalPoints) maxSignalPoints
  { severity
    score := max 0 (min 100 (floor + bonus))
    rationale :=
      ["Base ".toList ++ decimal floor ++ " from ".toList ++ severity.value ++
        " severity band".toList] ++
      (signals.map fun s => "signal +".toList ++ decimal s.1 ++ ": ".toList ++ s.2) ++
      ["Signals ".toList ++ decimal earned ++ "/".toList ++ decimal maxSignalPoints ++
        " of maximum → +".toList ++ decimal bonus ++ " of ".toList ++ decimal headroom ++
        " available above the ".toList ++ severity.value ++ " floor".toList] }

end Guardian.Findings

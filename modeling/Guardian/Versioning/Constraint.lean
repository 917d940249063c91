import Guardian.Versioning.Compare

/-!
# Constraints

`satisfiesConstraint` evaluates a list of clauses, each an operator and a bound: `>=1.0,<1.4.2`.
-/

namespace Guardian.Versioning

open Python

variable (R : Runtime)

/-! ### Clauses -/

def exactWord (s : String) : Regex := .word Regex.exact s.toList

/-- `[^\s,]+` -/
def boundText : Regex := .plus (.cls fun c => !R.isSpace c && c != ',')

/-- `_CONSTRAINT`. -/
def constraintRegex : Regex :=
  [blanks R,
    .opt (.group "op" (.alts ([">=", "<=", "==", "!=", ">", "<", "~>", "^", "="].map exactWord))),
    blanks R, .group "ver" (boundText R), blanks R].foldr .seq .eol

/-- `_BOUND`. -/
def boundRegex : Regex := .seq (.opt (.cls fun c => c == 'v' || c == 'V')) (.cls R.isDecimal)

/-- `".".join(parts)` -/
def dotted (parts : List Str) : Str := List.intercalate ['.'] parts

/-- The first parts of a version, the last of them one up. -/
def bumpAt (idx : ℕ) (parts : List Str) : Except Fault Str := do
  let n ← int R (parts.getD idx [])
  return dotted (parts.take idx ++ [← strInt R (n + 1)])

/-- The upper bound of a compatible release: `ceiling_parts`, joined. -/
def ceiling (op bound : Str) : Except Fault (Option Str) :=
  let parts := (digits1 R).findall bound
  if parts = [] then return none
  else some <$> bumpAt R (if op = ['^'] then 0 else parts.length - 2) parts

/-- The operator refuses the outcome of the comparison with the bound. -/
def Refused (op : Str) (result : ℤ) : Prop :=
  (op = "==" ∨ op = "=") ∧ result ≠ 0 ∨ op = "!=" ∧ result = 0 ∨
    op = ">" ∧ result ≤ 0 ∨ op = ">=" ∧ result < 0 ∨
    op = "<" ∧ 0 ≤ result ∨ op = "<=" ∧ 0 < result ∨
    (op = "~>" ∨ op = "^") ∧ result < 0

instance (op : Str) (result : ℤ) : Decidable (Refused op result) := by
  unfold Refused
  infer_instance

/-- What follows the comparison with the bound: a compatible release stays below its ceiling. -/
def belowCeiling (eco : Ecosystem) (version op bound : Str) : Except Fault Bool :=
  if op = "~>" ∨ op = "^" then do
    match ← ceiling R op bound with
    | none => return true
    | some top => return decide ((← compare R version top (.inl eco)) < 0)
  else .ok true

/-- The operator and the bound of a clause that can be read. -/
def readClause (clause : Str) : Option (Str × Str) :=
  match (constraintRegex R).rematch clause with
  | none => none
  | some m =>
    if ((boundRegex R).rematch ((m.group "ver").getD [])).isNone then none
    else some ((m.group "op").getD "==", (m.group "ver").getD [])

/-- One round of the loop over the clauses: whether it goes on. -/
def satisfiesClause (eco : Ecosystem) (version clause : Str) : Except Fault Bool :=
  match readClause R clause with
  | none => .ok false
  | some (op, bound) =>
    match compare R version bound (.inl eco) with
    | .error .diverges => .error .diverges
    | .error _ => .ok false
    | .ok result => if Refused op result then .ok false else belowCeiling R eco version op bound

/-- The loop over the clauses. -/
def satisfiesAll (eco : Ecosystem) (version : Str) : List Str → Except Fault Bool
  | [] => .ok true
  | clause :: clauses => do
    if ← satisfiesClause R eco version clause then satisfiesAll eco version clauses
    else return false

/-- The clauses of a constraint that are not blank. -/
def clausesOf (constraint : Str) : List Str :=
  (constraint.splitOn ',').filter fun c => !(strip R c).isEmpty

/-- `satisfies_constraint`. -/
def satisfiesConstraint (version constraint : Str) (ecosystem : Ecosystem ⊕ Str) :
    Except Fault Bool :=
  let eco := Ecosystem.of R ecosystem
  let clauses := clausesOf R constraint
  if clauses = [] then return false else satisfiesAll R eco version clauses

/-! ### What a constraint says -/

/-- What a clause says of a version: nothing, if it cannot be read or the bound cannot be compared
with the version. -/
def clauseVerdict (eco : Ecosystem) (version clause : Str) : Except Fault (Option Bool) :=
  match readClause R clause with
  | none => .ok none
  | some (op, bound) =>
    match compare R version bound (.inl eco) with
    | .error .diverges => .error .diverges
    | .error _ => .ok none
    | .ok result =>
      some <$> if Refused op result then .ok false else belowCeiling R eco version op bound

/-- What clauses say together: the first one that does not accept the version decides. -/
def clausesVerdict (eco : Ecosystem) (version : Str) : List Str → Except Fault (Option Bool)
  | [] => .ok (some true)
  | clause :: clauses => do
    match ← clauseVerdict R eco version clause with
    | some true => clausesVerdict eco version clauses
    | verdict => return verdict

/-- **What a constraint says of a version**, if it can be evaluated. -/
def constraintVerdict (eco : Ecosystem) (version constraint : Str) : Except Fault (Option Bool) :=
  if clausesOf R constraint = [] then .ok none
  else clausesVerdict R eco version (clausesOf R constraint)

variable {R}

theorem satisfiesClause_eq (eco : Ecosystem) (version clause : Str) :
    satisfiesClause R eco version clause =
      (·.getD false) <$> clauseVerdict R eco version clause := by
  unfold satisfiesClause clauseVerdict
  rcases readClause R clause with _ | ⟨op, bound⟩
  · rfl
  dsimp only
  rcases compare R version bound (.inl eco) with (_ | _ | _ | _) | result <;> try rfl
  dsimp only
  split_ifs
  · rfl
  · rcases belowCeiling R eco version op bound with _ | _ <;> rfl

theorem satisfiesAll_eq (eco : Ecosystem) (version : Str) (clauses : List Str) :
    satisfiesAll R eco version clauses =
      (·.getD false) <$> clausesVerdict R eco version clauses := by
  induction clauses with
  | nil => rfl
  | cons clause clauses ih =>
    rw [satisfiesAll, clausesVerdict, satisfiesClause_eq, ih]
    rcases clauseVerdict R eco version clause with f | _ | (_ | _) <;> rfl

theorem satisfiesConstraint_eq (eco : Ecosystem) (version constraint : Str) :
    satisfiesConstraint R version constraint (.inl eco) =
      (·.getD false) <$> constraintVerdict R eco version constraint := by
  unfold satisfiesConstraint constraintVerdict
  dsimp only [Ecosystem.of]
  split_ifs
  · rfl
  · exact satisfiesAll_eq eco version _

end Guardian.Versioning

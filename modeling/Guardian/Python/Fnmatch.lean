import Guardian.Python.Text

/-!
# `fnmatch`

`translate` reads a pattern into tokens: `*`, `?`, a class in brackets, a character.  `glob` is
matching with `*` and `?` alone.
-/

namespace Guardian.Python

/-! ### Tokens -/

/-- What a pattern is read into.  A class lists its ranges; a character is the range of itself. -/
inductive Token
  | star
  | question
  | char (c : Char)
  | cls (negated : Bool) (ranges : List (Char × Char))

/-- A token other than `*` takes a character. -/
def Token.accepts : Token → Char → Bool
  | .star, _ => false
  | .question, _ => true
  | .char c, d => d == c
  | .cls negated ranges, d => ranges.any (fun r => r.1 ≤ d ∧ d ≤ r.2) != negated

/-- The ranges of a class; a hyphen makes one if it stands between two characters that are in none
yet. -/
def classRanges : Str → List (Char × Char)
  | lo :: '-' :: hi :: rest => (lo, hi) :: classRanges rest
  | c :: rest => (c, c) :: classRanges rest
  | [] => []

/-- What is in the brackets that were opened, and what is after them.  A bracket that closes at the
beginning stands for itself. -/
def splitClass (p : Str) : Option (Bool × Str × Str) :=
  let negated := p.head? = some '!'
  let p := if negated then p.tail else p
  let first := if p.head? = some ']' then [']'] else []
  match partition ']' (p.drop first.length) with
  | (stuff, true, rest) => some (negated, first ++ stuff, rest)
  | (_, false, _) => none

/-- One more star is none. -/
def addStar : List Token → List Token
  | .star :: ts => .star :: ts
  | ts => .star :: ts

/-- The tokens of a pattern of at most `n` characters. -/
def translateFrom : ℕ → Str → List Token
  | 0, _ => []
  | _, [] => []
  | n + 1, c :: p =>
    if c = '*' then addStar (translateFrom n p)
    else if c = '?' then .question :: translateFrom n p
    else if c = '[' then
      match splitClass p with
      | some (negated, stuff, rest) => .cls negated (classRanges stuff) :: translateFrom n rest
      | none => .char '[' :: translateFrom n p
    else .char c :: translateFrom n p

/-- **`fnmatch.translate`.** -/
def translate (pattern : Str) : List Token := translateFrom pattern.length pattern

/-- A text is what tokens stand for. -/
def matchTokens : List Token → Str → Bool
  | [], s => s.isEmpty
  | .star :: ts, s => s.tails.any (matchTokens ts)
  | _ :: _, [] => false
  | t :: ts, c :: cs => t.accepts c && matchTokens ts cs

/-- **`fnmatch.fnmatch`**, where the case of names counts. -/
def fnmatch (name pattern : Str) : Bool := matchTokens (translate pattern) name

/-! ### Two wildcards -/

/-- **Matching with `*` and `?` alone.** -/
def glob : Str → Str → Bool
  | [], s => s.isEmpty
  | c :: p, s =>
    if c = '*' then s.tails.any (glob p)
    else
      match s with
      | [] => false
      | d :: s => (c == '?' || d == c) && glob p s

theorem any_tails_any (f : Str → Bool) (s : Str) :
    (s.tails.any fun t => t.tails.any f) = s.tails.any f := by
  rw [Bool.eq_iff_iff]
  simp only [List.any_eq_true, List.mem_tails]
  constructor
  · rintro ⟨t, ht, u, hu, hf⟩
    exact ⟨u, hu.trans ht, hf⟩
  · rintro ⟨u, hu, hf⟩
    exact ⟨u, hu, u, List.suffix_rfl, hf⟩

theorem matchTokens_addStar (ts : List Token) (s : Str) :
    matchTokens (addStar ts) s = matchTokens (.star :: ts) s := by
  unfold addStar
  split
  · rename_i ts
    exact (any_tails_any (matchTokens ts) s).symm
  · rfl

/-- **A pattern without an opening bracket** has no wildcards but `*` and `?`. -/
theorem fnmatch_eq_glob {pattern : Str} (h : '[' ∉ pattern) (name : Str) :
    fnmatch name pattern = glob pattern name := by
  have hfrom : ∀ (n : ℕ) (p : Str), p.length ≤ n → '[' ∉ p → ∀ s,
      matchTokens (translateFrom n p) s = glob p s := by
    intro n
    induction n with
    | zero =>
      intro p hp _ s
      rw [List.length_eq_zero_iff.mp (Nat.le_zero.mp hp)]
      rfl
    | succ n ih =>
      intro p hp hbracket s
      rcases p with _ | ⟨c, p⟩
      · rfl
      · obtain ⟨hc, hbracket⟩ : '[' ≠ c ∧ '[' ∉ p := by simpa using hbracket
        have hrest := ih p (by simpa using hp) hbracket
        rw [translateFrom, glob.eq_def]
        dsimp only
        by_cases hstar : c = '*'
        · rw [if_pos hstar, if_pos hstar, matchTokens_addStar]
          exact congrArg (fun f => s.tails.any f) (funext hrest)
        · rw [if_neg hstar, if_neg hstar]
          by_cases hquestion : c = '?'
          · rw [if_pos hquestion]
            rcases s with _ | ⟨d, s⟩
            · rfl
            · simp [matchTokens, Token.accepts, hquestion, hrest]
          · rw [if_neg hquestion, if_neg hc.symm]
            rcases s with _ | ⟨d, s⟩
            · rfl
            · have hne : (c == '?') = false := by simpa using hquestion
              simp [matchTokens, Token.accepts, hne, hrest]
  exact hfrom pattern.length pattern le_rfl h name

end Guardian.Python

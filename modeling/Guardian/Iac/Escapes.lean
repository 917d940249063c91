import Mathlib.Data.List.Chain
import Guardian.Python.Text

/-!
# Escapes in quoted strings

`unescape` replaces the escapes of a string one kind after the other.  The language reads the text
of a string from the left, token by token.
-/

namespace Guardian.Iac

open Python List

/-! ### `_unescape` -/

/-- `s.replace(xy, z)` -/
def replacePair (x y z : Char) : Str → Str
  | a :: b :: s =>
    if a = x ∧ b = y then z :: replacePair x y z s else a :: replacePair x y z (b :: s)
  | s => s

/-- `_unescape` -/
def unescape (value : Str) : Str :=
  replacePair '\\' '\\' '\\' (replacePair '\\' '"' '"'
    (replacePair '\\' 't' '\t' (replacePair '\\' 'n' '\n' value)))

/-! ### The text of a string -/

/-- The character with a number in hexadecimal digits, upper or lower case. -/
def hexValue (s : Str) : ℕ :=
  s.foldl (fun n c => 16 * n + if c.isDigit then c.toNat - 48 else c.toLower.toNat - 87) 0

def isHex (c : Char) : Bool := c.isDigit || decide (c.toLower ∈ ['a', 'b', 'c', 'd', 'e', 'f'])

/-- An escape that `unescape` does not know: `\r`, a character by its number, and `$${` and `%%{`.
-/
inductive Rare : Str → Str → Prop
  | cr : Rare ['\\', 'r'] ['\r']
  | u (hex : Str) : hex.length = 4 → hex.all isHex → (hexValue hex).isValidChar →
      Rare ('\\' :: 'u' :: hex) [Char.ofNat (hexValue hex)]
  | bigU (hex : Str) : hex.length = 8 → hex.all isHex → (hexValue hex).isValidChar →
      Rare ('\\' :: 'U' :: hex) [Char.ofNat (hexValue hex)]
  | template (c : Char) : c = '$' ∨ c = '%' → Rare [c, c, '{'] [c, '{']

/-- **A token of the text of a string**: a character, one of the escapes `\n`, `\t`, `\"` and `\\`,
or another escape by what is written and what it stands for. -/
inductive Tok
  | char (c : Char)
  | newline
  | tab
  | quote
  | backslash
  | rare (raw value : Str)
  deriving DecidableEq

namespace Tok

/-- What is written. -/
def raw : Tok → Str
  | char c => [c]
  | newline => ['\\', 'n']
  | tab => ['\\', 't']
  | quote => ['\\', '"']
  | backslash => ['\\', '\\']
  | rare raw _ => raw

/-- What it stands for. -/
def value : Tok → Str
  | char c => [c]
  | newline => ['\n']
  | tab => ['\t']
  | quote => ['"']
  | backslash => ['\\']
  | rare _ value => value

/-- A token that can stand in a quoted text. -/
def Valid : Tok → Prop
  | char c => c ≠ '"' ∧ c ≠ '\\' ∧ c ≠ '\n' ∧ c ≠ '\r'
  | rare raw value => Rare raw value
  | _ => True

/-- A dollar or percent sign before a brace begins an interpolation or a directive. -/
def Begins (t t' : Tok) : Prop := (t = char '$' ∨ t = char '%') ∧ t' = char '{'

/-- A backslash before a letter that would be an escape with it. -/
def Confused (t t' : Tok) : Prop := t = backslash ∧ (t' = char 'n' ∨ t' = char 't')

end Tok

def render (ts : List Tok) : Str := ts.flatMap Tok.raw

/-- **What a string stands for.** -/
def meaning (ts : List Tok) : Str := ts.flatMap Tok.value

/-- **The tokens of a string without interpolations and directives.** -/
def ValidString (ts : List Tok) : Prop :=
  (∀ t ∈ ts, t.Valid) ∧ ts.IsChain fun t t' => ¬ t.Begins t'

/-- **Tokens that `unescape` reads as the language does**: no rare escapes, and no backslash before
an `n` or a `t`. -/
def Plain (ts : List Tok) : Prop :=
  (∀ t ∈ ts, ∀ raw value, t ≠ .rare raw value) ∧ ts.IsChain fun t t' => ¬ t.Confused t'

/-- What `unescape` makes of tokens; `prev` behind a backslash. -/
def misread (prev : Bool) : List Tok → Str
  | [] => []
  | .char c :: ts =>
    (if prev ∧ c = 'n' then '\n' else if prev ∧ c = 't' then '\t' else c) :: misread false ts
  | .backslash :: ts => '\\' :: misread true ts
  | .newline :: ts => '\n' :: misread false ts
  | .tab :: ts => '\t' :: misread false ts
  | .quote :: ts => '"' :: misread false ts
  | .rare raw _ :: ts => raw ++ misread false ts

/-! ### One kind of escape after the other -/

/-- **A text while its escapes are replaced**: a character other than the backslash, two
backslashes, one that stays alone, and an escape. -/
inductive Atom
  | char (c : Char)
  | pair
  | lone
  | esc (c : Char)

namespace Atom

/-- What is written. -/
def raw : Atom → Str
  | char c => [c]
  | pair => ['\\', '\\']
  | lone => ['\\']
  | esc c => ['\\', c]

/-- The escapes with a letter are replaced: aligned ones, and those of the second of two
backslashes. -/
def stage (y z : Char) : List Atom → List Atom
  | pair :: char c :: as =>
    if c = y then lone :: char z :: stage y z as else pair :: char c :: stage y z as
  | esc c :: as => (if c = y then char z else esc c) :: stage y z as
  | a :: as => a :: stage y z as
  | [] => []

end Atom

def written (as : List Atom) : Str := as.flatMap Atom.raw

/-- Behind a backslash that stays alone is a character that satisfies `P`; no character and no
letter of an escape is a backslash. -/
def Aligned (P : Char → Prop) : List Atom → Prop
  | .lone :: .char c :: as => P c ∧ c ≠ '\\' ∧ Aligned P as
  | .lone :: _ => False
  | .char c :: as => c ≠ '\\' ∧ Aligned P as
  | .esc c :: as => c ≠ '\\' ∧ Aligned P as
  | .pair :: as => Aligned P as
  | [] => True

/-- The escapes with the letter are replaced. -/
def Free (y : Char) : List Atom → Prop
  | .pair :: .char c :: as => c ≠ y ∧ Free y as
  | .esc c :: as => c ≠ y ∧ Free y as
  | _ :: as => Free y as
  | [] => True

/-- What the atoms come to; `prev` behind two backslashes. -/
def settle (prev : Bool) : List Atom → Str
  | [] => []
  | .char c :: as =>
    (if prev ∧ c = 'n' then '\n' else if prev ∧ c = 't' then '\t' else c) :: settle false as
  | .pair :: as => '\\' :: settle true as
  | .lone :: as => '\\' :: settle false as
  | .esc c :: as => (if c = 'n' then '\n' else if c = 't' then '\t' else c) :: settle false as

attribute [elab_as_elim] Atom.stage.induct_unfolding Atom.stage.fun_cases_unfolding

section Stage
variable {x y z : Char} {as : List Atom} {P : Char → Prop}

theorem replacePair_cons_of_ne {a : Char} (h : a ≠ x) (s : Str) :
    replacePair x y z (a :: s) = a :: replacePair x y z s := by
  cases s with
  | nil => rfl
  | cons b s => rw [replacePair, if_neg fun hab => h hab.1]

theorem replacePair_cons_of_head {a : Char} {s : Str} (h : s.head? ≠ some y) :
    replacePair x y z (a :: s) = a :: replacePair x y z s := by
  cases s with
  | nil => rfl
  | cons b s => rw [replacePair, if_neg fun hab => h (by rw [← hab.2]; rfl)]

theorem written_cons (a : Atom) (as : List Atom) : written (a :: as) = a.raw ++ written as := rfl

theorem head?_written (hy : y ≠ '\\') (h : ∀ c as', as ≠ .char c :: as') :
    (written as).head? ≠ some y := by
  rcases as with _ | ⟨a, as⟩
  · simp [written]
  · rw [written_cons]
    cases a with
    | char c => exact absurd rfl (h c as)
    | pair => simpa [Atom.raw] using hy.symm
    | lone => simpa [Atom.raw] using hy.symm
    | esc c => simpa [Atom.raw] using hy.symm

/-- **A pass over the text replaces the escapes with one letter.** -/
theorem replacePair_written (hy : y ≠ '\\') (h : Aligned (· ≠ y) as) :
    replacePair '\\' y z (written as) = written (Atom.stage y z as) := by
  fun_induction Atom.stage y z as with
  | case1 as ih =>
    have hright : replacePair '\\' y z ('\\' :: y :: written as) =
        z :: replacePair '\\' y z (written as) := by
      rw [replacePair, if_pos ⟨rfl, rfl⟩]
    show replacePair '\\' y z ('\\' :: '\\' :: y :: written as) = _
    rw [replacePair_cons_of_head (by simpa using hy.symm), hright, ih h.2]
    rfl
  | case2 c as hc ih =>
    show replacePair '\\' y z ('\\' :: '\\' :: c :: written as) = _
    rw [replacePair_cons_of_head (by simpa using hy.symm),
      replacePair_cons_of_head (by simpa using hc), replacePair_cons_of_ne h.1, ih h.2]
    rfl
  | case3 c as ih =>
    show replacePair '\\' y z ('\\' :: c :: written as) = _
    by_cases hc : c = y
    · subst hc
      rw [replacePair, if_pos ⟨rfl, rfl⟩, ih h.2, if_pos rfl]
      rfl
    · rw [replacePair_cons_of_head (by simpa using hc), replacePair_cons_of_ne h.1, ih h.2,
        if_neg hc]
      rfl
  | case4 a as hpair hesc ih =>
    cases a with
    | char c =>
      show replacePair '\\' y z (c :: written as) = _
      rw [replacePair_cons_of_ne h.1, ih h.2]
      rfl
    | pair =>
      have hhead : (written as).head? ≠ some y := head?_written hy fun c as' => hpair c as' rfl
      show replacePair '\\' y z ('\\' :: '\\' :: written as) = _
      rw [replacePair_cons_of_head (by simpa using hy.symm), replacePair_cons_of_head hhead, ih h]
      rfl
    | lone =>
      rcases as with _ | ⟨_ | _ | _ | _, as⟩
      · exact absurd h id
      · show replacePair '\\' y z ('\\' :: written _) = _
        rw [replacePair_cons_of_head (by simpa [written_cons, Atom.raw] using h.1), ih h.2]
        rfl
      all_goals exact absurd h id
    | esc c => exact absurd rfl (hesc c)
  | case5 => rfl

theorem aligned_stage (hz : z ≠ '\\') (hP : P z) (h : Aligned P as) :
    Aligned P (Atom.stage y z as) := by
  fun_induction Atom.stage y z as with
  | case1 as ih => exact ⟨hP, hz, ih h.2⟩
  | case2 c as hc ih => exact ⟨h.1, ih h.2⟩
  | case3 c as ih =>
    split_ifs
    · exact ⟨hz, ih h.2⟩
    · exact ⟨h.1, ih h.2⟩
  | case4 a as hpair hesc ih =>
    cases a with
    | char c => exact ⟨h.1, ih h.2⟩
    | pair => exact ih h
    | lone =>
      rcases as with _ | ⟨_ | _ | _ | _, as⟩
      · exact absurd h id
      · exact ⟨h.1, ih h.2⟩
      all_goals exact absurd h id
    | esc c => exact absurd rfl (hesc c)
  | case5 => trivial

theorem stage_eq_char {c : Char} {as' : List Atom} (h : Atom.stage y z as = .char c :: as') :
    c = z ∨ ∃ as'', as = .char c :: as'' := by
  fun_cases Atom.stage y z as with
  | case1 as =>
    rw [Atom.stage, if_pos rfl] at h
    cases h
  | case2 d as hd =>
    rw [Atom.stage, if_neg hd] at h
    cases h
  | case3 d as =>
    rw [Atom.stage] at h
    split_ifs at h
    · cases h
      exact Or.inl rfl
    · cases h
  | case4 a as hpair hesc =>
    rw [Atom.stage] at h
    · cases h
      exact Or.inr ⟨_, rfl⟩
    · exact hpair
    · exact hesc
  | case5 => cases h

theorem free_pair (hne : ∀ as', as ≠ .char y :: as') (h : Free y as) : Free y (.pair :: as) := by
  rcases as with _ | ⟨c | _ | _ | _, as⟩
  · trivial
  · exact ⟨fun hc => hne as (by rw [hc]), h⟩
  all_goals exact h

theorem Free.tail {a : Atom} (h : Free y (a :: as)) : Free y as := by
  cases a with
  | char c => exact h
  | pair =>
    rcases as with _ | ⟨c | _ | _ | _, as⟩
    · trivial
    · exact h.2
    all_goals exact h
  | lone => exact h
  | esc c => exact h.2

theorem free_stage (hz : z ≠ y) : Free y (Atom.stage y z as) := by
  fun_induction Atom.stage y z as with
  | case1 as ih => exact ih
  | case2 c as hc ih => exact ⟨hc, ih⟩
  | case3 c as ih =>
    split_ifs with hc
    · exact ih
    · exact ⟨hc, ih⟩
  | case4 a as hpair hesc ih =>
    cases a with
    | char c => exact ih
    | pair =>
      refine free_pair (fun as' h => ?_) ih
      rcases stage_eq_char h with h | ⟨as'', h⟩
      · exact hz h.symm
      · exact hpair y as'' rfl h
    | lone => exact ih
    | esc c => exact absurd rfl (hesc c)
  | case5 => trivial

theorem Free.stage {w : Char} (hz : z ≠ w) (h : Free w as) : Free w (Atom.stage y z as) := by
  fun_induction Atom.stage y z as with
  | case1 as ih => exact ih h.2
  | case2 c as hc ih => exact ⟨h.1, ih h.2⟩
  | case3 c as ih =>
    split_ifs with hc
    · exact ih h.2
    · exact ⟨h.1, ih h.2⟩
  | case4 a as hpair hesc ih =>
    cases a with
    | char c => exact ih h
    | pair =>
      refine free_pair (fun as' h' => ?_) (ih h.tail)
      rcases stage_eq_char h' with h' | ⟨as'', h'⟩
      · exact hz h'.symm
      · exact hpair w as'' rfl h'
    | lone => exact ih h
    | esc c => exact absurd rfl (hesc c)
  | case5 => trivial

theorem settle_stage (hyz : (y, z) ∈ [('n', '\n'), ('t', '\t'), ('"', '"')]) (prev : Bool) :
    settle prev (Atom.stage y z as) = settle prev as := by
  fun_induction Atom.stage y z as generalizing prev with
  | case1 as ih =>
    simp only [settle, ih]
    simp only [mem_cons, Prod.mk.injEq, not_mem_nil, or_false] at hyz
    rcases hyz with ⟨rfl, rfl⟩ | ⟨rfl, rfl⟩ | ⟨rfl, rfl⟩ <;> simp
  | case2 c as hc ih => simp only [settle, ih]
  | case3 c as ih =>
    split_ifs with hc
    · subst hc
      simp only [settle, ih]
      simp only [mem_cons, Prod.mk.injEq, not_mem_nil, or_false] at hyz
      rcases hyz with ⟨rfl, rfl⟩ | ⟨rfl, rfl⟩ | ⟨rfl, rfl⟩ <;> simp
    · simp only [settle, ih]
  | case4 a as hpair hesc ih =>
    cases a with
    | char c => simp only [settle, ih]
    | pair => simp only [settle, ih]
    | lone => simp only [settle, ih]
    | esc c => exact absurd rfl (hesc c)
  | case5 => rfl

theorem Free.ne {c : Char} (h : Free y as) (hc : .esc c ∈ as) : c ≠ y := by
  induction as with
  | nil => exact absurd hc not_mem_nil
  | cons a as ih =>
    rcases mem_cons.mp hc with rfl | hc
    · exact h.1
    · exact ih h.tail hc

theorem esc_of_mem_stage {c : Char} (h : .esc c ∈ Atom.stage y z as) : .esc c ∈ as := by
  fun_induction Atom.stage y z as with
  | case1 as ih => simpa using ih (by simpa using h)
  | case2 d as hd ih => simpa using ih (by simpa using h)
  | case3 d as ih =>
    rcases mem_cons.mp h with h | h
    · split_ifs at h
      exact h ▸ mem_cons_self
    · exact mem_cons_of_mem _ (ih h)
  | case4 a as hpair hesc ih =>
    rcases mem_cons.mp h with h | h
    · exact h ▸ mem_cons_self
    · exact mem_cons_of_mem _ (ih h)
  | case5 => exact h

theorem notMem_stage : .esc y ∉ Atom.stage y z as := by
  intro h
  fun_induction Atom.stage y z as with
  | case1 as ih => exact ih (by simpa using h)
  | case2 d as hd ih => exact ih (by simpa using h)
  | case3 d as ih =>
    rcases mem_cons.mp h with h | h
    · split_ifs at h with hd
      exact hd (Atom.esc.inj h).symm
    · exact ih h
  | case4 a as hpair hesc ih =>
    rcases mem_cons.mp h with h | h
    · exact hesc y h.symm
    · exact ih h
  | case5 => exact absurd h not_mem_nil

theorem settle_true (hn : Free 'n' (.pair :: as)) (ht : Free 't' (.pair :: as)) :
    settle true as = settle false as := by
  rcases as with _ | ⟨c | _ | _ | _, as⟩
  · rfl
  · simp [settle, hn.1, ht.1]
  all_goals rfl

theorem replacePair_backslash (hn : Free 'n' as) (ht : Free 't' as) (hesc : ∀ c, .esc c ∉ as)
    (h : Aligned (fun _ => True) as) :
    replacePair '\\' '\\' '\\' (written as) = settle false as := by
  induction as with
  | nil => rfl
  | cons a as ih =>
    have hesc' : ∀ c, .esc c ∉ as := fun c hc => hesc c (mem_cons_of_mem a hc)
    cases a with
    | char c =>
      show replacePair '\\' '\\' '\\' (c :: written as) = _
      rw [replacePair_cons_of_ne h.1, ih hn.tail ht.tail hesc' h.2]
      simp [settle]
    | pair =>
      show replacePair '\\' '\\' '\\' ('\\' :: '\\' :: written as) = _
      rw [replacePair, if_pos ⟨rfl, rfl⟩, ih hn.tail ht.tail hesc' h, settle, settle_true hn ht]
    | lone =>
      rcases as with _ | ⟨c | _ | _ | _, as⟩
      · exact absurd h id
      · have hc : c ≠ '\\' := h.2.1
        show replacePair '\\' '\\' '\\' ('\\' :: written _) = _
        rw [replacePair_cons_of_head (by simpa [written_cons, Atom.raw] using hc),
          ih hn.tail ht.tail hesc' h.2]
        rfl
      all_goals exact absurd h id
    | esc c => exact absurd mem_cons_self (hesc c)

theorem Aligned.mono {Q : Char → Prop} (hPQ : ∀ c, P c → Q c) (h : Aligned P as) :
    Aligned Q as := by
  induction as with
  | nil => trivial
  | cons a as ih =>
    cases a with
    | char c => exact ⟨h.1, ih h.2⟩
    | pair => exact ih h
    | lone =>
      rcases as with _ | ⟨c | _ | _ | _, as⟩
      · exact absurd h id
      · exact ⟨hPQ c h.1, (ih h.2)⟩
      all_goals exact absurd h id
    | esc c => exact ⟨h.1, ih h.2⟩

theorem unescape_written (hesc : ∀ c, .esc c ∈ as → c = 'n' ∨ c = 't' ∨ c = '"')
    (h : Aligned (fun c => c ≠ 'n' ∧ c ≠ 't' ∧ c ≠ '"') as) :
    unescape (written as) = settle false as := by
  have h1 := aligned_stage (y := 'n') (z := '\n') (by decide) (by decide) h
  have h2 := aligned_stage (y := 't') (z := '\t') (by decide) (by decide) h1
  have h3 : Aligned (fun _ => True) _ :=
    aligned_stage (y := '"') (z := '"') (by decide) trivial (h2.mono fun _ _ => trivial)
  have hn : Free 'n' (Atom.stage 'n' '\n' as) := free_stage (by decide)
  have hn2 : Free 'n' (Atom.stage 't' '\t' (Atom.stage 'n' '\n' as)) := hn.stage (by decide)
  have ht2 : Free 't' (Atom.stage 't' '\t' (Atom.stage 'n' '\n' as)) := free_stage (by decide)
  unfold unescape
  rw [replacePair_written (by decide) (h.mono fun c hc => hc.1),
    replacePair_written (by decide) (h1.mono fun c hc => hc.2.1),
    replacePair_written (by decide) (h2.mono fun c hc => hc.2.2),
    replacePair_backslash (hn2.stage (by decide)) (ht2.stage (by decide)) ?_ h3,
    settle_stage (by simp), settle_stage (by simp), settle_stage (by simp)]
  intro c hc
  have hc2 := esc_of_mem_stage hc
  rcases hesc c (esc_of_mem_stage (esc_of_mem_stage hc2)) with rfl | rfl | rfl
  · exact hn2.ne hc2 rfl
  · exact ht2.ne hc2 rfl
  · exact notMem_stage hc

end Stage

/-! ### The tokens of a string -/

theorem isHex_ne {c : Char} (h : isHex c) : c ≠ '\\' ∧ c ≠ '"' := by
  constructor <;> rintro rfl <;> exact absurd h (by decide)

theorem Rare.shape {raw value : Str} (h : Rare raw value) :
    ∃ c s, (∀ d ∈ s, d ≠ '\\' ∧ d ≠ '"') ∧
      (raw = '\\' :: c :: s ∧ (c = 'r' ∨ c = 'u' ∨ c = 'U') ∨
        raw = c :: s ∧ (c = '$' ∨ c = '%')) := by
  cases h with
  | cr => exact ⟨'r', [], by simp, Or.inl ⟨rfl, by simp⟩⟩
  | u hex _ hall _ =>
    exact ⟨'u', hex, fun d hd => isHex_ne (all_eq_true.mp hall d hd), Or.inl ⟨rfl, by simp⟩⟩
  | bigU hex _ hall _ =>
    exact ⟨'U', hex, fun d hd => isHex_ne (all_eq_true.mp hall d hd), Or.inl ⟨rfl, by simp⟩⟩
  | template c hc =>
    refine ⟨c, [c, '{'], ?_, Or.inr ⟨rfl, hc⟩⟩
    rcases hc with rfl | rfl <;> decide

theorem Rare.length_lt {raw value : Str} (h : Rare raw value) : value.length < raw.length := by
  cases h <;> simp_all

def rareAtom (c : Char) : Atom := if c = '\\' then .lone else .char c

/-- The atoms of a token. -/
def Tok.atoms : Tok → List Atom
  | .char c => [.char c]
  | .newline => [.esc 'n']
  | .tab => [.esc 't']
  | .quote => [.esc '"']
  | .backslash => [.pair]
  | .rare raw _ => raw.map rareAtom

def atoms (ts : List Tok) : List Atom := ts.flatMap Tok.atoms

theorem render_cons (t : Tok) (ts : List Tok) : render (t :: ts) = t.raw ++ render ts := rfl

theorem meaning_cons (t : Tok) (ts : List Tok) : meaning (t :: ts) = t.value ++ meaning ts := rfl

theorem atoms_cons (t : Tok) (ts : List Tok) : atoms (t :: ts) = t.atoms ++ atoms ts := rfl

theorem written_append (as bs : List Atom) : written (as ++ bs) = written as ++ written bs :=
  flatMap_append

theorem written_rareAtom (s : Str) : written (s.map rareAtom) = s := by
  induction s with
  | nil => rfl
  | cons c s ih =>
    rw [map_cons, written_cons, ih, rareAtom]
    split_ifs with hc
    · rw [hc]
      rfl
    · rfl

theorem written_atoms (ts : List Tok) : written (atoms ts) = render ts := by
  induction ts with
  | nil => rfl
  | cons t ts ih =>
    rw [atoms_cons, written_append, ih, render_cons]
    cases t with
    | rare raw _ => rw [Tok.atoms, written_rareAtom, Tok.raw]
    | _ => rfl

theorem settle_rareAtom (s : Str) (as : List Atom) :
    settle false (s.map rareAtom ++ as) = s ++ settle false as := by
  induction s with
  | nil => rfl
  | cons c s ih =>
    rw [map_cons, cons_append, rareAtom]
    split_ifs with hc
    · rw [settle, ih, hc]
      rfl
    · simp [settle, ih]

variable {ts : List Tok}

theorem settle_atoms (h : ∀ t ∈ ts, t.Valid) (prev : Bool) :
    settle prev (atoms ts) = misread prev ts := by
  induction ts generalizing prev with
  | nil => rfl
  | cons t ts ih =>
    have ih := ih fun t ht => h t (mem_cons_of_mem _ ht)
    cases t with
    | rare raw value =>
      have hhead : settle prev (raw.map rareAtom ++ atoms ts) =
          settle false (raw.map rareAtom ++ atoms ts) := by
        obtain ⟨c, s, -, ⟨rfl, -⟩ | ⟨rfl, rfl | rfl⟩⟩ := (h _ mem_cons_self).shape
        · rfl
        · simp [rareAtom, settle]
        · simp [rareAtom, settle]
      rw [atoms_cons, Tok.atoms, hhead, settle_rareAtom, ih, misread]
    | char c | newline | tab | quote | backslash => simp [atoms_cons, Tok.atoms, settle, misread, ih]

theorem aligned_rareAtom {P : Char → Prop} {s : Str} (hs : '\\' ∉ s) (as : List Atom) :
    Aligned P (s.map rareAtom ++ as) ↔ Aligned P as := by
  induction s with
  | nil => rfl
  | cons c s ih =>
    have hc : c ≠ '\\' := fun hc => hs (hc ▸ mem_cons_self)
    rw [map_cons, cons_append, rareAtom, if_neg hc]
    exact ⟨fun h => (ih fun h => hs (mem_cons_of_mem _ h)).mp h.2,
      fun h => ⟨hc, (ih fun h => hs (mem_cons_of_mem _ h)).mpr h⟩⟩

theorem aligned_atoms (h : ∀ t ∈ ts, t.Valid) :
    Aligned (fun c => c ≠ 'n' ∧ c ≠ 't' ∧ c ≠ '"') (atoms ts) := by
  induction ts with
  | nil => trivial
  | cons t ts ih =>
    have ih := ih fun t ht => h t (mem_cons_of_mem _ ht)
    have ht := h t mem_cons_self
    cases t with
    | char c => exact ⟨ht.2.1, ih⟩
    | newline => exact ⟨by decide, ih⟩
    | tab => exact ⟨by decide, ih⟩
    | quote => exact ⟨by decide, ih⟩
    | backslash => exact ih
    | rare raw value =>
      rw [atoms_cons, Tok.atoms]
      obtain ⟨c, s, hs, ⟨rfl, hc⟩ | ⟨rfl, hc⟩⟩ := Rare.shape ht
      · have hs : '\\' ∉ s := fun hmem => (hs _ hmem).1 rfl
        have hne : c ≠ '\\' := by rcases hc with rfl | rfl | rfl <;> decide
        simp only [map_cons, cons_append, rareAtom, if_pos, if_neg hne]
        refine ⟨?_, hne, (aligned_rareAtom hs _).mpr ih⟩
        rcases hc with rfl | rfl | rfl <;> decide
      · refine (aligned_rareAtom (fun hmem => ?_) _).mpr ih
        rcases mem_cons.mp hmem with hmem | hmem
        · rcases hc with rfl | rfl <;> exact absurd hmem (by decide)
        · exact (hs _ hmem).1 rfl

/-- **What `unescape` makes of the text of a string.** -/
theorem unescape_render (h : ∀ t ∈ ts, t.Valid) :
    unescape (render ts) = misread false ts := by
  rw [← written_atoms, ← settle_atoms h]
  refine unescape_written (fun c hc => ?_) (aligned_atoms h)
  obtain ⟨t, -, ht⟩ := mem_flatMap.mp hc
  cases t with
  | rare raw value =>
    obtain ⟨d, -, hd⟩ := mem_map.mp ht
    unfold rareAtom at hd
    split_ifs at hd
  | _ => simp_all [Tok.atoms]

theorem length_meaning_le (h : ∀ t ∈ ts, t.Valid) (prev : Bool) :
    (meaning ts).length ≤ (misread prev ts).length := by
  induction ts generalizing prev with
  | nil => exact le_rfl
  | cons t ts ih =>
    have ih := ih fun t ht => h t (mem_cons_of_mem _ ht)
    have ht := h t mem_cons_self
    rw [meaning_cons, length_append]
    cases t with
    | char c | newline | tab | quote =>
      simpa [Tok.value, misread, Nat.add_comm] using ih false
    | backslash => simpa [Tok.value, misread, Nat.add_comm] using ih true
    | rare raw value =>
      have := Rare.length_lt ht
      have := ih false
      simp only [Tok.value, misread, length_append]
      omega

theorem plain_cons {t : Tok} :
    Plain (t :: ts) ↔ (∀ raw value, t ≠ .rare raw value) ∧ (∀ t' ∈ ts.head?, ¬ t.Confused t') ∧
      Plain ts := by
  simp only [Plain, forall_mem_cons, isChain_cons]
  tauto

/-- Tokens are read rightly when they are plain and, behind a backslash, begin with neither letter.
-/
theorem misread_eq_iff (h : ∀ t ∈ ts, t.Valid) (prev : Bool) :
    misread prev ts = meaning ts ↔
      (prev → ∀ t ∈ ts.head?, ¬ Tok.Confused .backslash t) ∧ Plain ts := by
  induction ts generalizing prev with
  | nil => simp [misread, meaning, Plain]
  | cons t ts ih =>
    have hts : ∀ t ∈ ts, t.Valid := fun t ht => h t (mem_cons_of_mem _ ht)
    have ht := h t mem_cons_self
    rw [plain_cons, meaning_cons]
    cases t with
    | char c =>
      have hc : (if prev ∧ c = 'n' then '\n' else if prev ∧ c = 't' then '\t' else c) = c ↔
          (prev → c ≠ 'n' ∧ c ≠ 't') := by
        split_ifs with hn ht
        · simp [hn]
        · simp [ht]
        · exact ⟨fun _ hp => ⟨fun h => hn ⟨hp, h⟩, fun h => ht ⟨hp, h⟩⟩, fun _ => rfl⟩
      rw [misread, Tok.value, singleton_append, List.cons.injEq, ih hts, hc]
      simp [Tok.Confused]
    | backslash | newline | tab | quote =>
      rw [misread, Tok.value, singleton_append, List.cons.injEq, ih hts]
      simp [Tok.Confused]
    | rare raw value =>
      have hlt := Rare.length_lt ht
      have hle := length_meaning_le hts false
      refine ⟨fun heq => ?_, fun hplain => absurd rfl (hplain.2.1 raw value)⟩
      have hlen := congrArg List.length heq
      simp only [misread, Tok.value, length_append] at hlen
      omega

theorem unescape_eq_iff (h : ∀ t ∈ ts, t.Valid) :
    unescape (render ts) = meaning ts ↔ Plain ts := by
  rw [unescape_render h, misread_eq_iff h]
  simp

/-! ### Escapes -/

/-- The token for a character. -/
def tokOf (c : Char) : Tok :=
  if c = '\n' then .newline
  else if c = '\t' then .tab
  else if c = '"' then .quote
  else if c = '\\' then .backslash
  else if c = '\r' then .rare ['\\', 'r'] ['\r']
  else .char c

/-- The tokens for a text: a dollar or percent sign is doubled before a brace. -/
def tokens : Str → List Tok
  | [] => []
  | [c] => [tokOf c]
  | c :: d :: s =>
    if (c = '$' ∨ c = '%') ∧ d = '{' then .rare [c, c, '{'] [c, '{'] :: tokens s
    else tokOf c :: tokens (d :: s)

/-- **The escapes of a text**: a text that stands for it, between quotes. -/
def encode (s : Str) : Str := render (tokens s)

theorem tokOf_value (c : Char) : (tokOf c).value = [c] := by
  unfold tokOf
  split_ifs <;> simp_all [Tok.value]

theorem meaning_tokens (s : Str) : meaning (tokens s) = s := by
  fun_induction tokens s with
  | case1 => rfl
  | case2 c => rw [meaning_cons, tokOf_value]; rfl
  | case3 c d s h ih =>
    rw [meaning_cons, ih, h.2]
    rfl
  | case4 c d s h ih => rw [meaning_cons, tokOf_value, ih]; rfl

def Tok.canon (t : Tok) : Tok := if t = .char '\t' then .tab else t

theorem Tok.canon_eq_char {t : Tok} {c : Char} (h : t.canon = .char c) : t = .char c := by
  unfold Tok.canon at h
  split_ifs at h
  exact h

theorem Tok.canon_eq_backslash {t : Tok} (h : t.canon = .backslash) : t = .backslash := by
  unfold Tok.canon at h
  split_ifs at h
  exact h

theorem Tok.Valid.canon {t : Tok} (h : t.Valid) : t.canon.Valid := by
  unfold Tok.canon
  split_ifs
  · trivial
  · exact h

theorem Tok.Valid.value_eq {t : Tok} (h : t.Valid) (hrare : ∀ raw value, t ≠ .rare raw value) :
    ∃ c, t.value = [c] ∧ tokOf c = t.canon ∧ (c = '$' ∨ c = '%' ∨ c = '{' → t = .char c) := by
  cases t with
  | char c =>
    refine ⟨c, rfl, ?_, fun _ => rfl⟩
    obtain ⟨h1, h2, h3, h4⟩ := h
    by_cases htab : c = '\t'
    · subst htab
      rfl
    · simp [tokOf, Tok.canon, h1, h2, h3, h4, htab]
  | newline => exact ⟨'\n', rfl, rfl, by decide⟩
  | tab => exact ⟨'\t', rfl, rfl, by decide⟩
  | quote => exact ⟨'"', rfl, rfl, by decide⟩
  | backslash => exact ⟨'\\', rfl, rfl, by decide⟩
  | rare raw value => exact absurd rfl (hrare raw value)

theorem validString_cons {t : Tok} :
    ValidString (t :: ts) ↔ t.Valid ∧ (∀ t' ∈ ts.head?, ¬ t.Begins t') ∧ ValidString ts := by
  simp only [ValidString, forall_mem_cons, isChain_cons]
  tauto

/-- **A text that was read from tokens without rare escapes is written in the same tokens again.**
-/
theorem tokens_meaning (h : ValidString ts) (hp : Plain ts) :
    tokens (meaning ts) = ts.map Tok.canon := by
  induction ts with
  | nil => rfl
  | cons t ts ih =>
    obtain ⟨ht, hnext, hts⟩ := validString_cons.mp h
    obtain ⟨hrare, -, hpts⟩ := plain_cons.mp hp
    obtain ⟨c, hvalue, htok, hc⟩ := ht.value_eq hrare
    have ih := ih hts hpts
    rw [meaning_cons, hvalue, map_cons, ← htok, ← ih]
    cases ts with
    | nil => rfl
    | cons t' ts =>
      obtain ⟨c', hvalue', -, hc'⟩ :=
        (validString_cons.mp hts).1.value_eq (plain_cons.mp hpts).1
      rw [meaning_cons, hvalue', singleton_append, singleton_append, tokens, if_neg]
      rintro ⟨hdollar, rfl⟩
      refine hnext t' rfl ⟨?_, hc' (by simp)⟩
      rcases hdollar with rfl | rfl
      · exact Or.inl (hc (by simp))
      · exact Or.inr (hc (by simp))

theorem ValidString.canon (h : ValidString ts) :
    ValidString (ts.map Tok.canon) := by
  refine ⟨fun t ht => ?_, (isChain_map _).mpr (h.2.imp fun t t' hne hb => ?_)⟩
  · obtain ⟨t', ht', rfl⟩ := mem_map.mp ht
    exact (h.1 t' ht').canon
  · exact hne ⟨hb.1.imp Tok.canon_eq_char Tok.canon_eq_char, Tok.canon_eq_char hb.2⟩

theorem Plain.canon (h : Plain ts) : Plain (ts.map Tok.canon) := by
  refine ⟨fun t ht raw value heq => ?_, (isChain_map _).mpr (h.2.imp fun t t' hne hc => ?_)⟩
  · obtain ⟨t', ht', rfl⟩ := mem_map.mp ht
    unfold Tok.canon at heq
    split_ifs at heq
    exact h.1 t' ht' raw value heq
  · exact hne ⟨Tok.canon_eq_backslash hc.1, hc.2.imp Tok.canon_eq_char Tok.canon_eq_char⟩

theorem tokens_valid (h : ValidString ts) (hp : Plain ts) :
    ValidString (tokens (meaning ts)) ∧ Plain (tokens (meaning ts)) := by
  rw [tokens_meaning h hp]
  exact ⟨h.canon, hp.canon⟩

/-- **A text that was read from a string is read from its escapes.** -/
theorem unescape_encode (h : ValidString ts) (hp : Plain ts) :
    unescape (encode (meaning ts)) = meaning ts := by
  obtain ⟨hvalid, hplain⟩ := tokens_valid h hp
  rw [encode, (unescape_eq_iff hvalid.1).mpr hplain, meaning_tokens]

theorem unescape_encode_quote :
    unescape (encode (meaning [.char 'a', .quote])) = meaning [.char 'a', .quote] :=
  unescape_encode ⟨by simp [Tok.Valid], by simp [Tok.Begins]⟩ ⟨by simp, by simp [Tok.Confused]⟩

/-- A string without rare escapes has no interpolation in it. -/
theorem not_interpolation (h : ValidString ts)
    (hrare : ∀ t ∈ ts, ∀ raw value, t ≠ .rare raw value) :
    ¬ ['$', '{'] <:+: render ts ++ ['"'] := by
  induction ts with
  | nil => decide
  | cons t ts ih =>
    obtain ⟨ht, hnext, hts⟩ := validString_cons.mp h
    have ih := ih hts fun t' ht' => hrare t' (mem_cons_of_mem _ ht')
    rw [render_cons]
    cases t with
    | rare raw value => exact absurd rfl (hrare _ mem_cons_self raw value)
    | char c =>
      rw [Tok.raw, append_assoc, singleton_append, infix_cons_iff]
      rintro (hpre | hinf)
      · obtain ⟨hc, hpre⟩ := cons_prefix_cons.mp hpre
        cases ts with
        | nil => exact absurd hpre (by decide)
        | cons t' ts =>
          refine hnext t' rfl ⟨Or.inl (by rw [← hc]), ?_⟩
          have hrare' := hrare t' (by simp)
          cases t' with
          | char d => simpa [render_cons, Tok.raw, eq_comm] using hpre
          | rare raw value => exact absurd rfl (hrare' raw value)
          | _ => simp [render_cons, Tok.raw] at hpre
      · exact ih hinf
    | _ => simpa [Tok.raw, infix_cons_iff] using ih

theorem Tok.Valid.length_lt {t : Tok} (h : t.Valid) :
    (∃ c, t = .char c) ∨ t.value.length < t.raw.length := by
  cases t with
  | char c => exact Or.inl ⟨c, rfl⟩
  | rare raw value => exact Or.inr (Rare.length_lt h)
  | _ => exact Or.inr (by decide)

theorem length_meaning_le_render (h : ∀ t ∈ ts, t.Valid) :
    (meaning ts).length ≤ (render ts).length := by
  induction ts with
  | nil => exact le_rfl
  | cons t ts ih =>
    have ih := ih fun t ht => h t (mem_cons_of_mem _ ht)
    rw [meaning_cons, render_cons, length_append, length_append]
    rcases (h t mem_cons_self).length_lt with ⟨c, rfl⟩ | hlt
    · exact Nat.add_le_add_left ih 1
    · omega

theorem quote_notMem_render (h : ∀ t ∈ ts, t.Valid)
    (hlen : (render ts).length ≤ (meaning ts).length) : '"' ∉ render ts := by
  induction ts with
  | nil => exact not_mem_nil
  | cons t ts ih =>
    have hts : ∀ t ∈ ts, t.Valid := fun t ht => h t (mem_cons_of_mem _ ht)
    have hle := length_meaning_le_render hts
    rw [meaning_cons, render_cons, length_append, length_append] at hlen
    rcases (h t mem_cons_self).length_lt with ⟨c, rfl⟩ | hlt
    · have hc := (h _ mem_cons_self).1
      have := ih hts (Nat.le_of_add_le_add_left hlen)
      simpa [render_cons, Tok.raw, this] using hc.symm
    · omega

end Guardian.Iac

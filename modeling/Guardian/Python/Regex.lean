import Guardian.Python.Text

/-!
# Python regular expressions

A backtracking matcher tries the ways to match in a fixed order and takes the first.  `run r k` is
the list of all ways to match `r` at the cursor `k`, in the order in which the matcher tries them:
an alternation tries its left side first, `opt` and `star` are greedy.  `rematch` (`re.match`) is
the head of that list, so which groups are set, and to what, is what the matcher reports.
-/

namespace Guardian.Python

open List
/-- Regular expressions over code points.  A literal character is a class. -/
inductive Regex
  | eps
  | cls (p : Char → Bool)
  | seq (r s : Regex)
  | alt (r s : Regex)
  | opt (r : Regex)
  | star (r : Regex)
  | group (name : String) (r : Regex)
  /-- `$`: the end of the text, or a newline that ends it. -/
  | eol
  /-- `(?!p)` for one character. -/
  | notAhead (p : Char → Bool)
  /-- `(?<!p)` for one character. -/
  | notBehind (p : Char → Bool)

/-- Where a match stands: the text before (reversed), the text to come, the groups set so far. -/
structure Cursor where
  before : Str
  rest : Str
  groups : List (String × Str)

namespace Cursor

def start (s : Str) : Cursor := ⟨[], s, []⟩

/-- `m.group(name)`: the text of a group, if it took part in the match. -/
def group (k : Cursor) (name : String) : Option Str := k.groups.lookup name

/-- The text between two cursors of one match. -/
def between (k k' : Cursor) : Str := k.rest.take (k.rest.length - k'.rest.length)

/-- One character further, with no groups. -/
def skip (k : Cursor) : Cursor := ⟨k.rest.head?.toList ++ k.before, k.rest.tail, []⟩

end Cursor

namespace Regex

/-- `r+`. -/
def plus (r : Regex) : Regex := .seq r (.star r)

/-- `r{0,n}`. -/
def upTo (r : Regex) : ℕ → Regex
  | 0 => .eps
  | n + 1 => .opt (.seq r (upTo r n))

/-- `^`. -/
def bos : Regex := .notBehind fun _ => true

/-- The characters of a word, one class each. -/
def word (cls : Char → Char → Bool) (s : Str) : Regex :=
  s.foldr (fun c r => .seq (.cls (cls c)) r) .eps

/-- The first of several alternatives. -/
def alts : List Regex → Regex
  | [] => .cls fun _ => false
  | [r] => r
  | r :: rs => .alt r (alts rs)

/-- The greedy iterations of a body, at most `n` more; a body that consumes nothing ends them. -/
def starRun (body : Cursor → List Cursor) : ℕ → Cursor → List Cursor
  | 0, k => [k]
  | n + 1, k =>
    ((body k).filter fun k' => decide (k'.rest.length < k.rest.length)).flatMap
      (starRun body n) ++ [k]

/-- **The ways to match `r` at a cursor**, in the order in which they are tried. -/
def run : Regex → Cursor → List Cursor
  | .eps, k => [k]
  | .cls p, k =>
    match k.rest with
    | [] => []
    | c :: cs => if p c then [⟨c :: k.before, cs, k.groups⟩] else []
  | .seq r s, k => (run r k).flatMap (run s)
  | .alt r s, k => run r k ++ run s k
  | .opt r, k => run r k ++ [k]
  | .star r, k => starRun (run r) k.rest.length k
  | .group name r, k =>
    (run r k).map fun k' => { k' with groups := (name, k.between k') :: k'.groups }
  | .eol, k => if k.rest = [] ∨ k.rest = ['\n'] then [k] else []
  | .notAhead p, k => if k.rest.head?.any p then [] else [k]
  | .notBehind p, k => if k.before.head?.any p then [] else [k]

/-- `re.match(r, s)`. -/
def rematch (r : Regex) (s : Str) : Option Cursor := (run r (.start s)).head?

/-- The matches found by scanning from `k`, for at most `n` positions. -/
def findallFrom (r : Regex) : ℕ → Cursor → List Str
  | 0, _ => []
  | n + 1, k =>
    match (run r k).head? with
    | some k' =>
      k.between k' :: findallFrom r n
        (if k'.rest.length < k.rest.length then { k' with groups := [] } else k.skip)
    | none => if k.rest = [] then [] else findallFrom r n k.skip

/-- `re.findall(r, s)` for a pattern without groups. -/
def findall (r : Regex) (s : Str) : List Str := findallFrom r (s.length + 1) (.start s)

/-- A match found by scanning from `k`, for at most `n` positions further. -/
def searchFrom (r : Regex) : ℕ → Cursor → Bool
  | 0, k => !(run r k).isEmpty
  | n + 1, k => !(run r k).isEmpty || searchFrom r n k.skip

/-- `bool(re.search(r, s))`. -/
def search (r : Regex) (s : Str) : Bool := searchFrom r s.length (.start s)

/-! ### Character classes -/

/-- A literal under `re.IGNORECASE`: the two cases of an ASCII letter, and the further letters
Python folds into it. -/
def ignoreCase (c d : Char) : Bool :=
  d == c || d == c.toUpper || (c == 'i' && (d == 'İ' || d == 'ı')) ||
    (c == 'k' && d == '\u212a') || (c == 's' && d == 'ſ')

def exact (c d : Char) : Bool := d == c

/-- `[a-z]`. -/
def lowerAZ (c : Char) : Bool := decide ('a' ≤ c ∧ c ≤ 'z')

/-- `[A-Z]`. -/
def upperAZ (c : Char) : Bool := decide ('A' ≤ c ∧ c ≤ 'Z')

/-- `[0-9]`. -/
def digit09 (c : Char) : Bool := decide ('0' ≤ c ∧ c ≤ '9')

/-- `[a-z]` under `re.IGNORECASE`. -/
def letterAZ (c : Char) : Bool :=
  lowerAZ c || upperAZ c || c == 'İ' || c == 'ı' || c == '\u212a' || c == 'ſ'

/-! ### The language -/

/-- **The words of a pattern**, its assertions left out. -/
inductive Matches : Regex → Str → Prop
  | eps : Matches .eps []
  | cls {p : Char → Bool} {c : Char} (h : p c = true) : Matches (.cls p) [c]
  | seq {r s : Regex} {u v : Str} (hu : Matches r u) (hv : Matches s v) :
      Matches (.seq r s) (u ++ v)
  | altLeft {r s : Regex} {u : Str} (h : Matches r u) : Matches (.alt r s) u
  | altRight {r s : Regex} {u : Str} (h : Matches s u) : Matches (.alt r s) u
  | optNone {r : Regex} : Matches (.opt r) []
  | optSome {r : Regex} {u : Str} (h : Matches r u) : Matches (.opt r) u
  | starNil {r : Regex} : Matches (.star r) []
  | starCons {r : Regex} {u v : Str} (hu : Matches r u) (hv : Matches (.star r) v) :
      Matches (.star r) (u ++ v)
  | group {name : String} {r : Regex} {u : Str} (h : Matches r u) : Matches (.group name r) u
  | eol : Matches .eol []
  | notAhead {p : Char → Bool} : Matches (.notAhead p) []
  | notBehind {p : Char → Bool} : Matches (.notBehind p) []

/-- The body `f` consumes words of the language `P`. -/
def Consumes (f : Cursor → List Cursor) (P : Str → Prop) : Prop :=
  ∀ k, ∀ k' ∈ f k, ∃ w, P w ∧ k.rest = w ++ k'.rest

theorem consumes_starRun {r : Regex} {f : Cursor → List Cursor} (hf : Consumes f (Matches r)) :
    ∀ n, Consumes (starRun f n) (Matches (.star r))
  | 0 => by
    intro k k' hk
    rw [starRun, mem_singleton] at hk
    subst hk
    exact ⟨[], .starNil, rfl⟩
  | n + 1 => by
    intro k k' hk
    rw [starRun, mem_append, mem_flatMap, mem_singleton] at hk
    rcases hk with ⟨k1, h1, hk⟩ | rfl
    · obtain ⟨u, hu, e1⟩ := hf k k1 (mem_filter.mp h1).1
      obtain ⟨v, hv, e2⟩ := consumes_starRun hf n k1 k' hk
      exact ⟨u ++ v, .starCons hu hv, by rw [e1, e2, append_assoc]⟩
    · exact ⟨[], .starNil, rfl⟩

/-- **Every way to match consumes a word of the language.** -/
theorem matches_of_mem_run (r : Regex) : Consumes (run r) (Matches r) := by
  induction r with
  | eps =>
    intro k k' hk
    rw [run, mem_singleton] at hk
    subst hk
    exact ⟨[], .eps, rfl⟩
  | cls p =>
    intro k k' hk
    rw [run] at hk
    split at hk
    · simp at hk
    · next c cs hrest =>
      split_ifs at hk with hp
      · rw [mem_singleton] at hk
        subst hk
        exact ⟨[c], .cls hp, hrest⟩
      · simp at hk
  | seq r s ihr ihs =>
    intro k k' hk
    rw [run, mem_flatMap] at hk
    obtain ⟨k1, h1, hk⟩ := hk
    obtain ⟨u, hu, e1⟩ := ihr k k1 h1
    obtain ⟨v, hv, e2⟩ := ihs k1 k' hk
    exact ⟨u ++ v, .seq hu hv, by rw [e1, e2, append_assoc]⟩
  | alt r s ihr ihs =>
    intro k k' hk
    rw [run, mem_append] at hk
    rcases hk with hk | hk
    · obtain ⟨u, hu, e⟩ := ihr k k' hk
      exact ⟨u, .altLeft hu, e⟩
    · obtain ⟨u, hu, e⟩ := ihs k k' hk
      exact ⟨u, .altRight hu, e⟩
  | opt r ih =>
    intro k k' hk
    rw [run, mem_append, mem_singleton] at hk
    rcases hk with hk | rfl
    · obtain ⟨u, hu, e⟩ := ih k k' hk
      exact ⟨u, .optSome hu, e⟩
    · exact ⟨[], .optNone, rfl⟩
  | star r ih => exact fun k => consumes_starRun ih k.rest.length k
  | group name r ih =>
    intro k k' hk
    rw [run, mem_map] at hk
    obtain ⟨k1, h1, rfl⟩ := hk
    obtain ⟨u, hu, e⟩ := ih k k1 h1
    exact ⟨u, .group hu, e⟩
  | eol =>
    intro k k' hk
    rw [run] at hk
    split_ifs at hk
    · rw [mem_singleton] at hk
      subst hk
      exact ⟨[], .eol, rfl⟩
    · simp at hk
  | notAhead p =>
    intro k k' hk
    rw [run] at hk
    split_ifs at hk
    · simp at hk
    · rw [mem_singleton] at hk
      subst hk
      exact ⟨[], .notAhead, rfl⟩
  | notBehind p =>
    intro k k' hk
    rw [run] at hk
    split_ifs at hk
    · simp at hk
    · rw [mem_singleton] at hk
      subst hk
      exact ⟨[], .notBehind, rfl⟩

theorem matches_between {r : Regex} {k k' : Cursor} (h : k' ∈ run r k) :
    Matches r (k.between k') := by
  obtain ⟨w, hw, e⟩ := matches_of_mem_run r k k' h
  have hbetween : k.between k' = w := by
    unfold Cursor.between
    rw [e, length_append, Nat.add_sub_cancel, take_left]
  rw [hbetween]
  exact hw

theorem matches_of_mem_findallFrom {r : Regex} : ∀ (n : ℕ) (k : Cursor),
    ∀ w ∈ findallFrom r n k, Matches r w
  | 0, _, w, hw => by simp [findallFrom] at hw
  | n + 1, k, w, hw => by
    rw [findallFrom] at hw
    split at hw
    · next k' hk =>
      rcases mem_cons.mp hw with rfl | hw
      · exact matches_between (mem_of_mem_head? hk)
      · exact matches_of_mem_findallFrom n _ w hw
    · split_ifs at hw
      · simp at hw
      · exact matches_of_mem_findallFrom n _ w hw

theorem matches_of_mem_findall {r : Regex} {s w : Str} (h : w ∈ findall r s) : Matches r w :=
  matches_of_mem_findallFrom _ _ w h

/-- The classes of a pattern hold characters with a property only. -/
def OnlyChars (P : Char → Prop) : Regex → Prop
  | .cls p => ∀ c, p c = true → P c
  | .seq r s | .alt r s => OnlyChars P r ∧ OnlyChars P s
  | .opt r | .star r | .group _ r => OnlyChars P r
  | .eps | .eol | .notAhead _ | .notBehind _ => True

theorem onlyChars_upTo {P : Char → Prop} {r : Regex} (h : OnlyChars P r) :
    ∀ n, OnlyChars P (upTo r n)
  | 0 => trivial
  | n + 1 => ⟨h, onlyChars_upTo h n⟩

/-- **The words of a pattern have the characters of its classes.** -/
theorem of_matches_onlyChars {P : Char → Prop} {r : Regex} {w : Str} (h : Matches r w)
    (hr : OnlyChars P r) : ∀ c ∈ w, P c := by
  induction h with
  | cls hp =>
    intro c hc
    rw [mem_singleton.mp hc]
    exact hr _ hp
  | seq _ _ ihu ihv =>
    intro c hc
    rcases mem_append.mp hc with hc | hc
    · exact ihu hr.1 c hc
    · exact ihv hr.2 c hc
  | starCons _ _ ihu ihv =>
    intro c hc
    rcases mem_append.mp hc with hc | hc
    · exact ihu hr c hc
    · exact ihv hr c hc
  | altLeft _ ih => exact ih hr.1
  | altRight _ ih => exact ih hr.2
  | optSome _ ih => exact ih hr
  | group _ ih => exact ih hr
  | _ => simp

theorem of_rematch_eol {r s : Regex} {t : Str}
    (h : (rematch (.seq r (.seq s .eol)) t).isSome = true) :
    ∃ u v nl, Matches r u ∧ Matches s v ∧ t = u ++ v ++ nl ∧ (nl = [] ∨ nl = ['\n']) := by
  obtain ⟨k, hk⟩ := Option.isSome_iff_exists.mp h
  have hmem : k ∈ run (.seq r (.seq s .eol)) (.start t) := mem_of_mem_head? hk
  rw [run, mem_flatMap] at hmem
  obtain ⟨k1, h1, hmem⟩ := hmem
  rw [run, mem_flatMap] at hmem
  obtain ⟨k2, h2, hmem⟩ := hmem
  obtain ⟨u, hu, e1⟩ := matches_of_mem_run r _ k1 h1
  obtain ⟨v, hv, e2⟩ := matches_of_mem_run s k1 k2 h2
  rw [run] at hmem
  split_ifs at hmem with hend
  · refine ⟨u, v, k2.rest, hu, hv, ?_, hend⟩
    rw [append_assoc, ← e2, ← e1]
    rfl
  · simp at hmem

theorem matches_cls_iff {p : Char → Bool} {w : Str} :
    Matches (.cls p) w ↔ ∃ c, p c = true ∧ w = [c] := by
  constructor
  · rintro (_ | @⟨_, c, h⟩)
    exact ⟨c, h, rfl⟩
  · rintro ⟨c, h, rfl⟩
    exact .cls h

theorem all_of_matches_star {p : Char → Bool} {w : Str} (h : Matches (.star (.cls p)) w) :
    ∀ c ∈ w, p c = true := by
  generalize hr : Regex.star (.cls p) = r at h
  induction h with
  | starNil => simp
  | starCons hu hv ihu ihv =>
    cases hr
    obtain ⟨d, hd, rfl⟩ := matches_cls_iff.mp hu
    intro c hc
    rcases mem_append.mp hc with hc | hc
    · rw [mem_singleton] at hc; subst hc; exact hd
    · exact ihv rfl c hc
  | _ => cases hr

theorem of_matches_plus {p : Char → Bool} {w : Str} (h : Matches (plus (.cls p)) w) :
    w ≠ [] ∧ ∀ c ∈ w, p c = true := by
  unfold plus at h
  cases h with
  | seq hu hv =>
    obtain ⟨d, hd, rfl⟩ := matches_cls_iff.mp hu
    refine ⟨by simp, fun c hc => ?_⟩
    rcases mem_append.mp hc with hc | hc
    · rw [mem_singleton] at hc; subst hc; exact hd
    · exact all_of_matches_star hv c hc

/-! ### Words that are taken wherever they stand -/

/-- A cursor goes over a word. -/
structure Moves (k : Cursor) (w : Str) (k' : Cursor) : Prop where
  rest : k.rest = w ++ k'.rest
  before : k'.before = w.reverse ++ k.before
  groups : k'.groups = k.groups

/-- **A pattern takes the words with a property**, wherever they stand, and no other. -/
def Takes (r : Regex) (P : Str → Prop) : Prop := ∀ k k', k' ∈ run r k ↔ ∃ w, P w ∧ Moves k w k'

section Takes
variable {r s : Regex} {P Q : Str → Prop} {p : Char → Bool} {k k' k'' : Cursor} {u v w : Str}

theorem moves_nil : Moves k [] k' ↔ k' = k := by
  constructor
  · rintro ⟨hrest, hbefore, hgroups⟩
    cases k
    cases k'
    simp_all
  · rintro rfl
    exact ⟨rfl, rfl, rfl⟩

theorem moves_append : Moves k (u ++ v) k'' ↔ ∃ k', Moves k u k' ∧ Moves k' v k'' := by
  constructor
  · rintro ⟨hrest, hbefore, hgroups⟩
    refine ⟨⟨u.reverse ++ k.before, v ++ k''.rest, k.groups⟩, ⟨?_, rfl, rfl⟩, rfl, ?_, hgroups⟩
    · rw [hrest, append_assoc]
    · rw [hbefore, reverse_append, append_assoc]
  · rintro ⟨k', h, h'⟩
    refine ⟨?_, ?_, h'.groups.trans h.groups⟩
    · rw [h.rest, h'.rest, append_assoc]
    · rw [h'.before, h.before, reverse_append, append_assoc]

theorem Moves.length_lt (h : Moves k w k') (hw : w ≠ []) : k'.rest.length < k.rest.length := by
  rw [h.rest, length_append]
  have := length_pos_iff.mpr hw
  omega

theorem Takes.congr (h : Takes r P) (hPQ : ∀ w, P w ↔ Q w) : Takes r Q := by
  intro k k'
  rw [h k k']
  exact exists_congr fun w => and_congr_left fun _ => hPQ w

theorem takes_cls : Takes (.cls p) fun w => ∃ c, p c = true ∧ w = [c] := by
  intro k k'
  rw [run]
  rcases hrest : k.rest with _ | ⟨c, cs⟩
  · constructor
    · intro h
      cases h
    · rintro ⟨w, ⟨c, -, rfl⟩, hmoves⟩
      rw [hmoves.rest] at hrest
      cases hrest
  · constructor
    · intro h
      simp only at h
      split_ifs at h with hc
      · rw [mem_singleton.mp h]
        exact ⟨[c], ⟨c, hc, rfl⟩, hrest, rfl, rfl⟩
      · cases h
    · rintro ⟨w, ⟨d, hd, rfl⟩, hmoves⟩
      obtain ⟨rfl, rfl⟩ := List.cons.inj (hmoves.rest.symm.trans hrest)
      simp only
      rw [if_pos hd, mem_singleton]
      obtain ⟨-, hbefore, hgroups⟩ := hmoves
      cases k'
      simp_all

theorem takes_seq (hr : Takes r P) (hs : Takes s Q) :
    Takes (.seq r s) fun w => ∃ u v, P u ∧ Q v ∧ w = u ++ v := by
  intro k k''
  rw [run, mem_flatMap]
  constructor
  · rintro ⟨k', hk', hk''⟩
    obtain ⟨u, hu, hmoves⟩ := (hr k k').mp hk'
    obtain ⟨v, hv, hmoves'⟩ := (hs k' k'').mp hk''
    exact ⟨u ++ v, ⟨u, v, hu, hv, rfl⟩, moves_append.mpr ⟨k', hmoves, hmoves'⟩⟩
  · rintro ⟨w, ⟨u, v, hu, hv, rfl⟩, hmoves⟩
    obtain ⟨k', hmoves, hmoves'⟩ := moves_append.mp hmoves
    exact ⟨k', (hr k k').mpr ⟨u, hu, hmoves⟩, (hs k' k'').mpr ⟨v, hv, hmoves'⟩⟩

theorem takes_opt (hr : Takes r P) : Takes (.opt r) fun w => P w ∨ w = [] := by
  intro k k'
  rw [run, mem_append, mem_singleton, hr k k']
  constructor
  · rintro (⟨w, hw, hmoves⟩ | rfl)
    · exact ⟨w, Or.inl hw, hmoves⟩
    · exact ⟨[], Or.inr rfl, moves_nil.mpr rfl⟩
  · rintro ⟨w, hw | rfl, hmoves⟩
    · exact Or.inl ⟨w, hw, hmoves⟩
    · exact Or.inr (moves_nil.mp hmoves)

/-- At most so many characters of a class. -/
theorem takes_upTo_cls (n : ℕ) :
    Takes (upTo (.cls p) n) fun w => w.length ≤ n ∧ ∀ c ∈ w, p c = true := by
  induction n with
  | zero =>
    intro k k'
    rw [upTo, run, mem_singleton]
    constructor
    · rintro rfl
      exact ⟨[], by simp, moves_nil.mpr rfl⟩
    · rintro ⟨w, ⟨hw, -⟩, hmoves⟩
      obtain rfl := length_eq_zero_iff.mp (Nat.le_zero.mp hw)
      exact moves_nil.mp hmoves
  | succ n ih =>
    refine (takes_opt (takes_seq takes_cls ih)).congr fun w => ?_
    constructor
    · rintro (⟨-, v, ⟨c, hc, rfl⟩, ⟨hv, hall⟩, rfl⟩ | rfl)
      · refine ⟨by simpa using hv, fun d hd => ?_⟩
        rcases mem_cons.mp hd with rfl | hd
        · exact hc
        · exact hall d hd
      · simp
    · rintro ⟨hw, hall⟩
      rcases w with _ | ⟨c, w⟩
      · exact Or.inr rfl
      · exact Or.inl ⟨[c], w, ⟨c, hall c mem_cons_self, rfl⟩,
          ⟨by simpa using hw, fun d hd => hall d (mem_cons_of_mem c hd)⟩, rfl⟩

/-- Words one after the other. -/
theorem takes_star (hr : Takes r P) (hne : ∀ w, P w → w ≠ []) :
    Takes (.star r) fun w => ∃ ws : List Str, (∀ v ∈ ws, P v) ∧ w = ws.flatten := by
  have hfrom : ∀ (n : ℕ) (k k' : Cursor), k.rest.length ≤ n → (k' ∈ starRun (run r) n k ↔
      ∃ w, (∃ ws : List Str, (∀ v ∈ ws, P v) ∧ w = ws.flatten) ∧ Moves k w k') := by
    intro n
    induction n with
    | zero =>
      intro k k' hn
      rw [starRun, mem_singleton]
      constructor
      · rintro rfl
        exact ⟨[], ⟨[], by simp, rfl⟩, moves_nil.mpr rfl⟩
      · rintro ⟨w, -, hmoves⟩
        have hnil : w ++ k'.rest = [] := by
          rw [← hmoves.rest]
          exact length_eq_zero_iff.mp (Nat.le_zero.mp hn)
        rw [(append_eq_nil_iff.mp hnil).1] at hmoves
        exact moves_nil.mp hmoves
    | succ n ih =>
      intro k k'' hn
      rw [starRun, mem_append, mem_flatMap, mem_singleton]
      constructor
      · rintro (⟨k', hk', hk''⟩ | rfl)
        · obtain ⟨hmem, hlt⟩ := mem_filter.mp hk'
          obtain ⟨u, hu, hmoves⟩ := (hr k k').mp hmem
          have hle : k'.rest.length ≤ n := by
            have := of_decide_eq_true hlt
            omega
          obtain ⟨-, ⟨ws, hws, rfl⟩, hmoves'⟩ := (ih k' k'' hle).mp hk''
          refine ⟨(u :: ws).flatten, ⟨u :: ws, ?_, rfl⟩, ?_⟩
          · intro v hv
            rcases mem_cons.mp hv with rfl | hv
            · exact hu
            · exact hws v hv
          · exact moves_append.mpr ⟨k', hmoves, hmoves'⟩
        · exact ⟨[], ⟨[], by simp, rfl⟩, moves_nil.mpr rfl⟩
      · rintro ⟨-, ⟨ws, hws, rfl⟩, hmoves⟩
        rcases ws with _ | ⟨u, ws⟩
        · exact Or.inr (moves_nil.mp hmoves)
        have hu := hws u mem_cons_self
        obtain ⟨k', hmoves, hmoves'⟩ := moves_append.mp hmoves
        have hlt := hmoves.length_lt (hne u hu)
        refine Or.inl ⟨k', mem_filter.mpr ⟨(hr k k').mpr ⟨u, hu, hmoves⟩, ?_⟩, ?_⟩
        · exact decide_eq_true hlt
        · exact (ih k' k'' (by omega)).mpr
            ⟨_, ⟨ws, fun v hv => hws v (mem_cons_of_mem u hv), rfl⟩, hmoves'⟩
  exact fun k k' => hfrom k.rest.length k k' le_rfl

/-- **A match of a pattern that ends with `$`**: a word of the pattern, and a newline at the end of
the text or none. -/
theorem rematch_eol_iff (hr : Takes r P) {t : Str} :
    (∃ k' ∈ run r (.start t), k'.rest = [] ∨ k'.rest = ['\n']) ↔
      ∃ w, P w ∧ (t = w ∨ t = w ++ ['\n']) := by
  constructor
  · rintro ⟨k', hk', hend⟩
    obtain ⟨w, hw, hmoves⟩ := (hr _ _).mp hk'
    have ht : t = w ++ k'.rest := hmoves.rest
    rcases hend with hend | hend
    · rw [hend, append_nil] at ht
      exact ⟨w, hw, Or.inl ht⟩
    · exact ⟨w, hw, Or.inr (hend ▸ ht)⟩
  · rintro ⟨w, hw, ht⟩
    have hmatch : ∀ rest, t = w ++ rest → ⟨w.reverse ++ [], rest, []⟩ ∈ run r (.start t) :=
      fun rest hrest => (hr _ _).mpr ⟨w, hw, hrest, rfl, rfl⟩
    rcases ht with rfl | rfl
    · exact ⟨_, hmatch [] (append_nil _).symm, Or.inl rfl⟩
    · exact ⟨_, hmatch _ rfl, Or.inr rfl⟩

end Takes

end Regex

end Guardian.Python

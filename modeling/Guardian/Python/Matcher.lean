import Guardian.Python.Regex

/-!
# Matchers

Patterns as functions from a cursor to the ways to match there, in the order in which they are
tried, for what the patterns of `Regex` lack: bounded and lazy repetition, word boundaries, and
tests of the text around the cursor.
-/

namespace Guardian.Python

open List
/-- The ways to match at a cursor, in the order in which they are tried. -/
abbrev Matcher : Type := Cursor → List Cursor

namespace Matcher

/-- A character of a class. -/
def chr (p : Char → Bool) : Matcher := fun k =>
  match k.rest with
  | [] => []
  | c :: cs => if p c then [⟨c :: k.before, cs, k.groups⟩] else []

def eps : Matcher := fun k => [k]

def seq (m n : Matcher) : Matcher := fun k => (m k).flatMap n

def alt (m n : Matcher) : Matcher := fun k => m k ++ n k

/-- `m?`. -/
def opt (m : Matcher) : Matcher := fun k => m k ++ [k]

/-- `m*`. -/
def star (m : Matcher) : Matcher := fun k => Regex.starRun m k.rest.length k

/-- The lazy iterations of a body, at most `n` more. -/
def lazyRun (body : Matcher) : ℕ → Matcher
  | 0, k => [k]
  | n + 1, k =>
    k :: ((body k).filter fun k' => decide (k'.rest.length < k.rest.length)).flatMap
      (lazyRun body n)

/-- `m*?`. -/
def lazyStar (m : Matcher) : Matcher := fun k => lazyRun m k.rest.length k

/-- `m{n}`. -/
def times (m : Matcher) : ℕ → Matcher
  | 0 => eps
  | n + 1 => seq m (times m n)

/-- `m{0,n}`. -/
def upTo (m : Matcher) : ℕ → Matcher
  | 0 => eps
  | n + 1 => opt (seq m (upTo m n))

/-- `m{lo,hi}`. -/
def between (lo hi : ℕ) (m : Matcher) : Matcher := seq (times m lo) (upTo m (hi - lo))

/-- `m{lo,}`. -/
def atLeast (lo : ℕ) (m : Matcher) : Matcher := seq (times m lo) (star m)

/-- `(?P<name>m)`. -/
def group (name : String) (m : Matcher) : Matcher := fun k =>
  (m k).map fun k' => { k' with groups := (name, k.between k') :: k'.groups }

/-- A test of the text around the cursor. -/
def assert (test : Cursor → Bool) : Matcher := fun k => if test k then [k] else []

/-- The first of several alternatives. -/
def alts : List Matcher → Matcher
  | [] => fun _ => []
  | m :: ms => alt m (alts ms)

/-- The parts of a pattern. -/
def seqs : List Matcher → Matcher
  | [] => eps
  | m :: ms => seq m (seqs ms)

/-- The characters of a word, each of its class. -/
def word (cls : Char → Char → Bool) (s : String) : Matcher :=
  seqs (s.toList.map fun c => chr (cls c))

def lit (s : String) : Matcher := word Regex.exact s

/-- A literal without regard to case. -/
def litAnyCase (s : String) : Matcher := word Regex.ignoreCase s

/-- A character of a class given by its members. -/
def oneOf (members : String) : Matcher := chr fun c => decide (c ∈ members.toList)

/-- `(?!m)`. -/
def notFollowedBy (m : Matcher) : Matcher := assert fun k => (m k).isEmpty

section Classes
variable (R : Runtime)

/-- `\w`. -/
def isWord (c : Char) : Bool := R.isAlnum c || c == '_'

/-- `\b`. -/
def wordBoundary : Matcher :=
  assert fun k => k.before.head?.any (isWord R) != k.rest.head?.any (isWord R)

theorem isWord_ascii {c : Char} (h : IsAscii c) :
    isWord R c = (c.isAlphanum || c == '_') := by
  simp only [isWord, Runtime.isAlnum, R.isAlpha_ascii _ h, R.isDecimal_ascii _ h,
    R.isDigit_ascii _ h, R.isNumeric_ascii _ h, Char.isAlphanum, Bool.or_assoc, Bool.or_self]

end Classes

/-! ### Searching -/

/-- A match found by scanning from a cursor, for at most `n` positions further. -/
def searchFrom (m : Matcher) : ℕ → Cursor → Bool
  | 0, k => !(m k).isEmpty
  | n + 1, k => !(m k).isEmpty || searchFrom m n k.skip

/-- `bool(pattern.search(s))`. -/
def search (m : Matcher) (s : Str) : Bool := searchFrom m s.length (.start s)

/-- The text from a cursor on, with what is found in at most `n` steps replaced.  No pattern here
matches the empty text. -/
def subFrom (m : Matcher) (repl : Cursor → Cursor → Str) : ℕ → Cursor → Str
  | 0, k => k.rest
  | n + 1, k =>
    match (m k).head? with
    | some k' => repl k k' ++ subFrom m repl n { k' with groups := [] }
    | none =>
      match k.rest with
      | [] => []
      | c :: _ => c :: subFrom m repl n k.skip

/-- `pattern.sub(repl, s)`. -/
def sub (m : Matcher) (repl : Cursor → Cursor → Str) (s : Str) : Str :=
  subFrom m repl (s.length + 1) (.start s)

/-- **A text in which nothing is found stays as it is.** -/
theorem sub_eq_self {m : Matcher} {s : Str} (repl : Cursor → Cursor → Str)
    (h : search m s = false) : sub m repl s = s := by
  have hfrom : ∀ (n : ℕ) (k : Cursor), k.rest.length ≤ n → searchFrom m n k = false →
      subFrom m repl (n + 1) k = k.rest := by
    intro n
    induction n with
    | zero =>
      intro k hk hnot
      have hrest : k.rest = [] := length_eq_zero_iff.mp (Nat.le_zero.mp hk)
      have hnone : m k = [] := by simpa [searchFrom] using hnot
      simp [subFrom, hnone, hrest]
    | succ n ih =>
      intro k hk hnot
      rw [searchFrom, Bool.or_eq_false_iff] at hnot
      have hnone : m k = [] := by simpa using hnot.1
      rcases hrest : k.rest with _ | ⟨c, cs⟩
      · simp [subFrom, hnone, hrest]
      · have hskip : k.skip.rest = cs := by simp [Cursor.skip, hrest]
        have hlength : k.skip.rest.length ≤ n := by
          rw [hskip]
          simpa [hrest] using hk
        have htail := ih k.skip hlength hnot.2
        rw [subFrom, hnone]
        simp only [head?_nil, hrest]
        rw [htail, hskip]
  exact hfrom s.length (.start s) le_rfl h

theorem search_of_start {m : Matcher} {s : Str} (h : (m (.start s)).isEmpty = false) :
    search m s = true := by
  rw [search]
  cases s.length with
  | zero => simp only [searchFrom, h, Bool.not_false]
  | succ n => simp only [searchFrom, h, Bool.not_false, Bool.true_or]

/-! ### What is needed -/

/-- What comes after a match was to come before it. -/
def Suffixes (m : Matcher) : Prop := ∀ k, ∀ k' ∈ m k, k'.rest <:+ k.rest

/-- A match takes a character with a property. -/
def Needs (P : Char → Prop) (m : Matcher) : Prop := ∀ k, ∀ k' ∈ m k, ∃ c ∈ k.rest, P c

section Needs
variable {P : Char → Prop} {m n : Matcher}

@[simp] theorem suffixes_chr (p : Char → Bool) : Suffixes (chr p) := by
  intro k k' hk
  unfold chr at hk
  split at hk
  · cases hk
  · rename_i c cs hrest
    split at hk
    · rw [mem_singleton.mp hk, hrest]
      exact suffix_cons c cs
    · cases hk

@[simp] theorem suffixes_eps : Suffixes eps := by
  intro k k' hk
  rw [mem_singleton.mp hk]

@[simp] theorem suffixes_seq (hm : Suffixes m) (hn : Suffixes n) : Suffixes (seq m n) := by
  intro k k' hk
  obtain ⟨k₁, hk₁, hk'⟩ := mem_flatMap.mp hk
  exact (hn k₁ k' hk').trans (hm k k₁ hk₁)

@[simp] theorem suffixes_alt (hm : Suffixes m) (hn : Suffixes n) : Suffixes (alt m n) := by
  intro k k' hk
  rcases mem_append.mp hk with hk | hk
  · exact hm k k' hk
  · exact hn k k' hk

@[simp] theorem suffixes_opt (hm : Suffixes m) : Suffixes (opt m) := suffixes_alt hm suffixes_eps

@[simp] theorem suffixes_star (hm : Suffixes m) : Suffixes (star m) := by
  have hrun : ∀ n, Suffixes (Regex.starRun m n) := by
    intro n
    induction n with
    | zero => exact suffixes_eps
    | succ n ih =>
      intro k k' hk
      rw [Regex.starRun] at hk
      rcases mem_append.mp hk with hk | hk
      · obtain ⟨k₁, hk₁, hk'⟩ := mem_flatMap.mp hk
        exact (ih k₁ k' hk').trans (hm k k₁ (mem_filter.mp hk₁).1)
      · rw [mem_singleton.mp hk]
  exact fun k => hrun k.rest.length k

theorem suffixes_seqs {ms : List Matcher} (h : ∀ m ∈ ms, Suffixes m) : Suffixes (seqs ms) := by
  induction ms with
  | nil => exact suffixes_eps
  | cons m ms ih =>
    exact suffixes_seq (h m mem_cons_self) (ih fun n hn => h n (mem_cons_of_mem _ hn))

@[simp] theorem suffixes_word (cls : Char → Char → Bool) (s : String) :
    Suffixes (word cls s) := by
  refine suffixes_seqs fun m hm => ?_
  obtain ⟨c, -, rfl⟩ := mem_map.mp hm
  exact suffixes_chr _

@[simp] theorem suffixes_lit (s : String) : Suffixes (lit s) := suffixes_word _ s

@[simp] theorem suffixes_litAnyCase (s : String) : Suffixes (litAnyCase s) := suffixes_word _ s

@[simp] theorem suffixes_oneOf (members : String) : Suffixes (oneOf members) := suffixes_chr _

theorem needs_chr {p : Char → Bool} (h : ∀ c, p c = true → P c) : Needs P (chr p) := by
  intro k k' hk
  unfold chr at hk
  split at hk
  · cases hk
  · rename_i c cs hrest
    split at hk
    · rename_i hp
      exact ⟨c, hrest ▸ mem_cons_self, h c hp⟩
    · cases hk

theorem needs_seq_left (h : Needs P m) : Needs P (seq m n) := by
  intro k k' hk
  obtain ⟨k₁, hk₁, -⟩ := mem_flatMap.mp hk
  exact h k k₁ hk₁

theorem needs_seq_right (hm : Suffixes m) (h : Needs P n) : Needs P (seq m n) := by
  intro k k' hk
  obtain ⟨k₁, hk₁, hk'⟩ := mem_flatMap.mp hk
  obtain ⟨c, hc, hP⟩ := h k₁ k' hk'
  exact ⟨c, (hm k k₁ hk₁).subset hc, hP⟩

theorem needs_alts {ms : List Matcher} (h : ∀ m ∈ ms, Needs P m) : Needs P (alts ms) := by
  induction ms with
  | nil => exact fun k k' hk => nomatch hk
  | cons m ms ih =>
    intro k k' hk
    rcases mem_append.mp hk with hk | hk
    · exact h m mem_cons_self k k' hk
    · exact ih (fun n hn => h n (mem_cons_of_mem _ hn)) k k' hk

theorem needs_seqs {ms : List Matcher} {i : ℕ} (hi : i < ms.length)
    (hbefore : ∀ m ∈ ms.take i, Suffixes m) (h : Needs P ms[i]) : Needs P (seqs ms) := by
  induction ms generalizing i with
  | nil => exact absurd hi (Nat.not_lt_zero i)
  | cons m ms ih =>
    rcases i with _ | i
    · exact needs_seq_left h
    · refine needs_seq_right (hbefore m (by simp)) (ih (Nat.lt_of_succ_lt_succ hi) ?_ h)
      exact fun n hn => hbefore n (by simp [hn])

/-- **A matcher that needs a character** finds nothing in a text without it. -/
theorem search_eq_false {s : Str} (h : Needs P m) (hs : ∀ c ∈ s, ¬ P c) : search m s = false := by
  have hfrom : ∀ (n : ℕ) (k : Cursor), (∀ c ∈ k.rest, ¬ P c) → searchFrom m n k = false := by
    intro n
    have hempty : ∀ k : Cursor, (∀ c ∈ k.rest, ¬ P c) → m k = [] := by
      intro k hk
      refine eq_nil_iff_forall_not_mem.mpr fun k' hk' => ?_
      obtain ⟨c, hc, hP⟩ := h k k' hk'
      exact hk c hc hP
    induction n with
    | zero =>
      intro k hk
      simp [searchFrom, hempty k hk]
    | succ n ih =>
      intro k hk
      have hskip : ∀ c ∈ k.skip.rest, ¬ P c := fun c hc => hk c (mem_of_mem_tail hc)
      simp [searchFrom, hempty k hk, ih k.skip hskip]
  exact hfrom s.length (.start s) hs

end Needs

/-! ### A text inside a longer one -/

/-- **A cursor of a text, and of a longer text at the same place**; what comes before the text is
reversed. -/
structure Inside (pre post : Str) (k l : Cursor) : Prop where
  before_eq : l.before = k.before ++ pre
  rest_eq : l.rest = k.rest ++ post

/-- **A match is there in the longer text as well.** -/
def Persists (pre post : Str) (m : Matcher) : Prop :=
  ∀ k l, Inside pre post k l → ∀ k' ∈ m k, ∃ l' ∈ m l, Inside pre post k' l'

section Persists
variable {pre post : Str} {m n : Matcher}

theorem persists_chr (p : Char → Bool) : Persists pre post (chr p) := by
  rintro k l ⟨hbefore, hrest⟩ k' hk
  unfold chr at hk ⊢
  rcases hcase : k.rest with _ | ⟨c, cs⟩
  · rw [hcase] at hk
    cases hk
  · rw [hcase] at hk hrest
    rw [hrest, cons_append]
    dsimp only at hk ⊢
    split_ifs at hk ⊢
    · rw [mem_singleton.mp hk]
      exact ⟨_, mem_singleton_self _, by rw [hbefore, cons_append], rfl⟩
    · cases hk

theorem persists_eps : Persists pre post eps := by
  intro k l h k' hk
  rw [mem_singleton.mp hk]
  exact ⟨l, mem_singleton_self l, h⟩

theorem persists_seq (hm : Persists pre post m) (hn : Persists pre post n) :
    Persists pre post (seq m n) := by
  intro k l h k' hk
  obtain ⟨k₁, hk₁, hk'⟩ := mem_flatMap.mp hk
  obtain ⟨l₁, hl₁, h₁⟩ := hm k l h k₁ hk₁
  obtain ⟨l', hl', h'⟩ := hn k₁ l₁ h₁ k' hk'
  exact ⟨l', mem_flatMap.mpr ⟨l₁, hl₁, hl'⟩, h'⟩

theorem persists_alt (hm : Persists pre post m) (hn : Persists pre post n) :
    Persists pre post (alt m n) := by
  intro k l h k' hk
  rcases mem_append.mp hk with hk | hk
  · obtain ⟨l', hl', h'⟩ := hm k l h k' hk
    exact ⟨l', mem_append_left _ hl', h'⟩
  · obtain ⟨l', hl', h'⟩ := hn k l h k' hk
    exact ⟨l', mem_append_right _ hl', h'⟩

theorem persists_opt (hm : Persists pre post m) : Persists pre post (opt m) :=
  persists_alt hm persists_eps

theorem mem_starRun_self (m : Matcher) (j : ℕ) (k : Cursor) : k ∈ Regex.starRun m j k := by
  cases j with
  | zero => exact mem_singleton_self k
  | succ j => exact mem_append_right _ (mem_singleton_self k)

theorem persists_star (hm : Persists pre post m) : Persists pre post (star m) := by
  have hrun : ∀ i j, i ≤ j → ∀ k l, Inside pre post k l → ∀ k' ∈ Regex.starRun m i k,
      ∃ l' ∈ Regex.starRun m j l, Inside pre post k' l' := by
    intro i
    induction i with
    | zero =>
      intro j _ k l h k' hk
      rw [mem_singleton.mp hk]
      exact ⟨l, mem_starRun_self m j l, h⟩
    | succ i ih =>
      intro j hij k l h k' hk
      obtain ⟨j, rfl⟩ := Nat.exists_eq_succ_of_ne_zero (Nat.ne_zero_of_lt hij)
      rw [Regex.starRun] at hk
      rcases mem_append.mp hk with hk | hk
      · obtain ⟨k₁, hk₁, hk'⟩ := mem_flatMap.mp hk
        obtain ⟨hmem, hshort⟩ := mem_filter.mp hk₁
        obtain ⟨l₁, hl₁, h₁⟩ := hm k l h k₁ hmem
        obtain ⟨l', hl', h'⟩ := ih j (Nat.le_of_succ_le_succ hij) k₁ l₁ h₁ k' hk'
        have hshort' : l₁.rest.length < l.rest.length := by
          rw [h₁.rest_eq, h.rest_eq, length_append, length_append]
          exact Nat.add_lt_add_right (by simpa using hshort) _
        refine ⟨l', mem_append_left _ (mem_flatMap.mpr ⟨l₁, ?_, hl'⟩), h'⟩
        exact mem_filter.mpr ⟨hl₁, by simpa using hshort'⟩
      · rw [mem_singleton.mp hk]
        exact ⟨l, mem_starRun_self m _ l, h⟩
  intro k l h
  refine hrun _ _ ?_ k l h
  rw [h.rest_eq, length_append]
  exact Nat.le_add_right _ _

theorem persists_times (hm : Persists pre post m) (i : ℕ) :
    Persists pre post (times m i) := by
  induction i with
  | zero => exact persists_eps
  | succ i ih => exact persists_seq hm ih

theorem persists_atLeast (hm : Persists pre post m) (lo : ℕ) :
    Persists pre post (atLeast lo m) :=
  persists_seq (persists_times hm lo) (persists_star hm)

theorem persists_seqs_nil : Persists pre post (seqs []) := persists_eps

theorem persists_seqs_cons {ms : List Matcher} (hm : Persists pre post m)
    (hms : Persists pre post (seqs ms)) : Persists pre post (seqs (m :: ms)) :=
  persists_seq hm hms

theorem persists_alts_nil : Persists pre post (alts []) := fun _ _ _ _ hk => nomatch hk

theorem persists_alts_cons {ms : List Matcher} (hm : Persists pre post m)
    (hms : Persists pre post (alts ms)) : Persists pre post (alts (m :: ms)) :=
  persists_alt hm hms

theorem persists_word (cls : Char → Char → Bool) (s : String) :
    Persists pre post (word cls s) := by
  unfold word
  induction s.toList with
  | nil => exact persists_seqs_nil
  | cons c cs ih => exact persists_seqs_cons (persists_chr _) ih

theorem persists_lit (s : String) : Persists pre post (lit s) := persists_word _ s

theorem persists_litAnyCase (s : String) : Persists pre post (litAnyCase s) :=
  persists_word _ s

theorem persists_oneOf (members : String) : Persists pre post (oneOf members) :=
  persists_chr _

theorem persists_assert {test : Cursor → Bool}
    (h : ∀ k l, Inside pre post k l → test k = true → test l = true) :
    Persists pre post (assert test) := by
  intro k l hkl k' hk
  unfold assert at hk ⊢
  split_ifs at hk with htest
  · rw [mem_singleton.mp hk, if_pos (h k l hkl htest)]
    exact ⟨l, mem_singleton_self l, hkl⟩
  · cases hk

theorem persists_wordBoundary {R : Runtime} (hpre : pre.head?.any (isWord R) = false)
    (hpost : post.head?.any (isWord R) = false) : Persists pre post (wordBoundary R) := by
  have hside : ∀ (s t : Str), t.head?.any (isWord R) = false →
      (s ++ t).head?.any (isWord R) = s.head?.any (isWord R) := by
    intro s t ht
    cases s with
    | nil => simpa using ht
    | cons c s => rfl
  refine persists_assert fun k l hkl htest => ?_
  rw [hkl.before_eq, hkl.rest_eq, hside _ _ hpre, hside _ _ hpost]
  exact htest

theorem searchFrom_iff (m : Matcher) (n : ℕ) (before rest : Str) (hn : rest.length ≤ n) :
    searchFrom m n ⟨before, rest, []⟩ = true ↔
      ∃ w y, rest = w ++ y ∧ m ⟨w.reverse ++ before, y, []⟩ ≠ [] := by
  induction n generalizing before rest with
  | zero =>
    have hrest : rest = [] := length_eq_zero_iff.mp (Nat.le_zero.mp hn)
    subst hrest
    rw [searchFrom]
    constructor
    · intro h
      exact ⟨[], [], rfl, by simpa using h⟩
    · rintro ⟨w, y, hsplit, h⟩
      obtain ⟨rfl, rfl⟩ := append_eq_nil_iff.mp hsplit.symm
      simpa using h
  | succ n ih =>
    rw [searchFrom, Bool.or_eq_true]
    rcases rest with _ | ⟨c, cs⟩
    · have hskip : Cursor.skip ⟨before, [], []⟩ = ⟨before, [], []⟩ := rfl
      rw [hskip, ih before [] (Nat.zero_le n)]
      constructor
      · rintro (h | h)
        · exact ⟨[], [], rfl, by simpa using h⟩
        · exact h
      · exact Or.inr
    · have hskip : Cursor.skip ⟨before, c :: cs, []⟩ = ⟨c :: before, cs, []⟩ := rfl
      rw [hskip, ih (c :: before) cs (Nat.le_of_succ_le_succ hn)]
      constructor
      · rintro (h | ⟨w, y, rfl, h⟩)
        · exact ⟨[], c :: cs, rfl, by simpa using h⟩
        · exact ⟨c :: w, y, rfl, by simpa using h⟩
      · rintro ⟨w, y, hsplit, h⟩
        rcases w with _ | ⟨d, w⟩
        · left
          rw [nil_append] at hsplit
          subst hsplit
          simpa using h
        · obtain ⟨rfl, rfl⟩ := cons_eq_cons.mp hsplit
          exact Or.inr ⟨w, y, rfl, by simpa using h⟩

theorem search_iff (m : Matcher) (s : Str) :
    search m s = true ↔ ∃ w y, s = w ++ y ∧ m ⟨w.reverse, y, []⟩ ≠ [] := by
  rw [search, Cursor.start, searchFrom_iff m _ [] s le_rfl]
  simp only [append_nil]

/-- **What is found in a text** is found in a longer one. -/
theorem search_of_persists {s : Str} (hm : Persists pre.reverse post m) (h : search m s = true) :
    search m (pre ++ s ++ post) = true := by
  obtain ⟨w, y, rfl, hne⟩ := (search_iff m s).mp h
  obtain ⟨k', hk'⟩ := exists_mem_of_ne_nil _ hne
  obtain ⟨l', hl', -⟩ := hm ⟨w.reverse, y, []⟩ ⟨w.reverse ++ pre.reverse, y ++ post, []⟩
    ⟨rfl, rfl⟩ k' hk'
  refine (search_iff m _).mpr ⟨pre ++ w, y ++ post, by simp, ?_⟩
  rw [reverse_append]
  exact ne_nil_of_mem hl'

end Persists

end Matcher

end Guardian.Python

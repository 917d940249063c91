import Guardian.Python.Text
import Mathlib.Algebra.GroupWithZero.Nat

/-!
# Lines of a string

`splitlines` ends a line at each of ten characters, and at a carriage return with a line feed.
-/

namespace Guardian.Python

open List
/-- The characters at which `splitlines` ends a line. -/
def isLineBreak (c : Char) : Bool := c.toNat ∈ [10, 11, 12, 13, 28, 29, 30, 133, 8232, 8233]

/-- `splitlines`, with the line so far, reversed. -/
def splitlinesFrom (line : Str) : Str → List Str
  | [] => if line = [] then [] else [line.reverse]
  | '\r' :: '\n' :: cs => line.reverse :: splitlinesFrom [] cs
  | c :: cs =>
    if isLineBreak c then line.reverse :: splitlinesFrom [] cs else splitlinesFrom (c :: line) cs

/-- `text.splitlines()`. -/
def splitlines (text : Str) : List Str := splitlinesFrom [] text

/-- What follows a line that ends in a character: the line feed after a carriage return belongs to
it. -/
def afterBreak (c : Char) (cs : Str) : Str :=
  if c = '\r' ∧ cs.head? = some '\n' then cs.tail else cs

/-- **One character.** -/
theorem splitlinesFrom_cons (line : Str) (c : Char) (cs : Str) : splitlinesFrom line (c :: cs) =
    if isLineBreak c then line.reverse :: splitlinesFrom [] (afterBreak c cs)
    else splitlinesFrom (c :: line) cs := by
  unfold afterBreak
  by_cases h : c = '\r' ∧ cs.head? = some '\n'
  · obtain ⟨rfl, hcs⟩ := h
    obtain ⟨cs, rfl⟩ := head?_eq_some_iff.mp hcs
    rfl
  · rw [if_neg h, splitlinesFrom]
    rintro cs rfl rfl
    exact h ⟨rfl, rfl⟩

theorem length_afterBreak_le (c : Char) (cs : Str) : (afterBreak c cs).length ≤ cs.length := by
  unfold afterBreak
  split_ifs
  · rw [length_tail]
    omega
  · exact le_rfl

/-- The characters of a line are those of the text. -/
theorem mem_of_mem_splitlinesFrom {c : Char} (s : Str) : ∀ {line l : Str},
    l ∈ splitlinesFrom line s → c ∈ l → c ∈ line ∨ c ∈ s := by
  induction hn : s.length using Nat.strong_induction_on generalizing s with
  | _ n ih =>
    subst hn
    intro line l hl hc
    rcases s with _ | ⟨d, cs⟩
    · unfold splitlinesFrom at hl
      split_ifs at hl with hline
      · cases hl
      · rw [mem_singleton.mp hl, mem_reverse] at hc
        exact Or.inl hc
    rw [splitlinesFrom_cons] at hl
    have hlength := length_afterBreak_le d cs
    split_ifs at hl
    · rcases mem_cons.mp hl with rfl | hl
      · exact Or.inl (mem_reverse.mp hc)
      · have hrest := (ih (afterBreak d cs).length (by rw [length_cons]; omega) _ rfl hl
          hc).resolve_left (by simp)
        refine Or.inr (mem_cons_of_mem d ?_)
        unfold afterBreak at hrest
        split_ifs at hrest
        · exact mem_of_mem_tail hrest
        · exact hrest
    · rcases ih cs.length (by simp) cs rfl hl hc with hmem | hmem
      · rcases mem_cons.mp hmem with rfl | hmem
        · exact Or.inr mem_cons_self
        · exact Or.inl hmem
      · exact Or.inr (mem_cons_of_mem d hmem)

theorem mem_of_mem_splitlines {c : Char} {l s : Str} (hl : l ∈ splitlines s) (hc : c ∈ l) :
    c ∈ s :=
  (mem_of_mem_splitlinesFrom s hl hc).resolve_left (by simp)

theorem splitlinesFrom_append_of_forall {s : Str} (hs : ∀ c ∈ s, isLineBreak c = false)
    (line t : Str) : splitlinesFrom line (s ++ t) = splitlinesFrom (s.reverse ++ line) t := by
  induction s generalizing line with
  | nil => rfl
  | cons c s ih =>
    obtain ⟨hc, hs⟩ := forall_mem_cons.mp hs
    rw [cons_append, splitlinesFrom_cons, if_neg (by simp [hc]), ih hs, reverse_cons, append_assoc]
    rfl

/-! ### Texts that differ in some characters -/

section Keyed
variable {A : Type*} {f g : A → Char}

/-- The lines of a list whose members stand for characters, with the line so far, reversed. -/
def linesFrom (f : A → Char) (line : List A) : List A → List (List A)
  | [] => if line.isEmpty then [] else [line.reverse]
  | [p] => [if isLineBreak (f p) then line.reverse else (p :: line).reverse]
  | p :: q :: ps =>
    if ¬isLineBreak (f p) then linesFrom f (p :: line) (q :: ps)
    else if f p = '\r' ∧ f q = '\n' then line.reverse :: linesFrom f [] ps
    else line.reverse :: linesFrom f [] (q :: ps)

/-- **The lines of a text** stand for those of the list. -/
theorem splitlinesFrom_map (f : A → Char) (line ps : List A) :
    splitlinesFrom (line.map f) (ps.map f) = (linesFrom f line ps).map (map f) := by
  fun_induction linesFrom f line ps with
  | case1 line h =>
    rw [isEmpty_iff.mp h]
    rfl
  | case2 line h =>
    rw [map_nil, splitlinesFrom, if_neg (by simpa using h)]
    simp
  | case3 line p =>
    rw [map_singleton, splitlinesFrom_cons]
    split_ifs
    · simp [afterBreak, splitlinesFrom]
    · simp [splitlinesFrom]
  | case4 line p q ps hp ih =>
    rw [map_cons, splitlinesFrom_cons, if_neg hp, ← ih]
    rfl
  | case5 line p q ps hp hfeed ih | case6 line p q ps hp hfeed ih =>
    rw [map_cons, splitlinesFrom_cons, if_pos (not_not.mp hp)]
    simpa [afterBreak, hfeed] using ih

theorem linesFrom_congr {line ps : List A} (hf : ∀ p, isLineBreak (f p) = true → f p = g p)
    (hg : ∀ p ∈ ps, isLineBreak (g p) = true → f p = g p) :
    linesFrom f line ps = linesFrom g line ps := by
  have hbreak : ∀ p ∈ ps, isLineBreak (f p) = isLineBreak (g p) := by
    intro p hp
    rw [Bool.eq_iff_iff]
    exact ⟨fun hb => hf p hb ▸ hb, fun hb => (hg p hp hb).symm ▸ hb⟩
  fun_induction linesFrom f line ps with
  | case1 line hline => rw [linesFrom, if_pos hline]
  | case2 line hline => rw [linesFrom, if_neg hline]
  | case3 line p => rw [linesFrom, hbreak p mem_cons_self]
  | case4 line p q ps hp ih =>
    rw [forall_mem_cons] at hg hbreak
    rw [linesFrom, ← hbreak.1, if_pos hp, ih hg.2 hbreak.2]
  | case5 line p q ps hp hfeed ih =>
    rw [forall_mem_cons, forall_mem_cons] at hg hbreak
    have hq : f q = g q := hf q (by rw [hfeed.2]; decide)
    rw [linesFrom, ← hbreak.1, if_neg hp, ← hf p (not_not.mp hp), ← hq, if_pos hfeed,
      ih hg.2.2 hbreak.2.2]
  | case6 line p q ps hp hfeed ih =>
    rw [forall_mem_cons] at hg hbreak
    have hq : ¬(f p = '\r' ∧ g q = '\n') := by
      rintro ⟨hr, hn⟩
      exact hfeed ⟨hr, (hg.2 q mem_cons_self (by rw [hn]; decide)).trans hn⟩
    rw [linesFrom, ← hbreak.1, if_neg hp, ← hf p (not_not.mp hp), if_neg hq, ih hg.2 hbreak.2]

/-- The characters of the lines are those that end no line. -/
theorem sum_length_linesFrom (f : A → Char) (line ps : List A) :
    ((linesFrom f line ps).map List.length).sum =
      line.length + ps.countP fun p => !isLineBreak (f p) := by
  fun_induction linesFrom f line ps with
  | case1 line h => simp [isEmpty_iff.mp h]
  | case2 line h => simp
  | case3 line p => by_cases hp : isLineBreak (f p) = true <;> simp [hp]
  | case4 line p q ps hp ih =>
    rw [ih, countP_cons_of_pos (a := p) (by simpa using hp), length_cons]
    omega
  | case5 line p q ps hp hfeed ih =>
    have hq : isLineBreak (f q) = true := by
      rw [hfeed.2]
      decide
    simp [not_not.mp hp, hq, ih]
  | case6 line p q ps hp hfeed ih =>
    rw [map_cons, sum_cons, ih, length_reverse, countP_cons_of_neg (a := p) (by simpa using hp)]
    simp

/-- **The lines have the same lengths** exactly if every line break is left. -/
theorem map_length_splitlines_eq_iff {ps : List A}
    (hf : ∀ p, isLineBreak (f p) = true → f p = g p) :
    (splitlines (ps.map f)).map List.length = (splitlines (ps.map g)).map List.length ↔
      ∀ p ∈ ps, isLineBreak (g p) = true → f p = g p := by
  have hlines : ∀ k : A → Char, (splitlines (ps.map k)).map List.length =
      (linesFrom k [] ps).map List.length := by
    intro k
    have h := splitlinesFrom_map k [] ps
    rw [map_nil] at h
    rw [splitlines, h, map_map]
    exact map_congr_left fun _ _ => length_map _
  rw [hlines, hlines]
  constructor
  · intro heq
    have hcount := congrArg sum heq
    rw [sum_length_linesFrom, sum_length_linesFrom, countP_eq_length_filter,
      countP_eq_length_filter, Nat.add_left_cancel_iff] at hcount
    have hsub : (ps.filter fun p => !isLineBreak (g p)) <+ ps.filter fun p => !isLineBreak (f p) := by
      refine monotone_filter_right ps fun p hp => ?_
      by_contra hbreak
      rw [← hf p (by simpa using hbreak)] at hp
      exact hbreak hp
    intro p hp hbreak
    refine hf p ?_
    by_contra hnot
    have hmem : p ∈ ps.filter fun p => !isLineBreak (g p) :=
      hsub.eq_of_length hcount.symm ▸ mem_filter.mpr ⟨hp, by simpa using hnot⟩
    simp [hbreak] at hmem
  · intro hg
    rw [linesFrom_congr hf hg]

end Keyed
end Guardian.Python

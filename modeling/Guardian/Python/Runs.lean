import Guardian.Python.Regex

/-!
# Runs of a class

What a greedy repetition of a class takes first: all the characters of the class that come next.
-/

namespace Guardian.Python

open List
namespace Regex

variable {p : Char → Bool} {r s : Regex} {k k' k'' : Cursor} {w rest : Str}

/-! ### The first way to match -/

theorem head?_flatMap {A B : Type*} {l : List A} {f : A → List B} {a : A} {b : B}
    (hl : l.head? = some a) (hf : (f a).head? = some b) : (l.flatMap f).head? = some b := by
  cases l with
  | nil => cases hl
  | cons a' l =>
    cases hl
    rw [flatMap_cons, head?_append, hf]
    rfl

theorem head?_run_seq (hr : (run r k).head? = some k') (hs : (run s k').head? = some k'') :
    (run (.seq r s) k).head? = some k'' :=
  head?_flatMap hr hs

theorem head?_run_opt (hr : (run r k).head? = some k') :
    (run (.opt r) k).head? = some k' := by
  rw [run, head?_append, hr]
  rfl

theorem head?_run_opt_of_nil (hr : run r k = []) : (run (.opt r) k).head? = some k := by
  rw [run, hr]
  rfl

theorem head?_run_group {name : String} (hr : (run r k).head? = some k') :
    (run (.group name r) k).head? =
      some { k' with groups := (name, k.between k') :: k'.groups } := by
  rw [run, head?_map, hr]
  rfl

/-! ### Greedy repetitions -/

theorem head?_starRun (hw : ∀ c ∈ w, p c = true) (hrest : rest.head?.any p = false) :
    ∀ (n : ℕ) (before : Str) (groups : List (String × Str)), w.length ≤ n →
      (starRun (run (.cls p)) n ⟨before, w ++ rest, groups⟩).head? =
        some ⟨w.reverse ++ before, rest, groups⟩ := by
  induction w with
  | nil =>
    intro n before groups _
    cases n with
    | zero => rfl
    | succ n =>
      have hnone : run (.cls p) ⟨before, rest, groups⟩ = [] := by
        cases rest with
        | nil => rfl
        | cons c cs => simpa [run] using hrest
      rw [nil_append, starRun, hnone]
      rfl
  | cons c w ih =>
    intro n before groups hn
    cases n with
    | zero => simp at hn
    | succ n =>
      have hone : run (.cls p) ⟨before, c :: w ++ rest, groups⟩ =
          [⟨c :: before, w ++ rest, groups⟩] := by
        simp [run, hw c (by simp)]
      have hfilter : (([⟨c :: before, w ++ rest, groups⟩] : List Cursor).filter fun k' =>
          decide (k'.rest.length < (c :: w ++ rest).length)).head? =
            some ⟨c :: before, w ++ rest, groups⟩ := by simp
      have htail := ih (fun c hc => hw c (by simp [hc])) n (c :: before) groups (by simpa using hn)
      rw [starRun, hone, head?_append, head?_flatMap hfilter htail]
      simp

theorem head?_run_star (hk : k.rest = w ++ rest) (hw : ∀ c ∈ w, p c = true)
    (hrest : rest.head?.any p = false) :
    (run (.star (.cls p)) k).head? = some ⟨w.reverse ++ k.before, rest, k.groups⟩ := by
  obtain ⟨before, text, groups⟩ := k
  dsimp only at hk
  subst hk
  exact head?_starRun hw hrest _ _ _ (by simp)

/-- **`[p]+`** takes them as well. -/
theorem head?_run_plus (hk : k.rest = w ++ rest) (hne : w ≠ []) (hw : ∀ c ∈ w, p c = true)
    (hrest : rest.head?.any p = false) :
    (run (plus (.cls p)) k).head? = some ⟨w.reverse ++ k.before, rest, k.groups⟩ := by
  obtain ⟨before, text, groups⟩ := k
  dsimp only at hk
  subst hk
  cases w with
  | nil => exact absurd rfl hne
  | cons c w =>
    have hone : (run (.cls p) ⟨before, c :: w ++ rest, groups⟩).head? =
        some ⟨c :: before, w ++ rest, groups⟩ := by
      simp [run, hw c (by simp)]
    refine head?_run_seq hone ?_
    rw [head?_run_star rfl (fun c hc => hw c (by simp [hc])) hrest]
    simp

theorem run_plus_eq_nil (hk : k.rest.head?.any p = false) : run (plus (.cls p)) k = [] := by
  obtain ⟨before, text, groups⟩ := k
  cases text with
  | nil => rfl
  | cons c cs =>
    have hc : p c = false := by simpa using hk
    simp [plus, run, hc]

/-! ### The matches of a text -/

variable (p) in
/-- **The runs of a class** in a text. -/
def classRuns (s : Str) : List Str := (s.splitOnP fun c => !p c).filter fun w => !w.isEmpty

theorem classRuns_nil : classRuns p [] = [] := rfl

theorem classRuns_cons_of_not {c : Char} (hc : p c = false) (s : Str) :
    classRuns p (c :: s) = classRuns p s := by
  unfold classRuns
  rw [splitOnP_cons_eq_if_modifyHead, if_pos (by simp [hc]), filter_cons_of_neg (by simp)]

theorem classRuns_append (hne : w ≠ []) (hw : ∀ c ∈ w, p c = true)
    (hrest : rest.head?.any p = false) : classRuns p (w ++ rest) = w :: classRuns p rest := by
  have hw' : ∀ c ∈ w, (!p c) = false := fun c hc => by simp [hw c hc]
  have hwe : (!w.isEmpty) = true := by simpa using hne
  cases rest with
  | nil =>
    unfold classRuns
    rw [append_nil, splitOnP_eq_singleton hw', filter_cons, if_pos hwe]
    rfl
  | cons c cs =>
    have hc : p c = false := by simpa using hrest
    rw [classRuns_cons_of_not hc]
    unfold classRuns
    rw [splitOnP_append_cons_of_forall_mem hw' c (by simp [hc]), filter_cons, if_pos hwe]

theorem mem_classRuns {s : Str} (h : w ∈ classRuns p s) :
    w ≠ [] ∧ (∀ c ∈ w, p c = true) ∧ ∀ c ∈ w, c ∈ s := by
  obtain ⟨hmem, hne⟩ := mem_filter.mp h
  refine ⟨by simpa using hne, fun c hc => ?_, fun c hc => mem_of_mem_splitOnP hmem hc⟩
  simpa using eq_false_of_mem_splitOnP hmem c hc

theorem head?_dropWhile_any (s : Str) : (s.dropWhile p).head?.any p = false := by
  have := head?_dropWhile_not p s
  rcases h : (s.dropWhile p).head? with _ | c
  · rfl
  · rw [h] at this
    simpa using this

theorem findallFrom_match {r : Regex} (n : ℕ) (hk : k.rest = w ++ rest) (hne : w ≠ [])
    (hrun : (run r k).head? = some ⟨w.reverse ++ k.before, rest, k.groups⟩) :
    findallFrom r (n + 1) k = w :: findallFrom r n ⟨w.reverse ++ k.before, rest, []⟩ := by
  have hlen : rest.length < (w ++ rest).length := by
    have := length_pos_of_ne_nil hne
    rw [length_append]
    omega
  have hbetween : k.between ⟨w.reverse ++ k.before, rest, k.groups⟩ = w := by
    simp [Cursor.between, hk]
  rw [findallFrom, hrun]
  dsimp only
  rw [hbetween, hk, if_pos hlen]

theorem exists_run {c : Char} (hc : p c = true) (cs : Str) :
    ∃ w rest, c :: cs = w ++ rest ∧ w ≠ [] ∧ (∀ d ∈ w, p d = true) ∧
      rest.head?.any p = false :=
  ⟨(c :: cs).takeWhile p, (c :: cs).dropWhile p, takeWhile_append_dropWhile.symm,
    by simp [hc], fun d hd => mem_takeWhile_imp hd, head?_dropWhile_any _⟩

theorem findallFrom_plus (n : ℕ) (k : Cursor) (hn : k.rest.length < n) :
    findallFrom (plus (.cls p)) n k = classRuns p k.rest := by
  induction n generalizing k with
  | zero => omega
  | succ n ih =>
    rcases hk : k.rest with _ | ⟨c, cs⟩
    · rw [findallFrom, run_plus_eq_nil (by rw [hk]; rfl), hk]
      rfl
    rcases hc : p c with _ | _
    · rw [findallFrom, run_plus_eq_nil (by simpa [hk] using hc), hk, classRuns_cons_of_not hc]
      have hskip : k.skip.rest = cs := by simp [Cursor.skip, hk]
      rw [← hskip]
      refine ih _ ?_
      rw [hskip]
      simpa [hk] using hn
    · obtain ⟨w, rest, hsplit, hne, hw, hrest⟩ := exists_run hc cs
      have hk' := hk.trans hsplit
      rw [hsplit, findallFrom_match n hk' hne (head?_run_plus hk' hne hw hrest),
        classRuns_append hne hw hrest]
      have hpos := length_pos_of_ne_nil hne
      rw [hk, hsplit, length_append] at hn
      rw [ih ⟨w.reverse ++ k.before, rest, []⟩ (by dsimp only; omega)]

theorem findall_plus (s : Str) : findall (plus (.cls p)) s = classRuns p s :=
  findallFrom_plus _ _ (by simp [Cursor.start])

theorem classRuns_append_of_not {w : Str} (hw : ∀ c ∈ w, p c = false) (rest : Str) :
    classRuns p (w ++ rest) = classRuns p rest := by
  induction w with
  | nil => rfl
  | cons c w ih =>
    rw [cons_append, classRuns_cons_of_not (hw c mem_cons_self),
      ih fun d hd => hw d (mem_cons_of_mem c hd)]

theorem isInfix_append_iff {u w rest : Str} (hu : ∀ c ∈ u, p c = true)
    (hrest : rest.head?.any p = false) : u <:+: w ++ rest ↔ u <:+: w ∨ u <:+: rest := by
  constructor
  · rintro ⟨a, b, h⟩
    rcases append_eq_append_iff.mp h with ⟨e, rfl, -⟩ | ⟨e, hae, rfl⟩
    · exact Or.inl ⟨a, e, rfl⟩
    rcases append_eq_append_iff.mp hae with ⟨e', rfl, rfl⟩ | ⟨e', rfl, rfl⟩
    · rcases e with _ | ⟨c, e⟩
      · exact Or.inl ⟨a, [], by simp⟩
      · have hc : p c = true := hu c (by simp)
        simp [hc] at hrest
    · exact Or.inr ⟨e', b, rfl⟩
  · rintro (h | h)
    · exact h.trans (prefix_append w rest).isInfix
    · exact h.trans (suffix_append w rest).isInfix

/-- **What has only characters of a class** stands in a text exactly if it stands in a run. -/
theorem isInfix_iff_classRuns {u : Str} (hne : u ≠ [])
    (hu : ∀ c ∈ u, p c = true) (s : Str) : u <:+: s ↔ ∃ w ∈ classRuns p s, u <:+: w := by
  induction hn : s.length using Nat.strong_induction_on generalizing s with
  | _ n ih =>
    subst hn
    rcases s with _ | ⟨c, cs⟩
    · simp [hne, classRuns_nil]
    by_cases hc : p c = true
    · obtain ⟨w, rest, hs, hw, hpw, hrest⟩ := exists_run hc cs
      have hlt : rest.length < (c :: cs).length := by
        rw [hs, length_append]
        exact Nat.lt_add_of_pos_left (length_pos_of_ne_nil hw)
      rw [hs, classRuns_append hw hpw hrest, isInfix_append_iff hu hrest, ih _ hlt rest rfl,
        exists_mem_cons_iff]
    · rw [Bool.not_eq_true] at hc
      rw [classRuns_cons_of_not hc, infix_cons_iff, ← ih _ (by simp) cs rfl, or_iff_right]
      intro hprefix
      obtain ⟨d, u, rfl⟩ := exists_cons_of_ne_nil hne
      rw [(cons_prefix_cons.mp hprefix).1] at hu
      simp [hc] at hu
theorem findallFrom_alt {q : Char → Bool} (hpq : ∀ c, q c = true → p c = false) (n : ℕ)
    (k : Cursor) (hn : k.rest.length < n) :
    (findallFrom (.alt (plus (.cls p)) (plus (.cls q))) n k).filter (·.all p) =
      classRuns p k.rest := by
  induction n generalizing k with
  | zero => omega
  | succ n ih =>
    rcases hk : k.rest with _ | ⟨c, cs⟩
    · rw [findallFrom, run, run_plus_eq_nil (by rw [hk]; rfl),
        run_plus_eq_nil (by rw [hk]; rfl), hk]
      rfl
    rw [hk, length_cons] at hn
    rcases hc : p c with _ | _
    · have hp : run (plus (.cls p)) k = [] := run_plus_eq_nil (by simpa [hk] using hc)
      rcases hqc : q c with _ | _
      · rw [findallFrom, run, hp, run_plus_eq_nil (by simpa [hk] using hqc), hk,
          classRuns_cons_of_not hc]
        have hskip : k.skip.rest = cs := by simp [Cursor.skip, hk]
        rw [← hskip]
        exact ih _ (by rw [hskip]; omega)
      · -- a run of the other class
        obtain ⟨w, rest, hsplit, hne, hw, hrest⟩ := exists_run hqc cs
        have hk' := hk.trans hsplit
        have hrun : (run (.alt (plus (.cls p)) (plus (.cls q))) k).head? =
            some ⟨w.reverse ++ k.before, rest, k.groups⟩ := by
          rw [run, hp, nil_append]
          exact head?_run_plus hk' hne hw hrest
        have hnot : ∀ d ∈ w, p d = false := fun d hd => hpq d (hw d hd)
        have hall : w.all p = false := by
          obtain ⟨d, w', rfl⟩ := exists_cons_of_ne_nil hne
          simp [hnot d mem_cons_self]
        have hpos := length_pos_of_ne_nil hne
        have hlen := congrArg List.length hsplit
        rw [length_cons, length_append] at hlen
        rw [findallFrom_match n hk' hne hrun, filter_cons_of_neg (by simp [hall]), hsplit,
          classRuns_append_of_not hnot]
        exact ih ⟨w.reverse ++ k.before, rest, []⟩ (by dsimp only; omega)
    · obtain ⟨w, rest, hsplit, hne, hw, hrest⟩ := exists_run hc cs
      have hk' := hk.trans hsplit
      have hrun : (run (.alt (plus (.cls p)) (plus (.cls q))) k).head? =
          some ⟨w.reverse ++ k.before, rest, k.groups⟩ := by
        rw [run, head?_append, head?_run_plus hk' hne hw hrest]
        rfl
      have hpos := length_pos_of_ne_nil hne
      have hlen := congrArg List.length hsplit
      rw [length_cons, length_append] at hlen
      have hall : w.all p = true := all_eq_true.mpr hw
      rw [findallFrom_match n hk' hne hrun, filter_cons_of_pos (by simpa using hall), hsplit,
        classRuns_append hne hw hrest]
      congr 1
      exact ih ⟨w.reverse ++ k.before, rest, []⟩ (by dsimp only; omega)

theorem findall_alt {q : Char → Bool} (hpq : ∀ c, q c = true → p c = false) (s : Str) :
    (findall (.alt (plus (.cls p)) (plus (.cls q))) s).filter (·.all p) = classRuns p s :=
  findallFrom_alt hpq _ _ (by simp [Cursor.start])

end Regex

end Guardian.Python

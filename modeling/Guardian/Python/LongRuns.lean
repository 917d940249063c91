import Guardian.Python.Matcher
import Guardian.Python.Runs

/-!
# Long runs

The pattern `[p]{n,}` finds the runs of a class that have `n` characters or more.  A text is masked
by a mark in place of each of them; the trace of the masked text says where its characters come
from.
-/

namespace Guardian.Python

open List
/-! ### Runs at the ends of a text -/

section Ends
variable {A : Type*} (p : A → Bool)

/-- The length of the run that a text begins with. -/
def lead (s : List A) : ℕ := (s.takeWhile p).length

/-- The length of the run that a text ends with. -/
def trail (s : List A) : ℕ := lead p s.reverse

variable {p} {c : A} {s t : List A}

theorem lead_cons_of_pos (hc : p c = true) (s : List A) : lead p (c :: s) = lead p s + 1 := by
  simp [lead, hc]

theorem lead_cons_of_neg (hc : p c = false) (s : List A) : lead p (c :: s) = 0 := by
  simp [lead, hc]

theorem lead_append_of_all (hs : ∀ c ∈ s, p c = true) (t : List A) :
    lead p (s ++ t) = s.length + lead p t := by
  rw [lead, takeWhile_append_of_pos hs, length_append, lead]

theorem lead_append_of_mem (hc : c ∈ s) (hp : p c = false) (t : List A) :
    lead p (s ++ t) = lead p s := by
  induction s with
  | nil => cases hc
  | cons d s ih =>
    rcases hd : p d with _ | _
    · rw [cons_append, lead_cons_of_neg hd, lead_cons_of_neg hd]
    · have hc' : c ∈ s := by
        rcases mem_cons.mp hc with rfl | hc'
        · rw [hd] at hp
          cases hp
        · exact hc'
      rw [cons_append, lead_cons_of_pos hd, lead_cons_of_pos hd, ih hc']

theorem lead_of_all (hs : ∀ c ∈ s, p c = true) : lead p s = s.length := by
  have hlead := lead_append_of_all hs []
  rw [append_nil] at hlead
  rw [hlead]
  simp [lead]

theorem trail_append_of_all (ht : ∀ c ∈ t, p c = true) (s : List A) :
    trail p (s ++ t) = trail p s + t.length := by
  rw [trail, reverse_append, lead_append_of_all (by simpa using ht), length_reverse,
    trail, Nat.add_comm]

theorem trail_append_of_mem (hc : c ∈ t) (hp : p c = false) (s : List A) :
    trail p (s ++ t) = trail p t := by
  rw [trail, reverse_append, lead_append_of_mem (mem_reverse.mpr hc) hp, trail]

theorem trail_of_all (hs : ∀ c ∈ s, p c = true) : trail p s = s.length := by
  rw [trail, lead_of_all (by simpa using hs), length_reverse]

theorem all_or_mem (p : A → Bool) (s : List A) :
    (∀ c ∈ s, p c = true) ∨ ∃ c ∈ s, p c = false := by
  by_cases h : ∀ c ∈ s, p c = true
  · exact Or.inl h
  · push Not at h
    obtain ⟨c, hc, hp⟩ := h
    exact Or.inr ⟨c, hc, by simpa using hp⟩

end Ends

namespace Matcher

/-! ### Where the characters come from -/

/-- The text that a cursor stands in. -/
def textAt (k : Cursor) : Str := k.before.reverse ++ k.rest

/-- **Where the characters of `sub` come from**: a position of the text, or the replacement. -/
def traceFrom (m : Matcher) : ℕ → Cursor → List (Option ℕ)
  | 0, k => (range' k.before.length k.rest.length).map some
  | n + 1, k =>
    match (m k).head? with
    | some k' => none :: traceFrom m n { k' with groups := [] }
    | none =>
      match k.rest with
      | [] => []
      | _ :: _ => some k.before.length :: traceFrom m n k.skip

/-- The trace of `pattern.sub(mark, s)`. -/
def trace (m : Matcher) (s : Str) : List (Option ℕ) := traceFrom m (s.length + 1) (.start s)

/-- The characters of a trace. -/
def ofTrace (mark s : Str) (l : List (Option ℕ)) : Str :=
  l.flatMap fun o => o.elim mark fun i => s[i]?.toList

theorem textAt_skip (k : Cursor) : textAt k.skip = textAt k := by
  obtain ⟨before, rest, groups⟩ := k
  cases rest <;> simp [textAt, Cursor.skip]

theorem getElem?_textAt (k : Cursor) (i : ℕ) :
    (textAt k)[k.before.length + i]? = k.rest[i]? := by
  have hlen : k.before.length = k.before.reverse.length := length_reverse.symm
  rw [textAt, hlen, getElem?_append_right (Nat.le_add_right _ _), Nat.add_sub_cancel_left]

/-- **The masked text has the characters that its trace names.** -/
theorem flatMap_traceFrom {m : Matcher} (mark : Str)
    (hm : ∀ k, ∀ k' ∈ (m k).head?, textAt k' = textAt k) (n : ℕ) (k : Cursor) :
    ofTrace mark (textAt k) (traceFrom m n k) = subFrom m (fun _ _ => mark) n k := by
  induction n generalizing k with
  | zero =>
    have hrange : ∀ (l : Str) (j : ℕ), (∀ i, (textAt k)[j + i]? = l[i]?) →
        ofTrace mark (textAt k) ((range' j l.length).map some) = l := by
      intro l
      induction l with
      | nil => exact fun j _ => rfl
      | cons c l ih =>
        intro j hj
        have hhead : (textAt k)[j]? = some c := by simpa using hj 0
        have htail := ih (j + 1) fun i => by
          rw [show j + 1 + i = j + (i + 1) by omega, hj]
          rfl
        rw [length_cons, range'_succ, map_cons, ofTrace, flatMap_cons]
        rw [ofTrace] at htail
        rw [htail]
        simp [hhead]
    exact hrange k.rest _ (getElem?_textAt k)
  | succ n ih =>
    rw [traceFrom, subFrom]
    rcases hk : (m k).head? with _ | k'
    · rcases hrest : k.rest with _ | ⟨c, cs⟩
      · rfl
      · have hhead : (textAt k)[k.before.length]? = some c := by
          simpa [hrest] using getElem?_textAt k 0
        have htail := ih k.skip
        rw [textAt_skip, ofTrace] at htail
        dsimp only
        rw [ofTrace, flatMap_cons, htail]
        simp [hhead]
    · have htail := ih { k' with groups := [] }
      have htext : textAt { k' with groups := [] } = textAt k := hm k k' hk
      rw [htext, ofTrace] at htail
      dsimp only
      rw [ofTrace, flatMap_cons, htail]
      rfl

theorem flatMap_trace {m : Matcher} (mark s : Str)
    (hm : ∀ k, ∀ k' ∈ (m k).head?, textAt k' = textAt k) :
    ofTrace mark s (trace m s) = sub m (fun _ _ => mark) s :=
  flatMap_traceFrom mark hm _ (.start s)

/-- A trace into a piece of a text is one into the text. -/
theorem ofTrace_map_add (before after : Str) {piece : Str} {l : List (Option ℕ)} (mark : Str)
    (hl : ∀ i, some i ∈ l → i < piece.length) :
    ofTrace mark (before ++ piece ++ after) (l.map (Option.map (before.length + ·))) =
      ofTrace mark piece l := by
  rw [ofTrace, ofTrace, flatMap_map]
  refine flatMap_congr fun o ho => ?_
  rcases o with _ | i
  · rfl
  · have hi := hl i ho
    change (before ++ piece ++ after)[before.length + i]?.toList = piece[i]?.toList
    rw [append_assoc, getElem?_append_right (Nat.le_add_right _ _), Nat.add_sub_cancel_left,
      getElem?_append_left hi]

/-! ### Long runs -/

/-- `[p]{n,}`. -/
def longRun (n : ℕ) (p : Char → Bool) : Matcher := atLeast n (chr p)

variable {p : Char → Bool} {n : ℕ} {k : Cursor} {w rest : Str}

theorem times_chr (hk : k.rest = w ++ rest) (hw : ∀ c ∈ w, p c = true) :
    times (chr p) w.length k = [⟨w.reverse ++ k.before, rest, k.groups⟩] := by
  induction w generalizing k with
  | nil =>
    obtain ⟨before, text, groups⟩ := k
    dsimp only at hk
    subst hk
    rfl
  | cons c w ih =>
    have hone : chr p k = [⟨c :: k.before, w ++ rest, k.groups⟩] := by
      rw [chr, hk]
      simp [hw c mem_cons_self]
    rw [length_cons, times, seq, hone, flatMap_singleton,
      ih rfl fun d hd => hw d (mem_cons_of_mem c hd)]
    simp

theorem times_chr_eq_nil (hk : k.rest = w ++ rest) (hw : ∀ c ∈ w, p c = true)
    (hrest : rest.head?.any p = false) (hn : w.length < n) : times (chr p) n k = [] := by
  induction w generalizing k n with
  | nil =>
    obtain ⟨n, rfl⟩ := Nat.exists_eq_succ_of_ne_zero (Nat.pos_iff_ne_zero.mp hn)
    have hnone : chr p k = [] := by
      rw [chr, hk, nil_append]
      cases rest with
      | nil => rfl
      | cons c cs => simpa using hrest
    rw [times, seq, hnone]
    rfl
  | cons c w ih =>
    obtain ⟨n, rfl⟩ := Nat.exists_eq_succ_of_ne_zero (Nat.ne_zero_of_lt hn)
    have hone : chr p k = [⟨c :: k.before, w ++ rest, k.groups⟩] := by
      rw [chr, hk]
      simp [hw c mem_cons_self]
    rw [times, seq, hone, flatMap_singleton]
    exact ih rfl (fun d hd => hw d (mem_cons_of_mem c hd)) (Nat.lt_of_succ_lt_succ hn)

/-- **A long run is found**, and taken whole. -/
theorem head?_longRun (hk : k.rest = w ++ rest) (hw : ∀ c ∈ w, p c = true)
    (hrest : rest.head?.any p = false) (hn : n ≤ w.length) :
    (longRun n p k).head? = some ⟨w.reverse ++ k.before, rest, k.groups⟩ := by
  have hsplit : k.rest = w.take n ++ (w.drop n ++ rest) := by
    rw [← append_assoc, take_append_drop, hk]
  have htake : ∀ c ∈ w.take n, p c = true := fun c hc => hw c (mem_of_mem_take hc)
  have hdrop : ∀ c ∈ w.drop n, p c = true := fun c hc => hw c (mem_of_mem_drop hc)
  have htimes := times_chr hsplit htake
  rw [length_take, Nat.min_eq_left hn] at htimes
  rw [longRun, atLeast, seq, htimes, flatMap_singleton, star]
  have hstar := Regex.head?_starRun hdrop hrest (w.drop n ++ rest).length
    ((w.take n).reverse ++ k.before) k.groups (by simp)
  rw [← append_assoc, ← reverse_append, take_append_drop] at hstar
  exact hstar

theorem longRun_eq_nil (hk : k.rest = w ++ rest) (hw : ∀ c ∈ w, p c = true)
    (hrest : rest.head?.any p = false) (hn : w.length < n) : longRun n p k = [] := by
  rw [longRun, atLeast, seq, times_chr_eq_nil hk hw hrest hn]
  rfl

theorem exists_lead (p : Char → Bool) (s : Str) : ∃ w rest, s = w ++ rest ∧
    (∀ c ∈ w, p c = true) ∧ rest.head?.any p = false ∧ w.length = lead p s :=
  ⟨s.takeWhile p, s.dropWhile p, takeWhile_append_dropWhile.symm,
    fun _ hc => mem_takeWhile_imp hc, Regex.head?_dropWhile_any s, rfl⟩

theorem textAt_longRun (k : Cursor) : ∀ k' ∈ (longRun n p k).head?, textAt k' = textAt k := by
  intro k' hk'
  obtain ⟨w, rest, hk, hw, hrest, -⟩ := exists_lead p k.rest
  rcases Nat.lt_or_ge w.length n with hn | hn
  · rw [longRun_eq_nil hk hw hrest hn] at hk'
    cases hk'
  · rw [head?_longRun hk hw hrest hn] at hk'
    cases hk'
    simp [textAt, hk]

/-! ### What stays -/

/-- **The character at a position stays**: it is outside the class, or its run is short. -/
def Stays (n : ℕ) (p : Char → Bool) (s : Str) (i : ℕ) : Prop :=
  ∃ x c y, s = x ++ c :: y ∧ x.length = i ∧ (p c = true → trail p x + lead p (c :: y) < n)

theorem stays_iff {x y : Str} {c : Char} : Stays n p (x ++ c :: y) x.length ↔
    (p c = true → trail p x + lead p (c :: y) < n) := by
  constructor
  · rintro ⟨x', c', y', hs, hlen, h⟩
    obtain ⟨rfl, hcons⟩ := append_inj hs hlen.symm
    cases hcons
    exact h
  · exact fun h => ⟨x, c, y, rfl, rfl, h⟩

theorem lt_length_of_stays {s : Str} {i : ℕ} (h : Stays n p s i) : i < s.length := by
  obtain ⟨x, c, y, rfl, rfl, -⟩ := h
  simp

/-- The run at a cursor has not begun before it, or it is short. -/
def Whole (n : ℕ) (p : Char → Bool) (k : Cursor) : Prop :=
  lead p k.rest = 0 ∨ lead p k.before = 0 ∨ lead p k.before + lead p k.rest < n

theorem not_stays {before w rest : Str} (hw : ∀ c ∈ w, p c = true) (hn : n ≤ w.length) {i : ℕ}
    (hi : i < w.length) : ¬ Stays n p (before ++ (w ++ rest)) (before.length + i) := by
  have hsplit : before ++ (w ++ rest) =
      (before ++ w.take i) ++ w[i] :: (w.drop (i + 1) ++ rest) := by
    have hdrop : w.take i ++ w[i] :: w.drop (i + 1) = w := by
      rw [← drop_eq_getElem_cons hi, take_append_drop]
    rw [append_assoc, ← cons_append, ← append_assoc (w.take i), hdrop]
  have hlen : (before ++ w.take i).length = before.length + i := by
    rw [length_append, length_take, Nat.min_eq_left hi.le]
  have htake : ∀ c ∈ w.take i, p c = true := fun c hc => hw c (mem_of_mem_take hc)
  have hdrop : ∀ c ∈ w.drop (i + 1), p c = true := fun c hc => hw c (mem_of_mem_drop hc)
  rw [hsplit, ← hlen, stays_iff]
  intro h
  have hlt := h (hw _ (getElem_mem hi))
  rw [trail_append_of_all htake, lead_cons_of_pos (hw _ (getElem_mem hi)),
    lead_append_of_all hdrop, length_take, length_drop] at hlt
  omega

theorem mem_traceFrom (hn : 0 < n) (m : ℕ) {k : Cursor} (hm : k.rest.length < m)
    (hk : Whole n p k) (i : ℕ) : some i ∈ traceFrom (longRun n p) m k ↔
      k.before.length ≤ i ∧ Stays n p (textAt k) i := by
  induction m generalizing k with
  | zero => exact absurd hm (Nat.not_lt_zero _)
  | succ m ih =>
    obtain ⟨w, rest, hsplit, hw, hrest, hlead⟩ := exists_lead p k.rest
    rw [traceFrom]
    rcases Nat.lt_or_ge w.length n with hshort | hlong
    · rw [longRun_eq_nil hsplit hw hrest hshort]
      rcases hcase : k.rest with _ | ⟨c, cs⟩
      · have hnone : ¬ (k.before.length ≤ i ∧ Stays n p (textAt k) i) := by
          rintro ⟨hi, hstays⟩
          have hlt := lt_length_of_stays hstays
          rw [textAt, hcase, append_nil, length_reverse] at hlt
          omega
        simp [hnone]
      · have hskip : k.skip = ⟨c :: k.before, cs, []⟩ := by simp [Cursor.skip, hcase]
        -- the character is read one by one with the rest of its run
        have hwhole : Whole n p k.skip := by
          rw [hskip]
          rcases hc : p c with _ | _
          · exact Or.inr (Or.inl (lead_cons_of_neg hc _))
          · refine Or.inr (Or.inr ?_)
            unfold Whole at hk
            rw [hcase, lead_cons_of_pos hc] at hk
            rw [hcase, lead_cons_of_pos hc] at hlead
            dsimp only
            rw [lead_cons_of_pos hc]
            omega
        have hhere : Stays n p (textAt k) k.before.length := by
          rw [textAt, hcase, ← length_reverse, stays_iff]
          intro hc
          unfold Whole at hk
          rw [hcase, lead_cons_of_pos hc] at hk
          rw [hcase, lead_cons_of_pos hc] at hlead
          rw [trail, reverse_reverse, lead_cons_of_pos hc]
          omega
        have htail := ih (k := k.skip) (by rw [hskip]; rw [hcase] at hm; simpa using hm) hwhole
        rw [textAt_skip] at htail
        simp only [head?_nil, mem_cons, Option.some.injEq, htail]
        rw [hskip, length_cons]
        constructor
        · rintro (rfl | ⟨hi, hstays⟩)
          · exact ⟨le_rfl, hhere⟩
          · exact ⟨Nat.le_of_succ_le hi, hstays⟩
        · rintro ⟨hi, hstays⟩
          rcases hi.eq_or_lt with hi | hi
          · exact Or.inl hi.symm
          · exact Or.inr ⟨hi, hstays⟩
    · rw [head?_longRun hsplit hw hrest hlong]
      have hwhole : Whole n p ⟨w.reverse ++ k.before, rest, []⟩ := by
        left
        cases rest with
        | nil => rfl
        | cons c cs => exact lead_cons_of_neg (by simpa using hrest) cs
      have hlen : rest.length < m := by
        rw [hsplit, length_append] at hm
        omega
      have htext : textAt ⟨w.reverse ++ k.before, rest, []⟩ = textAt k := by
        simp [textAt, hsplit]
      have htail := ih hlen hwhole
      rw [htext] at htail
      simp only [mem_cons, reduceCtorEq, false_or, htail, length_append,
        length_reverse]
      constructor
      · rintro ⟨hi, hstays⟩
        exact ⟨by omega, hstays⟩
      · rintro ⟨hi, hstays⟩
        refine ⟨?_, hstays⟩
        by_contra hlt
        obtain ⟨j, rfl⟩ := Nat.exists_eq_add_of_le hi
        rw [textAt, hsplit, ← length_reverse] at hstays
        exact not_stays hw hlong (by omega) hstays

theorem mem_trace_iff (hn : 0 < n) {s : Str} {i : ℕ} :
    some i ∈ trace (longRun n p) s ↔ Stays n p s i := by
  have hwhole : Whole n p (.start s) := Or.inr (Or.inl rfl)
  rw [trace, mem_traceFrom hn _ (by simp [Cursor.start]) hwhole]
  simp [textAt, Cursor.start]

/-! ### Excerpts -/

/-- **No long run is cut short** where an excerpt begins and where it ends: a run at an end of the
excerpt is long by itself, or short in the text. -/
structure Uncut (n : ℕ) (p : Char → Bool) (before excerpt after : Str) : Prop where
  start : lead p excerpt = 0 ∨ n ≤ lead p excerpt ∨ trail p before + lead p (excerpt ++ after) < n
  stop : trail p excerpt = 0 ∨ n ≤ trail p excerpt ∨
    trail p (before ++ excerpt) + lead p after < n

/-- **What an excerpt keeps stays in the text** exactly if no long run is cut short. -/
theorem stays_excerpt_iff {before excerpt after : Str} :
    (∀ i, Stays n p excerpt i → Stays n p (before ++ excerpt ++ after) (before.length + i)) ↔
      Uncut n p before excerpt after := by
  have hat : ∀ x c y, excerpt = x ++ c :: y →
      (Stays n p (before ++ excerpt ++ after) (before.length + x.length) ↔
        (p c = true → trail p (before ++ x) + lead p (c :: (y ++ after)) < n)) := by
    rintro x c y rfl
    rw [← length_append, ← stays_iff]
    simp
  constructor
  · intro h
    refine ⟨?_, ?_⟩
    · rcases hexcerpt : excerpt with _ | ⟨c, y⟩
      · exact Or.inl rfl
      rcases hc : p c with _ | _
      · exact Or.inl (lead_cons_of_neg hc y)
      rcases Nat.lt_or_ge (lead p (c :: y)) n with hlt | hge
      · have hstays : Stays n p excerpt 0 := by
          rw [hexcerpt]
          exact ⟨[], c, y, rfl, rfl, fun _ => by simpa [trail, lead] using hlt⟩
        have hcut := (hat [] c y hexcerpt).mp (h 0 hstays) hc
        rw [append_nil] at hcut
        exact Or.inr (Or.inr hcut)
      · exact Or.inr (Or.inl hge)
    · rcases eq_nil_or_concat excerpt with hexcerpt | ⟨x, c, hexcerpt⟩
      · rw [hexcerpt]
        exact Or.inl rfl
      rw [concat_eq_append] at hexcerpt
      rcases hc : p c with _ | _
      · left
        rw [hexcerpt, trail, reverse_append]
        exact lead_cons_of_neg hc _
      have hone : ∀ d ∈ [c], p d = true := by simpa using hc
      rcases Nat.lt_or_ge (trail p excerpt) n with hlt | hge
      · have hstays : Stays n p excerpt x.length := by
          rw [hexcerpt, stays_iff]
          rw [hexcerpt, trail_append_of_all hone] at hlt
          intro _
          rwa [lead_of_all hone]
        have hcut := (hat x c [] hexcerpt).mp (h _ hstays) hc
        rw [nil_append, lead_cons_of_pos hc] at hcut
        refine Or.inr (Or.inr ?_)
        rw [hexcerpt, ← append_assoc, trail_append_of_all hone, length_singleton]
        omega
      · exact Or.inr (Or.inl hge)
  · rintro ⟨hstart, hstop⟩ i ⟨x, c, y, hexcerpt, rfl, h⟩
    rw [hat x c y hexcerpt]
    intro hc
    have hshort := h hc
    rcases all_or_mem p x with hx | ⟨d, hd, hpd⟩
    · -- the run begins with the excerpt
      rw [trail_of_all hx] at hshort
      have hlead : lead p excerpt = x.length + lead p (c :: y) := by
        rw [hexcerpt, lead_append_of_all hx]
      have hpos : 0 < lead p (c :: y) := by
        rw [lead_cons_of_pos hc]
        exact Nat.succ_pos _
      have hcut : trail p before + lead p (excerpt ++ after) < n := by omega
      rw [hexcerpt, append_assoc, lead_append_of_all hx, cons_append] at hcut
      rw [trail_append_of_all hx]
      omega
    · rw [trail_append_of_mem hd hpd]
      rcases all_or_mem p (c :: y) with hy | ⟨e, he, hpe⟩
      · -- the run ends with the excerpt
        rw [lead_of_all hy] at hshort
        have htrail : trail p excerpt = trail p x + (c :: y).length := by
          rw [hexcerpt, trail_append_of_all hy]
        have hcut : trail p (before ++ excerpt) + lead p after < n := by
          rw [length_cons] at htrail hshort
          omega
        rw [hexcerpt, ← append_assoc, trail_append_of_all hy,
          trail_append_of_mem hd hpd] at hcut
        rw [← cons_append, lead_append_of_all hy]
        omega
      · rwa [← cons_append, lead_append_of_mem he hpe]

end Matcher

end Guardian.Python

import Guardian.Python.Uuid
import Guardian.Versioning.Rpm
import Mathlib.Tactic.Ring

/-!
# `rpmvercmp`

RPM skips what separates two segments, but neither a tilde nor a caret, wherever it stands. The loop
of `_rpm_compare_part` sees a tilde only before it skips, and skips carets.  `rpmComparePart_eq_iff`
says when that does no harm.
-/

namespace Guardian.Versioning

open Python Guardian.Order List

variable (R : Runtime)

/-! ### The reference -/

/-- A character that separates two segments. -/
def isSeparator (c : Char) : Bool := !R.isAlnum c && c != '~' && c != '^'

/-- The text from its next segment on. -/
def upToSegment (s : Str) : Str := s.dropWhile (isSeparator R)

/-- The number that a text of digits stands for. -/
def valueOf (s : Str) : ℕ := ofDigits 10 decimalValue s

/-- **The first segment of a text**: its rank, the value of a number, the text of a word. A tilde
sorts before everything, and then the end of the text, a caret, a word, and a number. -/
def firstSegment (s : Str) : ℕ × ℕ × Str :=
  match upToSegment R s with
  | [] => (1, 0, [])
  | c :: cs =>
    if c = '~' then (0, 0, [])
    else if c = '^' then (2, 0, [])
    else if R.isDigit c then (4, valueOf ((c :: cs).takeWhile R.isDigit), [])
    else (3, 0, (c :: cs).takeWhile R.isAlpha)

/-- The text behind its first segment. -/
def behindSegment (s : Str) : Str :=
  match upToSegment R s with
  | [] => []
  | c :: cs =>
    if c = '~' ∨ c = '^' then cs
    else if R.isDigit c then (c :: cs).dropWhile R.isDigit
    else (c :: cs).dropWhile R.isAlpha

/-- **`rpmvercmp`**: two texts are compared segment by segment, up to the ends of both. -/
def rpmvercmp (a b : Str) : Ordering :=
  streamCmp tokenCmp (firstSegment R) (behindSegment R) (max a.length b.length) a b

/-! ### What the loop sees -/

/-- A text with each caret, and each tilde that does not stand right behind a segment, replaced by a
separator; the flag says that a separator has been passed since the last segment. -/
def keptFrom (passed : Bool) : Str → Str
  | [] => []
  | c :: cs =>
    if R.isAlnum c then c :: keptFrom false cs
    else if c = '~' ∧ passed = false then c :: keptFrom false cs
    else (if c = '~' ∨ c = '^' then '.' else c) :: keptFrom true cs

/-- **What the loop sees of a text.** -/
def kept (s : Str) : Str := keptFrom R false s

/-! ### Numbers -/

section Values
variable {s t : Str}

/-- The value of a number behind other digits. -/
def valueFrom (n : ℕ) (s : Str) : ℕ := s.foldl (fun n c => 10 * n + decimalValue c) n

theorem decimalValue_lt {c : Char} (hc : c.isDigit = true) : decimalValue c < 10 := by
  have hle : c.toNat ≤ 57 := by
    simp only [Char.isDigit, Bool.and_eq_true, decide_eq_true_eq] at hc
    exact hc.2
  unfold decimalValue
  omega

theorem valueFrom_bounds (hs : ∀ c ∈ s, c.isDigit = true) (n : ℕ) :
    n * 10 ^ s.length ≤ valueFrom n s ∧ valueFrom n s < (n + 1) * 10 ^ s.length := by
  have hds : ∀ d ∈ s.map decimalValue, d < 10 := by
    intro d hd
    obtain ⟨c, hc, rfl⟩ := mem_map.mp hd
    exact decimalValue_lt (hs c hc)
  have hbounds := foldl_bounds hds n
  rwa [foldl_map, length_map] at hbounds

theorem compare_digit {c d : Char} (hc : c.isDigit = true) (hd : d.isDigit = true) :
    Ord.compare (decimalValue c) (decimalValue d) = Ord.compare c d := by
  have hlow : ∀ {c : Char}, c.isDigit = true → 48 ≤ c.toNat := by
    intro c hc
    simp only [Char.isDigit, Bool.and_eq_true, decide_eq_true_eq] at hc
    exact hc.1
  have hc' := hlow hc
  have hd' := hlow hd
  unfold decimalValue
  rcases lt_trichotomy c d with h | rfl | h
  · have hlt : c.toNat < d.toNat := h
    rw [compare_lt_iff_lt.mpr h, compare_lt_iff_lt.mpr (by omega)]
  · rw [compare_eq_iff_eq.mpr rfl, compare_eq_iff_eq.mpr rfl]
  · have hlt : d.toNat < c.toNat := h
    rw [compare_gt_iff_gt.mpr h, compare_gt_iff_gt.mpr (show d.toNat - 48 < c.toNat - 48 by omega)]

theorem compare_append_digit {n m d e : ℕ} (hd : d < 10) (he : e < 10) :
    Ord.compare (10 * n + d) (10 * m + e) = (Ord.compare n m).then (Ord.compare d e) := by
  rcases lt_trichotomy n m with h | rfl | h
  · rw [compare_lt_iff_lt.mpr h, Ordering.lt_then, compare_lt_iff_lt]
    omega
  · rw [compare_eq_iff_eq.mpr (rfl : n = n), Ordering.eq_then]
    rcases lt_trichotomy d e with h | rfl | h
    · rw [compare_lt_iff_lt.mpr h, compare_lt_iff_lt]
      omega
    · rw [compare_eq_iff_eq.mpr rfl, compare_eq_iff_eq.mpr rfl]
    · rw [compare_gt_iff_gt.mpr h, compare_gt_iff_gt]
      omega
  · rw [compare_gt_iff_gt.mpr h, Ordering.gt_then, compare_gt_iff_gt]
    omega

/-- **Numbers of one length** compare as their texts. -/
theorem compare_valueFrom (hs : ∀ c ∈ s, c.isDigit = true) (ht : ∀ c ∈ t, c.isDigit = true)
    (hlength : s.length = t.length) (n m : ℕ) :
    Ord.compare (valueFrom n s) (valueFrom m t) = (Ord.compare n m).then (strCmp s t) := by
  induction s generalizing t n m with
  | nil =>
    obtain rfl := length_eq_zero_iff.mp hlength.symm
    rw [strCmp_eq_eq.mpr rfl, Ordering.then_eq]
    rfl
  | cons c s ih =>
    obtain ⟨d, t, rfl⟩ := exists_cons_of_length_eq_add_one hlength.symm
    have hc := hs c mem_cons_self
    have hd := ht d mem_cons_self
    have hrest := ih (fun e he => hs e (mem_cons_of_mem c he))
      (fun e he => ht e (mem_cons_of_mem d he)) (Nat.succ.inj hlength)
      (10 * n + decimalValue c) (10 * m + decimalValue d)
    calc Ord.compare (valueFrom n (c :: s)) (valueFrom m (d :: t))
        = (Ord.compare (10 * n + decimalValue c) (10 * m + decimalValue d)).then (strCmp s t) :=
          hrest
      _ = (Ord.compare n m).then (strCmp (c :: s) (d :: t)) := by
          rw [compare_append_digit (decimalValue_lt hc) (decimalValue_lt hd), compare_digit hc hd,
            strCmp_cons, Ordering.then_assoc]

theorem stripZeros_spec (hs : ∀ c ∈ s, c.isDigit = true) :
    (∀ c ∈ stripZeros s, c.isDigit = true) ∧ valueFrom 0 (stripZeros s) = valueOf s ∧
      ∃ c cs, stripZeros s = c :: cs ∧ (c = '0' → cs = []) := by
  have hvalue : valueFrom 0 (s.dropWhile (· == '0')) = valueOf s := by
    clear hs
    induction s with
    | nil => rfl
    | cons c s ih =>
      by_cases hc : c = '0'
      · subst hc
        exact ih
      · rw [dropWhile_cons_of_neg (by simpa using hc)]
        rfl
  unfold stripZeros
  split_ifs with h
  · rw [h] at hvalue
    exact ⟨by decide, hvalue, '0', [], rfl, fun _ => rfl⟩
  · obtain ⟨c, cs, hcs⟩ := exists_cons_of_ne_nil h
    refine ⟨fun d hd => hs d ((dropWhile_sublist _).subset hd), hvalue, c, cs, hcs, ?_⟩
    rintro rfl
    have hhead := head?_dropWhile_not (· == '0') s
    rw [hcs] at hhead
    cases hhead

theorem valueFrom_lt_of_length_lt (hs : ∀ c ∈ s, c.isDigit = true)
    (ht : ∀ c ∈ t, c.isDigit = true) {c : Char} {cs : Str} (hcs : t = c :: cs)
    (hzero : c = '0' → cs = []) (hne : s ≠ []) (hlength : s.length < t.length) :
    valueFrom 0 s < valueFrom 0 t := by
  subst hcs
  have hc := ht c mem_cons_self
  have hpos : 1 ≤ decimalValue c := by
    rcases Nat.eq_zero_or_pos (decimalValue c) with h | h
    · have hcmp := compare_digit hc (show '0'.isDigit = true from rfl)
      rw [h] at hcmp
      have hcs := hzero (compare_eq_iff_eq.mp hcmp.symm)
      have hlt := length_pos_iff.mpr hne
      rw [hcs, length_singleton] at hlength
      omega
    · exact h
  have hlow := (valueFrom_bounds (fun d hd => ht d (mem_cons_of_mem c hd)) (decimalValue c)).1
  have hvalue : valueFrom 0 (c :: cs) = valueFrom (decimalValue c) cs := by
    simp [valueFrom]
  rw [hvalue]
  rw [length_cons] at hlength
  calc valueFrom 0 s < (0 + 1) * 10 ^ s.length := (valueFrom_bounds hs 0).2
    _ ≤ decimalValue c * 10 ^ cs.length := by gcongr <;> omega
    _ ≤ valueFrom (decimalValue c) cs := hlow

/-- **Numbers are compared by their values.** -/
theorem numberCmp_stripZeros (hs : ∀ c ∈ s, c.isDigit = true) (ht : ∀ c ∈ t, c.isDigit = true) :
    numberCmp (stripZeros s) (stripZeros t) = Ord.compare (valueOf s) (valueOf t) := by
  obtain ⟨hs, hvs, c, cs, hcs, hc⟩ := stripZeros_spec hs
  obtain ⟨ht, hvt, d, ds, hds, hd⟩ := stripZeros_spec ht
  rw [numberCmp, ← hvs, ← hvt]
  have hnes : stripZeros s ≠ [] := by simp [hcs]
  have hnet : stripZeros t ≠ [] := by simp [hds]
  rcases lt_trichotomy (stripZeros s).length (stripZeros t).length with h | h | h
  · rw [compare_lt_iff_lt.mpr h, Ordering.lt_then,
      compare_lt_iff_lt.mpr (valueFrom_lt_of_length_lt hs ht hds hd hnes h)]
  · rw [compare_eq_iff_eq.mpr h, Ordering.eq_then, compare_valueFrom hs ht h]
    rfl
  · rw [compare_gt_iff_gt.mpr h, Ordering.gt_then,
      compare_gt_iff_gt.mpr (valueFrom_lt_of_length_lt ht hs hcs hc hnet h)]

end Values

/-! ### What is left of a text -/

variable {R} {s t a b : Str}

theorem isAlnum_mark : R.isAlnum '~' = false ∧ R.isAlnum '^' = false ∧ R.isAlnum '.' = false := by
  have hmark : ∀ c, IsAscii c → c.isDigit = false → c.isAlpha = false → R.isAlnum c = false := by
    intro c hc hdigit halpha
    simp [Runtime.isAlnum, R.isDecimal_ascii c hc, R.isDigit_ascii c hc, R.isNumeric_ascii c hc,
      R.isAlpha_ascii c hc, hdigit, halpha]
  exact ⟨hmark _ (by decide) rfl rfl, hmark _ (by decide) rfl rfl, hmark _ (by decide) rfl rfl⟩

theorem keptFrom_alnum {c : Char} (hc : R.isAlnum c = true) (passed : Bool) (cs : Str) :
    keptFrom R passed (c :: cs) = c :: keptFrom R false cs := by
  rw [keptFrom, if_pos hc]

theorem exists_keptFrom {c : Char} (hc : R.isAlnum c = false) (passed : Bool) (cs : Str) :
    ∃ d p, keptFrom R passed (c :: cs) = d :: keptFrom R p cs ∧ R.isAlnum d = false := by
  rw [keptFrom, if_neg (by simp [hc])]
  split_ifs
  · exact ⟨c, false, rfl, hc⟩
  · exact ⟨'.', true, rfl, isAlnum_mark.2.2⟩
  · exact ⟨c, true, rfl, hc⟩

theorem length_keptFrom (passed : Bool) (s : Str) : (keptFrom R passed s).length = s.length := by
  induction s generalizing passed with
  | nil => rfl
  | cons c cs ih =>
    unfold keptFrom
    split_ifs <;> rw [length_cons, length_cons, ih]

theorem keptFrom_run {p : Char → Bool} (hp : ∀ c, p c = true → R.isAlnum c = true) (s : Str) :
    (keptFrom R false s).takeWhile p = s.takeWhile p ∧
      (keptFrom R false s).dropWhile p = keptFrom R false (s.dropWhile p) := by
  induction s with
  | nil => exact ⟨rfl, rfl⟩
  | cons c cs ih =>
    by_cases hpc : p c = true
    · rw [keptFrom_alnum (hp c hpc), takeWhile_cons_of_pos hpc, takeWhile_cons_of_pos hpc,
        dropWhile_cons_of_pos hpc, dropWhile_cons_of_pos hpc]
      exact ⟨congrArg _ ih.1, ih.2⟩
    · rw [takeWhile_cons_of_neg hpc, dropWhile_cons_of_neg hpc]
      by_cases hc : R.isAlnum c = true
      · rw [keptFrom_alnum hc, takeWhile_cons_of_neg hpc, dropWhile_cons_of_neg hpc]
        exact ⟨rfl, rfl⟩
      · obtain ⟨d, q, hkept, hd⟩ := exists_keptFrom (Bool.eq_false_iff.mpr hc) false cs
        have hpd : ¬p d = true := fun h => by simp [hp d h] at hd
        rw [hkept, takeWhile_cons_of_neg hpd, dropWhile_cons_of_neg hpd]
        exact ⟨rfl, rfl⟩

theorem upToSegment_keptFrom_true (s : Str) :
    upToSegment R (keptFrom R true s) = keptFrom R false (skipped R s) := by
  induction s with
  | nil => rfl
  | cons c cs ih =>
    by_cases hc : R.isAlnum c = true
    · have hskip : skipped R (c :: cs) = c :: cs := dropWhile_cons_of_neg (by simp [hc])
      have hnot : ¬isSeparator R c = true := by simp [isSeparator, hc]
      rw [hskip, keptFrom_alnum hc, keptFrom_alnum hc, upToSegment,
        dropWhile_cons_of_neg hnot]
    · have hskip : skipped R (c :: cs) = skipped R cs := dropWhile_cons_of_pos (by simp [hc])
      have hseparator : isSeparator R (if c = '~' ∨ c = '^' then '.' else c) = true := by
        split_ifs with hmark
        · simp [isSeparator, isAlnum_mark.2.2]
        · simpa [isSeparator, hc, not_or] using hmark
      rw [keptFrom, if_neg hc, if_neg (by simp), hskip, upToSegment,
        dropWhile_cons_of_pos hseparator]
      exact ih

theorem upToSegment_kept (h : s.head? ≠ some '~') :
    upToSegment R (kept R s) = kept R (skipped R s) := by
  rcases s with _ | ⟨c, cs⟩
  · rfl
  by_cases hc : R.isAlnum c = true
  · have hskip : skipped R (c :: cs) = c :: cs := dropWhile_cons_of_neg (by simp [hc])
    have hnot : ¬isSeparator R c = true := by simp [isSeparator, hc]
    rw [hskip, kept, keptFrom_alnum hc, upToSegment, dropWhile_cons_of_neg hnot]
  · have hsame : kept R (c :: cs) = keptFrom R true (c :: cs) := by
      have hne : c ≠ '~' := fun heq => h (congrArg some heq)
      simp only [kept, keptFrom, hc, hne, false_and, if_false]
    rw [hsame, upToSegment_keptFrom_true]
    rfl

theorem upToSegment_kept_tilde (cs : Str) :
    upToSegment R (kept R ('~' :: cs)) = '~' :: kept R cs := by
  have hkept : kept R ('~' :: cs) = '~' :: kept R cs := by
    rw [kept, keptFrom, if_neg (by simp [isAlnum_mark.1]), if_pos ⟨rfl, rfl⟩]
    rfl
  rw [hkept, upToSegment, dropWhile_cons_of_neg (by simp [isSeparator])]

/-! ### The loop and the reference -/

/-- **A token of the loop and a segment of RPM** that stand for the same. -/
inductive Stands : ℕ × ℕ × Str → ℕ × ℕ × Str → Prop
  | tilde : Stands (0, 0, []) (0, 0, [])
  | fin : Stands (1, 0, []) (1, 0, [])
  | word (w : Str) : Stands (2, 0, w) (3, 0, w)
  | number {s : Str} (hs : ∀ c ∈ s, c.isDigit = true) :
      Stands (3, (stripZeros s).length, stripZeros s) (4, valueOf s, [])

theorem Stands.tokenCmp_eq {x x' y y' : ℕ × ℕ × Str} (hx : Stands x x') (hy : Stands y y') :
    tokenCmp x' y' = tokenCmp x y := by
  cases hx with
  | number hs =>
    cases hy with
    | number ht =>
      have hnumber := numberCmp_stripZeros hs ht
      rw [numberCmp] at hnumber
      simp only [tokenCmp, Std.compare_self, Ordering.eq_then, hnumber]
      rw [strCmp_eq_eq.mpr rfl, Ordering.then_eq]
    | _ => rw [tokenCmp_of_gt (by simp), tokenCmp_of_gt (by simp)]
  | _ =>
    cases hy with
    | number => rw [tokenCmp_of_lt (by simp), tokenCmp_of_lt (by simp)]
    | _ => rfl

theorem isAlnum_of_isDigit {c : Char} (hc : R.isDigit c = true) : R.isAlnum c = true := by
  simp [Runtime.isAlnum, hc]

theorem isAlnum_of_isAlpha {c : Char} (hc : R.isAlpha c = true) : R.isAlnum c = true := by
  simp [Runtime.isAlnum, hc]

/-- **The loop reads of a text what RPM reads of what is left of it.** -/
theorem stands_kept (hs : ∀ c ∈ s, IsAscii c) :
    Stands (token R s) (firstSegment R (kept R s)) ∧
      behindSegment R (kept R s) = kept R (tokenRest R s) := by
  by_cases htilde : s.head? = some '~'
  · obtain ⟨cs, rfl⟩ := head?_eq_some_iff.mp htilde
    unfold firstSegment behindSegment token tokenRest
    rw [upToSegment_kept_tilde, if_pos htilde, if_pos htilde]
    exact ⟨.tilde, rfl⟩
  unfold firstSegment behindSegment token tokenRest
  rw [upToSegment_kept htilde, if_neg htilde, if_neg htilde]
  have hsub : ∀ c ∈ skipped R s, IsAscii c :=
    fun c hc => hs c ((dropWhile_sublist _).subset hc)
  rcases hskipped : skipped R s with _ | ⟨c, cs⟩
  · exact ⟨.fin, rfl⟩
  have halnum := skipped_head hskipped
  have hmarks : c ≠ '~' ∧ c ≠ '^' := by
    constructor <;> rintro rfl
    · simp [isAlnum_mark.1] at halnum
    · simp [isAlnum_mark.2.1] at halnum
  have hdigits := keptFrom_run (R := R) (fun c hc => isAlnum_of_isDigit hc) (c :: cs)
  have hletters := keptFrom_run (R := R) (fun c hc => isAlnum_of_isAlpha hc) (c :: cs)
  rw [hskipped] at hsub
  rw [keptFrom_alnum halnum] at hdigits hletters
  rw [kept, keptFrom_alnum halnum]
  simp only [hmarks.1, hmarks.2, if_false, or_self, reduceCtorEq, startsDigit, head?_cons,
    Option.any_some, hdigits.1, hdigits.2, hletters.1, hletters.2]
  by_cases hd : R.isDigit c = true
  · simp only [hd, if_true]
    refine ⟨.number fun d hmem => ?_, rfl⟩
    have hdigit : R.isDigit d = true := mem_takeWhile_imp hmem
    rwa [R.isDigit_ascii d (hsub d ((takeWhile_sublist _).subset hmem))] at hdigit
  · simp only [hd, if_false, Bool.false_eq_true]
    exact ⟨.word _, rfl⟩

/-- **The loop compares what it sees of two versions as RPM does.** -/
theorem rpmCmp_eq (ha : ∀ c ∈ a, IsAscii c) (hb : ∀ c ∈ b, IsAscii c) :
    rpmCmp R a b = rpmvercmp R (kept R a) (kept R b) := by
  unfold rpmCmp streamCmpAll rpmvercmp
  rw [kept, kept, length_keptFrom, length_keptFrom]
  symm
  refine streamCmp_map (I := fun s => ∀ c ∈ s, IsAscii c) (f := kept R) ?_ ?_ ?_ _ ha hb
  · intro s hs
    rw [tokenTail_of_not_stuck (not_stuck_of_ascii hs)]
    exact fun c hc => hs c (tokenRest_subset s hc)
  · exact fun s t hs ht => (stands_kept hs).1.tokenCmp_eq (stands_kept ht).1
  · intro s hs
    rw [tokenTail_of_not_stuck (not_stuck_of_ascii hs)]
    exact (stands_kept hs).2

/-- **The loop compares two versions as RPM does** exactly if RPM compares them like what is left of
them, with a separator for each caret, and for each tilde that does not stand right behind a
segment. -/
theorem rpmComparePart_eq_iff (ha : ∀ c ∈ a, IsAscii c) (hb : ∀ c ∈ b, IsAscii c) :
    rpmComparePart R a b = .ok (rpmvercmp R a b) ↔
      rpmvercmp R (kept R a) (kept R b) = rpmvercmp R a b := by
  obtain ⟨o, ho⟩ := rpmComparePart_ascii ha hb
  rw [ho, Except.ok.injEq, ← rpmCmp_eq ha hb, rpmComparePart_eq_of_ok ho]

/-- On a release and an update of it, they agree. -/
theorem rpmComparePart_update : rpmComparePart Runtime.ascii "1.0~rc1" "1.0" =
    .ok (rpmvercmp Runtime.ascii "1.0~rc1" "1.0") :=
  (rpmComparePart_eq_iff (by decide) (by decide)).mpr (by decide)

/-- A candidate whose tilde stands behind a dot is taken to be newer than the release. -/
theorem dotted_candidate : ¬∀ a b : Str, (∀ c ∈ a, IsAscii c) → (∀ c ∈ b, IsAscii c) →
    rpmComparePart Runtime.ascii a b = .ok (rpmvercmp Runtime.ascii a b) := by
  intro h
  have hsame := h "1.~rc1" "1" (by decide) (by decide)
  revert hsame
  decide

end Guardian.Versioning

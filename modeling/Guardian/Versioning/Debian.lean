import Guardian.Python.Text
import Guardian.Order.StreamLex

/-!
# Debian's comparison of a part

`debianLoop` is the comparison loop as the source runs it: two positions, here the two rests of the
texts, and a verdict as soon as there is one.  The numbers `-1`, `0`, `1` it returns are the
`Ordering`s.  A `while` loop gets a count of rounds that is enough for every run that ends; running
out of it is `Fault.diverges`.

The loop takes both texts apart into segments, a run of other characters with the run of digits
after it, and stops at the first segment that differs.
-/

namespace Guardian.Versioning

open Python Guardian.Order List
open Std (TransCmp ReflCmp OrientedCmp)

variable (R : Runtime)

def startsDigit (s : Str) : Bool := s.head?.any R.isDigit

/-- The text starts with a character that is no digit. -/
def startsNonDigit (s : Str) : Bool := s.head?.any fun c => !R.isDigit c

/-! ### The loop -/

/-- `_debian_order`. -/
def debianOrder (c : Char) : ℤ :=
  if c = '~' then -1
  else if R.isDigit c then 0
  else if R.isAlpha c then c.toNat
  else c.toNat + 256

/-- The order of the next character; `0` at the end of the text. -/
def headOrder : Str → ℤ
  | [] => 0
  | c :: _ => debianOrder R c

/-- The loop over the characters before the digits: a verdict, or the two rests. -/
def nonDigitLoop : ℕ → Str → Str → Ordering ⊕ (Str × Str)
  | 0, a, b => .inr (a, b)
  | n + 1, a, b =>
    if startsNonDigit R a || startsNonDigit R b then
      if headOrder R a ≠ headOrder R b then
        .inl (if headOrder R a < headOrder R b then .lt else .gt)
      else nonDigitLoop n a.tail b.tail
    else .inr (a, b)

/-- The loop over two runs of digits: `first_diff` and the two rests. -/
def digitLoop : Ordering → Str → Str → Ordering × Str × Str
  | d, a :: as, b :: bs =>
    if R.isDigit a && R.isDigit b then digitLoop (if d = .eq then compare a b else d) as bs
    else (d, a :: as, b :: bs)
  | d, a, b => (d, a, b)

/-- The outer loop. -/
def debianLoop : ℕ → Str → Str → Except Fault Ordering
  | 0, _, _ => .error .diverges
  | n + 1, a, b =>
    if a = [] ∧ b = [] then .ok .eq
    else
      match nonDigitLoop R (a.length + b.length) a b with
      | .inl o => .ok o
      | .inr (a, b) =>
        match digitLoop R .eq (a.dropWhile (· == '0')) (b.dropWhile (· == '0')) with
        | (d, a, b) =>
          if startsDigit R a then .ok .gt
          else if startsDigit R b then .ok .lt
          else if d ≠ .eq then .ok d
          else debianLoop n a b

/-- `_debian_compare_part`. -/
def debianComparePart (a b : Str) : Except Fault Ordering :=
  debianLoop R (a.length + b.length + 1) a b

/-! ### Segments -/

/-- The characters before the first digit. -/
def nonDigits (s : Str) : Str := s.takeWhile fun c => !R.isDigit c

/-- What comes after them, without leading zeros. -/
def segmentNumber (s : Str) : Str :=
  (s.dropWhile fun c => !R.isDigit c).dropWhile (· == '0')

/-- **A segment**: other characters, then the digits after them. -/
def segment (s : Str) : Str × Str := (nonDigits R s, (segmentNumber R s).takeWhile R.isDigit)

/-- The text after the first segment. -/
def segmentRest (s : Str) : Str := (segmentNumber R s).dropWhile R.isDigit

/-- The comparison of two runs of other characters. -/
def nonDigitCmp : Str → Str → Ordering :=
  streamCmpAll compare (headOrder R) List.tail List.length

/-- The comparison of two numbers without leading zeros. -/
def numberCmp (a b : Str) : Ordering := (compare a.length b.length).then (strCmp a b)

/-- The comparison of two segments. -/
def segmentCmp (x y : Str × Str) : Ordering := (nonDigitCmp R x.1 y.1).then (numberCmp x.2 y.2)

theorem length_tail_le (s : Str) : s.tail.length ≤ s.length - 1 := by simp

variable {R} in
theorem headOrder_of_length (s t : Str) (hs : s.length = 0) (ht : t.length = 0) :
    compare (headOrder R s) (headOrder R t) = .eq := by
  rw [length_eq_zero_iff] at hs ht
  subst hs ht
  rfl

instance : TransCmp numberCmp :=
  inferInstanceAs (TransCmp (compareLex (compareOn List.length) strCmp))

instance : TransCmp (nonDigitCmp R) :=
  streamCmpAll_transCmp length_tail_le headOrder_of_length

instance : TransCmp (segmentCmp R) :=
  have : TransCmp fun x y : Str × Str => nonDigitCmp R x.1 y.1 := transCmp_on _ Prod.fst
  have : TransCmp fun x y : Str × Str => numberCmp x.2 y.2 := transCmp_on _ Prod.snd
  inferInstanceAs (TransCmp (compareLex (fun x y : Str × Str => nonDigitCmp R x.1 y.1)
    fun x y => numberCmp x.2 y.2))

variable {R}

theorem debianOrder_eq_zero_iff (c : Char) : debianOrder R c = 0 ↔ R.isDigit c = true := by
  unfold debianOrder
  split_ifs with h1 h2 h3
  · subst h1
    rw [R.isDigit_ascii _ (by decide)]
    decide
  · simp [h2]
  · have hpos : c.toNat ≠ 0 := by
      intro h0
      have hc : c = Char.ofNat 0 := by rw [← h0, Char.ofNat_toNat]
      rw [hc, R.isAlpha_ascii _ (by decide)] at h3
      exact absurd h3 (by decide)
    simp only [h2, Bool.false_eq_true, iff_false]
    omega
  · simp only [h2, Bool.false_eq_true, iff_false]
    omega

theorem headOrder_eq_zero_iff (s : Str) : headOrder R s = 0 ↔ startsNonDigit R s = false := by
  cases s with
  | nil => simp [headOrder, startsNonDigit]
  | cons c s => simp [headOrder, startsNonDigit, debianOrder_eq_zero_iff]

theorem headOrder_nonDigits (s : Str) : headOrder R (nonDigits R s) = headOrder R s := by
  cases s with
  | nil => rfl
  | cons c s =>
    by_cases hc : R.isDigit c = true
    · have h0 : debianOrder R c = 0 := (debianOrder_eq_zero_iff c).mpr hc
      simp [nonDigits, hc, h0, headOrder]
    · simp [nonDigits, hc, headOrder]

theorem nonDigits_of_startsNonDigit {s : Str} (h : startsNonDigit R s = false) :
    nonDigits R s = [] ∧ (s.dropWhile fun c => !R.isDigit c) = s := by
  cases s with
  | nil => exact ⟨rfl, rfl⟩
  | cons c s =>
    have hc : R.isDigit c = true := by simpa [startsNonDigit] using h
    simp [nonDigits, hc]

/-- **The first inner loop** compares the runs of other characters and, where they agree, leaves
the two texts at their digits. -/
theorem nonDigitLoop_eq (n : ℕ) {a b : Str} (ha : a.length ≤ n) (hb : b.length ≤ n) :
    nonDigitLoop R n a b =
      if streamCmp compare (headOrder R) List.tail n (nonDigits R a) (nonDigits R b) = .eq then
        .inr (a.dropWhile fun c => !R.isDigit c, b.dropWhile fun c => !R.isDigit c)
      else .inl (streamCmp compare (headOrder R) List.tail n (nonDigits R a) (nonDigits R b)) := by
  induction n generalizing a b with
  | zero =>
    obtain rfl := length_eq_zero_iff.mp (Nat.le_zero.mp ha)
    obtain rfl := length_eq_zero_iff.mp (Nat.le_zero.mp hb)
    rfl
  | succ n ih =>
    rw [nonDigitLoop, streamCmp_succ, headOrder_nonDigits, headOrder_nonDigits]
    by_cases hab : headOrder R a = headOrder R b
    · rw [hab, Std.compare_self, Ordering.eq_then]
      have hstart : startsNonDigit R a = startsNonDigit R b := by
        rw [Bool.eq_iff_iff, ← not_iff_not, Bool.not_eq_true, Bool.not_eq_true,
          ← headOrder_eq_zero_iff, ← headOrder_eq_zero_iff, hab]
      rcases hsb : startsNonDigit R b with _ | _
      · -- both sides stand at a digit or at their end
        rw [hsb] at hstart
        have hna := nonDigits_of_startsNonDigit hstart
        have hnb := nonDigits_of_startsNonDigit hsb
        have hnil : streamCmp compare (headOrder R) List.tail n ([] : Str).tail [].tail = .eq :=
          ReflCmp.compare_self
        rw [hstart, hna.1, hnb.1, hna.2, hnb.2, hnil]
        rfl
      · -- both sides go on with their next character
        rw [hsb] at hstart
        rcases a with _ | ⟨c, a⟩
        · simp [startsNonDigit] at hstart
        rcases b with _ | ⟨d, b⟩
        · simp [startsNonDigit] at hsb
        have hc : R.isDigit c = false := by simpa [startsNonDigit] using hstart
        have hd : R.isDigit d = false := by simpa [startsNonDigit] using hsb
        have hrec := ih (a := a) (b := b) (by simpa using ha) (by simpa using hb)
        simp only [hstart, Bool.true_or, if_true, ne_eq, not_true_eq_false, if_false,
          tail_cons, nonDigits, takeWhile_cons, hc, hd, Bool.not_false,
          dropWhile_cons]
        exact hrec
    · have hstart : (startsNonDigit R a || startsNonDigit R b) = true := by
        by_contra h
        rw [Bool.not_eq_true, Bool.or_eq_false_iff, ← headOrder_eq_zero_iff,
          ← headOrder_eq_zero_iff] at h
        exact hab (h.1.trans h.2.symm)
      have hne := mt compare_eq_iff_eq.mp hab
      rw [hstart, if_pos rfl, if_pos hab, compare_of_ne hab, then_of_ne hne]
      exact (if_neg hne).symm

theorem nonDigitLoop_eq_cmp (a b : Str) :
    nonDigitLoop R (a.length + b.length) a b =
      if nonDigitCmp R (nonDigits R a) (nonDigits R b) = .eq then
        .inr (a.dropWhile fun c => !R.isDigit c, b.dropWhile fun c => !R.isDigit c)
      else .inl (nonDigitCmp R (nonDigits R a) (nonDigits R b)) := by
  have hla : (nonDigits R a).length ≤ a.length := (takeWhile_sublist _).length_le
  have hlb : (nonDigits R b).length ≤ b.length := (takeWhile_sublist _).length_le
  have hall : streamCmp compare (headOrder R) List.tail (a.length + b.length) (nonDigits R a)
      (nonDigits R b) = nonDigitCmp R (nonDigits R a) (nonDigits R b) :=
    streamCmpAll_eq length_tail_le headOrder_of_length (by omega) (by omega)
  rw [nonDigitLoop_eq _ (by omega) (by omega), hall]

/-- **The second inner loop** walks the two runs of digits to the end of the shorter one, and
remembers the first difference. -/
theorem digitLoop_spec (d : Ordering) (a b : Str) :
    startsDigit R (digitLoop R d a b).2.1 =
        decide ((b.takeWhile R.isDigit).length < (a.takeWhile R.isDigit).length) ∧
      startsDigit R (digitLoop R d a b).2.2 =
        decide ((a.takeWhile R.isDigit).length < (b.takeWhile R.isDigit).length) ∧
      ((a.takeWhile R.isDigit).length = (b.takeWhile R.isDigit).length →
        digitLoop R d a b = (d.then (strCmp (a.takeWhile R.isDigit) (b.takeWhile R.isDigit)),
          a.dropWhile R.isDigit, b.dropWhile R.isDigit)) := by
  induction a generalizing d b with
  | nil =>
    rw [digitLoop]
    · rcases b with _ | ⟨c, b⟩
      · refine ⟨rfl, rfl, fun _ => ?_⟩
        simp [strCmp_eq_eq.mpr rfl]
      · by_cases hc : R.isDigit c = true
        · simp [startsDigit, hc]
        · simp [startsDigit, hc, strCmp_eq_eq.mpr rfl]
    · simp
  | cons c a ih =>
    rcases b with _ | ⟨e, b⟩
    · rw [digitLoop]
      · by_cases hc : R.isDigit c = true
        · simp [startsDigit, hc]
        · simp [startsDigit, hc, strCmp_eq_eq.mpr rfl]
      · simp
    · rw [digitLoop]
      by_cases hc : R.isDigit c = true
      · by_cases he : R.isDigit e = true
        · obtain ⟨h1, h2, h3⟩ := ih (if d = .eq then compare c e else d) b
          simp only [hc, he, Bool.and_true, if_true, takeWhile_cons, length_cons,
            dropWhile_cons, Nat.add_lt_add_iff_right, Nat.add_right_cancel_iff]
          refine ⟨h1, h2, fun hlen => ?_⟩
          rw [h3 hlen, strCmp_cons, ← Ordering.then_assoc]
          cases d <;> rfl
        · simp [startsDigit, hc, he]
      · by_cases he : R.isDigit e = true
        · simp [startsDigit, hc, he]
        · simp [startsDigit, hc, he, strCmp_eq_eq.mpr rfl]

theorem digitLoop_verdict (n : ℕ) (x y : Str) :
    (match digitLoop R .eq x y with
      | (d, a, b) =>
        if startsDigit R a then .ok .gt
        else if startsDigit R b then .ok .lt
        else if d ≠ .eq then .ok d
        else debianLoop R n a b) =
      if numberCmp (x.takeWhile R.isDigit) (y.takeWhile R.isDigit) ≠ .eq then
        .ok (numberCmp (x.takeWhile R.isDigit) (y.takeWhile R.isDigit))
      else debianLoop R n (x.dropWhile R.isDigit) (y.dropWhile R.isDigit) := by
  obtain ⟨h1, h2, h3⟩ := digitLoop_spec (R := R) .eq x y
  unfold numberCmp
  rcases lt_trichotomy (x.takeWhile R.isDigit).length (y.takeWhile R.isDigit).length
    with h | h | h
  · simp only [h1, h2, h, h.not_gt, decide_true, decide_false, Bool.false_eq_true, if_false,
      compare_lt_iff_lt.mpr h, Ordering.lt_then]
    rfl
  · simp only [h, lt_self_iff_false, decide_false] at h1 h2
    rw [h3 h] at h1 h2 ⊢
    simp only [h1, h2, h, Bool.false_eq_true, if_false, Std.compare_self, Ordering.eq_then]
  · simp only [h1, h, decide_true, if_true, compare_gt_iff_gt.mpr h, Ordering.gt_then]
    rfl

/-- **One round of Debian's loop** compares the first segments. -/
theorem debianLoop_succ (n : ℕ) (a b : Str) :
    debianLoop R (n + 1) a b =
      if (a = [] ∧ b = []) ∨ segmentCmp R (segment R a) (segment R b) ≠ .eq then
        .ok (segmentCmp R (segment R a) (segment R b))
      else debianLoop R n (segmentRest R a) (segmentRest R b) := by
  rw [debianLoop]
  by_cases hab : a = [] ∧ b = []
  · obtain ⟨rfl, rfl⟩ := hab
    have hself : segmentCmp R (segment R []) (segment R []) = .eq := ReflCmp.compare_self
    rw [if_pos ⟨rfl, rfl⟩, if_pos (Or.inl ⟨rfl, rfl⟩), hself]
  rw [if_neg hab, nonDigitLoop_eq_cmp]
  simp only [hab, false_or]
  by_cases hnd : nonDigitCmp R (nonDigits R a) (nonDigits R b) = .eq
  · have hseg : segmentCmp R (segment R a) (segment R b) =
        numberCmp (segment R a).2 (segment R b).2 := by
      unfold segmentCmp
      change Ordering.then (nonDigitCmp R (nonDigits R a) (nonDigits R b)) _ = _
      rw [hnd, Ordering.eq_then]
    rw [if_pos hnd, hseg]
    exact digitLoop_verdict n (segmentNumber R a) (segmentNumber R b)
  · have hseg : segmentCmp R (segment R a) (segment R b) =
        nonDigitCmp R (nonDigits R a) (nonDigits R b) := then_of_ne hnd
    rw [if_neg hnd, hseg, if_pos hnd]

theorem segmentRest_length_le (s : Str) : (segmentRest R s).length ≤ s.length - 1 := by
  have hsub : (segmentRest R s).Sublist s :=
    ((dropWhile_sublist _).trans (dropWhile_sublist _)).trans (dropWhile_sublist _)
  rcases s with _ | ⟨c, s⟩
  · simpa using hsub.length_le
  -- the first character belongs to the segment
  have hrest : (segmentRest R (c :: s)).Sublist s := by
    by_cases hc : R.isDigit c = true
    · by_cases h0 : c = '0'
      · subst h0
        simp only [segmentRest, segmentNumber, dropWhile_cons, hc, Bool.not_true,
          Bool.false_eq_true, if_false, beq_self_eq_true, if_true]
        exact (dropWhile_sublist _).trans (dropWhile_sublist _)
      · simp only [segmentRest, segmentNumber, dropWhile_cons, hc, Bool.not_true,
          Bool.false_eq_true, if_false, beq_eq_false_iff_ne.mpr h0, if_true]
        exact dropWhile_sublist _
    · simp only [segmentRest, segmentNumber, dropWhile_cons, hc, Bool.not_false, if_true]
      exact ((dropWhile_sublist _).trans (dropWhile_sublist _)).trans
        (dropWhile_sublist _)
  simpa using hrest.length_le

theorem segment_of_length (s t : Str) (hs : s.length = 0) (ht : t.length = 0) :
    segmentCmp R (segment R s) (segment R t) = .eq := by
  rw [length_eq_zero_iff] at hs ht
  subst hs ht
  exact ReflCmp.compare_self

variable (R) in
/-- **Debian's order of parts**: segment by segment. -/
def debianCmp : Str → Str → Ordering :=
  streamCmpAll (segmentCmp R) (segment R) (segmentRest R) List.length

instance : TransCmp (debianCmp R) :=
  streamCmpAll_transCmp segmentRest_length_le segment_of_length

theorem debianLoop_eq (n : ℕ) {a b : Str} (h : a.length + b.length < n) :
    debianLoop R n a b = .ok (streamCmp (segmentCmp R) (segment R) (segmentRest R) n a b) := by
  induction n generalizing a b with
  | zero => omega
  | succ n ih =>
    rw [debianLoop_succ, streamCmp_succ]
    by_cases hseg : segmentCmp R (segment R a) (segment R b) = .eq
    · by_cases hab : a = [] ∧ b = []
      · obtain ⟨rfl, rfl⟩ := hab
        have hrest : streamCmp (segmentCmp R) (segment R) (segmentRest R) n (segmentRest R [])
            (segmentRest R []) = .eq := ReflCmp.compare_self
        rw [if_pos (Or.inl ⟨rfl, rfl⟩), hseg, Ordering.eq_then, hrest]
      · have hne : 0 < a.length + b.length := by
          rcases a with _ | ⟨c, a⟩
          · rcases b with _ | ⟨d, b⟩
            · exact absurd ⟨rfl, rfl⟩ hab
            · simp
          · exact Nat.add_pos_left (Nat.succ_pos _) _
        have hla := segmentRest_length_le (R := R) a
        have hlb := segmentRest_length_le (R := R) b
        rw [if_neg (by simp [hab, hseg]), hseg, Ordering.eq_then, ih (by omega)]
    · rw [if_pos (Or.inr hseg), then_of_ne hseg]

theorem debianComparePart_eq (a b : Str) : debianComparePart R a b = .ok (debianCmp R a b) := by
  rw [debianComparePart, debianLoop_eq _ (by omega),
    streamCmpAll_eq segmentRest_length_le segment_of_length (by omega) (by omega)]
  rfl

end Guardian.Versioning

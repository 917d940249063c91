import Guardian.Versioning.Debian

/-!
# RPM's comparison of a part

`rpmLoop` is the loop of `rpmvercmp`, in the form of `debianLoop`.  It takes both texts apart into
tokens, a tilde, a word or a number with the separators before it, or the end of the text.
`rpmEnds_iff` says when it ends.
-/

namespace Guardian.Versioning

open Python Guardian.Order List
open Std (TransCmp ReflCmp OrientedCmp)

variable (R : Runtime)

/-! ### The loop -/

/-- The verdict once a side is used up. -/
def rpmEnd (a b : Str) : Ordering :=
  if a = [] ∧ b = [] then .eq else if a ≠ [] then .gt else .lt

/-- A number without its leading zeros: `s.lstrip("0") or "0"`. -/
def stripZeros (s : Str) : Str :=
  if s.dropWhile (· == '0') = [] then ['0'] else s.dropWhile (· == '0')

/-- The loop of `_rpm_compare_part`. -/
def rpmLoop : ℕ → Str → Str → Except Fault Ordering
  | 0, _, _ => .error .diverges
  | n + 1, a, b =>
    if a = [] ∧ b = [] then .ok (rpmEnd a b)
    else if a.head? = some '~' ∧ b.head? = some '~' then rpmLoop n a.tail b.tail
    else if a.head? = some '~' then .ok .lt
    else if b.head? = some '~' then .ok .gt
    else
      let a := a.dropWhile fun c => !R.isAlnum c
      let b := b.dropWhile fun c => !R.isAlnum c
      if a = [] ∨ b = [] then .ok (rpmEnd a b)
      else if startsDigit R a then
        if !startsDigit R b then .ok .gt
        else
          let na := stripZeros (a.takeWhile R.isDigit)
          let nb := stripZeros (b.takeWhile R.isDigit)
          if na.length ≠ nb.length then .ok (if na.length < nb.length then .lt else .gt)
          else if na ≠ nb then .ok (if na < nb then .lt else .gt)
          else rpmLoop n (a.dropWhile R.isDigit) (b.dropWhile R.isDigit)
      else if startsDigit R b then .ok .lt
      else
        let sa := a.takeWhile R.isAlpha
        let sb := b.takeWhile R.isAlpha
        if sa ≠ sb then .ok (if sa < sb then .lt else .gt)
        else rpmLoop n (a.dropWhile R.isAlpha) (b.dropWhile R.isAlpha)

/-- `_rpm_compare_part`. -/
def rpmComparePart (a b : Str) : Except Fault Ordering :=
  rpmLoop R (a.length + b.length + 1) a b

/-! ### Rounds -/

/-- What a round comes to. -/
inductive Round
  | verdict (o : Ordering)
  | goOn (a b : Str)

/-- A round with what comes after it. -/
def Round.run (go : Str → Str → Except Fault Ordering) : Round → Except Fault Ordering
  | .verdict o => .ok o
  | .goOn a b => go a b

@[simp] theorem Round.run_verdict (go : Str → Str → Except Fault Ordering) (o : Ordering) :
    (Round.verdict o).run go = .ok o := rfl

@[simp] theorem Round.run_goOn (go : Str → Str → Except Fault Ordering) (a b : Str) :
    (Round.goOn a b).run go = go a b := rfl

@[simp] theorem Round.run_ite (go : Str → Str → Except Fault Ordering) (c : Prop) [Decidable c]
    (x y : Round) : (if c then x else y).run go = if c then x.run go else y.run go :=
  apply_ite (Round.run go) c x y

/-- **One round** of the loop of `_rpm_compare_part`, or what follows the loop. -/
def rpmRound (a b : Str) : Round :=
  if a = [] ∧ b = [] then .verdict (rpmEnd a b)
  else if a.head? = some '~' ∧ b.head? = some '~' then .goOn a.tail b.tail
  else if a.head? = some '~' then .verdict .lt
  else if b.head? = some '~' then .verdict .gt
  else
    let a := a.dropWhile fun c => !R.isAlnum c
    let b := b.dropWhile fun c => !R.isAlnum c
    if a = [] ∨ b = [] then .verdict (rpmEnd a b)
    else if startsDigit R a then
      if !startsDigit R b then .verdict .gt
      else
        let na := stripZeros (a.takeWhile R.isDigit)
        let nb := stripZeros (b.takeWhile R.isDigit)
        if na.length ≠ nb.length then .verdict (if na.length < nb.length then .lt else .gt)
        else if na ≠ nb then .verdict (if na < nb then .lt else .gt)
        else .goOn (a.dropWhile R.isDigit) (b.dropWhile R.isDigit)
    else if startsDigit R b then .verdict .lt
    else
      let sa := a.takeWhile R.isAlpha
      let sb := b.takeWhile R.isAlpha
      if sa ≠ sb then .verdict (if sa < sb then .lt else .gt)
      else .goOn (a.dropWhile R.isAlpha) (b.dropWhile R.isAlpha)

theorem rpmLoop_succ_round (n : ℕ) (a b : Str) :
    rpmLoop R (n + 1) a b = (rpmRound R a b).run (rpmLoop R n) := by
  rw [rpmLoop, rpmRound]
  simp only [Round.run_ite, Round.run_verdict, Round.run_goOn]

/-! ### Tokens -/

/-- The text from its next alphanumeric character on. -/
def skipped (s : Str) : Str := s.dropWhile fun c => !R.isAlnum c

def rpmNumber (s : Str) : Str := stripZeros (s.takeWhile R.isDigit)

/-- **A token**: its rank, the length of a number, its text.  The ranks are those of a tilde, the
end of the text, a word, a number. -/
def token (s : Str) : ℕ × ℕ × Str :=
  if s.head? = some '~' then (0, 0, [])
  else if skipped R s = [] then (1, 0, [])
  else if startsDigit R (skipped R s) then
    (3, (rpmNumber R (skipped R s)).length, rpmNumber R (skipped R s))
  else (2, 0, (skipped R s).takeWhile R.isAlpha)

/-- The text after its first token. -/
def tokenRest (s : Str) : Str :=
  if s.head? = some '~' then s.tail
  else if startsDigit R (skipped R s) then (skipped R s).dropWhile R.isDigit
  else (skipped R s).dropWhile R.isAlpha

def tokenCmp (x y : ℕ × ℕ × Str) : Ordering :=
  (compare x.1 y.1).then ((compare x.2.1 y.2.1).then (strCmp x.2.2 y.2.2))

instance : TransCmp tokenCmp :=
  have : TransCmp fun x y : ℕ × ℕ × Str => strCmp x.2.2 y.2.2 :=
    transCmp_on _ fun x : ℕ × ℕ × Str => x.2.2
  inferInstanceAs (TransCmp (compareLex (compareOn Prod.fst)
    (compareLex (compareOn fun x : ℕ × ℕ × Str => x.2.1)
      fun x y : ℕ × ℕ × Str => strCmp x.2.2 y.2.2)))

theorem tokenCmp_eq_eq {x y : ℕ × ℕ × Str} : tokenCmp x y = .eq ↔ x = y := by
  obtain ⟨r, l, s⟩ := x
  obtain ⟨r', l', t⟩ := y
  simp only [tokenCmp, Ordering.then_eq_eq, strCmp_eq_eq, Prod.mk.injEq]
  rw [compare_eq_iff_eq, compare_eq_iff_eq]

theorem tokenCmp_of_lt {x y : ℕ × ℕ × Str} (h : x.1 < y.1) : tokenCmp x y = .lt := by
  rw [tokenCmp, compare_lt_iff_lt.mpr h, Ordering.lt_then]

theorem tokenCmp_of_gt {x y : ℕ × ℕ × Str} (h : y.1 < x.1) : tokenCmp x y = .gt := by
  rw [tokenCmp, compare_gt_iff_gt.mpr h, Ordering.gt_then]

theorem tokenCmp_word {r l : ℕ} {s t : Str} (hst : s ≠ t) :
    tokenCmp (r, l, s) (r, l, t) = if s < t then .lt else .gt := by
  unfold tokenCmp strCmp compareOfLessAndEq
  simp [hst]

variable {R}

/-- The part of a round after the tildes. -/
theorem rpmBody_eq {a b : Str} (ha : ¬ a.head? = some '~') (hb : ¬ b.head? = some '~') :
    (let a := skipped R a
      let b := skipped R b
      if a = [] ∨ b = [] then .verdict (rpmEnd a b)
      else if startsDigit R a then
        if !startsDigit R b then .verdict .gt
        else
          let na := stripZeros (a.takeWhile R.isDigit)
          let nb := stripZeros (b.takeWhile R.isDigit)
          if na.length ≠ nb.length then .verdict (if na.length < nb.length then .lt else .gt)
          else if na ≠ nb then .verdict (if na < nb then .lt else .gt)
          else .goOn (a.dropWhile R.isDigit) (b.dropWhile R.isDigit)
      else if startsDigit R b then .verdict .lt
      else
        let sa := a.takeWhile R.isAlpha
        let sb := b.takeWhile R.isAlpha
        if sa ≠ sb then .verdict (if sa < sb then .lt else .gt)
        else Round.goOn (a.dropWhile R.isAlpha) (b.dropWhile R.isAlpha)) =
      if tokenCmp (token R a) (token R b) ≠ .eq ∨ token R a = (1, 0, []) then
        .verdict (tokenCmp (token R a) (token R b))
      else .goOn (tokenRest R a) (tokenRest R b) := by
  unfold token tokenRest
  rw [if_neg ha, if_neg hb, if_neg ha, if_neg hb]
  generalize skipped R a = a
  generalize skipped R b = b
  by_cases ea : a = []
  · by_cases eb : b = []
    · subst ea eb
      rfl
    · have hlt : rpmEnd a b = .lt := by simp [rpmEnd, ea, eb]
      rw [if_pos (Or.inl ea), hlt, if_pos ea, if_neg eb]
      split_ifs <;> first | rfl | simp_all [tokenCmp_of_lt]
  by_cases eb : b = []
  · have hgt : rpmEnd a b = .gt := by simp [rpmEnd, ea, eb]
    rw [if_pos (Or.inr eb), hgt, if_neg ea, if_pos eb]
    split_ifs <;> first | rfl | simp_all [tokenCmp_of_gt]
  simp only [ea, eb, or_self, if_false]
  rcases da : startsDigit R a with _ | _
  · rcases db : startsDigit R b with _ | _
    · -- two words
      simp only [Bool.false_eq_true, if_false]
      by_cases hw : a.takeWhile R.isAlpha = b.takeWhile R.isAlpha
      · rw [hw, tokenCmp_eq_eq.mpr rfl]
        simp
      · have hne : tokenCmp (2, 0, a.takeWhile R.isAlpha) (2, 0, b.takeWhile R.isAlpha) ≠ .eq :=
          fun h => hw (congrArg (fun x => x.2.2) (tokenCmp_eq_eq.mp h))
        rw [if_pos hw, if_pos (Or.inl hne), tokenCmp_word hw]
    · have hlt : tokenCmp (2, 0, a.takeWhile R.isAlpha) (3, (rpmNumber R b).length, rpmNumber R b) =
          .lt := tokenCmp_of_lt (by simp)
      simp [hlt]
  · rcases db : startsDigit R b with _ | _
    · have hgt : tokenCmp (3, (rpmNumber R a).length, rpmNumber R a) (2, 0, b.takeWhile R.isAlpha) =
          .gt := tokenCmp_of_gt (by simp)
      simp [hgt]
    · -- two numbers
      have hnum : ∀ s, stripZeros (s.takeWhile R.isDigit) = rpmNumber R s := fun _ => rfl
      simp only [Bool.not_true, Bool.false_eq_true, if_false, if_true, hnum]
      by_cases hn : rpmNumber R a = rpmNumber R b
      · rw [hn, tokenCmp_eq_eq.mpr rfl]
        simp
      · have hne : tokenCmp (3, (rpmNumber R a).length, rpmNumber R a)
            (3, (rpmNumber R b).length, rpmNumber R b) ≠ .eq :=
          fun h => hn (congrArg (fun x => x.2.2) (tokenCmp_eq_eq.mp h))
        rw [if_pos (Or.inl hne)]
        by_cases hl : (rpmNumber R a).length = (rpmNumber R b).length
        · rw [if_neg (by simpa using hl), if_pos hn, hl, tokenCmp_word hn]
        · rw [if_pos hl, compare_of_ne hl]
          unfold tokenCmp
          simp only [Std.compare_self, Ordering.eq_then]
          rw [then_of_ne (mt compare_eq_iff_eq.mp hl)]

/-- **One round of RPM's loop** compares the first tokens. -/
theorem rpmRound_eq (a b : Str) :
    rpmRound R a b =
      if tokenCmp (token R a) (token R b) ≠ .eq ∨ token R a = (1, 0, []) then
        .verdict (tokenCmp (token R a) (token R b))
      else .goOn (tokenRest R a) (tokenRest R b) := by
  rw [rpmRound]
  by_cases hab : a = [] ∧ b = []
  · obtain ⟨rfl, rfl⟩ := hab
    rfl
  rw [if_neg hab]
  by_cases ha : a.head? = some '~'
  · have hta : token R a = (0, 0, []) := if_pos ha
    by_cases hb : b.head? = some '~'
    · have htb : token R b = (0, 0, []) := if_pos hb
      rw [if_pos ⟨ha, hb⟩, hta, htb, if_neg (by decide), tokenRest, if_pos ha, tokenRest,
        if_pos hb]
    · have hlt : tokenCmp (token R a) (token R b) = .lt := by
        refine tokenCmp_of_lt ?_
        rw [hta, token, if_neg hb]
        split_ifs <;> simp
      rw [if_neg (by simp [hb]), if_pos ha, hlt, if_pos (by simp)]
  by_cases hb : b.head? = some '~'
  · have htb : token R b = (0, 0, []) := if_pos hb
    have hgt : tokenCmp (token R a) (token R b) = .gt := by
      refine tokenCmp_of_gt ?_
      rw [htb, token, if_neg ha]
      split_ifs <;> simp
    rw [if_neg (by simp [ha]), if_neg ha, if_pos hb, hgt, if_pos (by simp)]
  rw [if_neg (by simp [ha]), if_neg ha, if_neg hb]
  exact rpmBody_eq ha hb

theorem rpmLoop_succ (n : ℕ) (a b : Str) :
    rpmLoop R (n + 1) a b =
      if tokenCmp (token R a) (token R b) ≠ .eq ∨ token R a = (1, 0, []) then
        .ok (tokenCmp (token R a) (token R b))
      else rpmLoop R n (tokenRest R a) (tokenRest R b) := by
  rw [rpmLoop_succ_round, rpmRound_eq, Round.run_ite, Round.run_verdict, Round.run_goOn]

theorem skipped_head {s cs : Str} {c : Char} (h : skipped R s = c :: cs) : R.isAlnum c = true := by
  have hhead := head?_dropWhile_not (fun c => !R.isAlnum c) s
  unfold skipped at h
  rw [h] at hhead
  simpa using hhead

variable (R) in
/-- The loop stands still on such a text: the next alphanumeric character is neither a digit nor
a letter. -/
def Stuck (s : Str) : Prop := token R s = (2, 0, [])

theorem stuck_iff {s : Str} : Stuck R s ↔ s.head? ≠ some '~' ∧
    ∃ c cs, skipped R s = c :: cs ∧ R.isDigit c = false ∧ R.isAlpha c = false := by
  unfold Stuck token
  by_cases h1 : s.head? = some '~'
  · simp [h1]
  rcases hs : skipped R s with _ | ⟨c, cs⟩
  · simp [h1]
  · rcases hd : R.isDigit c with _ | _ <;> rcases ha : R.isAlpha c with _ | _ <;>
      simp [h1, startsDigit, hd, ha]

theorem tokenRest_of_stuck {s : Str} (h : Stuck R s) :
    tokenRest R s = skipped R s ∧ Stuck R (skipped R s) := by
  obtain ⟨h1, c, cs, hs, hd, ha⟩ := stuck_iff.mp h
  have hc := skipped_head hs
  refine ⟨by simp [tokenRest, h1, hs, startsDigit, hd, ha], stuck_iff.mpr ⟨?_, c, cs, ?_, hd, ha⟩⟩
  · rw [hs]
    rintro ⟨⟩
    simp [Runtime.isAlnum, R.isDecimal_ascii, R.isDigit_ascii, R.isNumeric_ascii, R.isAlpha_ascii,
      show IsAscii '~' from by decide] at hc
  · unfold skipped at hs ⊢
    rw [dropWhile_idempotent, hs]

theorem rpmLoop_of_stuck (n : ℕ) {a b : Str} (ha : Stuck R a) (hb : Stuck R b) :
    rpmLoop R n a b = .error .diverges := by
  induction n generalizing a b with
  | zero => rfl
  | succ n ih =>
    obtain ⟨hra, ha'⟩ := tokenRest_of_stuck ha
    obtain ⟨hrb, hb'⟩ := tokenRest_of_stuck hb
    have hab : token R a = (2, 0, []) ∧ token R b = (2, 0, []) := ⟨ha, hb⟩
    rw [rpmLoop_succ, hab.1, hab.2, if_neg (by decide), hra, hrb, ih ha' hb']

variable (R) in
/-- The text after the first token, and one character further where the loop would be stuck. -/
def tokenTail (s : Str) : Str := if token R s = (2, 0, []) then s.tail else tokenRest R s

theorem skipped_length_le (s : Str) : (skipped R s).length ≤ s.length :=
  (dropWhile_sublist _).length_le

/-- A token that is no end and not stuck takes a character off the text. -/
theorem tokenRest_length_lt {s : Str} (hs : ¬ Stuck R s) (hend : token R s ≠ (1, 0, [])) :
    (tokenRest R s).length < s.length := by
  unfold token at hend
  unfold tokenRest
  by_cases h1 : s.head? = some '~'
  · rw [if_pos h1]
    rcases s with _ | ⟨c, s⟩
    · simp at h1
    · simp
  rw [if_neg h1] at hend ⊢
  have hle := skipped_length_le (R := R) s
  rcases hsk : skipped R s with _ | ⟨c, cs⟩
  · simp [hsk] at hend
  rw [hsk] at hle
  have hlen : ∀ p : Char → Bool, p c = true → ((c :: cs).dropWhile p).length < s.length := by
    intro p hp
    rw [dropWhile_cons, if_pos hp]
    have := (dropWhile_sublist p (l := cs)).length_le
    simp only [length_cons] at hle
    omega
  split_ifs with hd
  · exact hlen _ (by simpa [startsDigit] using hd)
  · refine hlen _ ?_
    by_contra ha
    refine hs (stuck_iff.mpr ⟨h1, c, cs, hsk, ?_, by simpa using ha⟩)
    simpa [startsDigit] using hd

theorem tokenRest_of_end {s : Str} (h : token R s = (1, 0, [])) : tokenRest R s = [] := by
  unfold token at h
  unfold tokenRest
  split_ifs at h ⊢ with h1 h2 <;> simp_all

theorem tokenTail_length_le (s : Str) : (tokenTail R s).length ≤ s.length - 1 := by
  unfold tokenTail
  split_ifs with h
  · simp
  · by_cases hend : token R s = (1, 0, [])
    · rw [tokenRest_of_end hend]
      simp
    · have := tokenRest_length_lt h hend
      omega

theorem token_of_length (s t : Str) (hs : s.length = 0) (ht : t.length = 0) :
    tokenCmp (token R s) (token R t) = .eq := by
  rw [length_eq_zero_iff] at hs ht
  subst hs ht
  exact ReflCmp.compare_self

variable (R) in
/-- **RPM's order of parts**: token by token. -/
def rpmCmp : Str → Str → Ordering :=
  streamCmpAll tokenCmp (token R) (tokenTail R) List.length

instance : TransCmp (rpmCmp R) := streamCmpAll_transCmp tokenTail_length_le token_of_length

theorem tokenTail_of_end {s : Str} (h : token R s = (1, 0, [])) : tokenTail R s = [] := by
  rw [tokenTail, h, if_neg (by decide), tokenRest_of_end h]

theorem tokenTail_of_not_stuck {s : Str} (h : ¬ Stuck R s) : tokenTail R s = tokenRest R s :=
  if_neg h

theorem rpmLoop_eq_of_ok (n : ℕ) {a b : Str} {o : Ordering} (h : rpmLoop R n a b = .ok o) :
    streamCmp tokenCmp (token R) (tokenTail R) n a b = o := by
  induction n generalizing a b with
  | zero => cases h
  | succ n ih =>
    by_cases hstuck : Stuck R a ∧ Stuck R b
    · rw [rpmLoop_of_stuck _ hstuck.1 hstuck.2] at h
      cases h
    rw [rpmLoop_succ] at h
    rw [streamCmp_succ]
    by_cases hcmp : tokenCmp (token R a) (token R b) = .eq
    · have htok := tokenCmp_eq_eq.mp hcmp
      have hsa : ¬ Stuck R a := fun hs => hstuck ⟨hs, by unfold Stuck; rw [← htok]; exact hs⟩
      have hsb : ¬ Stuck R b := fun hs => hsa (by unfold Stuck; rw [htok]; exact hs)
      by_cases hend : token R a = (1, 0, [])
      · rw [if_pos (Or.inr hend), hcmp] at h
        cases h
        have hnil : streamCmp tokenCmp (token R) (tokenTail R) n [] [] = .eq :=
          ReflCmp.compare_self
        rw [hcmp, tokenTail_of_end hend, tokenTail_of_end (htok ▸ hend), hnil]
        rfl
      · rw [if_neg (by simp [hcmp, hend])] at h
        rw [hcmp, Ordering.eq_then, tokenTail_of_not_stuck hsa, tokenTail_of_not_stuck hsb, ih h]
    · rw [if_pos (Or.inl hcmp)] at h
      cases h
      exact then_of_ne hcmp

theorem rpmComparePart_eq_of_ok {a b : Str} {o : Ordering} (h : rpmComparePart R a b = .ok o) :
    rpmCmp R a b = o := by
  rw [← rpmLoop_eq_of_ok _ h]
  exact (streamCmpAll_eq tokenTail_length_le token_of_length (by omega) (by omega)).symm

theorem rpmLoop_flip (n : ℕ) (a b : Str) :
    rpmLoop R n b a = (rpmLoop R n a b).map Ordering.swap := by
  induction n generalizing a b with
  | zero => rfl
  | succ n ih =>
    have hswap : tokenCmp (token R b) (token R a) = (tokenCmp (token R a) (token R b)).swap :=
      OrientedCmp.eq_swap
    rw [rpmLoop_succ, rpmLoop_succ, hswap]
    by_cases hcmp : tokenCmp (token R a) (token R b) = .eq
    · have htok := tokenCmp_eq_eq.mp hcmp
      rw [hcmp, htok]
      by_cases hend : token R b = (1, 0, [])
      · rw [if_pos (Or.inr hend), if_pos (Or.inr hend)]
        rfl
      · rw [if_neg (by simp [hend]), if_neg (by simp [hend]), ih]
    · have hcmp' : (tokenCmp (token R a) (token R b)).swap ≠ .eq := by
        rwa [ne_eq, Ordering.swap_eq_eq]
      rw [if_pos (Or.inl hcmp'), if_pos (Or.inl hcmp)]
      rfl

theorem rpmLoop_error {n : ℕ} {a b : Str} {f : Fault} (h : rpmLoop R n a b = .error f) :
    f = .diverges := by
  induction n generalizing a b with
  | zero => cases h; rfl
  | succ n ih =>
    rw [rpmLoop_succ] at h
    split_ifs at h
    exact ih h

/-! ### ASCII texts -/

theorem not_stuck_of_ascii {s : Str} (h : ∀ c ∈ s, IsAscii c) : ¬ Stuck R s := by
  intro hs
  obtain ⟨-, c, cs, hsk, hd, ha⟩ := stuck_iff.mp hs
  have hc := skipped_head hsk
  have hmem : c ∈ s := (dropWhile_sublist _).subset (show c ∈ skipped R s by rw [hsk]; simp)
  have hac := h c hmem
  rw [R.isDigit_ascii c hac] at hd
  rw [R.isAlpha_ascii c hac] at ha
  simp [Runtime.isAlnum, R.isDecimal_ascii c hac, R.isDigit_ascii c hac, R.isNumeric_ascii c hac,
    R.isAlpha_ascii c hac, hd, ha] at hc

theorem tokenRest_subset (s : Str) : tokenRest R s ⊆ s := by
  unfold tokenRest
  split_ifs
  · exact tail_subset s
  all_goals exact ((dropWhile_sublist _).trans (dropWhile_sublist _)).subset

theorem rpmLoop_ascii (n : ℕ) {a b : Str} (ha : ∀ c ∈ a, IsAscii c) (hb : ∀ c ∈ b, IsAscii c)
    (hn : a.length + b.length < n) : ∃ o, rpmLoop R n a b = .ok o := by
  induction n generalizing a b with
  | zero => omega
  | succ n ih =>
    rw [rpmLoop_succ]
    split_ifs with hcase
    · exact ⟨_, rfl⟩
    · rw [not_or, not_not] at hcase
      have hend : token R b ≠ (1, 0, []) := tokenCmp_eq_eq.mp hcase.1 ▸ hcase.2
      have hla := tokenRest_length_lt (not_stuck_of_ascii ha) hcase.2
      have hlb := tokenRest_length_lt (not_stuck_of_ascii hb) hend
      exact ih (fun c hc => ha c (tokenRest_subset a hc)) (fun c hc => hb c (tokenRest_subset b hc))
        (by omega)

theorem rpmComparePart_ascii {a b : Str} (ha : ∀ c ∈ a, IsAscii c) (hb : ∀ c ∈ b, IsAscii c) :
    ∃ o, rpmComparePart R a b = .ok o := rpmLoop_ascii _ ha hb (by omega)

/-! ### Where the loop ends -/

variable (R)

/-- The texts that are left after some rounds. -/
inductive Rounds (a b : Str) : Str → Str → Prop
  | refl : Rounds a b a b
  | next {a' b' a'' b'' : Str} (h : Rounds a b a' b') (hround : rpmRound R a' b' = .goOn a'' b'') :
      Rounds a b a'' b''

/-- **The loop ends**, and each of its rounds takes a character off one of the texts. -/
structure RpmEnds (a b : Str) : Prop where
  verdict : ∃ n o, rpmLoop R n a b = .ok o
  consumes : ∀ {a' b' a'' b'' : Str}, Rounds R a b a' b' → rpmRound R a' b' = .goOn a'' b'' →
    a''.length < a'.length ∨ b''.length < b'.length

/-- The symbol the loop stands still on. -/
abbrev symbol : ℕ × ℕ × Str := (2, 0, [])

/-- **The tokens of a text**, up to its end or to a symbol. -/
def tokens (s : Str) : List (ℕ × ℕ × Str) :=
  if h : token R s = (1, 0, []) ∨ token R s = symbol then [token R s]
  else
    have : (tokenRest R s).length < s.length :=
      tokenRest_length_lt (fun hs => h (.inr hs)) fun he => h (.inl he)
    token R s :: tokens (tokenRest R s)
termination_by s.length

/-- Both texts come to a symbol, after the same tokens. -/
def Hangs (a b : Str) : Prop := tokens R a = tokens R b ∧ symbol ∈ tokens R a

variable {R} {a b a' b' : Str}

theorem tokens_of_last {s : Str} (h : token R s = (1, 0, []) ∨ token R s = symbol) :
    tokens R s = [token R s] := by
  rw [tokens, dif_pos h]

theorem tokens_of_not_last {s : Str} (h : ¬ (token R s = (1, 0, []) ∨ token R s = symbol)) :
    tokens R s = token R s :: tokens R (tokenRest R s) := by
  rw [tokens, dif_neg h]

theorem head_tokens (s : Str) : (tokens R s).head? = some (token R s) := by
  by_cases h : token R s = (1, 0, []) ∨ token R s = symbol
  · rw [tokens_of_last h]
    rfl
  · rw [tokens_of_not_last h]
    rfl

theorem token_eq_of_tokens_eq (h : tokens R a = tokens R b) : token R a = token R b := by
  have hhead := head_tokens (R := R) a
  rw [h, head_tokens] at hhead
  exact (Option.some.inj hhead).symm

theorem rpmRound_goOn (h : rpmRound R a b = .goOn a' b') :
    token R a = token R b ∧ token R a ≠ (1, 0, []) ∧ a' = tokenRest R a ∧ b' = tokenRest R b := by
  rw [rpmRound_eq] at h
  split_ifs at h with hcase
  rw [not_or, not_not, tokenCmp_eq_eq] at hcase
  cases h
  exact ⟨hcase.1, hcase.2, rfl, rfl⟩

theorem hangs_rest (htok : token R a = token R b)
    (h : ¬ (token R a = (1, 0, []) ∨ token R a = symbol)) :
    Hangs R (tokenRest R a) (tokenRest R b) ↔ Hangs R a b := by
  have hne : symbol ≠ token R a := fun hs => h (.inr hs.symm)
  have hb : ¬ (token R b = (1, 0, []) ∨ token R b = symbol) := by rwa [← htok]
  rw [Hangs, Hangs, tokens_of_not_last (s := a) h, tokens_of_not_last hb, ← htok]
  simp [hne]

/-! ### Texts that do not come to a symbol -/

/-- **A round takes a character off both texts**, unless they come to a symbol after the same
tokens; what is left does not come to one either. -/
theorem rpmRound_consumes (hab : ¬ Hangs R a b) (h : rpmRound R a b = .goOn a' b') :
    ¬ Hangs R a' b' ∧ a'.length < a.length ∧ b'.length < b.length := by
  obtain ⟨htok, hend, rfl, rfl⟩ := rpmRound_goOn h
  have hsym : token R a ≠ symbol := by
    intro hs
    refine hab ⟨?_, ?_⟩
    · rw [tokens_of_last (.inr hs), tokens_of_last (.inr (htok ▸ hs)), htok]
    · rw [tokens_of_last (.inr hs), hs]
      exact mem_singleton_self _
  have hlast : ¬ (token R a = (1, 0, []) ∨ token R a = symbol) := not_or.mpr ⟨hend, hsym⟩
  exact ⟨mt (hangs_rest htok hlast).mp hab, tokenRest_length_lt hsym hend,
    tokenRest_length_lt (fun hs => hsym (htok.trans hs)) (htok ▸ hend)⟩

theorem not_hangs_rounds (hab : ¬ Hangs R a b) (h : Rounds R a b a' b') : ¬ Hangs R a' b' := by
  induction h with
  | refl => exact hab
  | next _ hround ih => exact (rpmRound_consumes ih hround).1

theorem rpmLoop_verdict (n : ℕ) (hab : ¬ Hangs R a b) (hn : a.length < n) :
    ∃ o, rpmLoop R n a b = .ok o := by
  induction n generalizing a b with
  | zero => omega
  | succ n ih =>
    rw [rpmLoop_succ_round]
    rcases hround : rpmRound R a b with o | ⟨a', b'⟩
    · exact ⟨o, rfl⟩
    · obtain ⟨hab', hlt, -⟩ := rpmRound_consumes hab hround
      exact ih hab' (by omega)

/-! ### Texts that come to a symbol -/

theorem rpmLoop_of_hangs (n : ℕ) (hab : Hangs R a b) : rpmLoop R n a b = .error .diverges := by
  induction n generalizing a b with
  | zero => rfl
  | succ n ih =>
    have htok := token_eq_of_tokens_eq hab.1
    by_cases hsym : token R a = symbol
    · exact rpmLoop_of_stuck _ hsym (htok.symm.trans hsym)
    have hend : token R a ≠ (1, 0, []) := by
      intro he
      have hmem := hab.2
      rw [tokens_of_last (.inl he), he] at hmem
      simp at hmem
    rw [rpmLoop_succ, if_neg (by simp [tokenCmp_eq_eq, htok, htok ▸ hend])]
    exact ih ((hangs_rest htok (not_or.mpr ⟨hend, hsym⟩)).mpr hab)

/-- **Where RPM's loop ends**: everywhere but on two texts that come, after the same tokens, to a
symbol that is alphanumeric but neither a digit nor a letter. -/
theorem rpmEnds_iff (a b : Str) :
    RpmEnds R a b ↔ ¬ (tokens R a = tokens R b ∧ symbol ∈ tokens R a) := by
  constructor
  · rintro ⟨⟨n, o, hok⟩, -⟩ hab
    rw [rpmLoop_of_hangs n hab] at hok
    cases hok
  · intro hab
    obtain ⟨o, hok⟩ := rpmLoop_verdict (a.length + 1) hab (by omega)
    exact ⟨⟨_, o, hok⟩, fun h hround =>
      .inl (rpmRound_consumes (not_hangs_rounds hab h) hround).2.1⟩

/-- A runtime that knows one numeric symbol besides ASCII. -/
def halves : Runtime :=
  { Runtime.ascii with
    isNumeric := fun c => decide (IsAscii c) && c.isDigit || c == '½'
    isNumeric_ascii := fun c hc => by
      have hne : c ≠ '½' := by
        rintro rfl
        exact absurd hc (by decide)
      simp [hc, hne] }

/-- **RPM's loop does not end** on two texts `½`: the symbol is alphanumeric, so it is not skipped,
and it belongs to neither kind of run. -/
theorem halves_diverge : ¬ RpmEnds halves "½" "½" := by
  rintro ⟨⟨n, o, hok⟩, -⟩
  have hstuck : Stuck halves "½" := by
    unfold Stuck
    decide
  rw [rpmLoop_of_stuck n hstuck hstuck] at hok
  cases hok

end Guardian.Versioning

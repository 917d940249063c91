import Guardian.Versioning.Rpm

/-!
# Distribution versions: `epoch:upstream-revision`

An `Evr` is compared by epoch, then by the distribution's own loop on the upstream part and on the
revision.
-/

namespace Guardian.Versioning

open Python Guardian.Order
open List hiding partition
open Std (TransCmp ReflCmp OrientedCmp)

variable (R : Runtime)

/-- `_EvrVersion`. -/
structure Evr where
  epoch : ℕ
  upstream : Str
  revision : Str
  rpm : Bool
  deriving DecidableEq

namespace Evr

def comparePart (rpm : Bool) : Str → Str → Except Fault Ordering :=
  if rpm then rpmComparePart R else debianComparePart R

/-- `_EvrVersion._cmp`. -/
def cmp (x y : Evr) : Except Fault Ordering :=
  if x.epoch ≠ y.epoch then .ok (if x.epoch < y.epoch then .lt else .gt)
  else do
    let result ← comparePart R x.rpm x.upstream y.upstream
    if result ≠ .eq then return result
    comparePart R x.rpm x.revision y.revision

end Evr

/-- What is before the last hyphen and after it; without one all is upstream. -/
def splitRevision (text : Str) : Str × Str :=
  if '-' ∈ text then ((rpartition '-' text).1, (rpartition '-' text).2.2) else (text, [])

/-- `_parse_evr`. -/
def parseEvr (raw : Str) (rpm : Bool) : Except Fault Evr :=
  let text := strip R raw
  let (head, colon, tail) := partition ':' text
  if colon && strIsdigit R head then do
    let epoch ← int R head
    return ⟨epoch, (splitRevision tail).1, (splitRevision tail).2, rpm⟩
  else return ⟨0, (splitRevision text).1, (splitRevision text).2, rpm⟩

namespace Evr

def partCmp (rpm : Bool) : Str → Str → Ordering := if rpm then rpmCmp R else debianCmp R

/-- **The order of distribution versions.** -/
def ord (rpm : Bool) (x y : Evr) : Ordering :=
  (compare x.epoch y.epoch).then
    ((partCmp R rpm x.upstream y.upstream).then (partCmp R rpm x.revision y.revision))

instance (rpm : Bool) : TransCmp (partCmp R rpm) := by
  unfold partCmp
  split_ifs <;> infer_instance

instance ord_transCmp (rpm : Bool) : TransCmp (ord R rpm) :=
  have : TransCmp fun x y : Evr => partCmp R rpm x.upstream y.upstream := transCmp_on _ upstream
  have : TransCmp fun x y : Evr => partCmp R rpm x.revision y.revision := transCmp_on _ revision
  inferInstanceAs (TransCmp (compareLex (compareOn epoch)
    (compareLex (fun x y : Evr => partCmp R rpm x.upstream y.upstream)
      fun x y : Evr => partCmp R rpm x.revision y.revision)))

variable {R}

theorem comparePart_eq_of_ok {rpm : Bool} {a b : Str} {o : Ordering}
    (h : comparePart R rpm a b = .ok o) : partCmp R rpm a b = o := by
  unfold comparePart at h
  unfold partCmp
  split_ifs at h ⊢
  · exact rpmComparePart_eq_of_ok h
  · rw [debianComparePart_eq] at h
    cases h
    rfl

theorem comparePart_flip (rpm : Bool) (a b : Str) :
    comparePart R rpm b a = (comparePart R rpm a b).map Ordering.swap := by
  unfold comparePart
  split_ifs
  · unfold rpmComparePart
    rw [rpmLoop_flip, Nat.add_comm b.length]
  · have hswap : debianCmp R b a = (debianCmp R a b).swap := OrientedCmp.eq_swap
    rw [debianComparePart_eq, debianComparePart_eq, hswap]
    rfl

/-- **Where the comparison ends, it is the order.** -/
theorem cmp_eq_of_ok {x y : Evr} {o : Ordering} (h : cmp R x y = .ok o) : ord R x.rpm x y = o := by
  unfold cmp at h
  unfold ord
  by_cases hep : x.epoch = y.epoch
  swap
  · rw [if_pos hep, compare_of_ne hep] at h
    cases h
    exact then_of_ne (mt compare_eq_iff_eq.mp hep)
  rw [if_neg (by simp [hep])] at h
  rw [compare_eq_iff_eq.mpr hep, Ordering.eq_then]
  rcases hup : comparePart R x.rpm x.upstream y.upstream with f | o'
  · rw [hup] at h
    cases h
  rw [hup] at h
  rw [comparePart_eq_of_ok hup]
  by_cases ho : o' = .eq
  · subst ho
    rw [Ordering.eq_then, comparePart_eq_of_ok h]
  · have hok : Except.ok o' = (.ok o : Except Fault Ordering) := by
      rw [← h]
      exact (if_pos ho).symm
    cases hok
    exact then_of_ne ho

/-- **Two comparisons of one pair** end both or neither, with opposite answers. -/
theorem cmp_flip {x y : Evr} (hrpm : x.rpm = y.rpm) :
    cmp R y x = (cmp R x y).map Ordering.swap := by
  unfold cmp
  rw [← hrpm]
  by_cases hep : x.epoch = y.epoch
  · rw [if_neg (by simp [hep]), if_neg (by simp [hep]), comparePart_flip x.rpm x.upstream,
      comparePart_flip x.rpm x.revision]
    rcases comparePart R x.rpm x.upstream y.upstream with f | o
    · rfl
    · cases o <;> rfl
  · rw [if_pos (Ne.symm hep), if_pos hep]
    rcases lt_or_gt_of_ne hep with h | h
    · rw [if_neg h.not_gt, if_pos h]
      rfl
    · rw [if_pos h, if_neg h.not_gt]
      rfl

theorem comparePart_error {rpm : Bool} {a b : Str} {f : Fault}
    (h : comparePart R rpm a b = .error f) : f = .diverges := by
  unfold comparePart at h
  split_ifs at h
  · exact rpmLoop_error h
  · rw [debianComparePart_eq] at h
    cases h

theorem cmp_error {x y : Evr} {f : Fault} (h : cmp R x y = .error f) : f = .diverges := by
  unfold cmp at h
  by_cases hep : x.epoch = y.epoch
  · rw [if_neg (by simp [hep])] at h
    rcases hup : comparePart R x.rpm x.upstream y.upstream with f' | o
    · rw [hup] at h
      cases h
      exact comparePart_error hup
    · rw [hup] at h
      by_cases ho : o = .eq
      · subst ho
        exact comparePart_error h
      · have hok : (Except.error f : Except Fault Ordering) = .ok o := by
          rw [← h]
          exact if_pos ho
        cases hok
  · rw [if_pos hep] at h
    cases h

/-- The parts of the version are ASCII texts. -/
def Ascii (x : Evr) : Prop := (∀ c ∈ x.upstream, IsAscii c) ∧ ∀ c ∈ x.revision, IsAscii c

theorem comparePart_ascii (rpm : Bool) {a b : Str} (ha : ∀ c ∈ a, IsAscii c)
    (hb : ∀ c ∈ b, IsAscii c) : ∃ o, comparePart R rpm a b = .ok o := by
  unfold comparePart
  split_ifs
  · exact rpmComparePart_ascii ha hb
  · exact ⟨_, debianComparePart_eq a b⟩

/-- **The comparison of ASCII versions ends.** -/
theorem cmp_ascii {x y : Evr} (hx : x.Ascii) (hy : y.Ascii) : ∃ o, cmp R x y = .ok o := by
  obtain ⟨o, ho⟩ := comparePart_ascii (R := R) x.rpm hx.1 hy.1
  obtain ⟨o', ho'⟩ := comparePart_ascii (R := R) x.rpm hx.2 hy.2
  unfold cmp
  rw [ho, ho']
  by_cases hep : x.epoch = y.epoch
  · rw [if_neg (by simp [hep])]
    by_cases h : o = .eq
    · exact ⟨o', if_neg (by simpa using h)⟩
    · exact ⟨o, if_pos h⟩
  · exact ⟨_, if_pos hep⟩

end Evr

/-! ### Parsing -/

variable {R}

theorem parseEvr_rpm {raw : Str} {rpm : Bool} {x : Evr} (h : parseEvr R raw rpm = .ok x) :
    x.rpm = rpm := by
  unfold parseEvr at h
  dsimp only at h
  split_ifs at h
  · obtain ⟨epoch, -, h⟩ := bind_eq_ok.mp h
    cases h
    rfl
  · cases h
    rfl

theorem splitRevision_subset (text : Str) :
    (splitRevision text).1 ⊆ text ∧ (splitRevision text).2 ⊆ text := by
  unfold splitRevision rpartition
  split_ifs
  · constructor
    · intro c hc
      rw [mem_reverse] at hc
      exact mem_reverse.mp ((dropWhile_sublist _).subset (mem_of_mem_tail hc))
    · exact (rtakeWhile_suffix _ _).subset
  · exact ⟨List.Subset.refl _, nil_subset _⟩

/-- **An ASCII version parses**, if no limit is set on integers. -/
theorem parseEvr_ascii (hR : R.maxStrDigits = 0) {raw : Str} (rpm : Bool)
    (h : ∀ c ∈ raw, IsAscii c) : ∃ x, parseEvr R raw rpm = .ok x ∧ x.Ascii := by
  have htext : ∀ c ∈ strip R raw, IsAscii c := fun c hc => h c (strip_subset raw hc)
  unfold parseEvr partition
  dsimp only
  split_ifs with hhead
  · rw [Bool.and_eq_true] at hhead
    have hdigits := hhead.2
    unfold strIsdigit at hdigits
    rw [Bool.and_eq_true, Bool.not_eq_true', isEmpty_eq_false_iff, all_eq_true] at hdigits
    -- the ASCII characters that `isdigit` accepts are those that `int` accepts
    have hdecimal : ∀ c ∈ (strip R raw).takeWhile (· != ':'), R.isDecimal c = true := by
      intro c hc
      have hac := htext c ((takeWhile_sublist _).subset hc)
      rw [R.isDecimal_ascii c hac, ← R.isDigit_ascii c hac]
      exact hdigits.2 c hc
    obtain ⟨n, hn⟩ := int_ok hR hdigits.1 hdecimal
    rw [hn]
    have htail : ∀ c ∈ ((strip R raw).dropWhile (· != ':')).tail, IsAscii c := fun c hc =>
      htext c ((dropWhile_sublist _).subset (mem_of_mem_tail hc))
    exact ⟨_, rfl, fun c hc => htail c ((splitRevision_subset _).1 hc),
      fun c hc => htail c ((splitRevision_subset _).2 hc)⟩
  · exact ⟨_, rfl, fun c hc => htext c ((splitRevision_subset _).1 hc),
      fun c hc => htext c ((splitRevision_subset _).2 hc)⟩

end Guardian.Versioning

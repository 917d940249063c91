import Guardian.Python.Fault
import Mathlib.Data.List.Infix
import Mathlib.Data.List.DropRight
import Mathlib.Data.List.Lex
import Mathlib.Data.Char

/-!
# Python strings

A string is the list of its code points.  What the string methods read of the Unicode character
database, and the interpreter's limit on `int`, are the fields of a `Runtime`: every result holds
for every database that has the laws listed there, so for each one an interpreter ships.
-/

namespace Guardian.Python

open List
abbrev Str := List Char

/-- A literal is a text. -/
instance : Coe String Str := ⟨String.toList⟩

/-- What holds of each letter of a string is decided letter by letter. -/
instance (priority := high) decidableForallMem {P : Char → Prop} [DecidablePred P] (s : Str) :
    Decidable (∀ c ∈ s, P c) :=
  decidableBAll P s

/-- Whether a string is one of several is decided by comparing it with each. -/
instance (priority := high) decidableMem (s : Str) (l : List Str) : Decidable (s ∈ l) :=
  inferInstance

def IsAscii (c : Char) : Prop := c.toNat < 128

instance (c : Char) : Decidable (IsAscii c) := by unfold IsAscii; infer_instance

variable {c : Char} {s : Str}

theorem forall_ascii {P : Char → Prop} (h : ∀ n : Fin 128, P (Char.ofNat n))
    (hc : IsAscii c) : P c := by
  have := h ⟨c.toNat, hc⟩
  rwa [Char.ofNat_toNat] at this

theorem isAscii_of_isDigit (h : c.isDigit = true) : IsAscii c := by
  have hhigh : c.toNat ≤ 57 := (Char.isDigit_iff_toNat.mp h).2
  unfold IsAscii
  omega

theorem isAscii_toLower (hc : IsAscii c) : IsAscii c.toLower :=
  forall_ascii (P := fun c => IsAscii c.toLower) (by decide) hc

theorem toLower_toLower (hc : IsAscii c) : c.toLower.toLower = c.toLower :=
  forall_ascii (P := fun c => c.toLower.toLower = c.toLower) (by decide) hc

theorem eq_toLower_of_not_isAlpha (hc : IsAscii c) (h : c.toLower.isAlpha = false) :
    c = c.toLower := by
  revert h
  exact forall_ascii (P := fun c => c.toLower.isAlpha = false → c = c.toLower) (by decide) hc

def asciiSpace (c : Char) : Bool :=
  decide (9 ≤ c.toNat ∧ c.toNat ≤ 13) || decide (28 ≤ c.toNat ∧ c.toNat ≤ 32)

/-- **The interpreter**: the tables of the Unicode database the string methods read, the digit
limit of `int` (`0` for none), and the two places where `urllib` asks the database (`nfkc`) or a
version-dependent check (`bracketedOk`). -/
structure Runtime where
  isSpace : Char → Bool
  isDecimal : Char → Bool
  isDigit : Char → Bool
  isNumeric : Char → Bool
  isAlpha : Char → Bool
  digitValue : Char → ℕ
  toLower : Char → Str
  isCased : Char → Bool
  isCaseIgnorable : Char → Bool
  maxStrDigits : ℕ
  nfkc : Str → Str
  bracketedOk : Str → Bool
  isDigit_of_isDecimal : ∀ c, isDecimal c = true → isDigit c = true
  isSpace_ascii : ∀ c, IsAscii c → isSpace c = asciiSpace c
  isDecimal_ascii : ∀ c, IsAscii c → isDecimal c = c.isDigit
  isDigit_ascii : ∀ c, IsAscii c → isDigit c = c.isDigit
  isNumeric_ascii : ∀ c, IsAscii c → isNumeric c = c.isDigit
  isAlpha_ascii : ∀ c, IsAscii c → isAlpha c = c.isAlpha
  digitValue_ascii : ∀ c, IsAscii c → c.isDigit = true → digitValue c = c.toNat - 48
  toLower_ascii : ∀ c, IsAscii c → toLower c = [c.toLower]
  /-- A lower-cased character is its own lower case, and is not the capital sigma. -/
  toLower_fixed : ∀ c, ∀ d ∈ toLower c, toLower d = [d] ∧ d ≠ 'Σ'
  toLower_sigma : toLower 'σ' = ['σ'] ∧ toLower 'ς' = ['ς']
  /-- Lowering makes no ASCII character other than a letter out of another character. -/
  toLower_punct : ∀ c, ∀ d ∈ toLower c, IsAscii d → d.isAlpha = false → c = d

variable (R : Runtime)

namespace Runtime

/-- `c.isalnum()` for one character. -/
def isAlnum (c : Char) : Bool :=
  R.isAlpha c || R.isDecimal c || R.isDigit c || R.isNumeric c

end Runtime

/-! ### `str.lower` -/

/-- The rule for a capital sigma between `before` (reversed) and `after`: it is final when a cased
letter precedes it and none follows, case-ignorable characters aside. -/
def finalSigma (before after : Str) : Bool :=
  (before.dropWhile R.isCaseIgnorable).head?.any R.isCased &&
    !(after.dropWhile R.isCaseIgnorable).head?.any R.isCased

/-- The lower case of a text that stands after `before` (reversed). -/
def lowerFrom (before : Str) : Str → Str
  | [] => []
  | c :: cs =>
    (if c = 'Σ' then [if finalSigma R before cs then 'ς' else 'σ'] else R.toLower c) ++
      lowerFrom (c :: before) cs

/-- `s.lower()`. -/
def lower (s : Str) : Str := lowerFrom R [] s

/-- A character that `lower` keeps wherever it stands. -/
def Fixed (c : Char) : Prop := R.toLower c = [c] ∧ c ≠ 'Σ'

variable {R}

theorem fixed_of_ascii (hc : IsAscii c) (hl : c.toLower = c) : Fixed R c := by
  refine ⟨by rw [R.toLower_ascii c hc, hl], ?_⟩
  rintro rfl
  exact absurd hc (by decide)

theorem lowerFrom_fixed : ∀ {before : Str}, (∀ c ∈ s, Fixed R c) →
    lowerFrom R before s = s := by
  induction s with
  | nil => intro _ _; rfl
  | cons c cs ih =>
    intro before h
    obtain ⟨h1, h2⟩ := h c (by simp)
    rw [lowerFrom, if_neg h2, h1, ih fun d hd => h d (by simp [hd])]
    rfl

theorem lower_eq_self (h : ∀ c ∈ s, Fixed R c) : lower R s = s := lowerFrom_fixed h

theorem lower_of_ascii (h : ∀ c ∈ s, IsAscii c ∧ c.toLower = c) : lower R s = s :=
  lower_eq_self fun c hc => fixed_of_ascii (h c hc).1 (h c hc).2

theorem fixed_of_mem_lowerFrom : ∀ {before : Str}, ∀ d ∈ lowerFrom R before s,
    Fixed R d := by
  induction s with
  | nil => intro _ d hd; simp [lowerFrom] at hd
  | cons c cs ih =>
    intro before d hd
    rw [lowerFrom, mem_append] at hd
    rcases hd with hd | hd
    · split_ifs at hd with h1 h2
      · rw [mem_singleton] at hd; subst hd; exact ⟨R.toLower_sigma.2, by decide⟩
      · rw [mem_singleton] at hd; subst hd; exact ⟨R.toLower_sigma.1, by decide⟩
      · exact R.toLower_fixed c d hd
    · exact ih d hd

theorem fixed_of_mem_lower {d : Char} (hd : d ∈ lower R s) : Fixed R d :=
  fixed_of_mem_lowerFrom d hd

theorem lower_lower (s : Str) : lower R (lower R s) = lower R s :=
  lower_eq_self fun _ hd => fixed_of_mem_lower hd

variable (R)

/-! ### Blanks, suffixes, separators -/

/-- `s.lstrip()`. -/
def lstrip (s : Str) : Str := s.dropWhile R.isSpace

/-- `s.rstrip()`. -/
def rstrip (s : Str) : Str := s.rdropWhile R.isSpace

/-- `s.strip()`. -/
def strip (s : Str) : Str := rstrip R (lstrip R s)

/-- `s.isdigit()`. -/
def strIsdigit (s : Str) : Bool := !s.isEmpty && s.all R.isDigit

/-- `s.rstrip(c)` for one character. -/
def rstripChar (c : Char) (s : Str) : Str := s.rdropWhile (· == c)

/-- `s.partition(c)`: what is before the first `c`, whether there is one, and what is after. -/
def partition (c : Char) (s : Str) : Str × Bool × Str :=
  (s.takeWhile (· != c), decide (c ∈ s), (s.dropWhile (· != c)).tail)

/-- `s.rpartition(c)`: what is before the last `c`, whether there is one, and what is after. -/
def rpartition (c : Char) (s : Str) : Str × Bool × Str :=
  ((s.reverse.dropWhile (· != c)).tail.reverse, decide (c ∈ s), s.rtakeWhile (· != c))

/-- `int(s)` for a text without blanks, sign and underscores. -/
def int (s : Str) : Except Fault ℕ :=
  if s ≠ [] ∧ s.all R.isDecimal = true ∧ (R.maxStrDigits = 0 ∨ s.length ≤ R.maxStrDigits) then
    .ok (s.foldl (fun n c => 10 * n + R.digitValue c) 0)
  else .error .valueError

/-- `str(n)`, which has the same limit as `int`. -/
def strInt (n : ℕ) : Except Fault Str :=
  if R.maxStrDigits = 0 ∨ (Nat.toDigits 10 n).length ≤ R.maxStrDigits then .ok (Nat.toDigits 10 n)
  else .error .valueError

section Ends
variable {p : Char → Bool} {s : Str}

theorem dropWhile_eq_self : s.dropWhile p = s ↔ ∀ c ∈ s.head?, p c = false := by
  rcases s with _ | ⟨c, s⟩
  · simp
  · rw [dropWhile_eq_self_iff]
    simp

theorem rdropWhile_eq_self : s.rdropWhile p = s ↔ ∀ c ∈ s.getLast?, p c = false := by
  rw [rdropWhile_eq_self_iff]
  rcases eq_nil_or_concat s with rfl | ⟨s, c, rfl⟩
  · simp
  · simp

/-- **Nothing is taken off a text** exactly if neither end is to be taken off. -/
theorem dropBoth_eq_self : (s.dropWhile p).rdropWhile p = s ↔
    (∀ c ∈ s.head?, p c = false) ∧ ∀ c ∈ s.getLast?, p c = false := by
  rw [← dropWhile_eq_self, ← rdropWhile_eq_self]
  constructor
  · intro h
    have hdrop : s.dropWhile p = s := by
      refine (dropWhile_sublist p).eq_of_length (le_antisymm ?_ ?_)
      · exact (dropWhile_sublist p).length_le
      · conv_lhs => rw [← h]
        exact (List.rdropWhile_prefix p _).length_le
    rw [hdrop] at h
    exact ⟨hdrop, h⟩
  · rintro ⟨h, h'⟩
    rw [h, h']

theorem dropBoth_sublist : ((s.dropWhile p).rdropWhile p).Sublist s :=
  (List.rdropWhile_prefix p _).sublist.trans (dropWhile_sublist p)

theorem dropBoth_dropBoth :
    (((s.dropWhile p).rdropWhile p).dropWhile p).rdropWhile p = (s.dropWhile p).rdropWhile p := by
  rw [dropBoth_eq_self]
  constructor
  · intro c hc
    obtain ⟨t, ht⟩ := rdropWhile_prefix p (s.dropWhile p)
    have hhead : (s.dropWhile p).head? = some c := by
      rw [← ht, head?_append, Option.mem_def.mp hc, Option.some_or]
    have hnot := head?_dropWhile_not p s
    rw [hhead] at hnot
    simpa using hnot
  · rw [← rdropWhile_eq_self, rdropWhile_idempotent]

theorem takeWhile_eq_iff {a : Str} : s.takeWhile p = a ↔
    ∃ t, s = a ++ t ∧ (∀ c ∈ a, p c = true) ∧ ∀ c ∈ t.head?, p c = false := by
  constructor
  · rintro rfl
    refine ⟨s.dropWhile p, takeWhile_append_dropWhile.symm,
      fun c hc => mem_takeWhile_imp hc, fun c hc => ?_⟩
    have hnot := head?_dropWhile_not p s
    rw [Option.mem_def.mp hc] at hnot
    simpa using hnot
  · rintro ⟨t, rfl, ha, ht⟩
    rw [takeWhile_append_of_pos ha]
    rcases t with _ | ⟨c, t⟩
    · simp
    · rw [takeWhile_cons_of_neg (by simp [ht c rfl]), append_nil]

theorem rtakeWhile_eq_iff {a : Str} : s.rtakeWhile p = a ↔
    ∃ t, s = t ++ a ∧ (∀ c ∈ a, p c = true) ∧ ∀ c ∈ t.getLast?, p c = false := by
  unfold rtakeWhile
  rw [reverse_eq_iff, takeWhile_eq_iff]
  constructor
  · rintro ⟨t, hs, ha, ht⟩
    refine ⟨t.reverse, ?_, fun c hc => ha c (mem_reverse.mpr hc), fun c hc => ht c ?_⟩
    · rw [← reverse_reverse s, hs, reverse_append, reverse_reverse]
    · rwa [getLast?_reverse] at hc
  · rintro ⟨t, rfl, ha, ht⟩
    refine ⟨t.reverse, reverse_append, fun c hc => ha c (mem_reverse.mp hc),
      fun c hc => ht c ?_⟩
    rwa [head?_reverse] at hc

end Ends

theorem strip_subset {R : Runtime} (s : Str) : strip R s ⊆ s := dropBoth_sublist.subset

theorem strip_strip {R : Runtime} (s : Str) : strip R (strip R s) = strip R s := dropBoth_dropBoth

theorem strip_spec (R : Runtime) (s : Str) :
    ∃ a b, s = a ++ lstrip R s ∧ lstrip R s = strip R s ++ b ∧ (∀ c ∈ a, R.isSpace c = true) ∧
      ∀ c ∈ b, R.isSpace c = true :=
  ⟨s.takeWhile R.isSpace, (lstrip R s).rtakeWhile R.isSpace,
    takeWhile_append_dropWhile.symm, (rdropWhile_append_rtakeWhile ..).symm,
    fun _ hc => mem_takeWhile_imp hc, fun _ hc => mem_rtakeWhile_imp hc⟩

theorem strip_eq_self {R : Runtime} : strip R s = s ↔
    (∀ c ∈ s.head?, R.isSpace c = false) ∧ ∀ c ∈ s.getLast?, R.isSpace c = false :=
  dropBoth_eq_self

section Blanks
variable {R : Runtime} {s blank : Str}

theorem strip_concat {c : Char} (h : R.isSpace c = true) : strip R (s ++ [c]) = strip R s := by
  unfold strip lstrip rstrip
  rw [dropWhile_append]
  split_ifs with hnil
  · rw [List.isEmpty_iff.mp hnil, dropWhile_cons_of_pos h]
    rfl
  · rw [rdropWhile_concat_pos _ _ _ h]

theorem strip_append_blank (h : ∀ c ∈ blank, R.isSpace c = true) :
    strip R (s ++ blank) = strip R s := by
  induction blank using reverseRecOn with
  | nil => rw [append_nil]
  | append_singleton blank c ih =>
    rw [← append_assoc, strip_concat (h c (by simp)), ih fun c hc => h c (by simp [hc])]

theorem strip_blank_append (h : ∀ c ∈ blank, R.isSpace c = true) :
    strip R (blank ++ s) = strip R s := by
  unfold strip lstrip
  rw [dropWhile_append_of_pos h]

theorem strip_blank (h : ∀ c ∈ blank, R.isSpace c = true) : strip R blank = [] := by
  have hnil : strip R (blank ++ []) = strip R [] := strip_blank_append h
  rw [← append_nil blank, hnil]
  rfl

theorem strip_around {a b m : Str} (ha : strip R a = a) (hane : a ≠ []) (hb : strip R b = b)
    (hbne : b ≠ []) : strip R (a ++ (m ++ b)) = a ++ (m ++ b) := by
  rw [strip_eq_self] at ha hb ⊢
  rw [head?_append_of_ne_nil _ hane, ← append_assoc,
    List.getLast?_append_of_ne_nil _ hbne]
  exact ⟨ha.1, hb.2⟩

theorem strip_of_clean (h : ∀ c ∈ s, R.isSpace c = false) : strip R s = s :=
  strip_eq_self.mpr
    ⟨fun c hc => h c (mem_of_mem_head? hc), fun c hc => h c (mem_of_getLast? hc)⟩

theorem strip_append (hs : ∀ c ∈ s, R.isSpace c = false) (h : ∀ c ∈ blank, R.isSpace c = true) :
    strip R (s ++ blank) = s := by
  rw [strip_append_blank h, strip_of_clean hs]

end Blanks

theorem partition_subset (c : Char) (s : Str) : (partition c s).1 ⊆ s :=
  (takeWhile_sublist _).subset

theorem rpartition_subset (c : Char) (s : Str) : (rpartition c s).2.2 ⊆ s :=
  (rtakeWhile_suffix _ _).subset

theorem mem_partition {d : Char} (hc : c ∈ s) :
    c ∈ (partition d s).1 ∨ c = d ∨ c ∈ (partition d s).2.2 := by
  rw [← takeWhile_append_dropWhile (p := (· != d)) (l := s), mem_append] at hc
  refine hc.imp id fun hc => ?_
  have hhead := head?_dropWhile_not (· != d) s
  show c = d ∨ c ∈ (s.dropWhile (· != d)).tail
  revert hc hhead
  rcases s.dropWhile (· != d) with _ | ⟨a, s⟩ <;> intro hc hhead
  · exact absurd hc not_mem_nil
  · have ha : a = d := by simpa using hhead
    exact (mem_cons.mp hc).imp (fun h => h.trans ha) id

theorem partition_eq_self (h : c ∉ s) : (partition c s).1 = s := by
  show s.takeWhile (· != c) = s
  rw [takeWhile_eq_self_iff]
  intro d hd
  rw [bne_iff_ne]
  rintro rfl
  exact h hd

theorem rpartition_eq_self (h : c ∉ s) : (rpartition c s).2.2 = s := by
  show s.rtakeWhile (· != c) = s
  rw [rtakeWhile_eq_self_iff]
  intro d hd
  rw [bne_iff_ne]
  rintro rfl
  exact h hd

theorem partition_append (h : c ∉ s) (t : Str) :
    partition c (s ++ c :: t) = (s, true, t) := by
  have hs : ∀ d ∈ s, (d != c) = true := by
    intro d hd
    rw [bne_iff_ne]
    rintro rfl
    exact h hd
  unfold partition
  rw [takeWhile_append_of_pos hs, dropWhile_append_of_pos hs,
    takeWhile_cons_of_neg (by simp), dropWhile_cons_of_neg (by simp)]
  simp

theorem rpartition_append {t : Str} (h : c ∉ t) (s : Str) :
    rpartition c (s ++ c :: t) = (s, true, t) := by
  have ht : ∀ d ∈ t.reverse, (d != c) = true := by
    intro d hd
    rw [bne_iff_ne]
    rintro rfl
    exact h (mem_reverse.mp hd)
  have hrev : (s ++ c :: t).reverse = t.reverse ++ c :: s.reverse := by simp
  unfold rpartition rtakeWhile
  rw [hrev, takeWhile_append_of_pos ht, dropWhile_append_of_pos ht,
    takeWhile_cons_of_neg (by simp), dropWhile_cons_of_neg (by simp)]
  simp

theorem exists_rpartition (h : c ∈ s) :
    ∃ u v, s = u ++ c :: v ∧ c ∉ v ∧ rpartition c s = (u, true, v) := by
  obtain ⟨v, u, hs, hv⟩ := eq_append_cons_of_mem (mem_reverse.mpr h)
  have hs' : s = u.reverse ++ c :: v.reverse := by
    rw [← reverse_reverse s, hs]
    simp
  have hv' : c ∉ v.reverse := fun hmem => hv (mem_reverse.mp hmem)
  exact ⟨u.reverse, v.reverse, hs', hv', by rw [hs', rpartition_append hv']⟩

theorem rstripChar_subset (c : Char) (s : Str) : rstripChar c s ⊆ s :=
  (List.rdropWhile_prefix _ _).sublist.subset

theorem rstripChar_append (c : Char) (s t : Str) : rstripChar c (s ++ t) =
    if rstripChar c t = [] then rstripChar c s else s ++ rstripChar c t := by
  unfold rstripChar rdropWhile
  rw [reverse_append, dropWhile_append]
  simp only [List.isEmpty_iff, reverse_eq_nil_iff]
  split_ifs
  · rfl
  · rw [reverse_append, reverse_reverse]

theorem rstripChar_eq_iff {d : Char} {a : Str} : rstripChar d s = a ↔
    ∃ t, s = a ++ t ∧ (∀ c ∈ t, c = d) ∧ a.getLast? ≠ some d := by
  constructor
  · rintro rfl
    refine ⟨s.rtakeWhile (· == d), rdropWhile_append_rtakeWhile.symm, fun c hc => ?_,
      fun h => ?_⟩
    · simpa using mem_rtakeWhile_imp hc
    · have hlast := rdropWhile_eq_self.mp (rdropWhile_idempotent (· == d) s) d h
      simp at hlast
  · rintro ⟨t, rfl, ht, ha⟩
    unfold rstripChar
    rw [rdropWhile, reverse_append, dropWhile_append_of_pos fun c hc => by
      simp [ht c (mem_reverse.mp hc)], ← rdropWhile, rdropWhile_eq_self]
    intro c hc
    rw [beq_eq_false_iff_ne]
    rintro rfl
    exact ha hc

theorem rstripChar_rstripChar (c : Char) (s : Str) :
    rstripChar c (rstripChar c s) = rstripChar c s := by
  unfold rstripChar
  rw [rdropWhile_idempotent]

theorem mem_splitOn (sep : Char) (hc : c ∈ s) :
    c = sep ∨ ∃ t ∈ s.splitOn sep, c ∈ t := by
  induction s with
  | nil => cases hc
  | cons d s ih =>
    rw [splitOn_cons_eq_if_modifyHead]
    obtain ⟨t, ts, hts⟩ := exists_cons_of_ne_nil (splitOn_ne_nil sep s)
    rw [hts] at ih ⊢
    by_cases hd : (d == sep) = true
    · rw [if_pos hd]
      rcases mem_cons.mp hc with rfl | hc
      · exact Or.inl (beq_iff_eq.mp hd)
      · exact (ih hc).imp_right fun ⟨u, hu, hcu⟩ => ⟨u, mem_cons_of_mem _ hu, hcu⟩
    · rw [if_neg hd, modifyHead_cons]
      rcases mem_cons.mp hc with rfl | hc
      · exact Or.inr ⟨_, mem_cons_self, mem_cons_self⟩
      · rcases ih hc with h | ⟨u, hu, hcu⟩
        · exact Or.inl h
        · rcases mem_cons.mp hu with rfl | hu
          · exact Or.inr ⟨_, mem_cons_self, mem_cons_of_mem d hcu⟩
          · exact Or.inr ⟨u, mem_cons_of_mem _ hu, hcu⟩

theorem mem_of_mem_splitOnP {p : Char → Bool} {w : Str} (hw : w ∈ s.splitOnP p)
    (hc : c ∈ w) : c ∈ s := by
  induction s generalizing w with
  | nil =>
    obtain rfl := mem_singleton.mp hw
    exact hc
  | cons d s ih =>
    rw [splitOnP_cons_eq_if_modifyHead] at hw
    split_ifs at hw
    · rcases mem_cons.mp hw with rfl | hw
      · cases hc
      · exact mem_cons_of_mem d (ih hw hc)
    · obtain ⟨v, vs, hvs⟩ := exists_cons_of_ne_nil (splitOnP_ne_nil p s)
      rw [hvs, modifyHead_cons] at hw
      rw [hvs] at ih
      rcases mem_cons.mp hw with rfl | hw
      · rcases mem_cons.mp hc with rfl | hc
        · exact mem_cons_self
        · exact mem_cons_of_mem d (ih mem_cons_self hc)
      · exact mem_cons_of_mem d (ih (mem_cons_of_mem v hw) hc)

theorem eq_false_of_mem_splitOnP {p : Char → Bool} {w : Str} (hw : w ∈ s.splitOnP p) :
    ∀ c ∈ w, p c = false := by
  induction s generalizing w with
  | nil =>
    obtain rfl := mem_singleton.mp hw
    exact fun c hc => nomatch hc
  | cons d s ih =>
    rw [splitOnP_cons_eq_if_modifyHead] at hw
    split_ifs at hw with hd
    · rcases mem_cons.mp hw with rfl | hw
      · exact fun c hc => nomatch hc
      · exact ih hw
    · obtain ⟨v, vs, hvs⟩ := exists_cons_of_ne_nil (splitOnP_ne_nil p s)
      rw [hvs, modifyHead_cons] at hw
      rcases mem_cons.mp hw with rfl | hw
      · intro c hc
        rcases mem_cons.mp hc with rfl | hc
        · simpa using hd
        · exact ih (by rw [hvs]; exact mem_cons_self) c hc
      · exact ih (by rw [hvs]; exact mem_cons_of_mem _ hw)

theorem notMem_of_mem_splitOn {sep : Char} {w : Str} (hw : w ∈ s.splitOn sep) : sep ∉ w := by
  rw [splitOn_eq_splitOnP] at hw
  intro hmem
  simpa using eq_false_of_mem_splitOnP hw sep hmem

theorem mem_intercalate {sep : Char} {parts : List Str}
    (h : c ∈ intercalate [sep] parts) : c = sep ∨ ∃ s ∈ parts, c ∈ s := by
  induction parts with
  | nil => cases h
  | cons s parts ih =>
    rcases eq_or_ne parts [] with rfl | hne
    · rw [intercalate_singleton] at h
      exact Or.inr ⟨s, mem_cons_self, h⟩
    · rw [intercalate_cons_of_ne_nil hne] at h
      simp only [mem_append, mem_singleton] at h
      rcases h with (h | h) | h
      · exact Or.inr ⟨s, mem_cons_self, h⟩
      · exact Or.inl h
      · exact (ih h).imp_right fun ⟨t, ht, hc⟩ => ⟨t, mem_cons_of_mem s ht, hc⟩

theorem int_ok {R : Runtime} (hR : R.maxStrDigits = 0) (hs : s ≠ [])
    (hd : ∀ c ∈ s, R.isDecimal c = true) : ∃ n, int R s = .ok n :=
  ⟨_, if_pos ⟨hs, all_eq_true.mpr hd, Or.inl hR⟩⟩

theorem onlyValueError_int {R : Runtime} (s : Str) : OnlyValueError (int R s) := by
  intro f h
  unfold int at h
  split_ifs at h
  cases h
  rfl

/-! ### Order -/

/-- How two texts compare: at the first code point that differs, else by length. -/
def strCmp (s t : Str) : Ordering := compareOfLessAndEq s t

theorem strCmp_cons (c d : Char) (s t : Str) :
    strCmp (c :: s) (d :: t) = (compare c d).then (strCmp s t) := by
  unfold strCmp
  rcases lt_trichotomy c d with h | h | h
  · have e : compare c d = .lt := compare_lt_iff_lt.mpr h
    rw [e]
    simp [compareOfLessAndEq, cons_lt_cons_iff, h]
  · subst h
    have e : compare c c = .eq := compare_eq_iff_eq.mpr rfl
    rw [e]
    simp [compareOfLessAndEq]
  · have e : compare c d = .gt := compare_gt_iff_gt.mpr h
    rw [e]
    simp [compareOfLessAndEq, cons_lt_cons_iff, h.ne', h.not_gt]

instance : Std.TransCmp strCmp :=
  Std.TransOrd.compareOfLessAndEq_of_lt_trans_of_lt_iff (α := Str) List.lt_trans fun s t => by
    constructor
    · intro h
      exact ⟨List.lt_asymm h, fun e => List.lt_irrefl t (e ▸ h)⟩
    · rintro ⟨h, hne⟩
      rcases lt_trichotomy s t with h' | h' | h'
      · exact h'
      · exact absurd h' hne
      · exact absurd h' h

theorem strCmp_eq_eq {t : Str} : strCmp s t = .eq ↔ s = t := by
  unfold strCmp compareOfLessAndEq
  split_ifs with h1 h2
  · simp only [false_iff]
    rintro rfl
    exact List.lt_irrefl s h1
  · simp [h2]
  · simp [h2]

/-! ### An interpreter for ASCII -/

/-- The tables of the database for ASCII, with nothing beyond it but the two small sigmas. -/
def Runtime.ascii : Runtime where
  isSpace c := decide (IsAscii c) && asciiSpace c
  isDecimal c := decide (IsAscii c) && c.isDigit
  isDigit c := decide (IsAscii c) && c.isDigit
  isNumeric c := decide (IsAscii c) && c.isDigit
  isAlpha c := decide (IsAscii c) && c.isAlpha
  digitValue c := c.toNat - 48
  toLower c := if IsAscii c then [c.toLower] else if c = 'Σ' then ['σ'] else [c]
  isCased c := decide (IsAscii c) && c.isAlpha
  isCaseIgnorable _ := false
  maxStrDigits := 0
  nfkc s := s
  bracketedOk _ := true
  isDigit_of_isDecimal _ h := h
  isSpace_ascii c hc := by simp [hc]
  isDecimal_ascii c hc := by simp [hc]
  isDigit_ascii c hc := by simp [hc]
  isNumeric_ascii c hc := by simp [hc]
  isAlpha_ascii c hc := by simp [hc]
  digitValue_ascii _ _ _ := rfl
  toLower_ascii c hc := by simp [hc]
  toLower_fixed c d hd := by
    split_ifs at hd with h1 h2 <;> rw [mem_singleton] at hd <;> subst hd
    · have hlow := isAscii_toLower h1
      refine ⟨by rw [if_pos hlow, toLower_toLower h1], fun h => ?_⟩
      rw [h] at hlow
      exact absurd hlow (by decide)
    · decide
    · rw [if_neg h1, if_neg h2]
      exact ⟨rfl, h2⟩
  toLower_sigma := by decide
  toLower_punct c d hd hascii halpha := by
    split_ifs at hd with h1 h2
    · rw [mem_singleton] at hd
      subst hd
      exact eq_toLower_of_not_isAlpha h1 halpha
    · rw [mem_singleton] at hd
      subst hd
      exact absurd hascii (by decide)
    · rw [mem_singleton] at hd
      exact hd.symm

end Guardian.Python

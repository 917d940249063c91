import Guardian.Python.Runs
import Guardian.Versioning.Constraint
import Mathlib.Data.List.GetD

/-!
# Compatible releases

`^b` and `~>b` are to accept the versions from `b` up to the next significant increment of `b`.  A
`Base` is a version taken apart, so that the increment counts its release components only.
`compatible_iff` says when the code accepts these.
-/

namespace Guardian.Versioning

open Python Python.Regex List

variable (R : Runtime)

/-! ### Base versions -/

/-- What ends the epoch of a version. -/
def epochMark : Ecosystem → Option Char
  | .pypi => some '!'
  | .debian | .rpm => some ':'
  | _ => none

/-- **A base version**, taken apart: a `v`, an epoch with its mark, the components of the release,
and what follows them. -/
structure Base (eco : Ecosystem) where
  vee : Str
  epoch : Str
  comps : List Str
  suffix : Str
  vee_eq : vee = [] ∨ vee = ['v'] ∨ vee = ['V']
  epoch_eq : epoch = [] ∨ ∃ ds mark, epoch = ds ++ [mark] ∧ epochMark eco = some mark ∧ ds ≠ [] ∧
    ∀ d ∈ ds, R.isDecimal d = true
  comps_ne : comps ≠ []
  comps_digits : ∀ c ∈ comps, c ≠ [] ∧ ∀ d ∈ c, R.isDecimal d = true
  suffix_head : suffix.head?.any R.isDecimal = false
  suffix_dot : ∀ d s, suffix = '.' :: d :: s → R.isDecimal d = false
  suffix_mark : epoch = [] → comps.length = 1 → ∀ m, epochMark eco = some m → suffix.head? ≠ some m
  clean : ∀ c ∈ vee ++ epoch ++ dotted comps ++ suffix, R.isSpace c = false ∧ c ≠ ','

/-- The operators for compatible releases. -/
inductive CompatOp
  | caret
  | tildeArrow
  | tilde
  deriving DecidableEq

/-- The text of an operator. -/
def CompatOp.text : CompatOp → Str
  | .caret => ['^']
  | .tildeArrow => ['~', '>']
  | .tilde => ['~']

namespace Base

variable {R} {eco : Ecosystem}

def text (b : Base R eco) : Str := b.vee ++ b.epoch ++ dotted b.comps ++ b.suffix

def isZero (R : Runtime) (c : Str) : Bool := c.all fun d => R.digitValue d == 0

/-- **The significant component**: for `^` the leftmost that is not zero, the last one if they all
are; for `~>` the last but one, the first one if there is no other. -/
def significant (b : Base R eco) : CompatOp → ℕ
  | .caret => min (b.comps.findIdx fun c => !isZero R c) (b.comps.length - 1)
  | .tildeArrow | .tilde => b.comps.length - 2

/-- **The next significant increment**. -/
def increment (b : Base R eco) (op : CompatOp) : Except Fault Str :=
  (b.epoch ++ ·) <$> bumpAt R (b.significant op) b.comps

/-- The numbers in the text of a base version. -/
def numbers (b : Base R eco) : List Str :=
  classRuns R.isDecimal b.epoch ++ b.comps ++ classRuns R.isDecimal b.suffix

/-- The upper bound of the code; it does not read `~b`. -/
def top (b : Base R eco) : CompatOp → Option (Except Fault Str)
  | .caret => some (bumpAt R 0 b.numbers)
  | .tildeArrow => some (bumpAt R (b.numbers.length - 2) b.numbers)
  | .tilde => none

/-- **The code bumps the significant component.**  There is no epoch; for `^` the significant
component is the first one; for `~>` no number follows the release, or one number follows a release
of one component. -/
def Plain (b : Base R eco) : CompatOp → Prop
  | .caret => b.epoch = [] ∧ b.significant .caret = 0
  | .tildeArrow => b.epoch = [] ∧
    (b.comps.length + (classRuns R.isDecimal b.suffix).length - 2 = b.comps.length - 2)
  | .tilde => False

end Base

variable {R} {eco : Ecosystem}

/-! ### Reading the clause -/

/-- **A clause is read** as what its operator takes and the rest, where the rest has no blanks and
no commas. -/
theorem rematch_constraint {op bound : Str} {groups : List (String × Str)} (hne : bound ≠ [])
    (hbound : ∀ c ∈ bound, R.isSpace c = false ∧ c ≠ ',')
    (hspace : (op ++ bound).head?.any R.isSpace = false)
    (hop : (run (.opt (.group "op" (.alts
      ([">=", "<=", "==", "!=", ">", "<", "~>", "^", "="].map exactWord))))
        (.start (op ++ bound))).head? = some ⟨op.reverse, bound, groups⟩) :
    (constraintRegex R).rematch (op ++ bound) =
      some ⟨bound.reverse ++ op.reverse, [], ("ver", bound) :: groups⟩ := by
  have hhead : bound.head?.any R.isSpace = false := by
    cases bound with
    | nil => exact absurd rfl hne
    | cons c cs => exact (hbound c (by simp)).1
  have hblank : ∀ k : Cursor, k.rest.head?.any R.isSpace = false →
      (run (blanks R) k).head? = some k := fun k hk => by
    have := head?_run_star (k := k) (w := []) (p := R.isSpace) rfl (by simp) hk
    simpa [blanks] using this
  have hver : (run (.group "ver" (boundText R)) ⟨op.reverse, bound, groups⟩).head? =
      some ⟨bound.reverse ++ op.reverse, [], ("ver", bound) :: groups⟩ := by
    have hrest : bound = bound ++ [] := (append_nil bound).symm
    have hplus := head?_run_plus (k := ⟨op.reverse, bound, groups⟩)
      (p := fun c => !R.isSpace c && c != ',') hrest hne
      (fun c hc => by simp [hbound c hc]) rfl
    rw [boundText, head?_run_group hplus]
    simp [Cursor.between]
  unfold rematch constraintRegex
  refine head?_run_seq (hblank _ hspace) (head?_run_seq hop (head?_run_seq (hblank _ hhead)
    (head?_run_seq hver (head?_run_seq (hblank _ rfl) ?_))))
  rfl

theorem run_op {op : CompatOp} (hop : op ≠ .tilde) (bound : Str) :
    (run (.opt (.group "op" (.alts
      ([">=", "<=", "==", "!=", ">", "<", "~>", "^", "="].map exactWord))))
        (.start (op.text ++ bound))).head? =
      some ⟨op.text.reverse, bound, [("op", op.text)]⟩ := by
  refine head?_run_opt ?_
  have htwo : bound.length + 1 + 1 - bound.length = 2 := by omega
  cases op with
  | caret =>
    simp [CompatOp.text, Cursor.start, run, alts, exactWord, Regex.word, Regex.exact,
      Cursor.between]
  | tildeArrow =>
    simp [CompatOp.text, Cursor.start, run, alts, exactWord, Regex.word, Regex.exact,
      Cursor.between, htwo]
  | tilde => exact absurd rfl hop

theorem run_tilde {c : Char} {bound : Str} (hc : c ≠ '>') :
    (run (.opt (.group "op" (.alts
      ([">=", "<=", "==", "!=", ">", "<", "~>", "^", "="].map exactWord))))
        (.start ([] ++ '~' :: c :: bound))).head? = some ⟨[], '~' :: c :: bound, []⟩ := by
  refine head?_run_opt_of_nil ?_
  simp [Cursor.start, run, alts, exactWord, Regex.word, Regex.exact, hc]

namespace Base

variable {b : Base R eco} {op : CompatOp} {version : Str}

/-! ### The text of a base version -/

theorem not_isDecimal_of_ascii {c : Char} (hc : IsAscii c) (hd : c.isDigit = false) :
    R.isDecimal c = false := by
  rw [R.isDecimal_ascii c hc, hd]

theorem not_isDecimal_mark {mark : Char} (h : epochMark eco = some mark) :
    R.isDecimal mark = false := by
  cases eco <;> cases h <;> exact not_isDecimal_of_ascii (by decide) (by decide)

theorem text_eq (b : Base R eco) : ∃ d s, b.text = b.vee ++ d :: s ∧ R.isDecimal d = true := by
  have hdot : ∃ d s, dotted b.comps ++ b.suffix = d :: s ∧ R.isDecimal d = true := by
    obtain ⟨c, cs, hcs⟩ := exists_cons_of_ne_nil b.comps_ne
    obtain ⟨hne, hdec⟩ := b.comps_digits c (by simp [hcs])
    obtain ⟨d, ds, rfl⟩ := exists_cons_of_ne_nil hne
    refine ⟨d, ?_, ?_, hdec d (by simp)⟩
    · exact (dotted b.comps ++ b.suffix).tail
    · rw [hcs]
      cases cs <;> simp [dotted]
  obtain ⟨d, s, hds, hd⟩ := hdot
  obtain he | ⟨ds, mark, he, -, hne, hdec⟩ := b.epoch_eq
  · exact ⟨d, s, by rw [text, he, append_nil, append_assoc, hds], hd⟩
  · obtain ⟨e, es, rfl⟩ := exists_cons_of_ne_nil hne
    exact ⟨e, es ++ [mark] ++ dotted b.comps ++ b.suffix, by simp [text, he], hdec e (by simp)⟩

theorem text_ne_nil (b : Base R eco) : b.text ≠ [] := by
  obtain ⟨d, s, h, -⟩ := text_eq b
  rw [h]
  simp

theorem head_text (b : Base R eco) : ∃ c s, b.text = c :: s ∧ c ≠ '>' := by
  obtain ⟨d, s, h, hd⟩ := text_eq b
  obtain hv | hv | hv := b.vee_eq
  · refine ⟨d, s, by rw [h, hv]; rfl, ?_⟩
    rintro rfl
    rw [not_isDecimal_of_ascii (by decide) (by decide)] at hd
    cases hd
  · exact ⟨'v', d :: s, by rw [h, hv]; rfl, by decide⟩
  · exact ⟨'V', d :: s, by rw [h, hv]; rfl, by decide⟩

theorem bound_text (b : Base R eco) : ((boundRegex R).rematch b.text).isNone = false := by
  obtain ⟨d, s, h, hd⟩ := text_eq b
  have hdv : d ≠ 'v' ∧ d ≠ 'V' := by
    constructor
    all_goals
      rintro rfl
      rw [not_isDecimal_of_ascii (by decide) (by decide)] at hd
      cases hd
  rw [h]
  obtain hv | hv | hv := b.vee_eq <;> rw [hv] <;>
    simp [boundRegex, rematch, run, Cursor.start, hd, hdv]

/-! ### The numbers of a base version -/

theorem classRuns_dotted {cs : List Str} {s : Str} (hne : cs ≠ [])
    (hcs : ∀ c ∈ cs, c ≠ [] ∧ ∀ d ∈ c, R.isDecimal d = true)
    (hs : s.head?.any R.isDecimal = false) :
    classRuns R.isDecimal (dotted cs ++ s) = cs ++ classRuns R.isDecimal s := by
  have hdot : R.isDecimal '.' = false := not_isDecimal_of_ascii (by decide) (by decide)
  induction cs with
  | nil => exact absurd rfl hne
  | cons c cs ih =>
    obtain ⟨hc, hdec⟩ := hcs c (by simp)
    cases cs with
    | nil => simpa [dotted] using classRuns_append hc hdec hs
    | cons c' cs =>
      have hsplit : dotted (c :: c' :: cs) ++ s = c ++ '.' :: (dotted (c' :: cs) ++ s) := by
        simp [dotted]
      rw [hsplit, classRuns_append hc hdec (by simpa using hdot), classRuns_cons_of_not hdot,
        ih (by simp) fun c hc => hcs c (by simp [hc])]
      rfl

/-- **The numbers the code finds** in a base version. -/
theorem findall_text (b : Base R eco) : (digits1 R).findall b.text = b.numbers := by
  have hrest : classRuns R.isDecimal (dotted b.comps ++ b.suffix) =
      b.comps ++ classRuns R.isDecimal b.suffix :=
    classRuns_dotted b.comps_ne b.comps_digits b.suffix_head
  have hepoch : classRuns R.isDecimal (b.epoch ++ (dotted b.comps ++ b.suffix)) =
      classRuns R.isDecimal b.epoch ++ (b.comps ++ classRuns R.isDecimal b.suffix) := by
    obtain he | ⟨ds, mark, he, hmark, hne, hdec⟩ := b.epoch_eq
    · rw [he, nil_append, hrest]
      rfl
    · have hm := not_isDecimal_mark (R := R) hmark
      have hsingle : classRuns R.isDecimal [mark] = [] := classRuns_cons_of_not hm []
      rw [he, append_assoc, singleton_append,
        classRuns_append hne hdec (by simpa using hm), classRuns_cons_of_not hm, hrest,
        classRuns_append hne hdec (by simpa using hm), hsingle]
      rfl
  have hvee : classRuns R.isDecimal b.text =
      classRuns R.isDecimal (b.epoch ++ (dotted b.comps ++ b.suffix)) := by
    rw [text, append_assoc, append_assoc]
    obtain hv | hv | hv := b.vee_eq <;> rw [hv]
    · rfl
    all_goals exact classRuns_cons_of_not (not_isDecimal_of_ascii (by decide) (by decide)) _
  rw [digits1, findall_plus, hvee, hepoch, numbers, append_assoc]

/-! ### What the code accepts -/

/-- The constraint accepts the version. -/
def Accepts (b : Base R eco) (op : CompatOp) (version : Str) : Prop :=
  satisfiesConstraint R version (op.text ++ b.text) (.inl eco) = .ok true

/-- The version is at or above the base version and below a bound. -/
def Between (b : Base R eco) (bound : Except Fault Str) (version : Str) : Prop :=
  ∃ t z z', bound = .ok t ∧ compare R version b.text (.inl eco) = .ok z ∧ 0 ≤ z ∧
    compare R version t (.inl eco) = .ok z' ∧ z' < 0

theorem clean_text (b : Base R eco) : ∀ c ∈ b.text, R.isSpace c = false ∧ c ≠ ',' := b.clean

theorem clean_clause (b : Base R eco) (op : CompatOp) :
    ∀ c ∈ op.text ++ b.text, R.isSpace c = false ∧ c ≠ ',' := by
  intro c hc
  rcases mem_append.mp hc with hc | hc
  · have hop : c = '^' ∨ c = '~' ∨ c = '>' := by cases op <;> simp [CompatOp.text] at hc <;> tauto
    obtain rfl | rfl | rfl := hop
    all_goals exact ⟨by rw [R.isSpace_ascii _ (by decide)]; decide, by decide⟩
  · exact b.clean_text c hc

theorem clausesOf_clause (b : Base R eco) (op : CompatOp) :
    clausesOf R (op.text ++ b.text) = [op.text ++ b.text] := by
  have hclean := b.clean_clause op
  have hstrip : strip R (op.text ++ b.text) = op.text ++ b.text :=
    strip_of_clean fun c hc => (hclean c hc).1
  unfold clausesOf splitOn
  rw [splitOnP_eq_singleton fun c hc => by simpa using (hclean c hc).2]
  simp [hstrip, b.text_ne_nil]

theorem readClause_clause (b : Base R eco) (op : CompatOp) :
    readClause R (op.text ++ b.text) =
      if op = .tilde then none else some (op.text, b.text) := by
  have hhead : (op.text ++ b.text).head?.any R.isSpace = false := by
    have hclean := b.clean_clause op
    rcases h : op.text ++ b.text with _ | ⟨c, s⟩
    · rfl
    · exact (hclean c (by rw [h]; simp)).1
  unfold readClause
  cases op with
  | caret | tildeArrow =>
    rw [rematch_constraint b.text_ne_nil b.clean_text hhead (run_op (by decide) _)]
    simp [Cursor.group, lookup_cons, CompatOp.text, b.bound_text]
  | tilde =>
    obtain ⟨c, s, hs, hc⟩ := b.head_text
    have hclause : CompatOp.tilde.text ++ b.text = [] ++ '~' :: c :: s := by rw [hs]; rfl
    have hclean := b.clean_clause .tilde
    rw [hclause] at hclean hhead ⊢
    have hne : '~' :: c :: s ≠ [] := by simp
    rw [rematch_constraint hne hclean hhead (run_tilde hc)]
    have htilde : R.isDecimal '~' = false := not_isDecimal_of_ascii (by decide) (by decide)
    simp [Cursor.group, boundRegex, rematch, run, Cursor.start, htilde]

theorem ceiling_text (b : Base R eco) (hop : op ≠ .tilde) :
    ∃ bound, b.top op = some bound ∧ ceiling R op.text b.text = some <$> bound := by
  have hne : b.numbers ≠ [] := by simp [numbers, b.comps_ne]
  unfold ceiling
  dsimp only
  rw [b.findall_text, if_neg hne]
  cases op with
  | caret => exact ⟨_, rfl, rfl⟩
  | tildeArrow => exact ⟨_, rfl, rfl⟩
  | tilde => exact absurd rfl hop

theorem refused_iff {result : ℤ} (hop : op ≠ .tilde) : Refused op.text result ↔ result < 0 := by
  cases op with
  | tilde => exact absurd rfl hop
  | caret => simp [Refused, CompatOp.text]
  | tildeArrow => simp [Refused, CompatOp.text]

theorem belowCeiling_iff (version : Str) {bound : Except Fault Str} (hop : op ≠ .tilde)
    (hceil : ceiling R op.text b.text = some <$> bound) :
    belowCeiling R eco version op.text b.text = .ok true ↔
      ∃ t z, bound = .ok t ∧ compare R version t (.inl eco) = .ok z ∧ z < 0 := by
  have hcompat : op.text = "~>" ∨ op.text = "^" := by
    cases op with
    | tilde => exact absurd rfl hop
    | caret => exact .inr rfl
    | tildeArrow => exact .inl rfl
  unfold belowCeiling
  rw [if_pos hcompat, hceil]
  rcases bound with f | t
  · simp [bind, Except.bind, Functor.map, Except.map]
  · simp only [bind, Except.bind, Functor.map, Except.map, pure, Except.pure]
    rcases hcmp : compare R version t (.inl eco) with f | z <;> simp [hcmp]

/-- **What the code accepts**: the versions from the base version up to the bound of the code. -/
theorem accepts_iff : b.Accepts op version ↔ ∃ bound, b.top op = some bound ∧
    b.Between bound version := by
  unfold Accepts satisfiesConstraint
  dsimp only [Ecosystem.of]
  rw [b.clausesOf_clause, if_neg (by simp), satisfiesAll, satisfiesClause, b.readClause_clause]
  by_cases hop : op = .tilde
  · subst hop
    simp [top, bind, Except.bind, pure, Except.pure]
  rw [if_neg hop]
  obtain ⟨bound, htop, hceil⟩ := b.ceiling_text hop
  have hbelow := b.belowCeiling_iff version hop hceil
  unfold Between
  rw [htop]
  dsimp only
  rcases compare R version b.text (.inl eco) with f | z
  · cases f <;> simp [bind, Except.bind, pure, Except.pure]
  dsimp only
  by_cases hz : z < 0
  · rw [if_pos ((refused_iff hop).mpr hz)]
    refine iff_of_false (fun h => by cases h) ?_
    rintro ⟨_, -, t, z', -, -, hz', h, -⟩
    cases hz'
    omega
  · rw [if_neg (mt (refused_iff hop).mp hz)]
    have hgo : ∀ x : Except Fault Bool, (x >>= fun c =>
        if c = true then satisfiesAll R eco version [] else pure false) = .ok true ↔
          x = .ok true := by
      intro x
      rcases x with f | _ | _ <;> simp [bind, Except.bind, pure, Except.pure, satisfiesAll]
    refine (hgo _).trans (hbelow.trans ⟨?_, ?_⟩)
    · rintro ⟨t, z', rfl, hz', hlt⟩
      exact ⟨_, rfl, t, z, z', rfl, rfl, by omega, hz', hlt⟩
    · rintro ⟨_, heq, t, z, z', ht, -, -, hz', hlt⟩
      cases heq
      exact ⟨t, z', ht, hz', hlt⟩

/-! ### Where the bound is the increment -/

theorem bumpAt_append {idx : ℕ} {cs : List Str} (h : idx < cs.length) (ds : List Str) :
    bumpAt R idx (cs ++ ds) = bumpAt R idx cs := by
  unfold bumpAt
  rw [getD_append _ _ _ _ h, take_append_of_le_length h.le]

theorem top_of_plain (h : b.Plain op) : b.top op = some (b.increment op) := by
  have hpos := length_pos_of_ne_nil b.comps_ne
  have hnil : ∀ x : Except Fault Str, ([] ++ ·) <$> x = x := fun x => by cases x <;> rfl
  cases op with
  | tilde => exact h.elim
  | caret =>
    obtain ⟨he, hsig⟩ := h
    rw [top, increment, numbers, hsig, he, hnil, classRuns_nil, nil_append,
      bumpAt_append hpos]
  | tildeArrow =>
    obtain ⟨he, hlen⟩ := h
    rw [top, increment, numbers, he, hnil, classRuns_nil, nil_append, length_append, hlen,
      bumpAt_append (by omega)]
    rfl

/-! ### ASCII versions -/

theorem isSpace_digit {c : Char} (hc : IsAscii c) (hd : R.isDecimal c = true) :
    R.isSpace c = false := by
  rw [R.isDecimal_ascii c hc] at hd
  rw [R.isSpace_ascii c hc]
  have := forall_ascii (P := fun c => c.isDigit = true → asciiSpace c = false) (by decide) hc
  exact this hd

theorem asciiVersion_of {s : Str} (hne : s ≠ []) (h : ∀ c ∈ s, IsAscii c ∧ R.isSpace c = false) :
    AsciiVersion R s := by
  refine ⟨fun c hc => (h c hc).1, ?_⟩
  rwa [strip_of_clean fun c hc => (h c hc).2]

theorem mem_dotted {parts : List Str} {c : Char} (h : c ∈ dotted parts) :
    c = '.' ∨ ∃ w ∈ parts, c ∈ w := by
  induction parts with
  | nil => simp [dotted] at h
  | cons w ws ih =>
    cases ws with
    | nil =>
      refine .inr ⟨w, by simp, by simpa [dotted] using h⟩
    | cons w' ws =>
      have hsplit : dotted (w :: w' :: ws) = w ++ '.' :: dotted (w' :: ws) := by simp [dotted]
      rw [hsplit, mem_append, mem_cons] at h
      obtain h | rfl | h := h
      · exact .inr ⟨w, by simp, h⟩
      · exact .inl rfl
      · obtain rfl | ⟨v, hv, hc⟩ := ih h
        · exact .inl rfl
        · exact .inr ⟨v, mem_cons_of_mem _ hv, hc⟩

theorem dotted_ne_nil {parts : List Str} {w : Str} (hw : w ∈ parts) (hne : w ≠ []) :
    dotted parts ≠ [] := by
  match parts with
  | [] => simp at hw
  | [v] =>
    obtain rfl := mem_singleton.mp hw
    simpa [dotted] using hne
  | v :: v' :: vs => simp [dotted]

/-- Bumping one of several ASCII numbers gives an ASCII version. -/
theorem bumpAt_ascii (hR : R.maxStrDigits = 0) {idx : ℕ} {parts : List Str}
    (hidx : idx < parts.length)
    (hparts : ∀ w ∈ parts, w ≠ [] ∧ ∀ c ∈ w, R.isDecimal c = true ∧ IsAscii c) :
    ∃ t, bumpAt R idx parts = .ok t ∧ t ≠ [] ∧ ∀ c ∈ t, IsAscii c ∧ R.isSpace c = false := by
  have hget : parts.getD idx [] ∈ parts := by
    rw [getD_eq_getElem _ _ hidx]
    exact getElem_mem hidx
  obtain ⟨n, hn⟩ := int_ok hR (hparts _ hget).1 fun c hc => ((hparts _ hget).2 c hc).1
  have hstr : strInt R (n + 1) = .ok (Nat.toDigits 10 (n + 1)) := if_pos (.inl hR)
  refine ⟨dotted (parts.take idx ++ [Nat.toDigits 10 (n + 1)]), ?_, ?_, fun c hc => ?_⟩
  · unfold bumpAt
    rw [hn]
    show (do return dotted (parts.take idx ++ [← strInt R (n + 1)])) = _
    rw [hstr]
    rfl
  · refine dotted_ne_nil (w := Nat.toDigits 10 (n + 1)) (by simp) Nat.toDigits_ne_nil
  · obtain rfl | ⟨w, hw, hcw⟩ := mem_dotted hc
    · exact ⟨by decide, by rw [R.isSpace_ascii _ (by decide)]; decide⟩
    rcases mem_append.mp hw with hw | hw
    · obtain ⟨hd, hac⟩ := (hparts w (mem_of_mem_take hw)).2 c hcw
      exact ⟨hac, isSpace_digit hac hd⟩
    · rw [mem_singleton] at hw
      subst hw
      have hdig := Nat.isDigit_of_mem_toDigits (by decide) (by decide) hcw
      have hac : IsAscii c := isAscii_of_isDigit hdig
      exact ⟨hac, isSpace_digit hac (by rw [R.isDecimal_ascii c hac, hdig])⟩

theorem increment_ascii (hR : R.maxStrDigits = 0) (hb : ∀ c ∈ b.text, IsAscii c)
    (op : CompatOp) : ∃ t, b.increment op = .ok t ∧ AsciiVersion R t := by
  have hpos := length_pos_of_ne_nil b.comps_ne
  have hsig : b.significant op < b.comps.length := by
    cases op <;> simp only [significant] <;> omega
  have hmem : ∀ c ∈ b.comps, ∀ d ∈ c, d ∈ b.text := by
    intro c hc d hd
    have hnum : c ∈ (digits1 R).findall b.text := by
      rw [b.findall_text, numbers]
      simp [hc]
    rw [digits1, findall_plus] at hnum
    exact (mem_classRuns hnum).2.2 d hd
  obtain ⟨t, ht, hne, hclean⟩ := bumpAt_ascii hR hsig fun c hc =>
    ⟨(b.comps_digits c hc).1, fun d hd => ⟨(b.comps_digits c hc).2 d hd, hb d (hmem c hc d hd)⟩⟩
  refine ⟨b.epoch ++ t, by rw [increment, ht]; rfl, asciiVersion_of (by simp [hne]) fun c hc => ?_⟩
  rcases mem_append.mp hc with hc | hc
  · have hct : c ∈ b.text := by simp [text, hc]
    exact ⟨hb c hct, (b.clean_text c hct).1⟩
  · exact hclean c hc

theorem top_ascii (hR : R.maxStrDigits = 0) (hb : ∀ c ∈ b.text, IsAscii c)
    {bound : Except Fault Str} (htop : b.top op = some bound) :
    ∃ t, bound = .ok t ∧ AsciiVersion R t := by
  have hparts : ∀ w ∈ b.numbers, w ≠ [] ∧ ∀ c ∈ w, R.isDecimal c = true ∧ IsAscii c := by
    intro w hw
    rw [← b.findall_text, digits1, findall_plus] at hw
    obtain ⟨hne, hdec, hmem⟩ := mem_classRuns hw
    exact ⟨hne, fun c hc => ⟨hdec c hc, hb c (hmem c hc)⟩⟩
  have hpos : 0 < b.numbers.length := by
    have := length_pos_of_ne_nil b.comps_ne
    simp only [numbers, length_append]
    omega
  obtain ⟨idx, hidx, rfl⟩ : ∃ idx < b.numbers.length, bound = bumpAt R idx b.numbers := by
    cases op with
    | tilde => cases htop
    | caret => cases htop; exact ⟨0, hpos, rfl⟩
    | tildeArrow => cases htop; exact ⟨_, by omega, rfl⟩
  obtain ⟨t, ht, hne, hclean⟩ := bumpAt_ascii hR hidx hparts
  exact ⟨t, ht, asciiVersion_of hne hclean⟩

theorem text_ascii (hb : ∀ c ∈ b.text, IsAscii c) : AsciiVersion R b.text :=
  asciiVersion_of b.text_ne_nil fun c hc => ⟨hb c hc, (b.clean_text c hc).1⟩

theorem same_bound_iff {A : Type*} {r : A → A → Prop} (htotal : ∀ u v, r u v ∨ r v u)
    (htrans : ∀ u v w, r u v → r v w → r u w) {b t' : A} (t : A) (hb : ¬ r t' b) :
    (∀ v, r b v → (¬ r t v ↔ ¬ r t' v)) ↔ r t t' ∧ r t' t := by
  have hrefl : ∀ u, r u u := fun u => (htotal u u).elim id id
  have hbt' : r b t' := (htotal b t').resolve_right hb
  constructor
  · intro h
    refine ⟨?_, ?_⟩
    · by_contra htt'
      exact (h t' hbt').mp htt' (hrefl t')
    · by_contra ht't
      rcases htotal b t with hbt | htb
      · exact (h t hbt).mpr ht't (hrefl t)
      · exact (h b (hrefl b)).mpr hb htb
  · rintro ⟨htt', ht't⟩ v -
    exact not_congr ⟨fun h => htrans _ _ _ ht't h, fun h => htrans _ _ _ htt' h⟩

variable (R eco) in
/-- One ASCII version is at or below another. -/
def AtOrBelow (u v : {s : Str // AsciiVersion R s}) : Prop :=
  ∃ z ≤ 0, compare R u.1 v.1 (.inl eco) = .ok z

variable (eco) in
theorem compare_atOrBelow (hR : R.maxStrDigits = 0) (u v : {s : Str // AsciiVersion R s}) :
    ∃ z, compare R u.1 v.1 (.inl eco) = .ok z ∧ (z ≤ 0 ↔ AtOrBelow R eco u v) ∧
      (0 ≤ z ↔ AtOrBelow R eco v u) := by
  obtain ⟨-, ⟨z, huv, hvu⟩, -⟩ := compare_total_preorder hR (.inl eco) u.2 v.2 u.2
  refine ⟨z, huv, ⟨fun h => ⟨z, h, huv⟩, ?_⟩, ⟨fun h => ⟨-z, by omega, hvu⟩, ?_⟩⟩
  · rintro ⟨z', hz', h⟩
    rw [huv] at h
    cases h
    exact hz'
  · rintro ⟨z', hz', h⟩
    rw [hvu] at h
    cases h
    omega

variable (eco) in
theorem atOrBelow_total (hR : R.maxStrDigits = 0) (u v : {s : Str // AsciiVersion R s}) :
    AtOrBelow R eco u v ∨ AtOrBelow R eco v u := by
  obtain ⟨z, -, h, h'⟩ := compare_atOrBelow eco hR u v
  rcases le_total z 0 with hz | hz
  · exact .inl (h.mp hz)
  · exact .inr (h'.mp hz)

theorem atOrBelow_trans (hR : R.maxStrDigits = 0) (u v w : {s : Str // AsciiVersion R s})
    (huv : AtOrBelow R eco u v) (hvw : AtOrBelow R eco v w) : AtOrBelow R eco u w := by
  obtain ⟨x, hx, huv⟩ := huv
  obtain ⟨y, hy, hvw⟩ := hvw
  obtain ⟨-, -, htrans⟩ := compare_total_preorder hR (.inl eco) u.2 v.2 w.2
  exact htrans x y huv hvw hx hy

theorem between_iff (hR : R.maxStrDigits = 0) (hbase : AsciiVersion R b.text) {t : Str}
    (ht : AsciiVersion R t) (hversion : AsciiVersion R version) :
    b.Between (.ok t) version ↔ AtOrBelow R eco ⟨b.text, hbase⟩ ⟨version, hversion⟩ ∧
      ¬ AtOrBelow R eco ⟨t, ht⟩ ⟨version, hversion⟩ := by
  obtain ⟨z, hz, -, hge⟩ := compare_atOrBelow eco hR ⟨version, hversion⟩ ⟨b.text, hbase⟩
  obtain ⟨z', hz', -, hge'⟩ := compare_atOrBelow eco hR ⟨version, hversion⟩ ⟨t, ht⟩
  rw [← hge, ← hge', not_le]
  constructor
  · rintro ⟨_, _, _, ht', h, hle, h', hlt⟩
    cases ht'
    rw [hz] at h
    rw [hz'] at h'
    cases h
    cases h'
    exact ⟨hle, hlt⟩
  · rintro ⟨hle, hlt⟩
    exact ⟨t, z, z', rfl, hz, hle, hz', hlt⟩

/-- **On ASCII versions** `^b`, `~>b` and `~b` accept the interval, for a base version below its
increment, exactly if the code has a bound and it stands where the increment stands. -/
theorem compatible_ascii (hR : R.maxStrDigits = 0) (hb : ∀ c ∈ b.text, IsAscii c)
    (hbelow : b.Between (b.increment op) b.text) :
    (∀ version, AsciiVersion R version →
        (b.Accepts op version ↔ b.Between (b.increment op) version)) ↔
      ∃ t t', b.top op = some (.ok t) ∧ b.increment op = .ok t' ∧
        compare R t t' (.inl eco) = .ok 0 := by
  have hbase := b.text_ascii hb
  obtain ⟨t', ht', hinc⟩ := b.increment_ascii hR hb op
  rw [ht'] at hbelow ⊢
  -- the base version is below the increment
  have hlow : ¬ AtOrBelow R eco ⟨t', hinc⟩ ⟨b.text, hbase⟩ :=
    ((between_iff hR hbase hinc hbase).mp hbelow).2
  have hsame := fun t (ht : AsciiVersion R t) =>
    same_bound_iff (atOrBelow_total eco hR) (atOrBelow_trans hR) ⟨t, ht⟩ hlow
  have hequal : ∀ t (ht : AsciiVersion R t), compare R t t' (.inl eco) = .ok 0 ↔
      AtOrBelow R eco ⟨t, ht⟩ ⟨t', hinc⟩ ∧ AtOrBelow R eco ⟨t', hinc⟩ ⟨t, ht⟩ := by
    intro t ht
    obtain ⟨z, hz, hle, hge⟩ := compare_atOrBelow eco hR ⟨t, ht⟩ ⟨t', hinc⟩
    rw [← hle, ← hge, hz, Except.ok.injEq]
    omega
  constructor
  · intro hexact
    obtain ⟨bound, htop, -⟩ := accepts_iff.mp ((hexact _ hbase).mpr hbelow)
    obtain ⟨t, rfl, hbound⟩ := b.top_ascii hR hb htop
    refine ⟨t, t', htop, rfl, (hequal t hbound).mpr ((hsame t hbound).mp ?_)⟩
    rintro ⟨version, hversion⟩ hge
    have hver := hexact version hversion
    rw [accepts_iff, htop] at hver
    simp only [Option.some.injEq, exists_eq_left', between_iff hR hbase hbound hversion,
      between_iff hR hbase hinc hversion, hge, true_and] at hver
    exact hver
  · rintro ⟨t, t'', htop, ht'', hzero⟩ version hversion
    cases ht''
    obtain ⟨_, ht, hbound⟩ := b.top_ascii hR hb htop
    cases ht
    have hver := (hsame t hbound).mpr ((hequal t hbound).mp hzero) ⟨version, hversion⟩
    rw [accepts_iff, htop]
    simp only [Option.some.injEq, exists_eq_left', between_iff hR hbase hbound hversion,
      between_iff hR hbase hinc hversion]
    exact and_congr_right hver

/-- **`^b`, `~>b` and `~b` accept the versions from `b` up to its increment** wherever the code
bumps the significant component.  On ASCII versions they do so exactly where the bound of the code
stands where the increment stands. -/
theorem compatible_iff (b : Base R eco) (op : CompatOp) :
    (b.Plain op → ∀ version, b.Accepts op version ↔ b.Between (b.increment op) version) ∧
      (R.maxStrDigits = 0 → (∀ c ∈ b.text, IsAscii c) → b.Between (b.increment op) b.text →
        ((∀ version, AsciiVersion R version →
            (b.Accepts op version ↔ b.Between (b.increment op) version)) ↔
          ∃ t t', b.top op = some (.ok t) ∧ b.increment op = .ok t' ∧
            compare R t t' (.inl eco) = .ok 0)) := by
  refine ⟨fun hplain version => ?_, compatible_ascii⟩
  rw [accepts_iff, top_of_plain hplain]
  simp

end Base

/-! ### Three npm versions -/

/-- `1.2.3` with a suffix. -/
def base123 (suffix : Str) (hhead : suffix.head?.any Runtime.ascii.isDecimal = false)
    (hdot : suffix.head? ≠ some '.')
    (hclean : ∀ c ∈ suffix, Runtime.ascii.isSpace c = false ∧ c ≠ ',') :
    Base Runtime.ascii .npm where
  vee := []
  epoch := []
  comps := [['1'], ['2'], ['3']]
  suffix := suffix
  vee_eq := .inl rfl
  epoch_eq := .inl rfl
  comps_ne := by simp
  comps_digits := by decide
  suffix_head := hhead
  suffix_dot := by
    rintro d s rfl
    exact absurd rfl hdot
  suffix_mark := by
    intro _ h
    simp at h
  clean := by
    have h : ∀ c ∈ "1.2.3".toList, Runtime.ascii.isSpace c = false ∧ c ≠ ',' := by decide
    intro c hc
    rcases mem_append.mp hc with hc | hc
    · exact h c (by simpa [dotted] using hc)
    · exact hclean c hc

/-- `1.2.3`. -/
def release123 : Base Runtime.ascii .npm := base123 [] rfl (by simp) (by simp)

/-- `1.2.3-rc1`. -/
def rc123 : Base Runtime.ascii .npm := base123 "-rc1" (by decide) (by decide) (by decide)

/-- `0.2.3`. -/
def release023 : Base Runtime.ascii .npm where
  vee := []
  epoch := []
  comps := [['0'], ['2'], ['3']]
  suffix := []
  vee_eq := .inl rfl
  epoch_eq := .inl rfl
  comps_ne := by simp
  comps_digits := by decide
  suffix_head := rfl
  suffix_dot := by simp
  suffix_mark := by
    intro _ h
    simp at h
  clean := by decide

/-- The interval of `^1.2.3`, and the place of its bound. -/
theorem compatible_release123 :
    (release123.Accepts .caret "1.9.0" ↔
        release123.Between (release123.increment .caret) "1.9.0") ∧
      ∃ t t', release123.top .caret = some (.ok t) ∧ release123.increment .caret = .ok t' ∧
        compare .ascii t t' (.inl .npm) = .ok 0 :=
  have hplain : release123.Plain .caret := ⟨rfl, by decide⟩
  have hbelow : release123.Between (release123.increment .caret) release123.text :=
    ⟨['2'], 0, -1, by decide⟩
  ⟨(release123.compatible_iff .caret).1 hplain _,
    ((release123.compatible_iff .caret).2 rfl (by decide) hbelow).mp
      fun version _ => (release123.compatible_iff .caret).1 hplain version⟩

/-- **The bounds that are off**: `^0.2.3` accepts `0.9.0`, `~>1.2.3-rc1` refuses `1.2.9`, and
`~1.2.3` refuses `1.2.3`. -/
theorem compatible_off :
    (¬ ∀ version, release023.Accepts .caret version ↔
        release023.Between (release023.increment .caret) version) ∧
      (¬ ∀ version, rc123.Accepts .tildeArrow version ↔
        rc123.Between (rc123.increment .tildeArrow) version) ∧
      ¬ ∀ version, release123.Accepts .tilde version ↔
        release123.Between (release123.increment .tilde) version := by
  refine ⟨fun h => ?_, fun h => ?_, fun h => ?_⟩
  · have haccept : release023.Accepts .caret "0.9.0" := by
      unfold Base.Accepts
      decide
    obtain ⟨t, z, z', ht, -, -, hz', hlt⟩ := (h _).mp haccept
    have hinc : release023.increment .caret = .ok "0.3" := by decide
    have hcmp : compare .ascii "0.9.0" "0.3" (.inl .npm) = .ok 1 := by decide
    cases hinc.symm.trans ht
    cases hcmp.symm.trans hz'
    omega
  · have hrefuse : ¬ rc123.Accepts .tildeArrow "1.2.9" := by
      unfold Base.Accepts
      decide +kernel
    exact hrefuse ((h _).mpr ⟨"1.3", 1, -1, by decide⟩)
  · have hrefuse : ¬ release123.Accepts .tilde "1.2.3" := by
      unfold Base.Accepts
      decide
    exact hrefuse ((h _).mpr ⟨"1.3", 0, -1, by decide⟩)

end Guardian.Versioning

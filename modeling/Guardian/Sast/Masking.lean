import Guardian.Python.Text

/-!
# Masked source

Before rules are matched, the comments and the literals of a source are replaced by blanks. The
lexer goes from mark to mark; a reading of a text says of each character whether it is code, by a
grammar that does not go from state to state.
-/

namespace Guardian.Sast.Masking

open Python List

/-! ### Languages -/

/-- A mark is not empty, and stands on one line. -/
def IsMark (m : Str) : Prop := m ≠ [] ∧ '\n' ∉ m

instance (m : Str) : Decidable (IsMark m) := inferInstanceAs (Decidable (_ ∧ _))

/-- **What `_mask` is told of a language**: the marks of its comments, and whether it has triple
quotes. -/
structure Style where
  lineComments : List Str
  block : Option (Str × Str)
  tripleQuotes : Bool
  line_marks : ∀ m ∈ lineComments, IsMark m
  block_marks : ∀ b ∈ block, IsMark b.1 ∧ IsMark b.2

/-- `_PY_LIKE`. -/
def pyLike : List Str := [".py", ".pyi"].map String.toList

/-- `_HASH_ONLY`. -/
def hashOnly : List Str := [".rb", ".sh", ".bash", ".yml", ".yaml"].map String.toList

/-- `_SLASH_AND_HASH`. -/
def slashAndHash : List Str := [".php"]

/-- `_C_LIKE`. -/
def cLike : List Str :=
  [".js", ".ts", ".tsx", ".jsx", ".java", ".go", ".c", ".h", ".cpp", ".cs", ".kt", ".rs"].map
    String.toList

/-- The style of `_PY_LIKE`. -/
def pyStyle : Style where
  lineComments := ["#"]
  block := none
  tripleQuotes := true
  line_marks := by decide
  block_marks := by decide

/-- The style of `_HASH_ONLY`. -/
def hashStyle : Style where
  lineComments := ["#"]
  block := none
  tripleQuotes := false
  line_marks := by decide
  block_marks := by decide

/-- The style of `_SLASH_AND_HASH`. -/
def phpStyle : Style where
  lineComments := ["//", "#"]
  block := some ("/*", "*/")
  tripleQuotes := false
  line_marks := by decide
  block_marks := by decide

/-- The style of `_C_LIKE`. -/
def cStyle : Style where
  lineComments := ["//"]
  block := some ("/*", "*/")
  tripleQuotes := false
  line_marks := by decide
  block_marks := by decide

/-- The style of a suffix, if it is one of a language that is supported. -/
def styleOf (R : Runtime) (suffix : Str) : Option Style :=
  let suffix := lower R suffix
  if suffix ∈ pyLike then some pyStyle
  else if suffix ∈ hashOnly then some hashStyle
  else if suffix ∈ slashAndHash then some phpStyle
  else if suffix ∈ cLike then some cStyle
  else none

/-! ### `_mask` -/

/-- `_blank`. -/
def blank (c : Char) : Char := if c = '\n' then '\n' else ' '

def quotes : List Char := ['"', '\'', '`']

/-- The marks of strings over several lines. -/
def tripleQuotes : List Str := ["\"\"\"", "'''"].map String.toList

/-- A comment or a literal that begins. -/
inductive Opener
  | block (mark close : Str)
  | line (mark : Str)
  | quote (q : Str)
  deriving DecidableEq

/-- Where the lexer is: the mark that it waits for is open. -/
inductive Mode
  | code
  | lineComment
  | blockComment (close : Str)
  | quote (q : Str)
  deriving DecidableEq

/-- The mark of a comment or a literal. -/
@[simp] def Opener.mark : Opener → Str
  | .block mark _ => mark
  | .line mark => mark
  | .quote q => q

/-- Where the lexer is behind the mark. -/
def Opener.mode : Opener → Mode
  | .block _ close => .blockComment close
  | .line _ => .lineComment
  | .quote q => .quote q

variable (st : Style)

/-- What begins here, outside any string or comment. -/
def opener (s : Str) : Option Opener :=
  match st.block.filter fun b => b.1 <+: s with
  | some (mark, close) => some (.block mark close)
  | none =>
    match st.lineComments.find? fun m => m <+: s with
    | some mark => some (.line mark)
    | none =>
      if st.tripleQuotes ∧ ∃ q ∈ tripleQuotes, q <+: s then some (.quote (s.take 3))
      else
        match s with
        | [] => none
        | c :: _ => if c ∈ quotes then some (.quote [c]) else none

/-- One turn of the loop at a character: what is put out, how much is read, and where the lexer is
then. -/
def step (m : Mode) (c : Char) (cs : Str) : Str × ℕ × Mode :=
  match m with
  | .lineComment => if c = '\n' then (['\n'], 1, .code) else ([' '], 1, .lineComment)
  | .blockComment close =>
    if close <+: c :: cs then (replicate close.length ' ', close.length, .code)
    else ([blank c], 1, .blockComment close)
  | .quote q =>
    if c = '\\' ∧ cs ≠ [] then ((c :: cs.take 1).map blank, 2, .quote q)
    else if q <+: c :: cs then (replicate q.length ' ', q.length, .code)
    else ([blank c], 1, .quote q)
  | .code =>
    match opener st (c :: cs) with
    | some o => (replicate o.mark.length ' ', o.mark.length, o.mode)
    | none => ([c], 1, .code)

/-- The loop, for at most so many turns. -/
def maskFrom : ℕ → Mode → Str → Str
  | 0, _, _ => []
  | _ + 1, _, [] => []
  | n + 1, m, c :: cs =>
    let (out, read, m') := step st m c cs
    out ++ maskFrom n m' ((c :: cs).drop read)

/-- **`_mask`.** -/
def mask (text : Str) : Str := maskFrom st text.length .code text

/-- **`mask_non_code`.** -/
def maskNonCode (R : Runtime) (text suffix : Str) : Str :=
  match styleOf R suffix with
  | some st => mask st text
  | none => text

/-! ### Readings -/

/-- A text with a note at each character that says whether it is code. -/
abbrev Reading := List (Char × Bool)

def textOf (ms : Reading) : Str := ms.map Prod.fst

def shown (p : Char × Bool) : Char := if p.2 then p.1 else blank p.1

def hidden (s : Str) : Reading := s.map fun c => (c, false)

def codeOf (s : Str) : Reading := s.map fun c => (c, true)

/-- **A text inside a literal**, before another one: it holds no closing mark, but where a character
is escaped. -/
inductive Inside (q : Str) : Str → Str → Prop
  | nil {after} : Inside q [] after
  | escape {c s after} : Inside q s after → Inside q ('\\' :: c :: s) after
  | char {c s after} : ¬(c = '\\' ∧ s ++ after ≠ []) → ¬q <+: c :: (s ++ after) →
      Inside q s after → Inside q (c :: s) after

/-- **A text inside a block comment**, before another one: no closing mark begins in it. -/
def Within (close s after : Str) : Prop := ∀ u v, s = u ++ v → v ≠ [] → ¬close <+: v ++ after

/-- **A whole comment or literal**, before another text. -/
inductive Covers : Str → Str → Prop
  | line {mark s after} : opener st (mark ++ s ++ after) = some (.line mark) → '\n' ∉ s →
      (after = [] ∨ after.head? = some '\n') → Covers (mark ++ s) after
  | block {mark close s after} :
      opener st (mark ++ s ++ close ++ after) = some (.block mark close) →
        Within close s (close ++ after) → Covers (mark ++ s ++ close) after
  | openBlock {mark close s} : opener st (mark ++ s) = some (.block mark close) →
      Within close s [] → Covers (mark ++ s) []
  | literal {q s after} : opener st (q ++ s ++ q ++ after) = some (.quote q) →
      Inside q s (q ++ after) → Covers (q ++ s ++ q) after
  | openLiteral {q s} : opener st (q ++ s) = some (.quote q) → Inside q s [] → Covers (q ++ s) []

/-- **A reading of a text**, before another one: code where nothing begins, and whole comments and
literals. -/
inductive Reads : Reading → Str → Prop
  | nil {after} : Reads [] after
  | code {c ms after} : opener st (c :: (textOf ms ++ after)) = none → Reads ms after →
      Reads ((c, true) :: ms) after
  | hidden {s ms after} : Covers st s (textOf ms ++ after) → Reads ms after →
      Reads (hidden s ++ ms) after

variable {st} {m : Mode} {s after : Str}

@[simp] theorem textOf_append (ms ns : Reading) : textOf (ms ++ ns) = textOf ms ++ textOf ns :=
  map_append

@[simp] theorem textOf_cons (p : Char × Bool) (ms : Reading) : textOf (p :: ms) = p.1 :: textOf ms :=
  rfl

@[simp] theorem textOf_hidden (s : Str) : textOf (hidden s) = s := by
  simp [textOf, hidden, Function.comp_def]

@[simp] theorem map_shown_hidden (s : Str) : (hidden s).map shown = s.map blank := by
  simp [hidden, shown]

theorem Reads.codeOf_append {ms : Reading}
    (h : ∀ t ∈ s.tails, t ≠ [] → opener st (t ++ (textOf ms ++ after)) = none)
    (hms : Reads st ms after) : Reads st (codeOf s ++ ms) after := by
  induction s with
  | nil => exact hms
  | cons c s ih =>
    rw [tails_cons, forall_mem_cons] at h
    have htext : textOf (codeOf s) = s := by simp [codeOf, textOf, Function.comp_def]
    refine .code ?_ (ih h.2)
    show opener st (c :: (textOf (codeOf s ++ ms) ++ after)) = none
    rw [textOf_append, htext, append_assoc]
    exact h.1 (cons_ne_nil c s)
/-- The mark that the lexer waits for is one. -/
def Mode.Waits : Mode → Prop
  | .blockComment close => IsMark close
  | .quote q => IsMark q ∧ '\\' ∉ q
  | _ => True

theorem blank_eq_or (c : Char) : blank c = '\n' ∨ blank c = ' ' := by
  unfold blank
  split_ifs
  · exact Or.inl rfl
  · exact Or.inr rfl

theorem map_blank_of_notMem (h : '\n' ∉ s) : s.map blank = replicate s.length ' ' := by
  rw [eq_replicate_iff]
  refine ⟨length_map _, fun c hc => ?_⟩
  obtain ⟨d, hd, rfl⟩ := mem_map.mp hc
  refine if_neg fun heq => h ?_
  rwa [heq] at hd

/-! ### Marks -/

/-- **What begins here** has its mark here, and waits for a mark. -/
theorem opener_spec {o : Opener} (h : opener st s = some o) :
    o.mark <+: s ∧ IsMark o.mark ∧ o.mode.Waits := by
  unfold opener at h
  split at h
  · rename_i mark close hblock
    obtain ⟨hmem, hmark⟩ := Option.filter_eq_some_iff.mp hblock
    have hmarks := st.block_marks _ hmem
    cases h
    exact ⟨of_decide_eq_true hmark, hmarks.1, hmarks.2⟩
  · split at h
    · rename_i mark hline
      cases h
      have hmark := find?_some hline
      exact ⟨of_decide_eq_true hmark,
        st.line_marks _ (mem_of_find?_eq_some hline), trivial⟩
    · split_ifs at h with htriple
      · cases h
        obtain ⟨-, q, hq, hprefix⟩ := htriple
        have hlength : ∀ q ∈ tripleQuotes, q.length = 3 := by decide
        have hmarks : ∀ q ∈ tripleQuotes, IsMark q ∧ IsMark q ∧ '\\' ∉ q := by decide
        have htake : s.take 3 = q := by
          rw [← hlength q hq]
          exact (prefix_iff_eq_take.mp hprefix).symm
        exact ⟨List.take_prefix 3 s, htake ▸ hmarks q hq⟩
      · split at h
        · cases h
        · split_ifs at h with hc
          cases h
          have hmarks : ∀ c ∈ quotes, IsMark [c] ∧ IsMark [c] ∧ '\\' ∉ [c] := by decide
          exact ⟨⟨_, rfl⟩, hmarks _ hc⟩

theorem opener_newline (s : Str) : opener st ('\n' :: s) = none := by
  rcases h : opener st ('\n' :: s) with _ | o
  · rfl
  · obtain ⟨⟨t, ht⟩, ⟨hne, hline⟩, -⟩ := opener_spec h
    rcases hmark : o.mark with _ | ⟨c, cs⟩
    · exact absurd hmark hne
    · rw [hmark] at ht hline
      exact absurd ((List.cons.inj ht).1 ▸ mem_cons_self) hline

theorem opener_of_quote {c : Char} (hc : c ∈ quotes) (s : Str) : opener st (c :: s) ≠ none := by
  unfold opener
  split
  · nofun
  split
  · nofun
  by_cases htriple : st.tripleQuotes = true ∧ ∃ q ∈ tripleQuotes, q <+: c :: s
  · rw [if_pos htriple]
    nofun
  · rw [if_neg htriple]
    dsimp only
    rw [if_pos hc]
    nofun

/-- **No quote is code.** -/
theorem Reads.notMem_quotes {ms : Reading} (h : Reads st ms after) :
    ∀ p ∈ ms, p.2 = true → p.1 ∉ quotes := by
  induction h with
  | nil => exact nofun
  | @code c ms after hcode _ ih =>
    intro p hp hcode'
    rcases mem_cons.mp hp with rfl | hp
    · exact fun hc => opener_of_quote hc _ hcode
    · exact ih p hp hcode'
  | @hidden s ms after _ _ ih =>
    intro p hp hcode
    rcases mem_append.mp hp with hp | hp
    · obtain ⟨c, -, rfl⟩ := mem_map.mp hp
      cases hcode
    · exact ih p hp hcode

/-! ### The loop -/

variable (st) in
/-- **One turn** reads something, and goes on with a mark. -/
theorem step_spec (hm : m.Waits) (c : Char) (cs : Str) :
    1 ≤ (step st m c cs).2.1 ∧ (step st m c cs).2.2.Waits := by
  have hpos : ∀ {q : Str}, IsMark q → 1 ≤ q.length := fun h => length_pos_iff.mpr h.1
  rcases m with _ | _ | close | q
  · unfold step
    rcases h : opener st (c :: cs) with _ | o
    · exact ⟨le_rfl, trivial⟩
    · obtain ⟨-, hmark, hwaits⟩ := opener_spec h
      exact ⟨hpos hmark, hwaits⟩
  · unfold step
    dsimp only
    split_ifs <;> exact ⟨le_rfl, trivial⟩
  · unfold step
    dsimp only
    split_ifs
    · exact ⟨hpos hm, trivial⟩
    · exact ⟨le_rfl, hm⟩
  · unfold step
    dsimp only
    split_ifs
    · exact ⟨Nat.le_succ 1, hm⟩
    · exact ⟨hpos hm.1, trivial⟩
    · exact ⟨le_rfl, hm⟩

variable (st) in
/-- The loop, for as many turns as the text is long. -/
def run (m : Mode) (s : Str) : Str := maskFrom st s.length m s

theorem maskFrom_succ (n : ℕ) (m : Mode) (c : Char) (cs : Str) : maskFrom st (n + 1) m (c :: cs) =
    (step st m c cs).1 ++
      maskFrom st n (step st m c cs).2.2 ((c :: cs).drop (step st m c cs).2.1) := rfl

theorem maskFrom_eq_run : ∀ {n : ℕ} {m : Mode} {s : Str}, m.Waits → s.length ≤ n →
    maskFrom st n m s = run st m s := by
  have hmore : ∀ (k n : ℕ) (m : Mode) (s : Str), m.Waits → s.length ≤ k → s.length ≤ n →
      maskFrom st n m s = maskFrom st k m s := by
    intro k
    induction k with
    | zero =>
      intro n m s _ hk _
      rw [length_eq_zero_iff.mp (Nat.le_zero.mp hk)]
      cases n <;> rfl
    | succ k ih =>
      intro n m s hm hk hn
      rcases n with _ | n
      · rw [length_eq_zero_iff.mp (Nat.le_zero.mp hn)]
        rfl
      rcases s with _ | ⟨c, cs⟩
      · rfl
      obtain ⟨hread, hwaits⟩ := step_spec st hm c cs
      have hdrop : ((c :: cs).drop (step st m c cs).2.1).length ≤ cs.length := by
        rw [length_drop, length_cons]
        omega
      rw [length_cons] at hk hn
      rw [maskFrom_succ, maskFrom_succ, ih n _ _ hwaits (by omega) (by omega)]
  exact fun {n m s} hm hn => hmore s.length n m s hm le_rfl hn

@[simp] theorem run_nil (m : Mode) : run st m [] = [] := rfl

theorem run_cons (hm : m.Waits) (c : Char) (cs : Str) : run st m (c :: cs) =
    (step st m c cs).1 ++ run st (step st m c cs).2.2 ((c :: cs).drop (step st m c cs).2.1) := by
  obtain ⟨hread, hwaits⟩ := step_spec st hm c cs
  have hdrop : ((c :: cs).drop (step st m c cs).2.1).length ≤ cs.length := by
    rw [length_drop, length_cons]
    omega
  rw [run, length_cons, maskFrom_succ, maskFrom_eq_run hwaits hdrop]

theorem run_append {u : Str} (hm : m.Waits) (hu : u ≠ []) {m' : Mode} {out : Str}
    (hstep : ∀ c cs, u ++ s = c :: cs → step st m c cs = (out, u.length, m')) :
    run st m (u ++ s) = out ++ run st m' s := by
  rcases u with _ | ⟨c, u⟩
  · exact absurd rfl hu
  · rw [cons_append, run_cons hm, hstep c (u ++ s) rfl, ← cons_append, drop_left]

/-! ### Comments and literals -/

theorem run_opener {o : Opener} {mark : Str} (h : opener st (mark ++ s) = some o)
    (ho : o.mark = mark) : run st .code (mark ++ s) = mark.map blank ++ run st o.mode s := by
  obtain ⟨-, hmark, -⟩ := opener_spec h
  subst ho
  refine run_append (m := .code) trivial hmark.1 fun c cs hcs => ?_
  rw [hcs] at h
  rw [step, h, map_blank_of_notMem hmark.2]

/-- **A line comment** is masked up to the end of its line. -/
theorem run_lineComment (hs : '\n' ∉ s) (hafter : after = [] ∨ after.head? = some '\n') :
    run st .lineComment (s ++ after) = s.map blank ++ run st .code after := by
  induction s with
  | nil =>
    rcases after with _ | ⟨c, cs⟩
    · rfl
    · obtain rfl : c = '\n' := by simpa using hafter
      rw [nil_append, run_cons (m := .lineComment) trivial, run_cons (m := .code) trivial, step,
        step, opener_newline]
      rfl
  | cons c s ih =>
    have hc : c ≠ '\n' := fun heq => hs (heq ▸ mem_cons_self)
    rw [cons_append, run_cons (m := .lineComment) trivial, step, if_neg hc]
    simp only [drop_succ_cons, drop_zero]
    rw [ih fun h => hs (mem_cons_of_mem c h), map_cons, blank, if_neg hc]
    rfl

/-- **A block comment** is masked as long as no closing mark begins. -/
theorem run_blockComment {close : Str} (hclose : IsMark close) (h : Within close s after) :
    run st (.blockComment close) (s ++ after) =
      s.map blank ++ run st (.blockComment close) after := by
  induction s with
  | nil => rfl
  | cons c s ih =>
    have hnot : ¬close <+: c :: (s ++ after) := h [] (c :: s) rfl (cons_ne_nil c s)
    rw [cons_append, run_cons (m := .blockComment close) hclose, step, if_neg hnot]
    simp only [drop_succ_cons, drop_zero]
    rw [ih fun u v huv hv => h (c :: u) v (congrArg _ huv) hv]
    rfl

theorem run_close {close : Str} (hclose : IsMark close) :
    run st (.blockComment close) (close ++ after) = close.map blank ++ run st .code after := by
  refine run_append (m := .blockComment close) hclose hclose.1 fun c cs hcs => ?_
  rw [step, if_pos (hcs ▸ prefix_append close after), map_blank_of_notMem hclose.2]

/-- **A literal** is masked as long as no closing mark begins. -/
theorem run_quote {q : Str} (hq : Mode.Waits (.quote q)) (h : Inside q s after) :
    run st (.quote q) (s ++ after) = s.map blank ++ run st (.quote q) after := by
  induction h with
  | nil => rfl
  | @escape c s after _ ih =>
    rw [cons_append, cons_append, run_cons hq, step,
      if_pos ⟨rfl, cons_ne_nil _ _⟩]
    simp only [take_succ_cons, take_zero, drop_succ_cons, drop_zero]
    rw [ih]
    rfl
  | @char c s after hescape hnot _ ih =>
    rw [cons_append, run_cons hq, step, if_neg hescape, if_neg hnot]
    simp only [drop_succ_cons, drop_zero]
    rw [ih]
    rfl

theorem run_endquote {q : Str} (hq : Mode.Waits (.quote q)) :
    run st (.quote q) (q ++ after) = q.map blank ++ run st .code after := by
  refine run_append hq hq.1.1 fun c cs hcs => ?_
  have hc : c ≠ '\\' := by
    rintro rfl
    rcases q with _ | ⟨d, q⟩
    · exact hq.1.1 rfl
    · exact hq.2 ((List.cons.inj hcs).1 ▸ mem_cons_self)
  rw [step, if_neg fun h => hc h.1, if_pos (hcs ▸ prefix_append q after),
    map_blank_of_notMem hq.1.2]

/-- **A whole comment or literal is masked.** -/
theorem run_of_covers (h : Covers st s after) :
    run st .code (s ++ after) = s.map blank ++ run st .code after := by
  cases h with
  | @line mark s after hopen hs hafter =>
    rw [append_assoc] at hopen ⊢
    rw [run_opener hopen rfl, Opener.mode, run_lineComment hs hafter]
    simp
  | @block mark close s after hopen hwithin =>
    obtain ⟨-, -, hclose⟩ := opener_spec hopen
    rw [append_assoc, append_assoc] at hopen ⊢
    rw [run_opener hopen rfl, Opener.mode, run_blockComment hclose hwithin,
      run_close hclose]
    simp
  | @openBlock mark close s hopen hwithin =>
    obtain ⟨-, -, hclose⟩ := opener_spec hopen
    have hrun : run st (.blockComment close) (s ++ []) = _ := run_blockComment hclose hwithin
    rw [append_nil] at hrun ⊢
    rw [run_opener hopen rfl, Opener.mode, hrun]
    simp
  | @literal q s after hopen hinside =>
    obtain ⟨-, -, hq⟩ := opener_spec hopen
    rw [append_assoc, append_assoc] at hopen ⊢
    rw [run_opener hopen rfl, Opener.mode, run_quote hq hinside, run_endquote hq]
    simp
  | @openLiteral q s hopen hinside =>
    obtain ⟨-, -, hq⟩ := opener_spec hopen
    have hrun : run st (.quote q) (s ++ []) = _ := run_quote hq hinside
    rw [append_nil] at hrun ⊢
    rw [run_opener hopen rfl, Opener.mode, hrun]
    simp

/-! ### Readings -/

theorem run_of_reads {ms : Reading} (h : Reads st ms after) :
    run st .code (textOf ms ++ after) = ms.map shown ++ run st .code after := by
  induction h with
  | nil => rfl
  | @code c ms after hcode _ ih =>
    rw [textOf_cons, cons_append, run_cons (m := .code) trivial, step, hcode]
    simp only [drop_succ_cons, drop_zero]
    rw [ih]
    rfl
  | @hidden s ms after hcovers _ ih =>
    rw [textOf_append, textOf_hidden, append_assoc, run_of_covers hcovers, ih, map_append,
      map_shown_hidden, append_assoc]

theorem mask_textOf {ms : Reading} (h : Reads st ms []) : mask st (textOf ms) = ms.map shown := by
  have hrun := run_of_reads h
  rwa [append_nil, run_nil, append_nil] at hrun

theorem exists_inside (q s : Str) :
    (∃ u v, s = u ++ q ++ v ∧ Inside q u (q ++ v)) ∨ Inside q s [] := by
  induction hn : s.length using Nat.strong_induction_on generalizing s with
  | _ n ih =>
    subst hn
    rcases s with _ | ⟨c, s⟩
    · exact Or.inr .nil
    by_cases hescape : c = '\\' ∧ s ≠ []
    · obtain ⟨rfl, hs⟩ := hescape
      obtain ⟨d, s, rfl⟩ := exists_cons_of_ne_nil hs
      have hlength : s.length < ('\\' :: d :: s).length := by
        rw [length_cons, length_cons]
        omega
      rcases ih s.length hlength s rfl with ⟨u, v, rfl, hu⟩ | hs
      · exact Or.inl ⟨'\\' :: d :: u, v, rfl, .escape hu⟩
      · exact Or.inr (.escape hs)
    by_cases hclose : q <+: c :: s
    · obtain ⟨v, hv⟩ := hclose
      exact Or.inl ⟨[], v, hv.symm, .nil⟩
    · rcases ih s.length (by simp) s rfl with ⟨u, v, rfl, hu⟩ | hs
      · refine Or.inl ⟨c :: u, v, rfl, .char ?_ ?_ hu⟩
        · rwa [← append_assoc]
        · rwa [← append_assoc]
      · refine Or.inr (.char ?_ ?_ hs) <;> rwa [append_nil]

theorem exists_within (close s : Str) :
    (∃ u v, s = u ++ close ++ v ∧ Within close u (close ++ v)) ∨ Within close s [] := by
  induction s with
  | nil => exact Or.inr fun u v huv hv => absurd (append_eq_nil_iff.mp huv.symm).2 hv
  | cons c s ih =>
    by_cases hclose : close <+: c :: s
    · obtain ⟨v, hv⟩ := hclose
      refine Or.inl ⟨[], v, hv.symm, fun u w huw hw => ?_⟩
      exact absurd (append_eq_nil_iff.mp huw.symm).2 hw
    have hcons : ∀ {u after : Str}, ¬close <+: c :: (u ++ after) → Within close u after →
        Within close (c :: u) after := by
      intro u after hnot h u' v huv hv
      rcases u' with _ | ⟨d, u'⟩
      · rw [← (show c :: u = v from huv)]
        exact hnot
      · exact h u' v (List.cons.inj huv).2 hv
    rcases ih with ⟨u, v, rfl, hu⟩ | hs
    · exact Or.inl ⟨c :: u, v, rfl, hcons (by rwa [← append_assoc]) hu⟩
    · exact Or.inr (hcons (by rwa [append_nil]) hs)

/-- Where something begins, a whole comment or literal stands. -/
theorem exists_covers {o : Opener} (h : opener st s = some o) :
    ∃ u v, s = u ++ v ∧ u ≠ [] ∧ Covers st u v := by
  obtain ⟨⟨t, rfl⟩, hmark, hwaits⟩ := opener_spec h
  have hne : ∀ u : Str, o.mark ++ u ≠ [] := fun u heq =>
    hmark.1 (append_eq_nil_iff.mp heq).1
  rcases o with ⟨mark, close⟩ | mark | q
  · rcases exists_within close t with ⟨u, v, rfl, hu⟩ | ht
    · refine ⟨mark ++ u ++ close, v, by simp, ?_, .block (by simpa using h) hu⟩
      rw [append_assoc]
      exact hne _
    · exact ⟨mark ++ t, [], by simp, hne t, .openBlock h ht⟩
  · refine ⟨mark ++ t.takeWhile (· ≠ '\n'), t.dropWhile (· ≠ '\n'), ?_, hne _, .line ?_ ?_ ?_⟩
    · rw [append_assoc, takeWhile_append_dropWhile]
      rfl
    · rwa [append_assoc, takeWhile_append_dropWhile]
    · intro hmem
      simpa using mem_takeWhile_imp hmem
    · rcases hdrop : t.dropWhile (· ≠ '\n') with _ | ⟨c, cs⟩
      · exact Or.inl rfl
      · have hc := head?_dropWhile_not (fun c => decide (c ≠ '\n')) t
        rw [hdrop] at hc
        exact Or.inr (congrArg some (by simpa using hc))
  · rcases exists_inside q t with ⟨u, v, rfl, hu⟩ | ht
    · refine ⟨q ++ u ++ q, v, by simp, ?_, .literal (by simpa using h) hu⟩
      rw [append_assoc]
      exact hne _
    · exact ⟨q ++ t, [], by simp, hne t, .openLiteral h ht⟩

variable (st) in
/-- **Every text has a reading.** -/
theorem exists_reads (s : Str) : ∃ ms, textOf ms = s ∧ Reads st ms [] := by
  induction hn : s.length using Nat.strong_induction_on generalizing s with
  | _ n ih =>
    subst hn
    rcases s with _ | ⟨c, cs⟩
    · exact ⟨[], rfl, .nil⟩
    rcases h : opener st (c :: cs) with _ | o
    · obtain ⟨ms, rfl, hms⟩ := ih cs.length (by simp) cs rfl
      exact ⟨(c, true) :: ms, rfl, .code (by rwa [append_nil]) hms⟩
    · obtain ⟨u, v, huv, hu, hcovers⟩ := exists_covers h
      have hlength : v.length < (c :: cs).length := by
        rw [huv, length_append]
        have := length_pos_iff.mpr hu
        omega
      obtain ⟨ms, rfl, hms⟩ := ih v.length hlength v rfl
      refine ⟨hidden u ++ ms, ?_, .hidden (by rwa [append_nil]) hms⟩
      rw [textOf_append, textOf_hidden, huv]

end Guardian.Sast.Masking

import Guardian.Images.Packages
import Guardian.Python.Runs

/-!
# The stanzas of the package database

The status file of dpkg is made of stanzas: runs of lines with empty lines between them.  The parser
splits the text at two newlines in a row, and breaks what it gets at every line boundary.
`parse_stanzas_iff` says when it reports what they declare.
-/

namespace Guardian.Images

open Python
open List hiding partition

variable {R : Runtime}

/-! ### Blocks and stanzas -/

/-- Lines, with newlines between them. -/
def joinLines (lines : List Str) : Str := ['\n'].intercalate lines

/-- **The stanzas of a text**: the runs of its lines that are not empty. -/
def stanzas (text : Str) : List (List Str) :=
  ((text.splitOn '\n').splitOnP (· == [])).filter (· ≠ [])

/-- The lines of the blocks of a text, from the lines of the block so far. -/
def blockLines (block : List Str) : List Str → List (List Str)
  | [] => [block]
  | [] :: l :: ls => block :: blockLines [l] ls
  | l :: ls => blockLines (block ++ [l]) ls

theorem joinLines_cons (l : Str) (lines : List Str) :
    joinLines (l :: lines) = l ++ lines.flatMap ('\n' :: ·) := by
  unfold joinLines
  induction lines generalizing l with
  | nil => rw [intercalate_singleton, flatMap_nil, append_nil]
  | cons m lines ih =>
    rw [intercalate_cons_cons, ih, flatMap_cons, append_assoc]
    rfl

@[simp] theorem joinLines_singleton (l : Str) : joinLines [l] = l := intercalate_singleton

theorem joinLines_concat {lines : List Str} (h : lines ≠ []) (l : Str) :
    joinLines (lines ++ [l]) = joinLines lines ++ '\n' :: l := by
  obtain ⟨m, lines, rfl⟩ := exists_cons_of_ne_nil h
  rw [cons_append, joinLines_cons, joinLines_cons, flatMap_append, flatMap_singleton,
    append_assoc]

theorem blocksFrom_append {l : Str} (hl : '\n' ∉ l) (block rest : Str) :
    blocksFrom block (l ++ rest) = blocksFrom (l.reverse ++ block) rest := by
  induction l generalizing block with
  | nil => rfl
  | cons c l ih =>
    rw [mem_cons, not_or] at hl
    rw [cons_append, blocksFrom, ih hl.2, reverse_cons, append_assoc]
    · rfl
    · rintro cs rfl
      exact absurd rfl hl.1

theorem blocksFrom_lines {block lines : List Str} (hblock : block ≠ [])
    (hlines : ∀ l ∈ lines, '\n' ∉ l) :
    blocksFrom (joinLines block).reverse (lines.flatMap ('\n' :: ·)) =
      (blockLines block lines).map joinLines := by
  induction block, lines using blockLines.induct with
  | case1 block => simp [blocksFrom, blockLines]
  | case2 block l ls ih =>
    have hl : '\n' ∉ l := hlines l (by simp)
    have hstart := ih (cons_ne_nil l []) fun m hm => hlines m (by simp [hm])
    rw [joinLines_singleton] at hstart
    rw [flatMap_cons, flatMap_cons, cons_append, nil_append, cons_append,
      blocksFrom, blocksFrom_append hl, append_nil, reverse_reverse, blockLines,
      map_cons, ← hstart]
  | case3 block l ls hnot ih =>
    have hl : '\n' ∉ l := hlines l (by simp)
    have hrest := ih (by simp) fun m hm => hlines m (by simp [hm])
    rw [joinLines_concat hblock, reverse_append, reverse_cons, append_assoc] at hrest
    rw [flatMap_cons, cons_append, blocksFrom, blocksFrom_append hl, blockLines, ← hrest]
    · rfl
    · exact hnot
    · intro cs _ heq
      rcases l with _ | ⟨c, l⟩
      · rcases ls with _ | ⟨m, ls⟩
        · cases heq
        · exact hnot m ls rfl rfl
      · rw [cons_append] at heq
        exact hl ((List.cons.inj heq).1 ▸ mem_cons_self)

theorem blocks_eq {text l : Str} {lines : List Str} (h : text.splitOn '\n' = l :: lines) :
    blocks text = (blockLines [l] lines).map joinLines := by
  have hfree : ∀ m ∈ l :: lines, '\n' ∉ m := fun m hm => notMem_of_mem_splitOn (h ▸ hm)
  have htext : text = l ++ lines.flatMap ('\n' :: ·) := by
    rw [← joinLines_cons, ← h]
    exact (intercalate_splitOn '\n').symm
  rw [blocks, htext, blocksFrom_append (hfree l mem_cons_self), append_nil]
  have hlines := blocksFrom_lines (cons_ne_nil l [])
    fun m hm => hfree m (mem_cons_of_mem l hm)
  rwa [joinLines_singleton] at hlines

section Blocks
variable {β : Type*} {f : List Str → Option β} {block run lines : List Str}

theorem runs_append_nil (hrun : ∀ l ∈ run, l ≠ []) (lines : List Str) :
    (((run ++ [] :: lines).splitOnP (· == [])).filter (· ≠ [])) =
      [run].filter (· ≠ []) ++ (lines.splitOnP (· == [])).filter (· ≠ []) := by
  rw [splitOnP_append_cons_of_forall_mem (fun l hl => by simpa using hrun l hl) [] (by simp),
    ← filter_append]
  rfl

theorem runs_of_forall (hrun : ∀ l ∈ run, l ≠ []) :
    ((run.splitOnP (· == [])).filter (· ≠ [])) = [run].filter (· ≠ []) := by
  rw [splitOnP_eq_singleton fun l hl => by simpa using hrun l hl]

/-- **What is read of the blocks is read of the stanzas**, where empty lines at the ends of a block
do not count. -/
theorem filterMap_blockLines (hfirst : ∀ ls, f ([] :: ls) = f ls)
    (hlast : ∀ ls, f (ls ++ [[]]) = f ls) (hnil : f [] = none) (hrun : ∀ l ∈ run, l ≠ [])
    (hblock : block = run ∨ block = [] :: run) :
    (blockLines block lines).filterMap f =
      (((run ++ lines).splitOnP (· == [])).filter (· ≠ [])).filterMap f := by
  have hsame : ∀ {block run : List Str}, block = run ∨ block = [] :: run → f block = f run := by
    rintro block run (rfl | rfl)
    · rfl
    · exact hfirst run
  have hone : ∀ {block run : List Str}, block = run ∨ block = [] :: run →
      [block].filterMap f = ([run].filter (· ≠ [])).filterMap f := by
    intro block run hblock
    have hf := hsame hblock
    rcases run with _ | ⟨l, run⟩
    · simp [hf, hnil]
    · simp [filterMap_cons, hf]
  induction block, lines using blockLines.induct generalizing run with
  | case1 block =>
    rw [blockLines, append_nil, runs_of_forall hrun, hone hblock]
  | case2 block l ls ih =>
    rw [blockLines, runs_append_nil hrun, filterMap_append, ← hone hblock,
      ← singleton_append, filterMap_append]
    congr 1
    rcases eq_or_ne l [] with rfl | hl
    · have hnone : ∀ m ∈ ([] : List Str), m ≠ [] := fun m hm => nomatch hm
      rw [ih hnone (Or.inr rfl), ← nil_append ([] :: ls), runs_append_nil hnone]
      simp
    · rw [ih (fun m hm => mem_singleton.mp hm ▸ hl) (Or.inl rfl)]
      rfl
  | case3 block l ls hnot ih =>
    rw [blockLines]
    · rcases eq_or_ne l [] with rfl | hl
      · -- The text ends with an empty line.
        rcases ls with _ | ⟨m, ls⟩
        · rw [runs_append_nil hrun, blockLines, filterMap_append, ← hone hblock]
          simp [filterMap_cons, hlast]
        · exact absurd rfl (hnot m ls rfl)
      · rw [append_cons run]
        refine ih (fun m hm => ?_) ?_
        · rcases mem_append.mp hm with hm | hm
          · exact hrun m hm
          · exact mem_singleton.mp hm ▸ hl
        · rcases hblock with rfl | rfl
          · exact Or.inl rfl
          · exact Or.inr rfl
    · exact hnot

end Blocks

/-! ### Fields -/

variable (R) in
/-- **The fields of some lines**: a line that begins with a blank continues the named field above
it, if there is one, and any other line with a colon is a field. -/
def fieldsOf (named : Bool) : List Str → List (Str × Str)
  | [] => []
  | line :: lines =>
    if (line.head? = some ' ' ∨ line.head? = some '\t') ∧ named then fieldsOf named lines
    else if ':' ∈ line then
      let name := lower R (strip R (line.takeWhile (· != ':')))
      (name, strip R (line.dropWhile (· != ':')).tail) :: fieldsOf (name ≠ []) lines
    else fieldsOf named lines

variable (R) in
/-- **The value of a field**: that of the last one with the name. -/
def valueOf (lines : List Str) (name : Str) : Str :=
  ((fieldsOf R false lines).reverse.lookup name).getD []

/-- A field as it is written: its name, its value and the lines that continue it. -/
structure Written where
  name : Str
  value : Str
  more : List Str

/-- The lines of a field. -/
def Written.lines (f : Written) : List Str := (f.name ++ ':' :: f.value) :: f.more

variable (R) in
/-- A field has a name that no blank stands in front of, and is continued by lines that begin with a
blank. -/
structure Written.WellFormed (f : Written) : Prop where
  colon : ':' ∉ f.name
  head : ¬(f.name.head? = some ' ' ∨ f.name.head? = some '\t')
  named : lower R (strip R f.name) ≠ []
  more : ∀ l ∈ f.more, l.head? = some ' ' ∨ l.head? = some '\t'

theorem fieldsOf_more {more : List Str}
    (hmore : ∀ l ∈ more, l.head? = some ' ' ∨ l.head? = some '\t') (lines : List Str) :
    fieldsOf R true (more ++ lines) = fieldsOf R true lines := by
  induction more with
  | nil => rfl
  | cons l more ih =>
    rw [cons_append, fieldsOf, if_pos ⟨hmore l mem_cons_self, rfl⟩]
    exact ih fun m hm => hmore m (mem_cons_of_mem l hm)

/-- **What is read of a stanza** are its fields as they are written. -/
theorem fieldsOf_written {fs : List Written} (hfs : ∀ f ∈ fs, f.WellFormed R) (named : Bool) :
    fieldsOf R named (fs.flatMap Written.lines) =
      fs.map fun f => (lower R (strip R f.name), strip R f.value) := by
  induction fs generalizing named with
  | nil => rfl
  | cons f fs ih =>
    obtain ⟨hcolon, hhead, hnamed, hmore⟩ := hfs f mem_cons_self
    have hne : f.name ≠ [] := by
      intro hnil
      rw [hnil] at hnamed
      exact hnamed rfl
    obtain ⟨c, cs, hname⟩ := exists_cons_of_ne_nil hne
    have hfirst : (f.name ++ ':' :: f.value).head? = f.name.head? := by
      rw [hname]
      rfl
    have hfree : ∀ c ∈ f.name, (c != ':') = true := by
      intro c hc
      rw [bne_iff_ne]
      rintro rfl
      exact hcolon hc
    have htake : (f.name ++ ':' :: f.value).takeWhile (· != ':') = f.name := by
      rw [takeWhile_append_of_pos hfree, takeWhile_cons_of_neg (by simp), append_nil]
    have hdrop : (f.name ++ ':' :: f.value).dropWhile (· != ':') = ':' :: f.value := by
      rw [dropWhile_append_of_pos hfree, dropWhile_cons_of_neg (by simp)]
    rw [flatMap_cons, Written.lines, cons_append, fieldsOf, hfirst,
      if_neg fun h => hhead h.1, if_pos (by simp), htake, hdrop]
    dsimp only
    rw [decide_eq_true hnamed, fieldsOf_more hmore,
      ih fun g hg => hfs g (mem_cons_of_mem f hg)]
    rfl

/-- A name, and a description that goes on in the next line. -/
def sampleFields : List Written :=
  [⟨"Package", " bash", []⟩, ⟨"Description", " GNU shell", [" Version: none"]⟩]

theorem fieldsOf_written_package :
    fieldsOf .ascii false (sampleFields.flatMap Written.lines) =
      [("package".toList, "bash".toList), ("description".toList, "GNU shell".toList)] := by
  have hfs : ∀ f ∈ sampleFields, f.WellFormed .ascii := by
    refine forall_mem_cons.mpr ⟨⟨by decide, by decide, by decide, by decide⟩,
      forall_mem_singleton.mpr ⟨by decide, by decide, by decide, by decide⟩⟩
  exact (fieldsOf_written hfs false).trans (by decide)

theorem fieldLine_eq (key : Str) (fields : List (Str × Str)) (line : Str) :
    fieldLine R (key, fields) line =
      if (line.head? = some ' ' ∨ line.head? = some '\t') ∧ key ≠ [] then (key, fields)
      else if ':' ∈ line then
        let name := lower R (strip R (line.takeWhile (· != ':')))
        (name, (name, strip R (line.dropWhile (· != ':')).tail) :: fields)
      else (key, fields) := by
  by_cases hcolon : ':' ∈ line
  · simp only [fieldLine, partition, hcolon, decide_true, if_true]
  · simp only [fieldLine, partition, hcolon, decide_false, if_false]

theorem foldl_fieldLine (lines : List Str) (key : Str) (fields : List (Str × Str)) :
    (lines.foldl (fieldLine R) (key, fields)).2 =
      (fieldsOf R (key ≠ []) lines).reverse ++ fields := by
  induction lines generalizing key fields with
  | nil => rfl
  | cons line lines ih =>
    rw [foldl_cons, fieldLine_eq, fieldsOf]
    simp only [decide_eq_true_eq]
    split_ifs
    · rw [ih]
    · rw [ih, reverse_cons, append_assoc]
      rfl
    · rw [ih]

variable (R) in
/-- **Whether a stanza is reported**, from the lines that it is broken into. -/
def Admitted (lines : List Str) : Prop :=
  "installed" <:+: valueOf R lines "status" ∧
    ¬"deinstall" <+: valueOf R lines "status" ∧
    ¬"purge" <+: valueOf R lines "status" ∧
    valueOf R lines "package" ≠ [] ∧ valueOf R lines "version" ≠ []

variable (R) in
def packageOf (lines : List Str) : Package :=
  ⟨valueOf R lines "package", valueOf R lines "version", "Debian", dpkgStatus⟩

instance (lines : List Str) : Decidable (Admitted R lines) := by unfold Admitted; infer_instance

variable (R) in
/-- What is read of the lines of a stanza. -/
def readStanza (lines : List Str) : Option Package :=
  if Admitted R lines then some (packageOf R lines) else none

theorem fieldsOf_eq_nil {lines : List Str} (h : ∀ l ∈ lines, ':' ∉ l) (named : Bool) :
    fieldsOf R named lines = [] := by
  induction lines generalizing named with
  | nil => rfl
  | cons line lines ih =>
    rw [fieldsOf, if_neg (h line mem_cons_self),
      ih fun l hl => h l (mem_cons_of_mem line hl)]
    exact ite_self []

/-- **A block is reported** by the fields of its lines. -/
theorem dpkgPackage_eq (block : Str) : dpkgPackage R block = readStanza R (splitlines block) := by
  have hfields := foldl_fieldLine (R := R) (splitlines block) [] []
  rw [append_nil] at hfields
  unfold dpkgPackage readStanza
  by_cases hblank : strip R block = []
  · have hnone : valueOf R (splitlines block) "status" = [] := by
      rw [valueOf, fieldsOf_eq_nil]
      · rfl
      · intro l hl hmem
        obtain ⟨a, b, hab, hb, ha, hback⟩ := strip_spec R block
        have hspace : R.isSpace ':' = true := by
          have hcolon := mem_of_mem_splitlines hl hmem
          rw [hab, hb, hblank, nil_append] at hcolon
          exact (mem_append.mp hcolon).elim (ha ':') (hback ':')
        rw [R.isSpace_ascii ':' (by decide)] at hspace
        exact absurd hspace (by decide)
    rw [if_pos hblank, if_neg]
    rintro ⟨hstatus, -⟩
    rw [hnone] at hstatus
    exact absurd hstatus (by decide)
  · rw [if_neg hblank, hfields]
    have hnot : (¬"installed" <:+: valueOf R (splitlines block) "status" ∨
        "deinstall" <+: valueOf R (splitlines block) "status" ∨
        "purge" <+: valueOf R (splitlines block) "status" ∨
        valueOf R (splitlines block) "package" = [] ∨
        valueOf R (splitlines block) "version" = []) ↔ ¬Admitted R (splitlines block) := by
      simp only [Admitted, not_and_or, not_not, ne_eq]
    show (if _ then none else some _) = _
    rw [← ite_not (p := Admitted R (splitlines block))]
    exact if_congr hnot rfl rfl

/-! ### Empty lines -/

theorem fieldsOf_concat_nil (lines : List Str) (named : Bool) :
    fieldsOf R named (lines ++ [[]]) = fieldsOf R named lines := by
  induction lines generalizing named with
  | nil => simp [fieldsOf]
  | cons line lines ih =>
    rw [cons_append, fieldsOf, fieldsOf]
    simp only [ih]

theorem readStanza_congr {s t : List Str} (h : fieldsOf R false s = fieldsOf R false t) :
    readStanza R s = readStanza R t := by
  have hvalue : valueOf R s = valueOf R t := by
    unfold valueOf
    rw [h]
  unfold readStanza packageOf
  rw [hvalue]
  exact if_congr (by rw [Admitted, Admitted, hvalue]) rfl rfl

/-- Lines that no other line break is in are those that a text is broken into, but for an empty one
at the end. -/
theorem splitlines_joinLines {lines : List Str} (h : ∀ l ∈ lines, ∀ c ∈ l, isLineBreak c = false) :
    splitlines (joinLines lines) = lines ∨ splitlines (joinLines lines) ++ [[]] = lines := by
  induction lines with
  | nil => exact Or.inl rfl
  | cons l lines ih =>
    obtain ⟨hl, h⟩ := forall_mem_cons.mp h
    rcases lines with _ | ⟨m, lines⟩
    · rw [joinLines_singleton, splitlines, ← append_nil l, splitlinesFrom_append_of_forall hl,
        append_nil, splitlinesFrom]
      split_ifs with hnil
      · rw [reverse_eq_nil_iff.mp hnil]
        exact Or.inr rfl
      · rw [append_nil, reverse_reverse]
        exact Or.inl rfl
    · have hjoin : joinLines (l :: m :: lines) = l ++ '\n' :: joinLines (m :: lines) := by
        rw [joinLines_cons, joinLines_cons, flatMap_cons]
        rfl
      have hsplit : splitlines (joinLines (l :: m :: lines)) =
          l :: splitlines (joinLines (m :: lines)) := by
        rw [hjoin, splitlines, splitlinesFrom_append_of_forall hl, splitlinesFrom_cons,
          if_pos (by decide), append_nil, reverse_reverse]
        rfl
      rw [hsplit, cons_append, cons_inj_right, cons_inj_right]
      exact ih h

theorem dpkgPackage_joinLines {lines : List Str}
    (h : ∀ l ∈ lines, ∀ c ∈ l, isLineBreak c = false) :
    dpkgPackage R (joinLines lines) = readStanza R lines := by
  rw [dpkgPackage_eq]
  refine readStanza_congr ?_
  rcases splitlines_joinLines h with heq | heq
  · rw [heq]
  · rw [← fieldsOf_concat_nil, heq]

/-! ### Stanzas -/

theorem mem_blockLines {block lines b : List Str} {l : Str} (hb : b ∈ blockLines block lines)
    (hl : l ∈ b) : l ∈ block ++ lines := by
  induction block, lines using blockLines.induct with
  | case1 block =>
    rw [blockLines, mem_singleton] at hb
    simpa [← hb] using hl
  | case2 block m ls ih =>
    rw [blockLines, mem_cons] at hb
    rcases hb with rfl | hb
    · exact mem_append_left _ hl
    · exact mem_append_right _ (mem_cons_of_mem _ (ih hb))
  | case3 block m ls hnot ih =>
    rw [blockLines] at hb
    · simpa using ih hb
    · exact hnot

/-- **The parser reads one stanza after the other.** -/
theorem parseDpkgStatus_eq {text : Str} (h : ∀ c ∈ text, isLineBreak c = true → c = '\n') :
    parseDpkgStatus R text = ((stanzas text).filterMap (readStanza R)).take maxPackages := by
  have hfree : ∀ l ∈ text.splitOn '\n', ∀ c ∈ l, isLineBreak c = false := by
    intro l hl c hc
    by_contra hbreak
    rw [Bool.not_eq_false] at hbreak
    exact notMem_of_mem_splitOn hl (h c (mem_of_mem_splitOnP hl hc) hbreak ▸ hc)
  obtain ⟨l, lines, hl⟩ := exists_cons_of_ne_nil (splitOn_ne_nil '\n' text)
  have hfirst : ∀ ls, readStanza R ([] :: ls) = readStanza R ls :=
    fun ls => readStanza_congr (by simp [fieldsOf])
  have hlast : ∀ ls, readStanza R (ls ++ [[]]) = readStanza R ls :=
    fun ls => readStanza_congr (fieldsOf_concat_nil ls false)
  have hread : (blockLines [l] lines).filterMap (readStanza R) =
      (stanzas text).filterMap (readStanza R) := by
    rw [stanzas, hl]
    rcases eq_or_ne l [] with rfl | hne
    · have hnone : ∀ m ∈ ([] : List Str), m ≠ [] := fun m hm => nomatch hm
      rw [filterMap_blockLines hfirst hlast rfl hnone (Or.inr rfl), ← nil_append ([] :: lines),
        runs_append_nil hnone]
      rfl
    · have hone : ∀ m ∈ [l], m ≠ [] := fun m hm => mem_singleton.mp hm ▸ hne
      rw [filterMap_blockLines hfirst hlast rfl hone (Or.inl rfl)]
      rfl
  rw [parseDpkgStatus, blocks_eq hl, filterMap_map, ← hread]
  refine congrArg _ (filterMap_congr fun b hb => dpkgPackage_joinLines fun m hm => hfree m ?_)
  rw [hl]
  exact mem_blockLines hb hm

/-! ### What is reported -/

variable (R) in
/-- The words of the status of a stanza. -/
def statusWords (stanza : List Str) : List Str :=
  Regex.classRuns (fun c => !R.isSpace c) (valueOf R stanza "status")

variable (R) in
/-- The third word of the status of a stanza is `installed`. -/
def Installed (stanza : List Str) : Prop := (statusWords R stanza)[2]? = some "installed".toList

instance (stanza : List Str) : Decidable (Installed R stanza) := by
  unfold Installed
  infer_instance

variable (R) in
/-- **What a stanza declares**: its package, if it is installed. -/
def declared (stanza : List Str) : Option Package :=
  if Installed R stanza then some (packageOf R stanza) else none

variable (R) in
/-- **A stanza is misread**: it is installed, and its package is to be removed, or has no name or no
version; or another word of its status has `installed` in it, and none of this is so. -/
def Misread (stanza : List Str) : Prop :=
  let passedOver := "deinstall" <+: valueOf R stanza "status" ∨
    "purge" <+: valueOf R stanza "status" ∨
      valueOf R stanza "package" = [] ∨ valueOf R stanza "version" = []
  if Installed R stanza then passedOver
  else (∃ w ∈ statusWords R stanza, "installed" <:+: w) ∧ ¬passedOver

instance (stanza : List Str) : Decidable (Misread R stanza) := by
  unfold Misread
  infer_instance

theorem readStanza_eq_declared_iff (stanza : List Str) :
    readStanza R stanza = declared R stanza ↔ ¬Misread R stanza := by
  have hword : ∀ c ∈ "installed".toList, (!R.isSpace c) = true := by
    intro c hc
    have hascii : ∀ c ∈ "installed".toList, IsAscii c ∧ asciiSpace c = false := by decide
    rw [R.isSpace_ascii c (hascii c hc).1, (hascii c hc).2]
    rfl
  have hread : ∀ o : Prop, ∀ [Decidable o],
      (if o then some (packageOf R stanza) else none) = declared R stanza ↔
        (o ↔ Installed R stanza) := by
    intro o _
    unfold declared
    split_ifs <;> simp_all
  have hmem : Installed R stanza → ∃ w ∈ statusWords R stanza, "installed" <:+: w :=
    fun h => ⟨_, mem_of_getElem? h, infix_rfl⟩
  refine (hread (Admitted R stanza)).trans ?_
  unfold Admitted Misread
  rw [Regex.isInfix_iff_classRuns (by decide) hword]
  by_cases h : Installed R stanza
  · have hsome := hmem h
    simp only [statusWords] at hsome
    simp only [hsome, h, if_true, iff_true, true_and, not_or, ne_eq]
  · simp only [h, if_false, iff_false, statusWords, not_or, ne_eq, not_and, not_not]

/-- A package that is installed, and one that is removed but for its settings. -/
def sampleStatus : Str :=
  "Package: bash\nStatus: install ok installed\nDescription: a shell\n of GNU\nVersion: 5.2\n\n" ++
    "Version: 7.2\nStatus: deinstall ok config-files\nPackage: nano\n"

end Guardian.Images

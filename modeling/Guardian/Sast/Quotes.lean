import Guardian.Sast.Masking
import Mathlib.Data.List.Find

/-!
# Quotes that are not closed

The lexer keeps a quote open over the end of a line. A text behind a line with an open quote is then
read as that of a literal, up to the next quote; on its own, it is read as code.
`maskNonCode_append_newline_iff` says when both readings mask the same.
-/

namespace Guardian.Sast.Masking

open Python List

/-- **A text ends inside a literal**, and not in an escape: a quote begins in it that is not closed
before the end of the line. -/
def Unclosed (st : Style) (q : Char) (a : Str) : Prop :=
  ∃ ms s, a = textOf ms ++ q :: s ∧ Reads st ms (q :: s) ∧
    opener st (q :: s) = some (.quote [q]) ∧ Inside [q] s ['\n']

/-- **A reading of a text behind an open quote**: the rest of the literal, and a reading of what
follows. -/
inductive ReadsBehind (st : Style) (q : Char) : Reading → Prop
  | closed {s ms} : Inside [q] s ([q] ++ textOf ms) → Reads st ms [] →
      ReadsBehind st q (hidden (s ++ [q]) ++ ms)
  | unclosed {s} : Inside [q] s [] → ReadsBehind st q (hidden s)

def IsBlank (c : Char) : Prop := c = ' ' ∨ c = '\n'

/-- **Two readings come together before there is code**: what is code in one of them, before the
first character that is code in both, is blank. -/
def ComeTogether (ms ns : Reading) : Prop :=
  ∃ p r p' r', ms = p ++ r ∧ ns = p' ++ r' ∧ p.length = p'.length ∧
    (∀ x ∈ p ++ p', x.2 = true → IsBlank x.1) ∧
      ((r = [] ∧ r' = []) ∨ ∃ c t t', r = (c, true) :: t ∧ r' = (c, true) :: t')

/-- **A text may stand behind an open quote**: read on its own and behind the quote, it has nothing
but blanks, comments and literals up to where both readings are code. -/
def QuoteProof (st : Style) (q : Char) (b : Str) : Prop :=
  ∃ own behind, textOf own = b ∧ Reads st own [] ∧ textOf behind = b ∧ ReadsBehind st q behind ∧
    ComeTogether own behind

variable {st : Style} {q : Char} {s after a b : Str} {ms ns : Reading}

/-! ### The end of a line -/

theorem IsMark.prefix_iff {m : Str} (hm : IsMark m) (s t : Str) :
    m <+: s ++ '\n' :: t ↔ m <+: s := by
  refine ⟨fun h => ?_, fun h => h.trans (prefix_append s _)⟩
  rcases prefix_or_prefix_of_prefix h (prefix_append s _) with hle | ⟨w, rfl⟩
  · exact hle
  rcases w with _ | ⟨c, w⟩
  · rw [append_nil]
  · obtain ⟨u, hu⟩ := (prefix_append_right_inj s).mp h
    exact absurd (by simp [(List.cons.inj hu).1]) hm.2

/-- What begins on a line does not depend on the next one. -/
theorem opener_append_newline (hs : s ≠ []) (t : Str) :
    opener st (s ++ '\n' :: t) = opener st s := by
  obtain ⟨c, cs, rfl⟩ := exists_cons_of_ne_nil hs
  have hblock : (st.block.filter fun b => decide (b.1 <+: c :: cs ++ '\n' :: t)) =
      st.block.filter fun b => decide (b.1 <+: c :: cs) := by
    rcases hb : st.block with _ | b
    · rfl
    · have hmark := (st.block_marks b hb).1
      rw [Option.filter, Option.filter]
      simp only [hmark.prefix_iff]
  have hline : (st.lineComments.find? fun m => decide (m <+: c :: cs ++ '\n' :: t)) =
      st.lineComments.find? fun m => decide (m <+: c :: cs) :=
    find?_congr fun m hm => decide_eq_decide.mpr ((st.line_marks m hm).prefix_iff _ _)
  have htriple : (∃ q ∈ tripleQuotes, q <+: c :: cs ++ '\n' :: t) ↔
      ∃ q ∈ tripleQuotes, q <+: c :: cs := by
    have hmarks : ∀ q ∈ tripleQuotes, IsMark q := by decide
    exact exists_congr fun q => and_congr_right fun hq => (hmarks q hq).prefix_iff _ _
  unfold opener
  rw [hblock, hline]
  simp only [htriple]
  split
  · rfl
  split
  · rfl
  by_cases h : st.tripleQuotes = true ∧ ∃ q ∈ tripleQuotes, q <+: c :: cs
  · obtain ⟨-, q, hq, hprefix⟩ := id h
    have hlength : ∀ q ∈ tripleQuotes, q.length = 3 := by decide
    rw [if_pos h, if_pos h, take_append_of_le_length (hlength q hq ▸ hprefix.length_le)]
  · rw [if_neg h, if_neg h, cons_append]

theorem Inside.append_newline {q : Str} (hq : IsMark q) (h : Inside q s after) (hne : after ≠ [])
    (t : Str) : Inside q s (after ++ '\n' :: t) := by
  induction h with
  | nil => exact .nil
  | escape _ ih => exact .escape (ih hne)
  | char hescape hnot _ ih =>
    refine .char (fun h => hescape ⟨h.1, ?_⟩) ?_ (ih hne)
    · exact fun hnil => hne (append_eq_nil_iff.mp hnil).2
    · rwa [← append_assoc, ← cons_append, hq.prefix_iff]

theorem Inside.newline {q t : Str} (hq : IsMark q) (h : Inside q s ('\n' :: t)) (t' : Str) :
    Inside q s ('\n' :: t') := by
  generalize hrest : '\n' :: t = rest at h
  induction h with
  | nil => exact .nil
  | escape _ ih => exact .escape (ih hrest)
  | char hescape hnot _ ih =>
    subst hrest
    refine .char (fun h => hescape ⟨h.1, by simp⟩) ?_ (ih rfl)
    rw [← cons_append, hq.prefix_iff] at hnot ⊢
    exact hnot

theorem Inside.of_append {q u v : Str} (h : Inside q s (u ++ v)) : Inside q s u := by
  generalize hrest : u ++ v = rest at h
  induction h with
  | nil => exact .nil
  | escape _ ih => exact .escape (ih hrest)
  | @char c s after hescape hnot _ ih =>
    subst hrest
    refine .char (fun h => hescape ⟨h.1, fun hnil => h.2 ?_⟩) (fun h => hnot ?_) (ih rfl)
    · obtain ⟨rfl, huv⟩ := append_eq_nil_iff.mp hnil
      rw [(append_eq_nil_iff.mp huv).1]
      rfl
    · refine h.trans ?_
      rw [← append_assoc, ← cons_append]
      exact prefix_append _ v

theorem Covers.append_newline (h : Covers st s after) (hne : after ≠ []) (t : Str) :
    Covers st s (after ++ '\n' :: t) := by
  have hopener : ∀ {u : Str} {o : Opener}, opener st (u ++ after) = some o →
      opener st (u ++ (after ++ '\n' :: t)) = some o := by
    intro u o hopen
    rw [← append_assoc, opener_append_newline (append_ne_nil_of_right_ne_nil u hne)]
    exact hopen
  cases h with
  | line hopen hs hafter =>
    refine .line (hopener hopen) hs (Or.inr ?_)
    rw [head?_append, hafter.resolve_left hne]
    rfl
  | @block mark close s after hopen hwithin =>
    obtain ⟨-, -, hclose⟩ := opener_spec hopen
    refine .block (hopener hopen) fun u v huv hv => ?_
    have hnot := hwithin u v huv hv
    rwa [← append_assoc close, ← append_assoc v, IsMark.prefix_iff hclose]
  | openBlock => exact absurd rfl hne
  | @literal q s after hopen hinside =>
    obtain ⟨-, -, hq⟩ := opener_spec hopen
    refine .literal (hopener hopen) ?_
    rw [← append_assoc]
    exact hinside.append_newline hq.1 (append_ne_nil_of_right_ne_nil q hne) t
  | openLiteral => exact absurd rfl hne

theorem Reads.append_newline (h : Reads st ms after) (hne : after ≠ []) (t : Str) :
    Reads st ms (after ++ '\n' :: t) := by
  induction h with
  | nil => exact .nil
  | @code c ms after hcode _ ih =>
    refine .code ?_ (ih hne)
    rwa [← append_assoc, ← cons_append, opener_append_newline (cons_ne_nil _ _)]
  | hidden hcovers _ ih =>
    refine .hidden ?_ (ih hne)
    rw [← append_assoc]
    exact hcovers.append_newline (append_ne_nil_of_right_ne_nil _ hne) t

/-! ### Behind an open quote -/

theorem mask_eq_run (s : Str) : mask st s = run st .code s := rfl

/-- **What is masked behind an open quote** is what is masked of a literal that goes on. -/
theorem mask_append_newline (h : Unclosed st q a) (b : Str) :
    mask st (a ++ '\n' :: b) = mask st a ++ '\n' :: run st (.quote [q]) b := by
  obtain ⟨ms, s, rfl, hms, hopen, hs⟩ := h
  obtain ⟨-, -, hq⟩ := opener_spec hopen
  have hnewline : run st (.quote [q]) ('\n' :: b) = '\n' :: run st (.quote [q]) b := by
    have hnot : ¬[q] <+: '\n' :: b := fun h =>
      hq.1.2 ((List.cons.inj h.choose_spec).1 ▸ mem_cons_self)
    rw [run_cons (m := .quote [q]) hq, step, if_neg (by simp), if_neg hnot]
    rfl
  have hbefore : run st .code (textOf ms ++ q :: s) =
      ms.map shown ++ (blank q :: s.map blank) := by
    have hinside : Inside [q] s [] := Inside.of_append (u := []) (v := ['\n']) hs
    have hliteral := run_of_covers (.openLiteral (q := [q]) hopen hinside)
    rw [append_nil, run_nil, append_nil] at hliteral
    rw [run_of_reads hms]
    exact congrArg _ hliteral
  have hline : run st .code (q :: (s ++ '\n' :: b)) =
      blank q :: (s.map blank ++ run st (.quote [q]) ('\n' :: b)) := by
    have hopen' : opener st ([q] ++ (s ++ '\n' :: b)) = some (.quote [q]) := by
      rw [← hopen]
      exact opener_append_newline (cons_ne_nil q s) b
    have hrun := run_opener hopen' rfl
    rw [Opener.mode, run_quote hq (hs.newline hq.1 b)] at hrun
    exact hrun
  have hwhole := run_of_reads (hms.append_newline (cons_ne_nil q s) b)
  rw [cons_append, hline, hnewline] at hwhole
  rw [mask_eq_run, mask_eq_run, hbefore, append_assoc, cons_append, hwhole]
  simp

theorem run_of_readsBehind (hq : Mode.Waits (.quote [q])) (h : ReadsBehind st q ms) :
    run st (.quote [q]) (textOf ms) = ms.map shown := by
  cases h with
  | @closed s ms hs hms =>
    rw [textOf_append, textOf_hidden, append_assoc, run_quote hq hs,
      run_endquote hq, ← mask_eq_run, mask_textOf hms, map_append,
      map_shown_hidden]
    simp
  | @unclosed s hs =>
    have hrun : run st (.quote [q]) (s ++ []) = _ := run_quote hq hs
    rw [append_nil, run_nil, append_nil] at hrun
    rw [textOf_hidden, map_shown_hidden, hrun]

variable (st q) in
theorem exists_readsBehind (b : Str) : ∃ ms, textOf ms = b ∧ ReadsBehind st q ms := by
  rcases exists_inside [q] b with ⟨u, v, rfl, hu⟩ | hb
  · obtain ⟨ms, rfl, hms⟩ := exists_reads st v
    refine ⟨hidden (u ++ [q]) ++ ms, ?_, .closed hu hms⟩
    rw [textOf_append, textOf_hidden]
  · exact ⟨hidden b, textOf_hidden b, .unclosed hb⟩

/-! ### Two readings of one text -/

theorem exists_of_hidden_append {x : Char} {p t : Reading}
    (h : hidden s ++ ms = p ++ (x, true) :: t) : ∃ w, ms = w ++ (x, true) :: t := by
  rcases append_eq_append_iff.mp h with ⟨w, -, hw⟩ | ⟨w, hs, hw⟩
  · exact ⟨w, hw⟩
  rcases w with _ | ⟨y, w⟩
  · exact ⟨[], hw.symm⟩
  · have hmem : (x, true) ∈ hidden s := by
      rw [hs, (List.cons.inj hw).1]
      simp
    obtain ⟨d, -, hd⟩ := mem_map.mp hmem
    cases hd

theorem Reads.of_code {x : Char} {t : Reading} (h : Reads st ms after) :
    ∀ p, ms = p ++ (x, true) :: t → Reads st t after := by
  induction h with
  | nil => exact fun p hp => absurd hp (by simp)
  | @code d ms after _ hms ih =>
    intro p hp
    rcases p with _ | ⟨y, p⟩
    · exact (List.cons.inj hp).2 ▸ hms
    · exact ih p (List.cons.inj hp).2
  | hidden _ _ ih =>
    intro p hp
    obtain ⟨w, hw⟩ := exists_of_hidden_append hp
    exact ih w hw

theorem ReadsBehind.of_code {x : Char} {t : Reading} (h : ReadsBehind st q ms) :
    ∀ p, ms = p ++ (x, true) :: t → Reads st t [] := by
  intro p hp
  cases h with
  | closed _ hms =>
    obtain ⟨w, hw⟩ := exists_of_hidden_append hp
    exact hms.of_code w hw
  | @unclosed s _ =>
    rw [← append_nil (hidden s)] at hp
    obtain ⟨w, hw⟩ := exists_of_hidden_append hp
    exact absurd hw (by simp)

theorem shown_of_isBlank {x : Char × Bool} (h : x.2 = true → IsBlank x.1) :
    shown x = blank x.1 := by
  rcases x with ⟨c, _ | _⟩
  · rfl
  · rcases h rfl with rfl | rfl <;> rfl

theorem map_shown_of_isBlank {p : Reading} (h : ∀ x ∈ p, x.2 = true → IsBlank x.1) :
    p.map shown = (textOf p).map blank := by
  rw [textOf, map_map]
  exact map_congr_left fun x hx => shown_of_isBlank (h x hx)

theorem isBlank_of_eq_blank {c : Char} (h : c = blank c) : IsBlank c := by
  unfold blank at h
  split_ifs at h with hc
  · exact Or.inr hc
  · exact Or.inl h

theorem isBlank_of_shown_eq {c : Char} {f g : Bool} (h : shown (c, f) = shown (c, g))
    (hboth : ¬(f = true ∧ g = true)) :
    (f = true → IsBlank c) ∧ (g = true → IsBlank c) := by
  rcases f with _ | _ <;> rcases g with _ | _
  · exact ⟨nofun, nofun⟩
  · exact ⟨nofun, fun _ => isBlank_of_eq_blank h.symm⟩
  · exact ⟨fun _ => isBlank_of_eq_blank h, nofun⟩
  · exact absurd ⟨rfl, rfl⟩ hboth

/-- Two readings that mask the same come together. -/
theorem comeTogether_of_map_shown_eq : ∀ {ms ns : Reading}, textOf ms = textOf ns →
    ms.map shown = ns.map shown → ComeTogether ms ns := by
  intro ms
  induction ms with
  | nil =>
    intro ns htext _
    obtain rfl := map_eq_nil_iff.mp htext.symm
    exact ⟨[], [], [], [], rfl, rfl, rfl, by simp, Or.inl ⟨rfl, rfl⟩⟩
  | cons x ms ih =>
    intro ns htext hshown
    rcases ns with _ | ⟨y, ns⟩
    · cases htext
    obtain ⟨hchar, htext'⟩ := List.cons.inj htext
    obtain ⟨hxy, hshown'⟩ := List.cons.inj hshown
    obtain ⟨c, f⟩ := x
    obtain ⟨d, g⟩ := y
    obtain rfl : c = d := hchar
    by_cases hboth : f = true ∧ g = true
    · obtain ⟨rfl, rfl⟩ := hboth
      exact ⟨[], _, [], _, rfl, rfl, rfl, by simp, Or.inr ⟨c, ms, ns, rfl, rfl⟩⟩
    obtain ⟨hf, hg⟩ := isBlank_of_shown_eq hxy hboth
    obtain ⟨p, r, p', r', rfl, rfl, hlength, hp, hrest⟩ := ih htext' hshown'
    refine ⟨(c, f) :: p, r, (c, g) :: p', r', rfl, rfl, by simp [hlength], ?_, hrest⟩
    intro x hx
    rcases mem_append.mp hx with hx | hx <;> rcases mem_cons.mp hx with rfl | hx
    · exact hf
    · exact hp x (mem_append_left _ hx)
    · exact hg
    · exact hp x (mem_append_right _ hx)

/-- **Two readings of one text mask the same** exactly if they come together before there is code:
where both are code, they go on alike. -/
theorem map_shown_eq_iff (hms : Reads st ms []) (hns : ReadsBehind st q ns)
    (htext : textOf ms = textOf ns) : ms.map shown = ns.map shown ↔ ComeTogether ms ns := by
  refine ⟨comeTogether_of_map_shown_eq htext, ?_⟩
  rintro ⟨p, r, p', r', rfl, rfl, hlength, hblank, hrest⟩
  rw [textOf_append, textOf_append] at htext
  obtain ⟨hp, hr⟩ := append_inj htext (by simpa [textOf] using hlength)
  rw [map_append, map_append,
    map_shown_of_isBlank fun x hx => hblank x (mem_append_left _ hx),
    map_shown_of_isBlank fun x hx => hblank x (mem_append_right _ hx), hp]
  rcases hrest with ⟨rfl, rfl⟩ | ⟨c, t, t', rfl, rfl⟩
  · rfl
  · have htail : textOf t = textOf t' := (List.cons.inj hr).2
    rw [map_cons, map_cons, ← mask_textOf (hms.of_code p rfl),
      ← mask_textOf (hns.of_code p' rfl), htail]

/-- **A quote does not reach over the end of its line** exactly if the text behind it may stand
behind an open quote. -/
theorem maskNonCode_append_newline_iff {R : Runtime} {suffix : Str}
    (hst : styleOf R suffix = some st) (ha : Unclosed st q a) (b : Str) :
    maskNonCode R (a ++ '\n' :: b) suffix =
        maskNonCode R a suffix ++ '\n' :: maskNonCode R b suffix ↔ QuoteProof st q b := by
  have hmask : ∀ s, maskNonCode R s suffix = mask st s := by
    intro s
    rw [maskNonCode, hst]
  have hq : Mode.Waits (.quote [q]) := by
    obtain ⟨_, _, _, _, hopen, _⟩ := ha
    exact (opener_spec hopen).2.2
  have hiff : ∀ ms ns, textOf ms = b → textOf ns = b → Reads st ms [] → ReadsBehind st q ns →
      (run st (.quote [q]) b = mask st b ↔ ComeTogether ms ns) := by
    rintro ms ns rfl hns hms hbehind
    rw [← map_shown_eq_iff hms hbehind hns.symm, mask_textOf hms, ← hns,
      run_of_readsBehind hq hbehind, eq_comm]
  rw [hmask, hmask, hmask, mask_append_newline ha, append_cancel_left_eq, List.cons.injEq,
    and_iff_right rfl]
  constructor
  · intro h
    obtain ⟨ms, hms, hown⟩ := exists_reads st b
    obtain ⟨ns, hns, hbehind⟩ := exists_readsBehind st q b
    exact ⟨ms, ns, hms, hown, hns, hbehind, (hiff ms ns hms hns hown hbehind).mp h⟩
  · rintro ⟨ms, ns, hms, hown, hns, hbehind, h⟩
    exact (hiff ms ns hms hns hown hbehind).mpr h

theorem unclosed_lifetime : Unclosed cStyle '\'' "&'a T" := by
  refine ⟨[('&', true)], "a T", rfl, .code (by decide) .nil, by decide, ?_⟩
  exact .char (by decide) (by decide) (.char (by decide) (by decide)
    (.char (by decide) (by decide) .nil))

theorem styleOf_rs : styleOf Runtime.ascii ".rs" = some cStyle := by
  unfold styleOf
  rw [if_neg (by decide), if_neg (by decide), if_neg (by decide),
    if_pos (by decide)]

/-- The line behind it is masked. -/
theorem rust_lifetime : ¬∀ (suffix : Str) (st : Style) (q : Char) (a b : Str),
    styleOf Runtime.ascii suffix = some st → Unclosed st q a →
      maskNonCode Runtime.ascii (a ++ '\n' :: b) suffix =
        maskNonCode Runtime.ascii a suffix ++ '\n' :: maskNonCode Runtime.ascii b suffix := by
  intro h
  have hmask := h ".rs" cStyle '\'' "&'a T" "eval(x)" styleOf_rs
    unclosed_lifetime
  revert hmask
  decide

/-- A comment may stand behind it. -/
theorem quoteProof_comment : QuoteProof cStyle '\'' "// done" :=
  (maskNonCode_append_newline_iff styleOf_rs unclosed_lifetime "// done").mp
    (by decide)

end Guardian.Sast.Masking

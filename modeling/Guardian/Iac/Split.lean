import Mathlib.Data.Int.Order.Basic
import Guardian.Iac.Escapes

/-!
# The inside of brackets

`splitTopLevel` splits the inside of brackets at commas and ends of lines, in one scan that counts
the brackets that are open and knows of strings.
-/

namespace Guardian.Iac

open Python List

/-! ### `_split_top_level` -/

/-- What the loop over a body carries. -/
structure Scan where
  parts : List Str := []
  current : Str := []
  depth : ℤ := 0
  quoted : Bool := false
  escape : Bool := false

/-- `current.append(ch)`, for each character of a text. -/
def Scan.push (s : Scan) (text : Str) : Scan := { s with current := s.current ++ text }

/-- One turn of the loop. -/
def Scan.step (s : Scan) (ch : Char) : Scan :=
  if s.quoted then
    if s.escape then { s.push [ch] with escape := false }
    else if ch = '\\' then { s.push [ch] with escape := true }
    else if ch = '"' then { s.push [ch] with quoted := false }
    else s.push [ch]
  else if ch = '"' then { s.push [ch] with quoted := true }
  else if ch ∈ ['[', '{', '('] then { s.push [ch] with depth := s.depth + 1 }
  else if ch ∈ [']', '}', ')'] then { s.push [ch] with depth := s.depth - 1 }
  else if ch ∈ [',', '\n'] ∧ s.depth = 0 then
    { s with parts := s.parts ++ [s.current], current := [] }
  else s.push [ch]

def Scan.run (s : Scan) (body : Str) : Scan := body.foldl Scan.step s

variable (R : Runtime)

/-- `[p.strip() for p in parts if p.strip()]` -/
def stripped (parts : List Str) : List Str := (parts.map (strip R)).filter (· ≠ [])

/-- **`_split_top_level`** -/
def splitTopLevel (body : Str) : List Str :=
  let s := Scan.run {} body
  stripped R (s.parts ++ [s.current])

/-! ### The inside of brackets -/

/-- `[ \t]` -/
def lineBlank (c : Char) : Bool := c == ' ' || c == '\t'

def Blanks (s : Str) : Prop := ∀ c ∈ s, lineBlank c

def Gap (s : Str) : Prop :=
  ∃ us : List Str, (∀ u ∈ us, u ∈ [[' '], ['\t'], ['\n'], ['\r', '\n']]) ∧ s = us.flatten

/-- **The inside of brackets with texts in it**, by what may stand behind a text and what ends it;
the last one need not be ended. -/
inductive Body (after stop : Str → Prop) : List Str → Str → Prop
  | done (gap : Str) : Gap gap → Body after stop [] gap
  | last (before text behind : Str) : Gap before → after behind →
      Body after stop [text] (before ++ (text ++ behind))
  | more (before text behind sep rest : Str) (texts : List Str) : Gap before → after behind →
      stop sep → Body after stop texts rest →
      Body after stop (text :: texts) (before ++ (text ++ (behind ++ (sep ++ rest))))

/-- The elements of a list: a comma ends one. -/
def Elements : List Str → Str → Prop := Body Gap (· = [','])

/-- The items of a map: a comma or the end of the line ends one. -/
def Items : List Str → Str → Prop := Body Blanks (· ∈ [[','], ['\n'], ['\r', '\n']])

/-! ### What the scan goes over -/

section Split
variable {d d' : ℤ} {s : Scan} {text : Str}

/-- **The scan goes over the text without a split**, wherever so many brackets are open. -/
def Passes (d : ℤ) (text : Str) : Prop :=
  ∀ s : Scan, d ≤ s.depth → s.quoted = false → s.escape = false → s.run text = s.push text

theorem Scan.run_append (s : Scan) (a b : Str) : s.run (a ++ b) = (s.run a).run b :=
  foldl_append

theorem Scan.run_cons (s : Scan) (c : Char) (cs : Str) : s.run (c :: cs) = (s.step c).run cs := rfl

theorem Scan.run_singleton (s : Scan) (c : Char) : s.run [c] = s.step c := rfl

theorem Scan.push_nil (s : Scan) : s.push [] = s := by simp [Scan.push]

theorem Scan.push_push (s : Scan) (a b : Str) : (s.push a).push b = s.push (a ++ b) := by
  simp [Scan.push]

theorem passes_nil : Passes d [] := fun s _ _ _ => s.push_nil.symm

theorem Passes.append {a b : Str} (ha : Passes d a) (hb : Passes d b) : Passes d (a ++ b) := by
  intro s hd hq he
  rw [Scan.run_append, ha s hd hq he, hb (s.push a) hd hq he, Scan.push_push]

theorem Passes.mono (h : Passes d text) (hdd : d ≤ d') : Passes d' text :=
  fun s hd => h s (hdd.trans hd)

/-- A character that says nothing to the scan. -/
def Tame (c : Char) : Prop := c ∉ ['"', '[', '{', '(', ']', '}', ')', ',', '\n']

instance : DecidablePred Tame := fun _ => inferInstanceAs (Decidable (_ ∉ _))

theorem passes_tame (h : ∀ c ∈ text, Tame c) : Passes d text := by
  induction text with
  | nil => exact passes_nil
  | cons c cs ih =>
    have hc : Passes d [c] := by
      have hc := h c mem_cons_self
      intro s _ hq _
      simp only [Tame, mem_cons, not_mem_nil, or_false, not_or] at hc
      simp [Scan.run_singleton, Scan.step, hq, hc]
    exact hc.append (ih fun c hc => h c (mem_cons_of_mem _ hc))

theorem passes_separator {c : Char} (hc : c = ',' ∨ c = '\n') (hd : 0 < d) : Passes d [c] := by
  intro s hs hq _
  have hne : s.depth ≠ 0 := by omega
  rcases hc with rfl | rfl <;> simp [Scan.run_singleton, Scan.step, hq, hne]

theorem passes_brackets {o c : Char} (hoc : (o, c) ∈ [('[', ']'), ('{', '}')])
    (h : Passes (d + 1) text) : Passes d (o :: (text ++ [c])) := by
  intro s hd hq he
  have hopen : s.step o = { s.push [o] with depth := s.depth + 1 } := by
    simp only [mem_cons, Prod.mk.injEq, not_mem_nil, or_false] at hoc
    rcases hoc with ⟨rfl, rfl⟩ | ⟨rfl, rfl⟩ <;> simp [Scan.step, hq]
  have hclose (s : Scan) (hq : s.quoted = false) :
      s.step c = { s.push [c] with depth := s.depth - 1 } := by
    simp only [mem_cons, Prod.mk.injEq, not_mem_nil, or_false] at hoc
    rcases hoc with ⟨rfl, rfl⟩ | ⟨rfl, rfl⟩ <;> simp [Scan.step, hq]
  have hbody := h { s.push [o] with depth := s.depth + 1 } (by simpa using hd) hq he
  have hend := hclose (Scan.push { s.push [o] with depth := s.depth + 1 } text) hq
  rw [Scan.run_cons, hopen, Scan.run_append, hbody, Scan.run_singleton, hend]
  simp [Scan.push]

/-- In a string the scan goes over the tokens. -/
theorem run_render {ts : List Tok} (h : ∀ t ∈ ts, t.Valid) {s : Scan} (hq : s.quoted = true)
    (he : s.escape = false) : s.run (render ts) = s.push (render ts) := by
  have hstep {s : Scan} (hq : s.quoted = true) (he : s.escape = false) {c : Char} (hc : c ≠ '\\')
      (hquote : c ≠ '"') : s.step c = s.push [c] := by
    simp [Scan.step, hq, he, hc, hquote]
  have hescape {s : Scan} (hq : s.quoted = true) (he : s.escape = false) (c : Char) :
      s.run ['\\', c] = s.push ['\\', c] := by
    rcases s with ⟨parts, current, depth, quoted, escape⟩
    cases hq
    cases he
    simp [Scan.run, Scan.step, Scan.push]
  have hplain {cs : Str} (hcs : ∀ c ∈ cs, c ≠ '\\' ∧ c ≠ '"') {s : Scan} (hq : s.quoted = true)
      (he : s.escape = false) : s.run cs = s.push cs := by
    induction cs generalizing s with
    | nil => exact s.push_nil.symm
    | cons c cs ih =>
      have hc := hcs c mem_cons_self
      rw [Scan.run_cons, hstep hq he hc.1 hc.2,
        ih (fun c hc => hcs c (mem_cons_of_mem _ hc)) (s := s.push [c]) hq he, Scan.push_push]
      rfl
  induction ts generalizing s with
  | nil => exact s.push_nil.symm
  | cons t ts ih =>
    have hraw : s.run t.raw = s.push t.raw := by
      have ht := h t mem_cons_self
      cases t with
      | char c => exact hstep hq he ht.2.1 ht.1
      | rare raw value =>
        obtain ⟨c, cs, hcs, ⟨rfl, -⟩ | ⟨rfl, hc⟩⟩ := Rare.shape ht
        · exact (Scan.run_append s ['\\', c] cs).trans (by
            rw [hescape hq he, hplain hcs (s := s.push ['\\', c]) hq he, Scan.push_push]
            rfl)
        · refine hplain (fun d hd => ?_) hq he
          rcases mem_cons.mp hd with rfl | hd
          · rcases hc with rfl | rfl <;> decide
          · exact hcs d hd
      | _ => exact hescape hq he _
    rw [render_cons, Scan.run_append, hraw,
      ih (fun t ht => h t (mem_cons_of_mem _ ht)) (s := s.push t.raw) hq he, Scan.push_push]

theorem passes_string {ts : List Tok} (h : ∀ t ∈ ts, t.Valid) :
    Passes d ('"' :: (render ts ++ ['"'])) := by
  intro s _ hq he
  have hopen : s.step '"' = { s.push ['"'] with quoted := true } := by simp [Scan.step, hq]
  have hbody := run_render h (s := { s.push ['"'] with quoted := true }) rfl he
  rw [Scan.run_cons, hopen, Scan.run_append, hbody, Scan.run_singleton]
  simp [Scan.step, Scan.push, he, hq]

end Split

section Parts
variable {R : Runtime} {ts : List Str} {s : Scan} {text : Str}

def GapChar (c : Char) : Prop := c ∈ [' ', '\t', '\n', '\r']

theorem Gap.gapChar (h : Gap text) : ∀ c ∈ text, GapChar c := by
  obtain ⟨us, hus, rfl⟩ := h
  intro c hc
  obtain ⟨u, hu, hc⟩ := mem_flatten.mp hc
  have := hus u hu
  simp only [mem_cons, not_mem_nil, or_false] at this
  rcases this with rfl | rfl | rfl | rfl <;>
    simp only [mem_cons, not_mem_nil, or_false] at hc <;> simp [GapChar, hc]
  rcases hc with rfl | rfl <;> simp

theorem Blanks.gapChar (h : Blanks text) : ∀ c ∈ text, GapChar c := by
  intro c hc
  have := h c hc
  simp only [lineBlank, Bool.or_eq_true, beq_iff_eq] at this
  rcases this with rfl | rfl <;> simp [GapChar]

theorem GapChar.isSpace {c : Char} (h : GapChar c) : R.isSpace c = true := by
  simp only [GapChar, mem_cons, not_mem_nil, or_false] at h
  rcases h with rfl | rfl | rfl | rfl <;> exact R.isSpace_ascii _ (by decide)

theorem stripped_append (a b : List Str) : stripped R (a ++ b) = stripped R a ++ stripped R b := by
  simp [stripped]

theorem stripped_singleton :
    stripped R [text] = if strip R text = [] then [] else [strip R text] := by
  simp [stripped, filter_cons]

def Scan.Idle (s : Scan) : Prop := s.depth = 0 ∧ s.quoted = false ∧ s.escape = false

variable (R) in
/-- The scan has found these texts, and is before another one. -/
def Ready (ts : List Str) (s : Scan) : Prop :=
  s.Idle ∧ stripped R s.parts = ts ∧ ∀ c ∈ s.current, R.isSpace c = true

variable (R) in
/-- The scan has found these texts, with the one that it is behind. -/
def Seen (ts : List Str) (s : Scan) : Prop := s.Idle ∧ stripped R (s.parts ++ [s.current]) = ts

theorem Ready.seen (h : Ready R ts s) : Seen R ts s := by
  refine ⟨h.1, ?_⟩
  rw [stripped_append, stripped_singleton, if_pos (strip_blank h.2.2), h.2.1, append_nil]

theorem Scan.Idle.step_end {c : Char} (h : s.Idle) (hc : c = ',' ∨ c = '\n') :
    s.step c = { s with parts := s.parts ++ [s.current], current := [] } := by
  obtain ⟨hdepth, hq, -⟩ := h
  rcases hc with rfl | rfl <;> simp [Scan.step, hdepth, hq]

theorem Seen.step_end {c : Char} (h : Seen R ts s) (hc : c = ',' ∨ c = '\n') :
    Ready R ts (s.step c) := by
  rw [h.1.step_end hc]
  exact ⟨h.1, h.2, by simp⟩

theorem Scan.Idle.step_gap {c : Char} (h : s.Idle) (hc : GapChar c) (hne : c ≠ '\n') :
    s.step c = s.push [c] := by
  have hpass : Passes 0 [c] := by
    refine passes_tame ?_
    simp only [GapChar, mem_cons, not_mem_nil, or_false, hne, false_or] at hc
    rcases hc with rfl | rfl | rfl <;> simp [Tame]
  exact hpass s h.1.ge h.2.1 h.2.2

theorem Seen.run_gap (h : Seen R ts s) (hgap : ∀ c ∈ text, GapChar c) : Seen R ts (s.run text) := by
  induction text generalizing s with
  | nil => exact h
  | cons c cs ih =>
    have hc := hgap c mem_cons_self
    refine ih ?_ fun c hc => hgap c (mem_cons_of_mem _ hc)
    by_cases hne : c = '\n'
    · exact (h.step_end (Or.inr hne)).seen
    · rw [h.1.step_gap hc hne]
      refine ⟨h.1, ?_⟩
      have hseen := h.2
      rw [stripped_append, stripped_singleton] at hseen ⊢
      rwa [Scan.push, strip_concat hc.isSpace]

theorem Ready.run_gap (h : Ready R ts s) (hgap : ∀ c ∈ text, GapChar c) :
    Ready R ts (s.run text) := by
  induction text generalizing s with
  | nil => exact h
  | cons c cs ih =>
    have hc := hgap c mem_cons_self
    refine ih ?_ fun c hc => hgap c (mem_cons_of_mem _ hc)
    by_cases hne : c = '\n'
    · exact h.seen.step_end (Or.inr hne)
    · rw [h.1.step_gap hc hne]
      refine ⟨h.1, h.2.1, fun d hd => ?_⟩
      rcases mem_append.mp hd with hd | hd
      · exact h.2.2 d hd
      · rw [mem_singleton.mp hd]
        exact hc.isSpace

variable (R) in
/-- **A text that is found**: the scan goes over it, and it has no blanks at its ends. -/
def Found (text : Str) : Prop := Passes 0 text ∧ strip R text = text ∧ text ≠ []

theorem Ready.run_found (h : Ready R ts s) (htext : Found R text) :
    Seen R (ts ++ [text]) (s.run text) := by
  obtain ⟨hpass, hstrip, hne⟩ := htext
  rw [hpass s h.1.1.ge h.1.2.1 h.1.2.2]
  refine ⟨h.1, ?_⟩
  have hcurrent : strip R (s.current ++ text) = text := by rw [strip_blank_append h.2.2, hstrip]
  rw [stripped_append, stripped_singleton]
  simp only [Scan.push, hcurrent, if_neg hne, h.2.1]

/-- What ends a text in brackets: a comma or the end of a line, behind the rest of a gap. -/
def Ends (sep : Str) : Prop :=
  ∃ pre c, sep = pre ++ [c] ∧ (∀ d ∈ pre, GapChar d) ∧ (c = ',' ∨ c = '\n')

variable {after stop : Str → Prop} {texts : List Str} {body : Str}

/-- **The scan finds the texts of a body.** -/
theorem Body.seen (h : Body after stop texts body) (hafter : ∀ t, after t → ∀ c ∈ t, GapChar c)
    (hstop : ∀ t, stop t → Ends t) (hfound : ∀ t ∈ texts, Found R t) (hs : Ready R ts s) :
    Seen R (ts ++ texts) (s.run body) := by
  induction h generalizing ts s with
  | done gap hgap =>
    rw [append_nil]
    exact (hs.run_gap hgap.gapChar).seen
  | last before text behind hbefore hbehind =>
    rw [Scan.run_append, Scan.run_append]
    have htext := (hs.run_gap hbefore.gapChar).run_found (hfound text mem_cons_self)
    exact htext.run_gap (hafter behind hbehind)
  | more before text behind sep rest texts hbefore hbehind hsep _ ih =>
    rw [Scan.run_append, Scan.run_append, Scan.run_append, Scan.run_append]
    have htext := (hs.run_gap hbefore.gapChar).run_found (hfound text mem_cons_self)
    obtain ⟨pre, c, rfl, hpre, hc⟩ := hstop sep hsep
    rw [Scan.run_append _ pre, append_cons]
    exact ih (fun t ht => hfound t (mem_cons_of_mem _ ht))
      (((htext.run_gap (hafter behind hbehind)).run_gap hpre).step_end hc)

theorem Body.splitTopLevel (h : Body after stop texts body)
    (hafter : ∀ t, after t → ∀ c ∈ t, GapChar c) (hstop : ∀ t, stop t → Ends t)
    (hfound : ∀ t ∈ texts, Found R t) : splitTopLevel R body = texts := by
  have hready : Ready R [] {} := ⟨⟨rfl, rfl, rfl⟩, rfl, by simp⟩
  exact (h.seen hafter hstop hfound hready).2

theorem passes_gap {d : ℤ} (hd : 0 < d) (h : ∀ c ∈ text, GapChar c) : Passes d text := by
  induction text with
  | nil => exact passes_nil
  | cons c cs ih =>
    have hc := h c mem_cons_self
    have hone : Passes d [c] := by
      by_cases hne : c = '\n'
      · exact passes_separator (Or.inr hne) hd
      · refine passes_tame fun d hd => ?_
        rw [mem_singleton.mp hd]
        simp only [GapChar, mem_cons, not_mem_nil, or_false, hne, false_or] at hc
        rcases hc with rfl | rfl | rfl <;> simp [Tame]
    exact hone.append (ih fun c hc => h c (mem_cons_of_mem _ hc))

theorem Ends.passes {d : ℤ} (hd : 0 < d) (h : Ends text) : Passes d text := by
  obtain ⟨pre, c, rfl, hpre, hc⟩ := h
  exact (passes_gap hd hpre).append (passes_separator hc hd)

theorem Body.passes (h : Body after stop texts body) (hafter : ∀ t, after t → ∀ c ∈ t, GapChar c)
    (hstop : ∀ t, stop t → Ends t) (hfound : ∀ t ∈ texts, Found R t) : Passes 1 body := by
  induction h with
  | done gap hgap => exact passes_gap (by decide) hgap.gapChar
  | last before text behind hbefore hbehind =>
    have htext : Passes 1 text := (hfound text mem_cons_self).1.mono (by decide)
    exact (passes_gap (by decide) hbefore.gapChar).append
      (htext.append (passes_gap (by decide) (hafter behind hbehind)))
  | more before text behind sep rest texts hbefore hbehind hsep _ ih =>
    have htext : Passes 1 text := (hfound text mem_cons_self).1.mono (by decide)
    have hrest := ih fun t ht => hfound t (mem_cons_of_mem _ ht)
    exact (passes_gap (by decide) hbefore.gapChar).append
      (htext.append ((passes_gap (by decide) (hafter behind hbehind)).append
        (((hstop sep hsep).passes (by decide)).append hrest)))

theorem ends_comma {sep : Str} (h : sep = [',']) : Ends sep := ⟨[], ',', h, by simp, Or.inl rfl⟩

theorem ends_item {sep : Str} (h : sep ∈ [[','], ['\n'], ['\r', '\n']]) : Ends sep := by
  simp only [mem_cons, not_mem_nil, or_false] at h
  rcases h with rfl | rfl | rfl
  · exact ends_comma rfl
  · exact ⟨[], '\n', rfl, by simp, Or.inr rfl⟩
  · exact ⟨['\r'], '\n', rfl, by simp [GapChar], Or.inr rfl⟩

theorem found_word (hne : text ≠ []) (h : ∀ c ∈ text, Tame c ∧ R.isSpace c = false) :
    Found R text :=
  ⟨passes_tame fun c hc => (h c hc).1, strip_of_clean fun c hc => (h c hc).2, hne⟩

theorem found_string {ts : List Tok} (h : ∀ t ∈ ts, t.Valid) :
    Found R ('"' :: (render ts ++ ['"'])) := by
  have hspace : R.isSpace '"' = false := R.isSpace_ascii _ (by decide)
  refine ⟨passes_string h, strip_eq_self.mpr ⟨?_, ?_⟩, cons_ne_nil _ _⟩
  · simpa using hspace
  · rw [← cons_append, getLast?_concat]
    simpa using hspace

theorem found_brackets {o c : Char} {body : Str} (hoc : (o, c) ∈ [('[', ']'), ('{', '}')])
    (h : Passes 1 body) : Found R (o :: (body ++ [c])) := by
  have hspace : R.isSpace o = false ∧ R.isSpace c = false := by
    simp only [mem_cons, Prod.mk.injEq, not_mem_nil, or_false] at hoc
    rcases hoc with ⟨rfl, rfl⟩ | ⟨rfl, rfl⟩ <;>
      exact ⟨R.isSpace_ascii _ (by decide), R.isSpace_ascii _ (by decide)⟩
  refine ⟨passes_brackets hoc h, strip_eq_self.mpr ⟨?_, ?_⟩, cons_ne_nil _ _⟩
  · simpa using hspace.1
  · rw [← cons_append, getLast?_concat]
    simpa using hspace.2

theorem passes_blanks {d : ℤ} (h : Blanks text) : Passes d text := by
  refine passes_tame fun c hc => ?_
  have hc := h c hc
  simp only [lineBlank, Bool.or_eq_true, beq_iff_eq] at hc
  rcases hc with rfl | rfl <;> decide

theorem Elements.found {texts : List Str} {body : Str} (h : Elements texts body)
    (hfound : ∀ t ∈ texts, Found R t) :
    Found R ('[' :: (body ++ [']'])) ∧ splitTopLevel R body = texts :=
  ⟨found_brackets (by simp) (h.passes (fun _ => Gap.gapChar) (fun _ => ends_comma) hfound),
    h.splitTopLevel (fun _ => Gap.gapChar) (fun _ => ends_comma) hfound⟩

theorem Items.found {texts : List Str} {body : Str} (h : Items texts body)
    (hfound : ∀ t ∈ texts, Found R t) :
    Found R ('{' :: (body ++ ['}'])) ∧ splitTopLevel R body = texts :=
  ⟨found_brackets (by simp) (h.passes (fun _ => Blanks.gapChar) (fun _ => ends_item) hfound),
    h.splitTopLevel (fun _ => Blanks.gapChar) (fun _ => ends_item) hfound⟩

end Parts

end Guardian.Iac

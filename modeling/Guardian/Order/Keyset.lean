import Guardian.Order.Ranking
import Guardian.Transition.Run
import Mathlib.Data.List.Infix

/-!
# Keyset paging

A table is listed in the order of a key, one page at a time.  A page holds the first rows that stand
strictly after the last row of the page before; one row more is fetched, to see whether there is a
next page.

* `keysetPage`: one page.
* `Answers`: an endpoint that gives these pages, for the cursors that it hands out.
* `Walk`: a client that follows the cursors while rows are inserted.
* `Answers.complete`: a table that does not change is returned as a whole, in order.
* `Answers.served`: no row is returned twice, and no row that was there is passed over.
* `Answers.paged`: both of an endpoint.
-/

namespace Guardian.Order

open Transition List

/-! ### Pages -/

/-- A page, and the cursor of the next one. -/
structure Page (α C : Type*) where
  rows : List α
  next : Option C

/-- **A listing**: the rows that match, in the order of a key in which each row has its own place,
by pages of a size, with a cursor for each row. -/
structure Listing (α K C ι : Type*) where
  key : α → K
  id : α → ι
  id_of_key : ∀ a b, key a = key b → id a = id b
  matching : α → Bool
  encode : α → C
  size : ℕ
  size_pos : 0 < size

section Pages

variable {α K C ι : Type*} [LinearOrder K] (L : Listing α K C ι)

/-- The rows that match and stand after a key. -/
def Listing.beyond (rows : List α) (after : Option K) : List α :=
  rows.filter fun a => L.matching a && after.all (· < L.key a)

/-- **A page**, by way of one row more. -/
def keysetPage (rows : List α) (after : Option K) : Page α C :=
  let fetched := (sortBy L.key (L.beyond rows after)).take (L.size + 1)
  let page := fetched.take L.size
  ⟨page, if L.size < fetched.length then page.getLast?.map L.encode else none⟩

/-- The endpoint gives the first page without a cursor, and with the cursor of a row the page that
follows this row. -/
structure Answers (endpoint : List α → Option C → Option (Page α C)) : Prop where
  first : ∀ rows, endpoint rows none = some (keysetPage L rows none)
  next : ∀ rows a, endpoint rows (some (L.encode a)) = some (keysetPage L rows (some (L.key a)))

variable {L}

theorem mem_beyond {rows : List α} {after : Option K} {a : α} :
    a ∈ L.beyond rows after ↔ a ∈ rows ∧ L.matching a = true ∧ ∀ k ∈ after, k < L.key a := by
  unfold Listing.beyond
  rw [mem_filter, Bool.and_eq_true, Option.all_eq_true]
  simp only [decide_eq_true_eq, Option.mem_def]

/-- **A condition that reads the cursor** of a row leaves what stands after that row, if it is the
order of the keys. -/
theorem filter_after {X : Type*} {cursorOf : α → X} {strictlyAfter : X → α → Bool}
    (h : ∀ last a, strictlyAfter (cursorOf last) a = true ↔ L.key last < L.key a) (rows : List α)
    (last : Option α) :
    ((rows.filter L.matching).filter fun a => (last.map cursorOf).all (strictlyAfter · a)) =
      L.beyond rows (last.map L.key) := by
  unfold Listing.beyond
  rw [filter_filter]
  refine filter_congr fun a _ => ?_
  rw [Bool.and_comm]
  refine congrArg _ (Bool.eq_iff_iff.mpr ?_)
  simp only [Option.all_map, Option.all_eq_true, h, decide_eq_true_eq]

theorem keysetPage_rows (rows : List α) (after : Option K) :
    (keysetPage L rows after).rows = (sortBy L.key (L.beyond rows after)).take L.size := by
  unfold keysetPage
  dsimp only
  rw [take_take, min_eq_left (Nat.le_succ L.size)]

theorem keysetPage_next (rows : List α) (after : Option K) :
    (keysetPage L rows after).next =
      if L.size < (L.beyond rows after).length then
        (keysetPage L rows after).rows.getLast?.map L.encode
      else none := by
  have hlength : L.size < ((sortBy L.key (L.beyond rows after)).take (L.size + 1)).length ↔
      L.size < (L.beyond rows after).length := by
    rw [length_take, length_sortBy]
    omega
  unfold keysetPage
  dsimp only
  by_cases h : L.size < (L.beyond rows after).length
  · rw [if_pos (hlength.mpr h), if_pos h]
  · rw [if_neg fun hlt => h (hlength.mp hlt), if_neg h]

omit [LinearOrder K] in
/-- Where each row has an id of its own, it has a key of its own. -/
theorem keyInj_of_unique {rows : List α} (h : (rows.map L.id).Nodup) : KeyInj L.key rows :=
  fun a ha b hb hkey => inj_on_of_nodup_map h ha hb (L.id_of_key a b hkey)

/-- A page is in strict order. -/
theorem pairwise_page {rows : List α} (h : (rows.map L.id).Nodup) (after : Option K) :
    (keysetPage L rows after).rows.Pairwise fun a b => L.key a < L.key b := by
  rw [keysetPage_rows]
  have hnodup : (sortBy L.key (L.beyond rows after)).Nodup :=
    nodup_sortBy L.key ((Nodup.of_map L.id h).filter _)
  have hstrict : (sortBy L.key (L.beyond rows after)).Pairwise fun a b => L.key a < L.key b := by
    refine ((pairwise_sortBy L.key _).and hnodup).imp_of_mem fun {a b} ha hb hab => ?_
    refine lt_of_le_of_ne hab.1 fun hkey => hab.2 ?_
    exact keyInj_of_unique h a (mem_beyond.mp ((mem_sortBy L.key).mp ha)).1 b
      (mem_beyond.mp ((mem_sortBy L.key).mp hb)).1 hkey
  exact hstrict.sublist (take_sublist ..)

theorem mem_page {rows : List α} {after : Option K} {a : α}
    (h : a ∈ (keysetPage L rows after).rows) :
    a ∈ rows ∧ L.matching a = true ∧ ∀ k ∈ after, k < L.key a := by
  rw [keysetPage_rows] at h
  exact mem_beyond.mp ((mem_sortBy L.key).mp (mem_of_mem_take h))

/-- **A row that stands after the cursor** is on the page, or there is a next page and the row
stands after all of this one. -/
theorem mem_page_or_later {rows : List α} (h : (rows.map L.id).Nodup) {after : Option K} {a : α}
    (ha : a ∈ L.beyond rows after) :
    a ∈ (keysetPage L rows after).rows ∨
      (keysetPage L rows after).next.isSome = true ∧
        ∀ b ∈ (keysetPage L rows after).rows, L.key b < L.key a := by
  by_cases hpage : a ∈ (keysetPage L rows after).rows
  · exact Or.inl hpage
  · right
    rw [keysetPage_rows] at hpage
    have hsize : L.size < (L.beyond rows after).length := by
      by_contra hle
      rw [take_of_length_le (by rw [length_sortBy]; exact not_lt.mp hle)] at hpage
      exact hpage ((mem_sortBy L.key).mpr ha)
    constructor
    · have hne : (keysetPage L rows after).rows ≠ [] := by
        rw [keysetPage_rows, ← length_pos_iff, length_take, length_sortBy]
        exact lt_min L.size_pos (L.size_pos.trans hsize)
      rw [keysetPage_next, if_pos hsize, getLast?_eq_some_getLast hne]
      rfl
    · intro b hb
      rw [keysetPage_rows] at hb
      refine lt_of_le_of_ne (key_le_of_take hb ha hpage) fun hkey => hpage ?_
      have hb' := mem_beyond.mp ((mem_sortBy L.key).mp (mem_of_mem_take hb))
      rwa [keyInj_of_unique h a (mem_beyond.mp ha).1 b hb'.1 hkey.symm]

end Pages

/-! ### Following the cursors -/

/-- **A client that follows the cursors**: the table, the rows that it was given, the cursor for its
next request, and whether it was told that there is no next page. -/
structure Walk (α C : Type*) where
  rows : List α
  returned : List α
  cursor : Option C
  finished : Bool

/-- Rows are inserted, or the client makes its next request. -/
inductive WalkEvent (α : Type*)
  | insert (rows : List α)
  | request

/-- The walk starts without a cursor. -/
def Walk.start {α C : Type*} (rows : List α) : Walk α C := ⟨rows, [], none, false⟩

section Walks

variable {α K C ι : Type*} [LinearOrder K] [DecidableEq ι] (L : Listing α K C ι)
  (endpoint : List α → Option C → Option (Page α C))

/-- **One step**: no two rows have one id, and a request may be refused. -/
def Walk.step (s : Walk α C) : WalkEvent α → Option (Walk α C)
  | .insert rows =>
    if ((s.rows ++ rows).map L.id).Nodup then some { s with rows := s.rows ++ rows } else none
  | .request =>
    if s.finished then none
    else (endpoint s.rows s.cursor).map fun page =>
      { s with
        returned := s.returned ++ page.rows
        cursor := page.next
        finished := page.next.isNone }

/-- Requests, until there is no next page. -/
def Walk.follow : ℕ → Walk α C → Option (Walk α C)
  | 0, s => some s
  | n + 1, s => if s.finished then some s else (s.step L endpoint .request).bind (Walk.follow n)

/-- The walk has not come to the row yet. -/
def Walk.Ahead (s : Walk α C) (a : α) : Prop := ∀ last ∈ s.returned.getLast?, L.key last < L.key a

/-- **What a walk keeps**: it returns rows that are there and match, in strict order, and its cursor
is that of the last one. -/
structure Walk.Inv (s : Walk α C) : Prop where
  unique : (s.rows.map L.id).Nodup
  increasing : s.returned.Pairwise fun a b => L.key a < L.key b
  returned : ∀ a ∈ s.returned, a ∈ s.rows ∧ L.matching a = true
  cursor : s.finished = false → s.cursor = s.returned.getLast?.map L.encode

variable {L endpoint} {s t s₀ : Walk α C}

omit [DecidableEq ι] in
theorem Walk.inv_start {rows : List α} (h : (rows.map L.id).Nodup) :
    (Walk.start rows : Walk α C).Inv L :=
  ⟨h, List.Pairwise.nil, fun _ ha => (by cases ha), fun _ => rfl⟩

omit [DecidableEq ι] in
/-- A request is answered with the page that follows the last row. -/
theorem Answers.page (hanswers : Answers L endpoint) (h : s.Inv L) (hopen : s.finished = false) :
    endpoint s.rows s.cursor = some (keysetPage L s.rows (s.returned.getLast?.map L.key)) := by
  rw [h.cursor hopen]
  rcases s.returned.getLast? with _ | last
  · exact hanswers.first s.rows
  · exact hanswers.next s.rows last

/-- What a request leaves. -/
def Walk.requested (L : Listing α K C ι) (s : Walk α C) : Walk α C :=
  let page := keysetPage L s.rows (s.returned.getLast?.map L.key)
  { s with
    returned := s.returned ++ page.rows
    cursor := page.next
    finished := page.next.isNone }

theorem Answers.step_request (hanswers : Answers L endpoint) (h : s.Inv L)
    (hopen : s.finished = false) : s.step L endpoint .request = some (s.requested L) := by
  unfold Walk.step
  dsimp only
  rw [if_neg (by rw [hopen]; exact Bool.false_ne_true), hanswers.page h hopen]
  rfl

omit [DecidableEq ι] in
theorem Walk.mem_beyond_of_ahead {a : α} (hmem : a ∈ s.rows) (hmatch : L.matching a = true)
    (hahead : s.Ahead L a) : a ∈ L.beyond s.rows (s.returned.getLast?.map L.key) := by
  refine mem_beyond.mpr ⟨hmem, hmatch, fun k hk => ?_⟩
  obtain ⟨last, hlast, rfl⟩ := Option.map_eq_some_iff.mp hk
  exact hahead last hlast

omit [DecidableEq ι] in
/-- The rows of the page stand after all that was returned. -/
theorem Walk.lt_of_mem_page (h : s.Inv L) {a b : α} (ha : a ∈ s.returned)
    (hb : b ∈ (keysetPage L s.rows (s.returned.getLast?.map L.key)).rows) : L.key a < L.key b := by
  have hne := ne_nil_of_mem ha
  have hlast := (mem_page hb).2.2 (L.key (s.returned.getLast hne))
    (Option.map_eq_some_iff.mpr ⟨_, getLast?_eq_some_getLast hne, rfl⟩)
  rw [← dropLast_append_getLast hne] at ha
  rcases mem_append.mp ha with ha | ha
  · have hpair := h.increasing
    rw [← dropLast_append_getLast hne, pairwise_append] at hpair
    exact (hpair.2.2 a ha _ (mem_singleton_self _)).trans hlast
  · rw [mem_singleton.mp ha]
    exact hlast

omit [DecidableEq ι] in
theorem Walk.inv_requested (h : s.Inv L) : (s.requested L).Inv L := by
  refine ⟨h.unique, ?_, fun a ha => ?_, fun hopen => ?_⟩
  · exact pairwise_append.mpr ⟨h.increasing, pairwise_page h.unique _,
      fun a ha b hb => Walk.lt_of_mem_page h ha hb⟩
  · rcases mem_append.mp ha with ha | ha
    · exact h.returned a ha
    · exact ⟨(mem_page ha).1, (mem_page ha).2.1⟩
  · change (keysetPage L s.rows _).next =
      (s.returned ++ (keysetPage L s.rows _).rows).getLast?.map _
    change (keysetPage L s.rows _).next.isNone = false at hopen
    rw [keysetPage_next] at hopen ⊢
    split_ifs at hopen ⊢ with hsize
    · have hne : (keysetPage L s.rows (s.returned.getLast?.map L.key)).rows ≠ [] := by
        intro hnil
        rw [hnil] at hopen
        cases hopen
      rw [List.getLast?_append_of_ne_nil _ hne]
    · cases hopen

/-- **What a step is**: rows with new ids are inserted, or a request is answered. -/
theorem Walk.step_cases (hanswers : Answers L endpoint) (h : s.Inv L) {e : WalkEvent α}
    (hstep : s.step L endpoint e = some t) :
    (∃ rows, ((s.rows ++ rows).map L.id).Nodup ∧ t = { s with rows := s.rows ++ rows }) ∨
      s.finished = false ∧ t = s.requested L := by
  cases e with
  | insert rows =>
    simp only [Walk.step] at hstep
    split_ifs at hstep with hunique
    exact Or.inl ⟨rows, hunique, (Option.some.inj hstep).symm⟩
  | request =>
    rcases Bool.eq_false_or_eq_true s.finished with hclosed | hopen
    · simp only [Walk.step] at hstep
      rw [if_pos hclosed] at hstep
      cases hstep
    · rw [hanswers.step_request h hopen] at hstep
      exact Or.inr ⟨hopen, (Option.some.inj hstep).symm⟩

theorem Walk.inv_step (hanswers : Answers L endpoint) {e : WalkEvent α} (h : s.Inv L)
    (hstep : s.step L endpoint e = some t) : t.Inv L := by
  rcases Walk.step_cases hanswers h hstep with ⟨rows, hunique, rfl⟩ | ⟨-, rfl⟩
  · refine ⟨hunique, h.increasing, fun a ha => ?_, h.cursor⟩
    exact ⟨mem_append_left _ (h.returned a ha).1, (h.returned a ha).2⟩
  · exact Walk.inv_requested h

/-- **No row that was there is passed over**: a row that the walk had not come to is returned, or
the walk goes on and has not come to it yet. -/
def Walk.Keeps (L : Listing α K C ι) (s₀ s : Walk α C) : Prop :=
  ∀ a ∈ s₀.rows, L.matching a = true → s₀.Ahead L a →
    a ∈ s.rows ∧ (a ∈ s.returned ∨ s.finished = false ∧ s.Ahead L a)

omit [DecidableEq ι] in
theorem Walk.keeps_requested (h : s.Inv L) (hkeeps : Walk.Keeps L s₀ s) :
    Walk.Keeps L s₀ (s.requested L) := by
  intro a ha hmatch hahead
  obtain ⟨hmem, hreturned | ⟨hopen, hlater⟩⟩ := hkeeps a ha hmatch hahead
  · exact ⟨hmem, Or.inl (mem_append_left _ hreturned)⟩
  · refine ⟨hmem, ?_⟩
    rcases mem_page_or_later h.unique (Walk.mem_beyond_of_ahead hmem hmatch hlater) with
      hpage | ⟨hnext, hlt⟩
    · exact Or.inl (mem_append_right _ hpage)
    · have hgoes : (s.requested L).finished = false := by
        change (keysetPage L s.rows _).next.isNone = false
        rw [Option.isNone_eq_false_iff]
        exact hnext
      refine Or.inr ⟨hgoes, fun last hlast => ?_⟩
      change last ∈ (s.returned ++ (keysetPage L s.rows _).rows).getLast? at hlast
      by_cases hnil : (keysetPage L s.rows (s.returned.getLast?.map L.key)).rows = []
      · rw [hnil, append_nil] at hlast
        exact hlater last hlast
      · rw [List.getLast?_append_of_ne_nil _ hnil] at hlast
        exact hlt last (mem_of_getLast? hlast)

/-- What a run of a walk has kept of the state it started in. -/
structure Walk.Since (L : Listing α K C ι) (s₀ s : Walk α C) : Prop where
  inv : s.Inv L
  grown : s₀.returned <+: s.returned
  keeps : Walk.Keeps L s₀ s

theorem Walk.since_step (hanswers : Answers L endpoint) {e : WalkEvent α} (h : Walk.Since L s₀ s)
    (hstep : s.step L endpoint e = some t) : Walk.Since L s₀ t := by
  refine ⟨Walk.inv_step hanswers h.inv hstep, ?_, ?_⟩
  · rcases Walk.step_cases hanswers h.inv hstep with ⟨rows, -, rfl⟩ | ⟨-, rfl⟩
    · exact h.grown
    · exact h.grown.trans (prefix_append ..)
  · rcases Walk.step_cases hanswers h.inv hstep with ⟨rows, -, rfl⟩ | ⟨-, rfl⟩
    · exact fun a ha hmatch hahead =>
        (h.keeps a ha hmatch hahead).imp_left (mem_append_left _)
    · exact Walk.keeps_requested h.inv h.keeps

omit [DecidableEq ι] in
theorem Walk.since_refl (h : s.Inv L) (hopen : s.finished = false) : Walk.Since L s s :=
  ⟨h, prefix_refl _, fun _ ha _ hahead => ⟨ha, Or.inr ⟨hopen, hahead⟩⟩⟩

omit [DecidableEq ι] in
/-- The rows that are returned are different rows. -/
theorem Walk.Inv.nodup (h : s.Inv L) : (s.returned.map L.id).Nodup := by
  rw [nodup_iff_pairwise_ne, pairwise_map]
  refine h.increasing.imp_of_mem fun {a b} ha hb hlt hid => ?_
  rw [inj_on_of_nodup_map h.unique (h.returned a ha).1 (h.returned b hb).1 hid] at hlt
  exact lt_irrefl _ hlt

/-! ### The end of a walk -/

omit [LinearOrder K] in
theorem Walk.follow_of_finished (h : s.finished = true) (n : ℕ) :
    s.follow L endpoint n = some s := by
  cases n with
  | zero => rfl
  | succ n =>
    unfold Walk.follow
    rw [if_pos h]

omit [DecidableEq ι] in
/-- A request is given a row, or is told that there is no next page. -/
theorem Walk.finished_or_grown (s : Walk α C) :
    (s.requested L).finished = true ∨ s.returned.length + 1 ≤ (s.requested L).returned.length := by
  by_cases hnil : (keysetPage L s.rows (s.returned.getLast?.map L.key)).rows = []
  · left
    change (keysetPage L s.rows _).next.isNone = true
    rw [keysetPage_next, hnil]
    split_ifs <;> rfl
  · right
    change _ ≤ (s.returned ++ (keysetPage L s.rows _).rows).length
    rw [length_append]
    exact Nat.add_le_add_left (length_pos_iff.mpr hnil) _

/-- **A walk over a table that does not change** is not refused, and ends unless it has returned as
many rows as it has made requests. -/
theorem Walk.exists_follow (hanswers : Answers L endpoint) (h : s.Inv L) (n : ℕ) :
    ∃ t, s.follow L endpoint n = some t ∧ Run (Walk.step L endpoint) (fun _ _ => True) s t ∧
      t.rows = s.rows ∧ (t.finished = true ∨ s.returned.length + n ≤ t.returned.length) := by
  induction n generalizing s with
  | zero => exact ⟨s, rfl, .refl s, rfl, Or.inr le_rfl⟩
  | succ n ih =>
    unfold Walk.follow
    rcases Bool.eq_false_or_eq_true s.finished with hclosed | hopen
    · rw [if_pos hclosed]
      exact ⟨s, rfl, .refl s, rfl, Or.inl hclosed⟩
    · have hstep := hanswers.step_request h hopen
      obtain ⟨t, hfollow, hrun, hrows, hend⟩ := ih (Walk.inv_requested h)
      rw [if_neg (by rw [hopen]; exact Bool.false_ne_true), hstep]
      refine ⟨t, hfollow, ?_, hrows, ?_⟩
      · exact Run.trans (.tail (.refl s) trivial hstep) hrun
      · rcases s.finished_or_grown (L := L) with hclosed | hgrown
        · have hsame : s.requested L = t :=
            Option.some.inj ((Walk.follow_of_finished hclosed n).symm.trans hfollow)
          rw [← hsame]
          exact Or.inl hclosed
        · exact hend.imp_right fun hle => by omega

/-- **A table that does not change is returned as a whole**, every matching row once, in order. -/
theorem Answers.complete (hanswers : Answers L endpoint) {rows : List α}
    (h : (rows.map L.id).Nodup) {n : ℕ} (hn : rows.length < n) :
    ∃ t, (Walk.start rows).follow L endpoint n = some t ∧ t.finished = true ∧
      t.returned = sortBy L.key (rows.filter L.matching) := by
  have hstart : (Walk.start rows : Walk α C).Inv L := Walk.inv_start h
  obtain ⟨t, hfollow, hrun, hrows, hend⟩ := Walk.exists_follow hanswers hstart n
  have hsince : Walk.Since L (Walk.start rows) t :=
    hrun.invariant (fun hs _ hstep => Walk.since_step hanswers hs hstep)
      (Walk.since_refl hstart rfl)
  have hsub : t.returned ⊆ rows := by
    intro a ha
    have hmem := (hsince.inv.returned a ha).1
    rw [hrows] at hmem
    exact hmem
  have hnodup : t.returned.Nodup := Nodup.of_map L.id hsince.inv.nodup
  have hfinished : t.finished = true := by
    refine hend.resolve_right fun hle => ?_
    have hlength := (subperm_of_subset hnodup hsub).length_le
    have hle' : 0 + n ≤ t.returned.length := hle
    omega
  refine ⟨t, hfollow, hfinished, ?_⟩
  have hinj : KeyInj L.key (rows.filter L.matching) :=
    (keyInj_of_unique h).mono fun a ha => mem_of_mem_filter ha
  have hperm : t.returned.Perm (rows.filter L.matching) := by
    refine (perm_ext_iff_of_nodup hnodup ((Nodup.of_map L.id h).filter _)).mpr fun a => ?_
    rw [mem_filter]
    refine ⟨fun ha => ⟨hsub ha, (hsince.inv.returned a ha).2⟩, fun ⟨ha, hmatch⟩ => ?_⟩
    obtain ⟨-, hreturned | ⟨hopen, -⟩⟩ := hsince.keeps a ha hmatch fun _ hlast => (by cases hlast)
    · exact hreturned
    · rw [hfinished] at hopen
      cases hopen
  refine eq_of_pairwise_key (hinj.mono fun a ha => hperm.mem_iff.mp ha)
    (hperm.trans (sortBy_perm L.key _).symm) ?_ (pairwise_sortBy L.key _)
  exact hsince.inv.increasing.imp le_of_lt

/-- **A client is given every row that it can expect**, while rows are inserted: no row twice, in
order, none refused; and when it is told that there is no next page, every matching row that was
there when its walk had not come to it yet. -/
structure Walk.Served (L : Listing α K C ι) (endpoint : List α → Option C → Option (Page α C))
    (s₀ s : Walk α C) : Prop where
  once : (s.returned.map L.id).Nodup
  ordered : s.returned.Pairwise fun a b => L.key a < L.key b
  kept : s₀.returned <+: s.returned
  unskipped : s.finished = true → ∀ a ∈ s₀.rows, L.matching a = true → s₀.Ahead L a →
    a ∈ s.returned
  unrefused : s.finished = false → (s.step L endpoint .request).isSome = true

theorem Answers.served (hanswers : Answers L endpoint) {rows : List α}
    (h : (rows.map L.id).Nodup)
    (hrun₀ : Run (Walk.step L endpoint) (fun _ _ => True) (Walk.start rows) s₀)
    (hopen : s₀.finished = false)
    (hrun : Run (Walk.step L endpoint) (fun _ _ => True) s₀ s) : Walk.Served L endpoint s₀ s := by
  have hinv₀ : s₀.Inv L :=
    hrun₀.invariant (fun hs _ hstep => Walk.inv_step hanswers hs hstep) (Walk.inv_start h)
  have hsince : Walk.Since L s₀ s :=
    hrun.invariant (fun hs _ hstep => Walk.since_step hanswers hs hstep)
      (Walk.since_refl hinv₀ hopen)
  refine ⟨hsince.inv.nodup, hsince.inv.increasing, hsince.grown, ?_, fun hgoes => ?_⟩
  · intro hclosed a ha hmatch hahead
    obtain ⟨-, hreturned | ⟨hgoes, -⟩⟩ := hsince.keeps a ha hmatch hahead
    · exact hreturned
    · rw [hclosed] at hgoes
      cases hgoes
  · rw [hanswers.step_request hsince.inv hgoes]
    rfl

/-- **Following the cursors lists the table**: the whole of one that does not change, and whatever a
client can expect of one into which rows are inserted. -/
structure Paged (L : Listing α K C ι) (endpoint : List α → Option C → Option (Page α C)) :
    Prop where
  complete : ∀ rows : List α, (rows.map L.id).Nodup → ∀ n, rows.length < n →
    ∃ t, (Walk.start rows).follow L endpoint n = some t ∧ t.finished = true ∧
      t.returned = sortBy L.key (rows.filter L.matching)
  served : ∀ (rows : List α) (s₀ s : Walk α C), (rows.map L.id).Nodup →
    Run (Walk.step L endpoint) (fun _ _ => True) (Walk.start rows) s₀ → s₀.finished = false →
    Run (Walk.step L endpoint) (fun _ _ => True) s₀ s → Walk.Served L endpoint s₀ s

theorem Answers.paged (hanswers : Answers L endpoint) : Paged L endpoint :=
  ⟨fun _ h _ hn => hanswers.complete h hn,
    fun _ _ _ h hrun₀ hopen hrun => hanswers.served h hrun₀ hopen hrun⟩

end Walks

end Guardian.Order

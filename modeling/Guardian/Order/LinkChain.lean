import Mathlib.Data.List.Perm.Subperm
import Mathlib.Data.List.Dedup

/-!
# Rows that link to each other

Each row has a key and points to the key of the row before it; the first one points to a root.  A
reader that has the rows in no particular order follows the pointers from the root.

* `follow_length_iff`: the reader gets through all rows exactly when they are, in some order, one
  chain of valid rows with different keys.
* `Linked.changed`: a row that takes the place of another one in a chain keeps its pointer, and, if
  it is not the last one, its key.
* `Linked.dropped`: no row but the last one can be left out.
-/

namespace Guardian.Order

open List
variable {R P : Type*} (valid : P → R → Bool) (back key : R → P)

/-! ### Chains -/

/-- **A chain of rows** from a pointer: each row points to the key of the one before it and is valid
there. -/
def Linked : P → List R → Prop
  | _, [] => True
  | p, r :: rs => back r = p ∧ valid p r = true ∧ Linked (key r) rs

/-- The key of the last row of a chain, or where the chain starts. -/
def finish : P → List R → P
  | p, [] => p
  | _, r :: rs => finish (key r) rs

variable {valid back key}

theorem finish_append (p : P) (rs ss : List R) :
    finish key p (rs ++ ss) = finish key (finish key p rs) ss := by
  induction rs generalizing p with
  | nil => rfl
  | cons r rs ih => exact ih (key r)

theorem linked_append {p : P} {rs ss : List R} :
    Linked valid back key p (rs ++ ss) ↔
      Linked valid back key p rs ∧ Linked valid back key (finish key p rs) ss := by
  induction rs generalizing p with
  | nil => simp [Linked, finish]
  | cons r rs ih =>
    rw [cons_append, Linked, Linked, ih]
    simp only [finish]
    tauto

/-- The pointers of a chain are its start and all its keys but the last. -/
theorem Linked.backs {p : P} {rs : List R} (h : Linked valid back key p rs) :
    rs.map back ++ [finish key p rs] = p :: rs.map key := by
  induction rs generalizing p with
  | nil => rfl
  | cons r rs ih =>
    rw [map_cons, cons_append, finish, ih h.2.2, h.1]
    rfl

theorem Linked.valid_of_mem {p : P} {rs : List R} (h : Linked valid back key p rs) :
    ∀ r ∈ rs, valid (back r) r = true := by
  induction rs generalizing p with
  | nil => simp
  | cons r rs ih =>
    intro s hs
    rcases mem_cons.mp hs with rfl | hs
    · rw [h.1]
      exact h.2.1
    · exact ih h.2.2 s hs

/-- Every row of a chain points to its start or to the key of an earlier row. -/
theorem Linked.back_mem {p : P} {rs ss : List R} {s : R}
    (h : Linked valid back key p (rs ++ s :: ss)) : back s = p ∨ back s ∈ rs.map key := by
  induction rs generalizing p with
  | nil => exact Or.inl h.1
  | cons r rs ih =>
    rcases ih h.2.2 with hr | hmem
    · exact Or.inr (by simp [hr])
    · exact Or.inr (by simp [hmem])

section Distinct
variable {p : P} {rs : List R} (h : Linked valid back key p rs) (hkeys : (p :: rs.map key).Nodup)
include h hkeys

theorem Linked.nodup_backs : (rs.map back).Nodup := by
  rw [← h.backs] at hkeys
  exact (nodup_append.mp hkeys).1

theorem Linked.finish_notMem : finish key p rs ∉ rs.map back := by
  rw [← h.backs] at hkeys
  intro hmem
  exact (nodup_append.mp hkeys).2.2 _ hmem _ (by simp) rfl

end Distinct

/-! ### A row that is changed or left out -/

/-- **The beginning of a chain** is the beginning of every chain with different pointers that has
its rows. -/
theorem Linked.isPrefix {p : P} {as bs cs : List R} (h : Linked valid back key p (as ++ bs))
    (h' : Linked valid back key p cs) (hnodup : (as.map back).Nodup) (hcs : (cs.map back).Nodup)
    (hsub : ∀ a ∈ as, a ∈ cs) : ∃ ds, cs = as ++ ds := by
  induction as generalizing p cs with
  | nil => exact ⟨cs, rfl⟩
  | cons a as ih =>
    rcases cs with _ | ⟨c, cs⟩
    · exact absurd (hsub a (by simp)) (by simp)
    · rw [map_cons, nodup_cons] at hnodup hcs
      have hac : a = c := by
        rcases mem_cons.mp (hsub a (by simp)) with heq | hmem
        · exact heq
        · have hback : back a = back c := h.1.trans h'.1.symm
          exact absurd (mem_map_of_mem hmem) (hback ▸ hcs.1)
      subst hac
      obtain ⟨ds, rfl⟩ := ih h.2.2 h'.2.2 hnodup.2 hcs.2 fun b hb => by
        rcases mem_cons.mp (hsub b (by simp [hb])) with rfl | hmem
        · exact absurd (mem_map_of_mem hb) hnodup.1
        · exact hmem
      exact ⟨ds, rfl⟩

section Tampered
variable {p : P} {as bs cs : List R} {r : R}
  (h : Linked valid back key p (as ++ r :: bs)) (hkeys : (p :: (as ++ r :: bs).map key).Nodup)
  (h' : Linked valid back key p cs) (hkeys' : (p :: cs.map key).Nodup)
include h hkeys h' hkeys'

/-- A chain with the rows before `r` goes on from where `r` pointed to. -/
theorem Linked.cut (hsub : ∀ a ∈ as, a ∈ cs) :
    ∃ ds, cs = as ++ ds ∧ Linked valid back key (back r) ds := by
  have hbacks := h.nodup_backs hkeys
  rw [map_append] at hbacks
  obtain ⟨ds, rfl⟩ :=
    h.isPrefix h' (nodup_append.mp hbacks).1 (h'.nodup_backs hkeys') hsub
  refine ⟨ds, rfl, ?_⟩
  have hr := (linked_append.mp h).2.1
  rw [hr]
  exact (linked_append.mp h').2

omit h' hkeys' in
/-- No row after `r` points where `r` does. -/
theorem Linked.back_ne : ∀ s ∈ bs, back s ≠ back r := by
  have hbacks := h.nodup_backs hkeys
  rw [map_append, map_cons] at hbacks
  intro s hs heq
  have := (nodup_append.mp hbacks).2.1
  rw [nodup_cons] at this
  exact this.1 (heq ▸ mem_map_of_mem hs)

/-- **A row that takes the place of another one** in a chain points where it did, is valid there,
and has the same key if a row came after it. -/
theorem Linked.changed {r' : R} (hperm : cs.Perm (as ++ r' :: bs)) :
    back r' = back r ∧ valid (back r) r' = true ∧ (bs ≠ [] → key r' = key r) := by
  obtain ⟨ds, rfl, hds⟩ := h.cut hkeys h' hkeys' fun a ha => hperm.mem_iff.mpr (by simp [ha])
  have hperm : ds.Perm (r' :: bs) := (perm_append_left_iff as).mp hperm
  rcases ds with _ | ⟨d, ds⟩
  · exact absurd hperm.length_eq (by simp)
  have hd : d = r' := by
    rcases mem_cons.mp (hperm.mem_iff.mp (by simp : d ∈ d :: ds)) with heq | hmem
    · exact heq
    · exact absurd hds.1 (h.back_ne hkeys d hmem)
  subst hd
  refine ⟨hds.1, hds.2.1, fun hne => ?_⟩
  obtain ⟨s, bs, rfl⟩ := exists_cons_of_ne_nil hne
  have hrest : ds.Perm (s :: bs) := (perm_cons d).mp hperm
  obtain ⟨pre, post, rfl⟩ := append_of_mem (hrest.mem_iff.mpr (by simp : s ∈ s :: bs))
  -- `s` points to the key of `r`, which no other row has
  have hs : back s = key r := (linked_append.mp h).2.2.2.1
  have hdpre : Linked valid back key (back r) ((d :: pre) ++ s :: post) := hds
  have hback := hdpre.back_mem
  have hkeysr : key r ∉ (s :: bs).map key := by
    rw [map_append, map_cons, ← cons_append] at hkeys
    have := (nodup_append.mp hkeys).2.1
    exact (nodup_cons.mp this).1
  rcases hback with hback | hback
  · exact absurd hback (h.back_ne hkeys s (by simp))
  · rw [hs, map_cons, mem_cons] at hback
    rcases hback with heq | hmem
    · exact heq.symm
    · obtain ⟨t, ht, hkey⟩ := mem_map.mp hmem
      have : t ∈ s :: bs := hrest.mem_iff.mp (by simp [ht])
      exact absurd (hkey ▸ mem_map_of_mem this) hkeysr

/-- **No row but the last one can be left out** of a chain. -/
theorem Linked.dropped (hperm : cs.Perm (as ++ bs)) : bs = [] := by
  obtain ⟨ds, rfl, hds⟩ := h.cut hkeys h' hkeys' fun a ha => hperm.mem_iff.mpr (by simp [ha])
  have hperm : ds.Perm bs := (perm_append_left_iff as).mp hperm
  rcases ds with _ | ⟨d, ds⟩
  · exact hperm.symm.eq_nil
  · exact absurd hds.1 (h.back_ne hkeys d (hperm.mem_iff.mp (by simp)))

end Tampered

/-! ### What the reader accepts -/

section Reader
variable [DecidableEq P] (valid back key)

/-- The rows that point to `p`. -/
def pointing (rows : List R) (p : P) : List R := rows.filter fun r => back r = p

/-- **Follows the pointers** through `n` rows that are still to be seen: every pointer but the last
one has exactly one row. -/
def follow (rows : List R) : ℕ → P → Bool
  | 0, p => (pointing back rows p).isEmpty
  | n + 1, p =>
    match pointing back rows p with
    | [r] => valid p r && follow rows n (key r)
    | _ => false

variable {valid back key}

theorem mem_pointing {rows : List R} {p : P} {r : R} :
    r ∈ pointing back rows p ↔ r ∈ rows ∧ back r = p := by
  simp [pointing]

theorem pointing_of_nodup {rows : List R} (h : (rows.map back).Nodup) {r : R} (hr : r ∈ rows) :
    pointing back rows (back r) = [r] := by
  induction rows with
  | nil => cases hr
  | cons s rows ih =>
    rw [map_cons, nodup_cons] at h
    unfold pointing at ih ⊢
    rcases mem_cons.mp hr with rfl | hr
    · rw [filter_cons_of_pos (by simp), List.cons.injEq, filter_eq_nil_iff]
      refine ⟨rfl, fun t ht => ?_⟩
      simp only [decide_eq_true_eq]
      exact fun heq => h.1 (heq ▸ mem_map_of_mem ht)
    · have hne : ¬ back s = back r := fun heq => h.1 (heq ▸ mem_map_of_mem hr)
      rw [filter_cons_of_neg (by simpa using hne)]
      exact ih h.2 hr

theorem follow_of_linked {rows : List R} {path : List R} {p : P}
    (h : Linked valid back key p path) (hsingle : ∀ r ∈ path, pointing back rows (back r) = [r])
    (hend : pointing back rows (finish key p path) = []) :
    follow valid back key rows path.length p = true := by
  induction path generalizing p with
  | nil =>
    rw [finish] at hend
    simp [follow, hend]
  | cons r path ih =>
    have hr := hsingle r (by simp)
    rw [h.1] at hr
    rw [length_cons, follow, hr]
    simp only [h.2.1, Bool.true_and]
    exact ih h.2.2 (fun s hs => hsingle s (by simp [hs])) hend

theorem exists_of_follow {rows : List R} {n : ℕ} {p : P}
    (h : follow valid back key rows n p = true) :
    ∃ path, path.length = n ∧ Linked valid back key p path ∧
      (∀ r ∈ path, pointing back rows (back r) = [r]) ∧
      pointing back rows (finish key p path) = [] := by
  induction n generalizing p with
  | zero =>
    rw [follow, List.isEmpty_iff] at h
    exact ⟨[], rfl, trivial, by simp, h⟩
  | succ n ih =>
    rw [follow] at h
    rcases hp : pointing back rows p with _ | ⟨r, _ | ⟨s, rest⟩⟩
    · simp [hp] at h
    · rw [hp] at h
      simp only [Bool.and_eq_true] at h
      obtain ⟨path, hlen, hlinked, hsingle, hend⟩ := ih h.2
      have hr : back r = p := (mem_pointing.mp (hp ▸ mem_singleton_self r)).2
      refine ⟨r :: path, by simp [hlen], ⟨hr, h.1, hlinked⟩, ?_, hend⟩
      rintro t ht
      rcases mem_cons.mp ht with rfl | ht
      · rw [hr, hp]
      · exact hsingle t ht
    · simp [hp] at h

/-- A reader that comes back to a pointer does not come to an end. -/
theorem follow_unique {rows : List R} {n m : ℕ} {p : P}
    (hn : follow valid back key rows n p = true) (hm : follow valid back key rows m p = true) :
    n = m := by
  induction n generalizing m p with
  | zero =>
    rcases m with _ | m
    · rfl
    · rw [follow, List.isEmpty_iff] at hn
      simp [follow, hn] at hm
  | succ n ih =>
    rcases m with _ | m
    · rw [follow, List.isEmpty_iff] at hm
      simp [follow, hm] at hn
    · rw [follow] at hn hm
      rcases hp : pointing back rows p with _ | ⟨r, _ | ⟨s, rest⟩⟩
      · simp [hp] at hn
      · rw [hp] at hn hm
        simp only [Bool.and_eq_true] at hn hm
        rw [ih hn.2 hm.2]
      · simp [hp] at hn

/-- The pointers of a chain that the reader follows to its end are different. -/
theorem nodup_of_follow {rows path : List R} {p : P} (h : Linked valid back key p path)
    (hsingle : ∀ r ∈ path, pointing back rows (back r) = [r])
    (hend : pointing back rows (finish key p path) = []) : (p :: path.map key).Nodup := by
  induction path generalizing p with
  | nil => simp
  | cons r path ih =>
    have htail := ih h.2.2 (fun s hs => hsingle s (by simp [hs])) hend
    refine nodup_cons.mpr ⟨?_, htail⟩
    intro hmem
    obtain ⟨s, hs, hkey⟩ := mem_map.mp hmem
    obtain ⟨pre, post, hsplit⟩ := append_of_mem hs
    -- from the second time at `p` there are fewer rows left than from the first
    have hall := follow_of_linked h hsingle hend
    rw [hsplit, linked_append] at h
    rw [hsplit, finish_append, finish, hkey] at hend
    have hrest := h.2.2.2
    rw [hkey] at hrest
    have hpost := follow_of_linked hrest (fun t ht => hsingle t (by simp [hsplit, ht])) hend
    have hlen := follow_unique hall hpost
    rw [hsplit, length_append, length_cons] at hlen
    omega

/-- **What the reader accepts**: the rows are one chain, in some order, and no two keys agree. -/
theorem follow_length_iff {rows : List R} {p : P} :
    follow valid back key rows rows.length p = true ↔
      ∃ path, path.Perm rows ∧ Linked valid back key p path ∧ (p :: path.map key).Nodup := by
  constructor
  · intro h
    obtain ⟨path, hlen, hlinked, hsingle, hend⟩ := exists_of_follow h
    have hkeys := nodup_of_follow hlinked hsingle hend
    have hnodup : path.Nodup := (hlinked.nodup_backs hkeys).of_map back
    have hsub : path.Subperm rows := hnodup.subperm fun r hr =>
      (mem_pointing.mp ((hsingle r hr).symm ▸ mem_singleton_self r)).1
    exact ⟨path, hsub.perm_of_length_le (Nat.le_of_eq hlen.symm), hlinked, hkeys⟩
  · rintro ⟨path, hperm, hlinked, hkeys⟩
    have hbacks : (rows.map back).Nodup :=
      (hperm.map back).nodup_iff.mp (hlinked.nodup_backs hkeys)
    rw [← hperm.length_eq]
    refine follow_of_linked hlinked (fun r hr => pointing_of_nodup hbacks (hperm.mem_iff.mp hr)) ?_
    refine filter_eq_nil_iff.mpr fun r hr heq => hlinked.finish_notMem hkeys ?_
    simp only [decide_eq_true_eq] at heq
    exact heq ▸ mem_map_of_mem (hperm.mem_iff.mpr hr)

/-- Rows of which two have one pointer are not accepted. -/
theorem nodup_backs_of_follow {rows : List R} {p : P}
    (h : follow valid back key rows rows.length p = true) : (rows.map back).Nodup := by
  obtain ⟨path, hperm, hlinked, hkeys⟩ := follow_length_iff.mp h
  exact (hperm.map back).nodup_iff.mp (hlinked.nodup_backs hkeys)

end Reader

end Guardian.Order

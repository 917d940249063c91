import Mathlib.Data.List.Forall2

/-!
# Calls that may raise

A call of the source ends with a value or with a `Fault`: an exception that the source tells apart,
or no end at all.  `Except Fault` is the monad of such calls.
-/

namespace Guardian.Python

open List
/-- What can come out of a Python call instead of a value.  `diverges` is a call that never
returns. -/
inductive Fault
  | typeError
  | valueError
  | attributeError
  | overflowError
  | recursionError
  | diverges
  deriving DecidableEq, Repr

variable {A B E : Type}

theorem ok_bind (a : A) (f : A → Except E B) : (Except.ok a >>= f) = f a := rfl

variable {f : A → Except E B} {x : Except E A} {as : List A}

theorem bind_eq_ok {b : B} :
    x >>= f = .ok b ↔ ∃ a, x = .ok a ∧ f a = .ok b := by
  constructor
  · intro h
    cases x with
    | error e => cases h
    | ok a => exact ⟨a, rfl, h⟩
  · rintro ⟨a, rfl, h⟩
    exact h

theorem map_eq_ok {f : A → B} {b : B} :
    f <$> x = .ok b ↔ ∃ a, x = .ok a ∧ f a = b := by
  constructor
  · intro h
    cases x with
    | error e => cases h
    | ok a => cases h; exact ⟨a, rfl, rfl⟩
  · rintro ⟨a, rfl, rfl⟩
    rfl

theorem mapM_cons_eq_ok {a : A} {cs : List B} :
    (a :: as).mapM f = .ok cs ↔ ∃ b bs, f a = .ok b ∧ as.mapM f = .ok bs ∧ b :: bs = cs := by
  rw [mapM_cons, bind_eq_ok]
  constructor
  · rintro ⟨b, hb, h⟩
    obtain ⟨bs, hbs, h⟩ := bind_eq_ok.mp h
    cases h
    exact ⟨b, bs, hb, hbs, rfl⟩
  · rintro ⟨b, bs, hb, hbs, rfl⟩
    exact ⟨b, hb, bind_eq_ok.mpr ⟨bs, hbs, rfl⟩⟩

theorem of_mem_mapM {P : B → Prop} {bs : List B}
    (hf : ∀ a ∈ as, ∀ b, f a = .ok b → P b) (h : as.mapM f = .ok bs) : ∀ b ∈ bs, P b := by
  induction as generalizing bs with
  | nil =>
    cases h
    simp
  | cons a as ih =>
    obtain ⟨b, bs', hb, hbs, rfl⟩ := mapM_cons_eq_ok.mp h
    intro c hc
    rcases mem_cons.mp hc with rfl | hc
    · exact hf a (by simp) c hb
    · exact ih (fun a ha => hf a (by simp [ha])) hbs c hc

theorem exists_mapM (h : ∀ a ∈ as, ∃ b, f a = .ok b) :
    ∃ bs, as.mapM f = .ok bs := by
  induction as with
  | nil => exact ⟨[], rfl⟩
  | cons a as ih =>
    obtain ⟨b, hb⟩ := h a (by simp)
    obtain ⟨bs, hbs⟩ := ih fun a ha => h a (by simp [ha])
    exact ⟨b :: bs, mapM_cons_eq_ok.mpr ⟨b, bs, hb, hbs, rfl⟩⟩

theorem length_of_mapM {bs : List B} (h : as.mapM f = .ok bs) : bs.length = as.length := by
  induction as generalizing bs with
  | nil =>
    cases h
    rfl
  | cons a as ih =>
    obtain ⟨b, bs', -, hbs, rfl⟩ := mapM_cons_eq_ok.mp h
    rw [length_cons, length_cons, ih hbs]

theorem mapM_congr_mem {g : A → Except E B} (h : ∀ a ∈ as, f a = g a) :
    as.mapM f = as.mapM g := by
  induction as with
  | nil => rfl
  | cons a as ih =>
    rw [mapM_cons, mapM_cons, h a mem_cons_self,
      ih fun b hb => h b (mem_cons_of_mem _ hb)]

theorem exists_of_mem_mapM {bs : List B}
    (h : as.mapM f = .ok bs) : ∀ b ∈ bs, ∃ a ∈ as, f a = .ok b :=
  of_mem_mapM (fun a ha _ hb => ⟨a, ha, hb⟩) h

theorem exists_of_mem_mapM_left {bs : List B}
    (h : as.mapM f = .ok bs) : ∀ a ∈ as, ∃ b ∈ bs, f a = .ok b := by
  induction as generalizing bs with
  | nil => simp
  | cons a as ih =>
    obtain ⟨b, bs', hb, hbs, rfl⟩ := mapM_cons_eq_ok.mp h
    intro c hc
    rcases mem_cons.mp hc with rfl | hc
    · exact ⟨b, by simp, hb⟩
    · obtain ⟨b', hb', hcb⟩ := ih hbs c hc
      exact ⟨b', by simp [hb'], hcb⟩

theorem of_foldlM {f : B → A → Except E B} {P : B → Prop} {b b' : B}
    (hf : ∀ a ∈ as, ∀ b b', P b → f b a = .ok b' → P b') (hb : P b) (h : as.foldlM f b = .ok b') :
    P b' := by
  induction as generalizing b with
  | nil =>
    cases h
    exact hb
  | cons a as ih =>
    rw [foldlM_cons] at h
    obtain ⟨c, hc, h⟩ := bind_eq_ok.mp h
    exact ih (fun a ha => hf a (by simp [ha])) (hf a (by simp) b c hb hc) h

/-- **A permuted `mapM`** returns the permuted values. -/
theorem mapM_perm {as' : List A} (hperm : as.Perm as') :
    ∀ {bs : List B}, as.mapM f = .ok bs → ∃ bs', as'.mapM f = .ok bs' ∧ bs.Perm bs' := by
  induction hperm with
  | nil => exact fun h => ⟨_, h, .refl _⟩
  | cons a _ ih =>
    intro bs h
    obtain ⟨b, cs, hb, hcs, rfl⟩ := mapM_cons_eq_ok.mp h
    obtain ⟨cs', hcs', hcperm⟩ := ih hcs
    exact ⟨b :: cs', mapM_cons_eq_ok.mpr ⟨b, cs', hb, hcs', rfl⟩, hcperm.cons b⟩
  | swap a a' as =>
    intro bs h
    obtain ⟨b, cs, hb, hcs, rfl⟩ := mapM_cons_eq_ok.mp h
    obtain ⟨b', ds, hb', hds, rfl⟩ := mapM_cons_eq_ok.mp hcs
    refine ⟨b' :: b :: ds, ?_, Perm.swap _ _ _⟩
    exact mapM_cons_eq_ok.mpr ⟨b', b :: ds, hb', mapM_cons_eq_ok.mpr ⟨b, ds, hb, hds, rfl⟩, rfl⟩
  | trans _ _ ih1 ih2 =>
    intro bs h
    obtain ⟨cs, hcs, hp1⟩ := ih1 h
    obtain ⟨ds, hds, hp2⟩ := ih2 hcs
    exact ⟨ds, hds, hp1.trans hp2⟩

/-! ### Calls that return -/

def Returns (x : Except E A) : Prop := ∃ a, x = .ok a

theorem returns_ok (a : A) : Returns (.ok a : Except E A) := ⟨a, rfl⟩

theorem returns_pure_iff {a : A} : Returns (pure a : Except E A) ↔ True :=
  iff_true_intro (returns_ok a)

theorem not_returns_error (f : E) : ¬ Returns (.error f : Except E A) := by
  rintro ⟨a, h⟩
  cases h

theorem returns_map_iff {f : A → B} : Returns (f <$> x) ↔ Returns x := by
  constructor
  · rintro ⟨b, h⟩
    obtain ⟨a, ha, -⟩ := map_eq_ok.mp h
    exact ⟨a, ha⟩
  · rintro ⟨a, ha⟩
    exact ⟨f a, map_eq_ok.mpr ⟨a, ha, rfl⟩⟩

theorem returns_bind_iff {P : Prop}
    (hf : ∀ a, Returns (f a) ↔ P) : Returns (x >>= f) ↔ Returns x ∧ P := by
  constructor
  · rintro ⟨b, h⟩
    obtain ⟨a, ha, hb⟩ := bind_eq_ok.mp h
    exact ⟨⟨a, ha⟩, (hf a).mp ⟨b, hb⟩⟩
  · rintro ⟨⟨a, ha⟩, hP⟩
    obtain ⟨b, hb⟩ := (hf a).mpr hP
    exact ⟨b, bind_eq_ok.mpr ⟨a, ha, hb⟩⟩

/-- The call returns a value with the property. -/
def ReturnsA (P : A → Prop) (x : Except E A) : Prop := ∃ a, x = .ok a ∧ P a

theorem returns_bind_iff_returnsA :
    Returns (x >>= f) ↔ ReturnsA (fun a => Returns (f a)) x := by
  constructor
  · rintro ⟨b, h⟩
    obtain ⟨a, ha, hb⟩ := bind_eq_ok.mp h
    exact ⟨a, ha, b, hb⟩
  · rintro ⟨a, ha, b, hb⟩
    exact ⟨b, bind_eq_ok.mpr ⟨a, ha, hb⟩⟩

theorem returnsA_const_iff {P : Prop} :
    ReturnsA (fun _ => P) x ↔ Returns x ∧ P :=
  ⟨fun ⟨a, ha, h⟩ => ⟨⟨a, ha⟩, h⟩, fun ⟨⟨a, ha⟩, h⟩ => ⟨a, ha, h⟩⟩

theorem returnsA_congr {P Q : A → Prop} (h : ∀ a, P a ↔ Q a) :
    ReturnsA P x ↔ ReturnsA Q x := exists_congr fun a => and_congr_right fun _ => h a

theorem returns_unless_iff {b : Bool} {a : A} :
    Returns (if b = true then pure a else x) ↔ (b = false → Returns x) := by
  cases b with
  | false => exact ⟨fun h _ => h, fun h => h rfl⟩
  | true => exact iff_of_true (returns_ok a) fun h => nomatch h

theorem returns_bind_pure_iff {f : A → B} : (Returns do let a ← x; pure (f a)) ↔ Returns x :=
  (returns_bind_iff fun a => iff_of_true (returns_ok (f a)) trivial).trans (and_iff_left trivial)

theorem returns_mapM_iff :
    Returns (as.mapM f) ↔ ∀ a ∈ as, Returns (f a) := by
  constructor
  · rintro ⟨bs, h⟩ a ha
    obtain ⟨b, -, hb⟩ := exists_of_mem_mapM_left h a ha
    exact ⟨b, hb⟩
  · exact fun h => exists_mapM h

/-- A `mapM` raises what the first call raises that does not return. -/
theorem mapM_eq_error_iff {e : E} : as.mapM f = .error e ↔
    ∃ before a after, as = before ++ a :: after ∧ (∀ b ∈ before, Returns (f b)) ∧
      f a = .error e := by
  induction as with
  | nil =>
    constructor
    · intro h
      cases h
    · rintro ⟨before, a, after, has, -⟩
      cases before <;> cases has
  | cons a as ih =>
    rw [mapM_cons]
    cases ha : f a with
    | error e' =>
      constructor
      · intro h
        cases h
        exact ⟨[], a, as, rfl, fun b hb => absurd hb not_mem_nil, ha⟩
      · rintro ⟨before, c, after, has, hbefore, hc⟩
        cases before with
        | nil =>
          cases has
          rw [ha] at hc
          cases hc
          rfl
        | cons b before =>
          cases has
          exact absurd (ha ▸ hbefore _ mem_cons_self) (not_returns_error e')
    | ok b =>
      have hrest : (do let bs ← as.mapM f; pure (b :: bs)) = .error e ↔ as.mapM f = .error e := by
        cases as.mapM f with
        | error e' => exact Iff.rfl
        | ok bs => constructor <;> exact fun h => nomatch h
      refine hrest.trans (ih.trans ⟨?_, ?_⟩)
      · rintro ⟨before, c, after, rfl, hbefore, hc⟩
        exact ⟨a :: before, c, after, rfl, forall_mem_cons.mpr ⟨⟨b, ha⟩, hbefore⟩, hc⟩
      · rintro ⟨before, c, after, has, hbefore, hc⟩
        cases before with
        | nil =>
          cases has
          rw [ha] at hc
          cases hc
        | cons b' before =>
          cases has
          exact ⟨before, c, after, rfl, fun x hx => hbefore x (mem_cons_of_mem _ hx), hc⟩

theorem returns_foldlM_iff {f : B → A → Except E B} {P : A → Prop}
    (hf : ∀ b a, Returns (f b a) ↔ P a) {b : B} :
    Returns (as.foldlM f b) ↔ ∀ a ∈ as, P a := by
  induction as generalizing b with
  | nil => exact ⟨fun _ a ha => absurd ha not_mem_nil, fun _ => returns_ok b⟩
  | cons a as ih =>
    rw [foldlM_cons, returns_bind_iff fun b' => ih, hf b a, forall_mem_cons]

/-- **A loop that counts from one**: each round returns, and keeps what holds after so many. -/
theorem exists_foldlM_range' {f : B → ℕ → Except E B} (Inv : ℕ → B → Prop) {n : ℕ} {b : B}
    (hf : ∀ i < n, ∀ b, Inv i b → ∃ b', f b (i + 1) = .ok b' ∧ Inv (i + 1) b') (hb : Inv 0 b) :
    ∃ b', (range' 1 n).foldlM f b = .ok b' ∧ Inv n b' := by
  induction n with
  | zero => exact ⟨b, rfl, hb⟩
  | succ n ih =>
    obtain ⟨c, hc, hinv⟩ := ih fun i hi => hf i (Nat.lt_succ_of_lt hi)
    obtain ⟨d, hd, hinv'⟩ := hf n (Nat.lt_succ_self n) c hinv
    refine ⟨d, ?_, hinv'⟩
    rw [range'_1_concat, foldlM_append, hc, Nat.add_comm 1 n]
    exact bind_eq_ok.mpr ⟨c, rfl, bind_eq_ok.mpr ⟨d, hd, rfl⟩⟩

/-! ### Calls that raise a `ValueError` at most -/

/-- The call raises no other exception than a `ValueError`, and ends. -/
def OnlyValueError (x : Except Fault A) : Prop := ∀ f, x = .error f → f = .valueError

theorem onlyValueError_ok (a : A) : OnlyValueError (.ok a) := by
  intro f h
  cases h

theorem onlyValueError_bind {x : Except Fault A} {f : A → Except Fault B} (hx : OnlyValueError x)
    (hf : ∀ a, OnlyValueError (f a)) : OnlyValueError (x >>= f) := by
  cases x with
  | error e =>
    intro e' h
    cases h
    exact hx e rfl
  | ok a => exact hf a

theorem onlyValueError_map {x : Except Fault A} {f : A → B} (hx : OnlyValueError x) :
    OnlyValueError (f <$> x) := by
  cases x with
  | error e =>
    intro e' h
    cases h
    exact hx e rfl
  | ok a => exact onlyValueError_ok (f a)

theorem onlyValueError_mapM {f : A → Except Fault B} (hf : ∀ a, OnlyValueError (f a))
    (as : List A) : OnlyValueError (as.mapM f) := by
  induction as with
  | nil => exact onlyValueError_ok []
  | cons a as ih =>
    rw [mapM_cons]
    exact onlyValueError_bind (hf a) fun b => onlyValueError_bind ih fun bs => onlyValueError_ok _

theorem onlyValueError_foldlM {f : B → A → Except Fault B} (hf : ∀ b a, OnlyValueError (f b a))
    (as : List A) (b : B) : OnlyValueError (as.foldlM f b) := by
  induction as generalizing b with
  | nil => exact onlyValueError_ok b
  | cons a as ih =>
    rw [foldlM_cons]
    exact onlyValueError_bind (hf b a) fun b' => ih b'

/-! ### Readers that may refuse -/

section Readers
variable {f : A → Option B} {as : List A} {bs : List B}

theorem mapM_map_eq_some {g : B → A} (h : ∀ b ∈ bs, f (g b) = some b) :
    (bs.map g).mapM f = some bs := by
  induction bs with
  | nil => rfl
  | cons b bs ih =>
    rw [map_cons, mapM_cons, h b mem_cons_self,
      ih fun c hc => h c (mem_cons_of_mem b hc)]
    rfl

theorem forall₂_of_mapM (h : as.mapM f = some bs) :
    List.Forall₂ (fun a b => f a = some b) as bs := by
  induction as generalizing bs with
  | nil =>
    cases h
    exact .nil
  | cons a as ih =>
    rw [mapM_cons] at h
    obtain ⟨b, hb, h⟩ := Option.bind_eq_some_iff.mp h
    obtain ⟨cs, hcs, h⟩ := Option.bind_eq_some_iff.mp h
    cases h
    exact .cons hb (ih hcs)

theorem exists_of_mem_mapM_some (h : as.mapM f = some bs) {b : B} (hb : b ∈ bs) :
    ∃ a ∈ as, f a = some b := by
  have hall := forall₂_of_mapM h
  clear h
  induction hall with
  | nil => cases hb
  | cons hab _ ih =>
    rcases mem_cons.mp hb with rfl | hb
    · exact ⟨_, mem_cons_self, hab⟩
    · obtain ⟨a, ha, hab⟩ := ih hb
      exact ⟨a, mem_cons_of_mem _ ha, hab⟩

theorem exists_of_mem_mapM_some_left (h : as.mapM f = some bs) {a : A} (ha : a ∈ as) :
    ∃ b, f a = some b := by
  have hall := forall₂_of_mapM h
  clear h
  induction hall with
  | nil => cases ha
  | cons hab _ ih =>
    rcases mem_cons.mp ha with rfl | ha
    · exact ⟨_, hab⟩
    · exact ih ha

end Readers

end Guardian.Python

import Guardian.Python.Text

/-!
# Comparing Python values

Integers, strings, tuples, and the two sentinels `inf` and `negInf`: objects whose rich comparisons
put them above and below everything else.  `eq` is `==`.  `lt` is `<`: two tuples are compared at
the first position where they differ, and values of different types raise a `TypeError`.

`<` is a strict partial order on all values (`lt_trans`, `lt_asymm`).  `Comparable S` says that it
raises nowhere on a set `S`; the sets that tuples of fixed or arbitrary length are built from keep
that property.
-/

namespace Guardian.Python

/-- A value a sort key is built from. -/
inductive Val
  | int (n : ℕ)
  | str (s : Str)
  | tup (vs : List Val)
  | inf
  | negInf

namespace Val

mutual

/-- `a == b`. -/
def eq : Val → Val → Bool
  | .int m, .int n => decide (m = n)
  | .str s, .str t => decide (s = t)
  | .tup as, .tup bs => eqAll as bs
  | .inf, .inf => true
  | .negInf, .negInf => true
  | _, _ => false

/-- `==` for tuples: the same length, and equal entries. -/
def eqAll : List Val → List Val → Bool
  | [], [] => true
  | a :: as, b :: bs => eq a b && eqAll as bs
  | _, _ => false

end

mutual

/-- `a < b`. -/
def lt : Val → Val → Except Fault Bool
  | .inf, _ => .ok false
  | _, .inf => .ok true
  | .negInf, .negInf => .ok false
  | .negInf, _ => .ok true
  | _, .negInf => .ok false
  | .int m, .int n => .ok (decide (m < n))
  | .str s, .str t => .ok (decide (s < t))
  | .tup as, .tup bs => ltAll as bs
  | _, _ => .error .typeError

/-- `<` for tuples: at the first entry that differs, else by length. -/
def ltAll : List Val → List Val → Except Fault Bool
  | _, [] => .ok false
  | [], _ :: _ => .ok true
  | a :: as, b :: bs => if eq a b then ltAll as bs else lt a b

end

attribute [local simp] eq eqAll lt ltAll

theorem induct {P : Val → Prop} (int : ∀ n, P (.int n)) (str : ∀ s, P (.str s))
    (tup : ∀ vs : List Val, (∀ v ∈ vs, P v) → P (.tup vs)) (inf : P .inf) (negInf : P .negInf) :
    ∀ v, P v := by
  intro v
  refine Val.rec (motive_1 := P) (motive_2 := fun vs => ∀ v ∈ vs, P v) int str tup inf negInf
    (by simp) ?_ v
  intro w ws hw hws u hu
  rcases List.mem_cons.mp hu with rfl | hu
  · exact hw
  · exact hws u hu

/-! ### Equality -/

theorem eqAll_iff {as : List Val} (h : ∀ a ∈ as, ∀ b, eq a b = true ↔ a = b) :
    ∀ bs, eqAll as bs = true ↔ as = bs := by
  induction as with
  | nil => intro bs; cases bs <;> simp
  | cons a as ih =>
    intro bs
    cases bs with
    | nil => simp
    | cons b bs =>
      rw [eqAll, Bool.and_eq_true, h a (by simp) b, ih (fun c hc => h c (by simp [hc])) bs,
        List.cons.injEq]

theorem eq_iff {a b : Val} : eq a b = true ↔ a = b := by
  induction a using induct generalizing b with
  | tup as ih =>
    cases b with
    | tup bs => rw [eq, eqAll_iff (fun a ha b => ih a ha), tup.injEq]
    | _ => simp
  | _ => cases b <;> simp

theorem eq_eq_false_iff {a b : Val} : eq a b = false ↔ a ≠ b := by
  rw [← Bool.not_eq_true, eq_iff]

/-! ### The order -/

theorem ltAll_cons_self (a : Val) (as bs : List Val) : ltAll (a :: as) (a :: bs) = ltAll as bs := by
  rw [ltAll, eq_iff.mpr rfl, if_pos rfl]

theorem ltAll_cons_ne {a b : Val} (h : a ≠ b) (as bs : List Val) :
    ltAll (a :: as) (b :: bs) = lt a b := by
  rw [ltAll, eq_eq_false_iff.mpr h]
  rfl

theorem ltAll_self : ∀ as : List Val, ltAll as as = .ok false
  | [] => by rw [ltAll]
  | a :: as => by rw [ltAll_cons_self, ltAll_self as]

theorem lt_self (a : Val) : lt a a = .ok false := by
  cases a with
  | tup as => rw [lt, ltAll_self]
  | _ => simp

theorem ne_of_lt {a b : Val} (h : lt a b = .ok true) : a ≠ b := by
  rintro rfl
  rw [lt_self] at h
  cases h

theorem ltAll_trans {as : List Val}
    (h : ∀ a ∈ as, ∀ b c, lt a b = .ok true → lt b c = .ok true → lt a c = .ok true) :
    ∀ bs cs, ltAll as bs = .ok true → ltAll bs cs = .ok true → ltAll as cs = .ok true := by
  induction as with
  | nil =>
    intro bs cs hab hbc
    cases cs with
    | nil => simp at hbc
    | cons c cs => rw [ltAll]
  | cons a as ih =>
    intro bs cs hab hbc
    rcases bs with _ | ⟨b, bs⟩
    · simp at hab
    rcases cs with _ | ⟨c, cs⟩
    · simp at hbc
    -- where the first and the second pair part decides where the outer pair does
    by_cases eab : a = b
    · subst eab
      rw [ltAll_cons_self] at hab
      by_cases eac : a = c
      · subst eac
        rw [ltAll_cons_self] at hbc ⊢
        exact ih (fun d hd => h d (by simp [hd])) bs cs hab hbc
      · rw [ltAll_cons_ne eac] at hbc ⊢
        exact hbc
    · rw [ltAll_cons_ne eab] at hab
      by_cases ebc : b = c
      · subst ebc
        rw [ltAll_cons_ne eab]
        exact hab
      · rw [ltAll_cons_ne ebc] at hbc
        have hac := h a (by simp) b c hab hbc
        rw [ltAll_cons_ne (ne_of_lt hac)]
        exact hac

/-- **`<` is transitive**, on all values. -/
theorem lt_trans {a b c : Val} (hab : lt a b = .ok true) (hbc : lt b c = .ok true) :
    lt a c = .ok true := by
  induction a using induct generalizing b c with
  | tup as ih =>
    cases b <;> cases c <;> simp only [lt, reduceCtorEq, Except.ok.injEq, Bool.false_eq_true]
      at hab hbc ⊢
    exact ltAll_trans (fun a ha b c => ih a ha) _ _ hab hbc
  | int m =>
    cases b <;> cases c <;> simp at hab hbc ⊢
    omega
  | str s =>
    cases b <;> cases c <;> simp at hab hbc ⊢
    exact List.lt_trans hab hbc
  | inf => simp at hab
  | negInf =>
    cases b <;> cases c <;> simp at hab hbc ⊢

theorem ltAll_flip {as : List Val}
    (h : ∀ a ∈ as, ∀ b x, a ≠ b → lt a b = .ok x → lt b a = .ok !x) :
    ∀ bs x, as ≠ bs → ltAll as bs = .ok x → ltAll bs as = .ok !x := by
  induction as with
  | nil =>
    intro bs x hne hab
    cases bs with
    | nil => exact absurd rfl hne
    | cons b bs => rw [ltAll] at hab; cases hab; rw [ltAll]; rfl
  | cons a as ih =>
    intro bs x hne hab
    rcases bs with _ | ⟨b, bs⟩
    · rw [ltAll] at hab; cases hab; rw [ltAll]; rfl
    by_cases eab : a = b
    · subst eab
      rw [ltAll_cons_self] at hab ⊢
      exact ih (fun c hc => h c (by simp [hc])) bs x (fun e => hne (by rw [e])) hab
    · rw [ltAll_cons_ne eab] at hab
      rw [ltAll_cons_ne (Ne.symm eab)]
      exact h a (by simp) b x eab hab

/-- **Two different values compare both ways or neither**, with opposite answers. -/
theorem lt_flip {a b : Val} {x : Bool} (hne : a ≠ b) (hab : lt a b = .ok x) :
    lt b a = .ok !x := by
  induction a using induct generalizing b x with
  | tup as ih =>
    cases b with
    | tup bs =>
      rw [lt] at hab ⊢
      exact ltAll_flip (fun a ha b x => ih a ha) bs x (fun e => hne (by rw [e])) hab
    | _ => simp at hab ⊢ <;> exact hab
  | int m =>
    cases b with
    | int n =>
      simp only [lt, Except.ok.injEq] at hab ⊢
      have hmn : m ≠ n := fun e => hne (by rw [e])
      rw [← hab, ← decide_not, decide_eq_decide]
      omega
    | _ => simp at hab ⊢ <;> exact hab
  | str s =>
    cases b with
    | str t =>
      simp only [lt, Except.ok.injEq] at hab ⊢
      have hst : s ≠ t := fun e => hne (by rw [e])
      rw [← hab, ← decide_not, decide_eq_decide]
      rcases lt_trichotomy s t with h | h | h
      · exact ⟨fun h' => absurd h (List.lt_asymm h'), fun h' => absurd h h'⟩
      · exact absurd h hst
      · exact ⟨fun _ => List.lt_asymm h, fun _ => h⟩
    | _ => simp at hab ⊢ <;> exact hab
  | inf => cases b <;> simp at hab hne ⊢ <;> exact hab
  | negInf => cases b <;> simp at hab hne ⊢ <;> exact hab

theorem lt_asymm {a b : Val} (h : lt a b = .ok true) : lt b a = .ok false :=
  lt_flip (ne_of_lt h) h

/-! ### Sets of values that compare -/

/-- Comparing two values of the set never raises. -/
def Comparable (S : Val → Prop) : Prop := ∀ a b, S a → S b → ∃ x, lt a b = .ok x

def IsInt (a : Val) : Prop := ∃ n, a = .int n

def IsStr (a : Val) : Prop := ∃ s, a = .str s

/-- A set with the two sentinels added. -/
def OrInf (S : Val → Prop) (a : Val) : Prop := S a ∨ a = .inf ∨ a = .negInf

/-- The tuples of any length with entries in `S`. -/
def TupleOf (S : Val → Prop) (a : Val) : Prop := ∃ vs, a = .tup vs ∧ ∀ v ∈ vs, S v

/-- The tuples whose entries are in the given sets, position by position. -/
def Tuple (Ss : List (Val → Prop)) (a : Val) : Prop :=
  ∃ vs, a = .tup vs ∧ List.Forall₂ (fun S v => S v) Ss vs

theorem comparable_singleton (a : Val) : Comparable (· = a) := by
  rintro _ _ rfl rfl
  exact ⟨_, lt_self _⟩

theorem comparable_isInt : Comparable IsInt := by
  rintro _ _ ⟨m, rfl⟩ ⟨n, rfl⟩
  exact ⟨_, by rw [lt]⟩

theorem comparable_isStr : Comparable IsStr := by
  rintro _ _ ⟨s, rfl⟩ ⟨t, rfl⟩
  exact ⟨_, by rw [lt]⟩

theorem sentinel_comparable {a : Val} (ha : a = .inf ∨ a = .negInf) (b : Val) :
    ∃ x, lt a b = .ok x ∧ ∃ y, lt b a = .ok y := by
  rcases ha with rfl | rfl <;> cases b <;> simp

theorem comparable_orInf {S : Val → Prop} (h : Comparable S) : Comparable (OrInf S) := by
  rintro a b (ha | ha) (hb | hb)
  · exact h a b ha hb
  · obtain ⟨-, -, hab⟩ := sentinel_comparable hb a
    exact hab
  all_goals
    obtain ⟨x, hx, -⟩ := sentinel_comparable ha b
    exact ⟨x, hx⟩

theorem ltAll_comparable {S : Val → Prop} (h : Comparable S) : ∀ {as bs : List Val},
    (∀ a ∈ as, S a) → (∀ b ∈ bs, S b) → ∃ x, ltAll as bs = .ok x
  | _, [], _, _ => ⟨_, by rw [ltAll]⟩
  | [], _ :: _, _, _ => ⟨_, by rw [ltAll]⟩
  | a :: as, b :: bs, ha, hb => by
    by_cases e : a = b
    · subst e
      rw [ltAll_cons_self]
      exact ltAll_comparable h (fun c hc => ha c (by simp [hc])) fun c hc => hb c (by simp [hc])
    · rw [ltAll_cons_ne e]
      exact h a b (ha a (by simp)) (hb b (by simp))

theorem comparable_tupleOf {S : Val → Prop} (h : Comparable S) : Comparable (TupleOf S) := by
  rintro _ _ ⟨as, rfl, ha⟩ ⟨bs, rfl, hb⟩
  rw [lt]
  exact ltAll_comparable h ha hb

theorem ltAll_comparable_tuple {Ss : List (Val → Prop)} (h : ∀ S ∈ Ss, Comparable S) :
    ∀ {as bs : List Val}, List.Forall₂ (fun S v => S v) Ss as →
      List.Forall₂ (fun S v => S v) Ss bs → ∃ x, ltAll as bs = .ok x := by
  induction Ss with
  | nil =>
    rintro _ _ (_ | _) (_ | _)
    exact ⟨_, by rw [ltAll]⟩
  | cons S Ss ih =>
    rintro _ _ (_ | @⟨_, a, _, as, ha, has⟩) (_ | @⟨_, b, _, bs, hb, hbs⟩)
    by_cases e : a = b
    · subst e
      rw [ltAll_cons_self]
      exact ih (fun T hT => h T (by simp [hT])) has hbs
    · rw [ltAll_cons_ne e]
      exact h S (by simp) a b ha hb

theorem comparable_tuple {Ss : List (Val → Prop)} (h : ∀ S ∈ Ss, Comparable S) :
    Comparable (Tuple Ss) := by
  rintro _ _ ⟨as, rfl, ha⟩ ⟨bs, rfl, hb⟩
  rw [lt]
  exact ltAll_comparable_tuple h ha hb

theorem comparable_of_below {S T : Val → Prop} (hS : Comparable S) (hT : Comparable T)
    (hST : ∀ a b, S a → T b → lt a b = .ok true) : Comparable fun a => S a ∨ T a := by
  rintro a b (ha | ha) (hb | hb)
  · exact hS a b ha hb
  · exact ⟨_, hST a b ha hb⟩
  · exact ⟨_, lt_asymm (hST b a hb ha)⟩
  · exact hT a b ha hb

end Val

end Guardian.Python

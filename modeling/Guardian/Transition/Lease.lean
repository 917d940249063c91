import Mathlib.Data.List.Basic
import Mathlib.Algebra.Order.Group.Int

/-!
# Leases

A place holds a key until an instant and then forgets it.  Whoever asks for a key that is not held
gets it for a while; whoever asks for a held one is turned away.

* `granted_le_one_iff`: of the askers of one key at most one gets it exactly when all of them ask
  where the first one asked and before its lease ends.
-/

namespace Guardian.Transition

variable {P : Type*} [DecidableEq P]

/-- Who asks for a key: where, when, and for how long. -/
structure Ask (P : Type*) where
  place : P
  time : ℤ
  life : ℤ

/-- Until when each place holds the key. -/
abbrev Leases (P : Type*) := P → Option ℤ

/-- The key is held at an instant. -/
def Leases.held (s : Leases P) (p : P) (t : ℤ) : Bool :=
  match s p with
  | some u => decide (t < u)
  | none => false

/-- **One asker**: whether it gets the key, and what the places hold afterwards. -/
def Leases.acquire (s : Leases P) (a : Ask P) : Bool × Leases P :=
  if s.held a.place a.time then (false, s)
  else (true, Function.update s a.place (some (a.time + a.life)))

theorem Leases.acquire_held {s : Leases P} {a : Ask P} (h : s.held a.place a.time = true) :
    s.acquire a = (false, s) := if_pos h

theorem Leases.acquire_free {s : Leases P} {a : Ask P} (h : ¬ s.held a.place a.time = true) :
    s.acquire a = (true, Function.update s a.place (some (a.time + a.life))) := if_neg h

/-- How many of the askers get the key. -/
def Leases.granted (s : Leases P) : List (Ask P) → ℕ
  | [] => 0
  | a :: as => (if (s.acquire a).1 then 1 else 0) + (s.acquire a).2.granted as

/-- Where one lease is held, the askers get nothing exactly when all of them ask within it. -/
theorem Leases.granted_eq_zero_iff {s : Leases P} {p : P} {u : ℤ} (hp : s p = some u)
    (hs : ∀ q, q ≠ p → s q = none) (as : List (Ask P)) :
    s.granted as = 0 ↔ ∀ b ∈ as, b.place = p ∧ b.time < u := by
  induction as with
  | nil => simp [granted]
  | cons b as ih =>
    have hb : s.held b.place b.time = true ↔ b.place = p ∧ b.time < u := by
      by_cases hq : b.place = p
      · simp [held, hq, hp]
      · simp [held, hs _ hq, hq]
    by_cases h : s.held b.place b.time = true
    · have hw := hb.mp h
      simp only [granted, acquire_held h, List.forall_mem_cons]
      simpa [hw] using ih
    · have hw : ¬ (b.place = p ∧ b.time < u) := fun hw => h (hb.mpr hw)
      simp only [granted, acquire_free h, List.forall_mem_cons]
      constructor
      · intro h0
        simp at h0
      · intro hall
        exact absurd hall.1 hw

/-- **At most one asker gets the key** exactly when all ask where the first one does and before its
lease ends. -/
theorem granted_le_one_iff (as : List (Ask P)) :
    Leases.granted (fun _ => none) as ≤ 1 ↔
      ∀ a rest, as = a :: rest → ∀ b ∈ rest, b.place = a.place ∧ b.time < a.time + a.life := by
  cases as with
  | nil => simp [Leases.granted]
  | cons a as =>
    have hfree : ¬ Leases.held (fun _ : P => none) a.place a.time = true := by simp [Leases.held]
    have hrest := Leases.granted_eq_zero_iff
      (s := Function.update (fun _ : P => none) a.place (some (a.time + a.life)))
      (Function.update_self ..) (fun q hq => Function.update_of_ne hq ..) as
    simp only [Leases.granted, Leases.acquire_free hfree]
    constructor
    · rintro h a' rest ⟨⟩
      exact hrest.mp (by simp at h; omega)
    · intro h
      have h0 := hrest.mpr (h a as rfl)
      simp [h0]

end Guardian.Transition

import Guardian.Order.Overlay

/-!
# Stacks of layers

Members come in layers.  A member puts itself at a key, and may take keys away: from all that came
before it, when members are played one after the other, or from the layers below its own, when
layers are laid over one another.

* `play_eq_layered_iff`: the two views agree exactly when, for the last member at each key, the keys
  are taken away by the same.
-/

namespace Guardian.Order

open List
variable {A K : Type*}

/-! ### Members one after the other -/

section Play
variable (puts takes : A → K → Bool) (k : K)

/-- One more member, seen at a key. -/
def playOne (seen : Option A) (a : A) : Option A :=
  if puts a k then some a else if takes a k then none else seen

/-- **Members one after the other**, seen at a key. -/
def play (log : List A) : Option A := log.foldl (playOne puts takes k) none

variable {puts takes k}

theorem play_concat (log : List A) (a : A) :
    play puts takes k (log ++ [a]) = playOne puts takes k (play puts takes k log) a := by
  rw [play, foldl_append]
  rfl

theorem play_eq_none {log : List A} (h : ∀ a ∈ log, ¬ puts a k = true) :
    play puts takes k log = none := by
  induction log using reverseRecOn with
  | nil => rfl
  | append_singleton log a ih =>
    have hlog : play puts takes k log = none := ih fun b hb => h b (mem_append_left _ hb)
    rw [play_concat, playOne, if_neg (h a (by simp)), hlog]
    split <;> rfl

/-- What is seen at a key is a member at it. -/
theorem mem_of_play {log : List A} {a : A} (h : play puts takes k log = some a) :
    a ∈ log ∧ puts a k = true := by
  induction log using reverseRecOn with
  | nil => cases h
  | append_singleton log b ih =>
    rw [play_concat, playOne] at h
    split_ifs at h with hputs
    · cases h
      exact ⟨by simp, hputs⟩
    · exact ⟨mem_append_left _ (ih h).1, (ih h).2⟩

/-- **The last member at a key** is seen unless a later one takes the key away. -/
theorem play_of_last {before after : List A} {a : A} (ha : puts a k = true)
    (hafter : ∀ b ∈ after, ¬ puts b k = true) :
    play puts takes k (before ++ a :: after) =
      if ∃ b ∈ after, takes b k = true then none else some a := by
  induction after using reverseRecOn with
  | nil =>
    rw [play_concat, playOne, if_pos ha]
    simp
  | append_singleton after b ih =>
    have hseen := ih fun c hc => hafter c (mem_append_left _ hc)
    have hb : ¬ puts b k = true := hafter b (by simp)
    have hsplit : before ++ a :: (after ++ [b]) = (before ++ a :: after) ++ [b] := by simp
    rw [hsplit, play_concat, playOne, if_neg hb, hseen]
    by_cases hbt : takes b k = true
    · simp [hbt]
    · simp [hbt]

end Play

/-! ### Layers over one another -/

section Layered
variable (puts hides : A → K → Bool) (k : K)

/-- One more layer, seen at a key: what it has there, or what was there unless it hides it. -/
def layerOne (seen : Option A) (layer : List A) : Option A :=
  (latest (puts · k) layer).or (if layer.any (hides · k) then none else seen)

/-- **Layers over one another**, seen at a key. -/
def layered (stack : List (List A)) : Option A := stack.foldl (layerOne puts hides k) none

variable {puts hides k}

theorem layered_concat (stack : List (List A)) (layer : List A) :
    layered puts hides k (stack ++ [layer]) =
      layerOne puts hides k (layered puts hides k stack) layer := by
  rw [layered, foldl_append]
  rfl

theorem layered_eq_none {stack : List (List A)} (h : ∀ a ∈ stack.flatten, ¬ puts a k = true) :
    layered puts hides k stack = none := by
  induction stack using reverseRecOn with
  | nil => rfl
  | append_singleton stack layer ih =>
    have hstack : layered puts hides k stack = none := ih fun b hb => h b (by simp [hb])
    have hlayer : latest (puts · k) layer = none :=
      latest_eq_none.mpr fun a ha => h a (by simp [ha])
    rw [layered_concat, layerOne, hlayer, hstack]
    split <;> rfl

/-- **The last member at a key** is seen unless a layer above its own hides the key. -/
theorem layered_of_last {below above : List (List A)} {before after : List A} {a : A}
    (ha : puts a k = true) (hafter : ∀ b ∈ after, ¬ puts b k = true)
    (habove : ∀ b ∈ above.flatten, ¬ puts b k = true) :
    layered puts hides k (below ++ (before ++ a :: after) :: above) =
      if ∃ b ∈ above.flatten, hides b k = true then none else some a := by
  induction above using reverseRecOn with
  | nil =>
    have hlatest : latest (puts · k) (before ++ a :: after) = some a := by
      have hnone : after.reverse.find? (puts · k) = none := by
        simpa using hafter
      rw [latest, reverse_append, reverse_cons, append_assoc, find?_append,
        hnone]
      simp [ha]
    rw [layered_concat, layerOne, hlatest]
    simp
  | append_singleton above layer ih =>
    have hseen := ih fun c hc => habove c (by simp [hc])
    have hlayer : latest (puts · k) layer = none :=
      latest_eq_none.mpr fun b hb => habove b (by simp [hb])
    have hsplit : below ++ (before ++ a :: after) :: (above ++ [layer]) =
        (below ++ (before ++ a :: after) :: above) ++ [layer] := by simp
    rw [hsplit, layered_concat, layerOne, hlayer, hseen]
    by_cases hany : ∃ b ∈ layer, hides b k = true
    · have hall : ∃ b ∈ (above ++ [layer]).flatten, hides b k = true := by
        obtain ⟨b, hb, hhides⟩ := hany
        exact ⟨b, by simp [hb], hhides⟩
      rw [if_pos hall, if_pos (by simpa using hany)]
      rfl
    · have hiff : (∃ b ∈ (above ++ [layer]).flatten, hides b k = true) ↔
          ∃ b ∈ above.flatten, hides b k = true := by
        rw [flatten_append, flatten_singleton]
        constructor
        · rintro ⟨b, hb, hhides⟩
          rcases mem_append.mp hb with hb | hb
          · exact ⟨b, hb, hhides⟩
          · exact absurd ⟨b, hb, hhides⟩ hany
        · rintro ⟨b, hb, hhides⟩
          exact ⟨b, mem_append_left _ hb, hhides⟩
      rw [if_neg (by simpa using hany)]
      simp only [hiff, Option.none_or]

end Layered

/-! ### Agreement -/

/-- **The last member at a key**: what follows it in its layer, and the layers above. -/
structure LastAt (puts : A → K → Bool) (k : K) (stack : List (List A)) (a : A) (after : List A)
    (above : List (List A)) : Prop where
  splits : ∃ below before, stack = below ++ (before ++ a :: after) :: above
  at_key : puts a k = true
  after : ∀ b ∈ after, ¬ puts b k = true
  above : ∀ b ∈ above.flatten, ¬ puts b k = true

theorem exists_last_of_mem {p : A → Bool} {l : List A} (h : ∃ a ∈ l, p a = true) :
    ∃ before a after, l = before ++ a :: after ∧ p a = true ∧ ∀ b ∈ after, ¬ p b = true := by
  induction l using reverseRecOn with
  | nil => simp at h
  | append_singleton l c ih =>
    by_cases hc : p c = true
    · exact ⟨l, c, [], rfl, hc, fun b hb => absurd hb not_mem_nil⟩
    · have hl : ∃ a ∈ l, p a = true := by
        obtain ⟨a, ha, hpa⟩ := h
        rcases mem_append.mp ha with ha | ha
        · exact ⟨a, ha, hpa⟩
        · rw [mem_singleton.mp ha] at hpa
          exact absurd hpa hc
      obtain ⟨before, a, after, rfl, ha, hafter⟩ := ih hl
      refine ⟨before, a, after ++ [c], by simp, ha, fun b hb => ?_⟩
      rcases mem_append.mp hb with hb | hb
      · exact hafter b hb
      · rw [mem_singleton.mp hb]
        exact hc

theorem exists_lastAt {puts : A → K → Bool} {k : K} {stack : List (List A)}
    (h : ∃ a ∈ stack.flatten, puts a k = true) :
    ∃ a after above, LastAt puts k stack a after above := by
  have hlayer : ∃ layer ∈ stack, layer.any (puts · k) = true := by
    obtain ⟨a, ha, hputs⟩ := h
    obtain ⟨layer, hlayer, ha⟩ := mem_flatten.mp ha
    exact ⟨layer, hlayer, any_eq_true.mpr ⟨a, ha, hputs⟩⟩
  obtain ⟨below, layer, above, rfl, hany, habove⟩ := exists_last_of_mem hlayer
  obtain ⟨before, a, after, rfl, ha, hafter⟩ := exists_last_of_mem (any_eq_true.mp hany)
  refine ⟨a, after, above, ⟨below, before, rfl⟩, ha, hafter, fun b hb hputs => ?_⟩
  obtain ⟨layer, hlayer, hb⟩ := mem_flatten.mp hb
  exact habove layer hlayer (any_eq_true.mpr ⟨b, hb, hputs⟩)

/-- **At one key**, in terms of its last member. -/
theorem play_eq_layered_at {puts puts' takes hides : A → K → Bool}
    (hsub : ∀ a k, puts' a k = true → puts a k = true)
    (hsame : ∀ a b k, puts a k = true → puts b k = true → puts' a k = puts' b k)
    {stack : List (List A)} {k : K} {a : A} {after : List A} {above : List (List A)}
    (h : LastAt puts k stack a after above) :
    play puts takes k stack.flatten = layered puts' hides k stack ↔
      ((∃ b ∈ after ++ above.flatten, takes b k = true) ↔
        (puts' a k = false ∨ ∃ b ∈ above.flatten, hides b k = true)) := by
  obtain ⟨below, before, rfl⟩ := h.splits
  have hflat : (below ++ (before ++ a :: after) :: above).flatten =
      (below.flatten ++ before) ++ a :: (after ++ above.flatten) := by simp
  have hrest : ∀ b ∈ after ++ above.flatten, ¬ puts b k = true := by
    intro b hb
    rcases mem_append.mp hb with hb | hb
    · exact h.after b hb
    · exact h.above b hb
  rw [hflat, play_of_last h.at_key hrest]
  by_cases hput : puts' a k = true
  · have hafter : ∀ b ∈ after, ¬ puts' b k = true := fun b hb hb' =>
      h.after b hb (hsub b k hb')
    have habove : ∀ b ∈ above.flatten, ¬ puts' b k = true := fun b hb hb' =>
      h.above b hb (hsub b k hb')
    rw [layered_of_last hput hafter habove]
    have hfalse : ¬ puts' a k = false := by simp [hput]
    by_cases htaken : ∃ b ∈ after ++ above.flatten, takes b k = true <;>
      by_cases hhidden : ∃ b ∈ above.flatten, hides b k = true <;>
        simp only [htaken, hhidden, hfalse, if_true, if_false, or_true, or_false, iff_true,
          iff_false, reduceCtorEq, not_true]
  · -- no member is at the key for the layers
    have hnone : ∀ b ∈ (below ++ (before ++ a :: after) :: above).flatten,
        ¬ puts' b k = true := by
      intro b _ hb'
      rw [← hsame a b k h.at_key (hsub b k hb')] at hb'
      exact hput hb'
    rw [layered_eq_none hnone]
    have hfalse : puts' a k = false := by simpa using hput
    by_cases htaken : ∃ b ∈ after ++ above.flatten, takes b k = true <;>
      simp only [htaken, hfalse, if_true, if_false, true_or, iff_true, reduceCtorEq]

/-- **The two views agree** exactly when the last member at each key is taken away by a later one
just in case it is not at the key for the layers, or a layer above hides the key. -/
theorem play_eq_layered_iff {puts puts' takes hides : A → K → Bool}
    (hsub : ∀ a k, puts' a k = true → puts a k = true)
    (hsame : ∀ a b k, puts a k = true → puts b k = true → puts' a k = puts' b k)
    (stack : List (List A)) :
    (∀ k, play puts takes k stack.flatten = layered puts' hides k stack) ↔
      ∀ k a after above, LastAt puts k stack a after above →
        ((∃ b ∈ after ++ above.flatten, takes b k = true) ↔
          (puts' a k = false ∨ ∃ b ∈ above.flatten, hides b k = true)) := by
  constructor
  · intro h k a after above ha
    exact (play_eq_layered_at hsub hsame ha).mp (h k)
  · intro h k
    by_cases hex : ∃ a ∈ stack.flatten, puts a k = true
    · obtain ⟨a, after, above, ha⟩ := exists_lastAt hex
      exact (play_eq_layered_at hsub hsame ha).mpr (h k a after above ha)
    · have hnone : ∀ a ∈ stack.flatten, ¬ puts a k = true := fun a ha hputs => hex ⟨a, ha, hputs⟩
      rw [play_eq_none hnone, layered_eq_none fun a ha hputs => hnone a ha (hsub a k hputs)]

end Guardian.Order

import Guardian.RateLimit.Login

/-!
# Sequences of calls of the limiter

Any sequence of `hit` and `check` calls whose readings of the clock do not go back, with a ceiling
for each key that does not change.  `limited_of_run` says what holds after each of them.
-/

namespace Guardian.RateLimit.Calls

open Python Guardian.Order Transition
open List hiding after

/-! ### Calls -/

/-- A call, with the instant that it reads from the clock. -/
structure Call where
  op : Operation
  key : Str
  failClosed : Bool
  now : ℚ
  deriving DecidableEq

/-- A call and what it returned. -/
structure Answer where
  call : Call
  allowed : Bool
  retryAfter : ℚ
  deriving DecidableEq

/-- **The limiter** after a sequence of calls: its table, the last reading of the clock, and the
answers, the last one first. -/
structure State where
  hits : Hits
  now : ℚ
  answers : List Answer

/-- A limiter that was not called yet. -/
def State.Fresh (s : State) : Prop := s.hits = ∅ ∧ s.answers = []

def Call.Hits (c : Call) (key : Str) : Prop := c.op = .hit ∧ c.key = key

instance (c : Call) (key : Str) : Decidable (c.Hits key) := by
  unfold Call.Hits
  infer_instance

section Step

variable (L : Limiter) (maxHits : Str → Option ℤ)

/-- `self._max if max_hits is None else max_hits` -/
def ceiling (key : Str) : ℤ := (maxHits key).getD L.max

/-- What a call returns, and the table that it leaves. -/
def operate (hits : Hits) (c : Call) : (Bool × ℚ) × Hits :=
  match c.op with
  | .hit => hit L hits c.key (maxHits c.key) c.failClosed c.now
  | .check => check L hits c.key (maxHits c.key) c.failClosed c.now

/-- **One call**; the clock does not go back. -/
def step (s : State) (c : Call) : Option State :=
  if s.now ≤ c.now then
    let r := operate L maxHits s.hits c
    some ⟨r.2, c.now, ⟨c, r.1.1, r.1.2⟩ :: s.answers⟩
  else none

/-- When hits of the key were allowed. -/
def allowedHits (key : Str) (answers : List Answer) : List ℚ :=
  (answers.filter fun a => a.call.Hits key ∧ a.allowed = true).map fun a => a.call.now

/-- The key was always called with `fail_closed`. -/
def FailsClosed (key : Str) (answers : List Answer) : Prop :=
  ∀ a ∈ answers, a.call.key = key → a.call.failClosed = true

/-- **The limits of a state.** -/
structure Limited (s : State) : Prop where
  bounded : ∀ key, 0 < ceiling L maxHits key → FailsClosed key s.answers →
    Spread L.window (ceiling L maxHits key) (allowedHits key s.answers)
  undisturbed : ∀ key last, (bucket s.hits key).getLast? = some last → s.now - last < L.window →
    ∀ s', Run (step L maxHits) (fun _ c => c.key ≠ key ∧ c.now - last < L.window) s s' →
      bucket s'.hits key = bucket s.hits key ∧ ∀ c, c.key = key →
        (operate L maxHits s'.hits c).1 = (operate L maxHits s.hits c).1 ∧
          bucket (operate L maxHits s'.hits c).2 key = bucket (operate L maxHits s.hits c).2 key
  retried : ∀ c r, s.hits.keys.length < maxKeys → (operate L maxHits s.hits c).1 = (false, r) →
    ∀ s₁ s', step L maxHits s c = some s₁ →
      Run (step L maxHits) (fun _ c' => ¬ c'.Hits c.key) s₁ s' →
      s'.hits.keys.length < maxKeys → ∀ op failClosed,
        (operate L maxHits s'.hits ⟨op, c.key, failClosed, c.now + r⟩).1.1 = true

end Step

/-! ### What a call does to a bucket -/

section Operate

variable {L : Limiter} {maxHits : Str → Option ℤ}

/-- **What a call does to the bucket of a key**: nothing; it evicts it, because its last hit is out
of the window; it drops what is out of the window, and refuses the hit; or it records the hit. -/
inductive Change (L : Limiter) (maxHits : Str → Option ℤ) (key : Str) (ts : List ℚ) (c : Call) :
    Bool → List ℚ → Prop
  | same (allowed : Bool) (h : c.Hits key → 0 < ceiling L maxHits key → c.failClosed = true →
      allowed = false) : Change L maxHits key ts c allowed ts
  | evicted (allowed : Bool) (hne : c.key ≠ key) (hstale : stale L.window c.now ts = true) :
      Change L maxHits key ts c allowed []
  | refused (hkey : c.Hits key) : Change L maxHits key ts c false (recent L.window c.now ts)
  | recorded (hkey : c.Hits key)
      (hroom : (after (c.now - L.window) ts : ℤ) < ceiling L maxHits key) :
      Change L maxHits key ts c true (recent L.window c.now ts ++ [c.now])

theorem Change.of_not_hits {key : Str} {ts ts' : List ℚ} {c : Call} {allowed : Bool}
    (h : Change L maxHits key ts c allowed ts') (hkey : ¬ c.Hits key) :
    ts' = ts ∨ ts' = [] ∧ stale L.window c.now ts = true := by
  cases h with
  | same => exact Or.inl rfl
  | evicted _ _ hstale => exact Or.inr ⟨rfl, hstale⟩
  | refused h => exact absurd h hkey
  | recorded h => exact absurd h hkey

theorem change_hit (hits : Hits) (key : Str) (failClosed : Bool) (now : ℚ) :
    Change L maxHits key (bucket hits key) ⟨.hit, key, failClosed, now⟩
      (hit L hits key (maxHits key) failClosed now).1.1
      (bucket (hit L hits key (maxHits key) failClosed now).2 key) := by
  have hself := bucket_makeRoom_self L.window now hits key
  unfold hit
  dsimp only
  split_ifs with hoff hfull hrefused
  · exact .same _ fun _ hpos => absurd hoff (not_le.mpr hpos)
  · rw [hself]
    refine .same _ fun _ _ hclosed => ?_
    rw [show failClosed = true from hclosed]
    rfl
  · rw [bucket_insert, if_pos rfl, hself]
    exact .refused ⟨rfl, rfl⟩
  · rw [bucket_insert, if_pos rfl, hself]
    rw [hself, length_recent] at hrefused
    exact .recorded ⟨rfl, rfl⟩ (not_le.mp hrefused)

variable (L maxHits) in
theorem bucket_operate (hits : Hits) (c : Call) (key : Str) :
    Change L maxHits key (bucket hits key) c (operate L maxHits hits c).1.1
      (bucket (operate L maxHits hits c).2 key) := by
  rcases c with ⟨op, k, failClosed, now⟩
  by_cases hne : k = key
  · subst hne
    cases op with
    | hit => exact change_hit hits k failClosed now
    | check =>
      change Change L maxHits k _ _ _ (bucket (check L hits k (maxHits k) failClosed now).2 k)
      rw [bucket_check_self]
      exact .same _ fun h => (by cases h.1)
  · have hother : bucket (operate L maxHits hits ⟨op, k, failClosed, now⟩).2 key = bucket hits key ∨
        bucket (operate L maxHits hits ⟨op, k, failClosed, now⟩).2 key = [] ∧ full hits k = true ∧
          stale L.window now (bucket hits key) = true := by
      cases op with
      | hit => exact bucket_hit_of_ne (Ne.symm hne) (maxHits k) failClosed now
      | check => exact bucket_check_of_ne (maxHits k) failClosed now
    rcases hother with h | ⟨h, -, hstale⟩
    · rw [h]
      exact .same _ fun hkey => absurd hkey.2 hne
    · rw [h]
      exact .evicted _ hne hstale

end Operate

/-! ### The invariant -/

section Invariant

variable {L : Limiter} {maxHits : Str → Option ℤ} {key : Str} {ts ts' : List ℚ} {now : ℚ}
  {answers : List Answer}

/-- The bucket of a key is in order, not later than the last reading, and not longer than its
ceiling; of the hits that were allowed to it, those within the window are there. -/
structure Inv (L : Limiter) (maxHits : Str → Option ℤ) (key : Str) (ts : List ℚ) (now : ℚ)
    (answers : List Answer) : Prop where
  sorted : ts.Pairwise (· ≤ ·)
  past : ∀ t ∈ ts, t ≤ now
  short : (ts.length : ℤ) ≤ Max.max 0 (ceiling L maxHits key)
  cover : 0 < ceiling L maxHits key → FailsClosed key answers → ∀ y, now - L.window ≤ y →
    after y (allowedHits key answers) ≤ after y ts
  spread : 0 < ceiling L maxHits key → FailsClosed key answers →
    Spread L.window (ceiling L maxHits key) (allowedHits key answers)

theorem after_of_stale {y : ℚ} (hsorted : ts.Pairwise (· ≤ ·))
    (hstale : stale L.window now ts = true) (hy : now - L.window ≤ y) : after y ts = 0 := by
  refine after_eq_zero fun t ht => ?_
  unfold stale at hstale
  split at hstale
  · rename_i hnone
    rw [getLast?_eq_none_iff.mp hnone] at ht
    cases ht
  · rename_i last hlast
    rw [decide_eq_true_eq] at hstale
    have hle : t ≤ last := by
      obtain ⟨init, rfl⟩ := getLast?_eq_some_iff.mp hlast
      rcases mem_append.mp ht with ht | ht
      · exact (pairwise_append.mp hsorted).2.2 t ht last (mem_singleton_self last)
      · exact le_of_eq (mem_singleton.mp ht)
    linarith

theorem allowedHits_of_allowed {a : Answer} (h : a.call.Hits key) (hallowed : a.allowed = true) :
    allowedHits key (a :: answers) = a.call.now :: allowedHits key answers := by
  unfold allowedHits
  rw [filter_cons_of_pos (by simpa using ⟨h, hallowed⟩), map_cons]

theorem allowedHits_of_not {a : Answer} (h : a.call.Hits key → a.allowed = false) :
    allowedHits key (a :: answers) = allowedHits key answers := by
  unfold allowedHits
  rw [filter_cons_of_neg]
  intro hboth
  rw [decide_eq_true_eq] at hboth
  rw [h hboth.1] at hboth
  cases hboth.2

theorem FailsClosed.of_cons {a : Answer} (h : FailsClosed key (a :: answers)) :
    FailsClosed key answers :=
  fun b hb => h b (mem_cons_of_mem _ hb)

section Change

variable {c : Call} {allowed : Bool} {retryAfter : ℚ}

theorem Inv.denied (h : Inv L maxHits key ts now answers) (hnow : now ≤ c.now)
    (hdenied : 0 < ceiling L maxHits key → FailsClosed key (⟨c, allowed, retryAfter⟩ :: answers) →
      c.Hits key → allowed = false)
    (hsub : ts'.Sublist ts)
    (hafter : ∀ y, c.now - L.window ≤ y → after y ts' = after y ts) :
    Inv L maxHits key ts' c.now (⟨c, allowed, retryAfter⟩ :: answers) := by
  refine ⟨h.sorted.sublist hsub, fun t ht => (h.past t (hsub.subset ht)).trans hnow, ?_,
    fun hpos hclosed y hy => ?_, fun hpos hclosed => ?_⟩
  · have hle := hsub.length_le
    have hshort := h.short
    omega
  · rw [allowedHits_of_not (hdenied hpos hclosed), hafter y hy]
    exact h.cover hpos hclosed.of_cons y (by linarith)
  · rw [allowedHits_of_not (hdenied hpos hclosed)]
    exact h.spread hpos hclosed.of_cons

/-- **A hit that is recorded** keeps the invariant: it was found below the ceiling. -/
theorem Inv.recorded (h : Inv L maxHits key ts now answers) (hnow : now ≤ c.now) (hkey : c.Hits key)
    (hroom : (after (c.now - L.window) ts : ℤ) < ceiling L maxHits key) :
    Inv L maxHits key (recent L.window c.now ts ++ [c.now]) c.now
      (⟨c, true, retryAfter⟩ :: answers) := by
  have hsub : (recent L.window c.now ts).Sublist ts := filter_sublist
  refine ⟨?_, fun t ht => ?_, ?_, fun hpos hclosed y hy => ?_, fun hpos hclosed => ?_⟩
  · refine pairwise_append.mpr ⟨h.sorted.sublist hsub, pairwise_singleton _ _, ?_⟩
    intro t ht u hu
    rw [mem_singleton.mp hu]
    exact (h.past t (hsub.subset ht)).trans hnow
  · rcases mem_append.mp ht with ht | ht
    · exact (h.past t (hsub.subset ht)).trans hnow
    · exact le_of_eq (mem_singleton.mp ht)
  · rw [length_append, length_recent, length_singleton]
    push_cast
    omega
  · rw [allowedHits_of_allowed hkey rfl, after_cons, after_append, after_recent hy, after_cons,
      after_nil, zero_add]
    exact Nat.add_le_add_right (h.cover hpos hclosed.of_cons y (by linarith)) _
  · rw [allowedHits_of_allowed hkey rfl]
    refine (h.spread hpos hclosed.of_cons).cons ?_
    have hcover := h.cover hpos hclosed.of_cons (c.now - L.window) (by linarith)
    change (after (c.now - L.window) (allowedHits key answers) : ℤ) < _
    omega

/-- **What one call keeps.** -/
theorem Inv.change (h : Inv L maxHits key ts now answers) (hnow : now ≤ c.now)
    (hchange : Change L maxHits key ts c allowed ts') :
    Inv L maxHits key ts' c.now (⟨c, allowed, retryAfter⟩ :: answers) := by
  cases hchange with
  | same _ hdenied =>
    refine h.denied hnow (fun hpos hclosed hkey => ?_) (Sublist.refl ts) fun _ _ => rfl
    exact hdenied hkey hpos (hclosed _ (mem_cons_self ..) hkey.2)
  | evicted _ hne hstale =>
    refine h.denied hnow (fun _ _ hkey => absurd hkey.2 hne) (nil_sublist ts) fun y hy => ?_
    rw [after_of_stale h.sorted hstale hy, after_nil]
  | refused hkey =>
    exact h.denied hnow (fun _ _ _ => rfl) filter_sublist fun y hy => after_recent hy ts
  | recorded hkey hroom => exact h.recorded hnow hkey hroom

end Change

/-- The invariant of every bucket. -/
def InvAll (L : Limiter) (maxHits : Str → Option ℤ) (s : State) : Prop :=
  ∀ key, Inv L maxHits key (bucket s.hits key) s.now s.answers

theorem invAll_fresh {s : State} (h : s.Fresh) : InvAll L maxHits s := by
  intro key
  have hbucket : bucket s.hits key = [] := by
    rw [h.1]
    rfl
  rw [hbucket, h.2]
  refine ⟨List.Pairwise.nil, fun t ht => (by cases ht), by simp, fun _ _ _ _ => le_rfl,
    fun hpos _ x => ?_⟩
  rw [show allowedHits key [] = [] from rfl, countP_nil]
  exact le_of_lt hpos

theorem invAll_step {s t : State} {c : Call} (h : InvAll L maxHits s)
    (hstep : step L maxHits s c = some t) : InvAll L maxHits t := by
  unfold step at hstep
  split_ifs at hstep with hnow
  cases hstep
  exact fun key => (h key).change hnow (bucket_operate L maxHits s.hits c key)

end Invariant

/-! ### Keys with a hit in their window -/

section Live

variable {L : Limiter} {maxHits : Str → Option ℤ} {key : Str}

/-- **A bucket whose last hit is in its window** stays as it is under calls for other keys. -/
theorem bucket_of_live {s s' : State} {last : ℚ} (hlast : (bucket s.hits key).getLast? = some last)
    (hrun : Run (step L maxHits) (fun _ c => c.key ≠ key ∧ c.now - last < L.window) s s') :
    bucket s'.hits key = bucket s.hits key := by
  refine hrun.invariant (P := fun t => bucket t.hits key = bucket s.hits key) ?_ rfl
  intro t u c ht hok hstep
  unfold step at hstep
  split_ifs at hstep
  cases hstep
  have hchange := (bucket_operate L maxHits t.hits c key).of_not_hits fun h => hok.1 h.2
  change bucket (operate L maxHits t.hits c).2 key = bucket s.hits key
  rw [ht] at hchange
  rcases hchange with h | ⟨-, hstale⟩
  · exact h
  · unfold stale at hstale
    rw [hlast] at hstale
    exact absurd hok.2 (not_lt.mpr (of_decide_eq_true hstale))

theorem mem_of_bucket {hits : Hits} (h : bucket hits key ≠ []) : key ∈ hits := by
  by_contra hnot
  unfold bucket at h
  rw [AList.lookup_eq_none.mpr hnot] at h
  exact h rfl

theorem full_of_mem {hits : Hits} (h : key ∈ hits) : full hits key = false := by
  unfold full
  simp [h]

theorem full_of_lt {hits : Hits} (h : hits.keys.length < maxKeys) (key : Str) :
    full hits key = false := by
  unfold full
  rw [decide_eq_false (not_le.mpr h), Bool.false_and]

theorem makeRoom_of_room {hits : Hits} {key : Str} (h : full hits key = false) (window now : ℚ) :
    makeRoom window now hits key = hits := by
  unfold makeRoom
  rw [h]
  rfl

/-- **What a table with room returns** is decided by the bucket of the key. -/
theorem operate_of_room {hits : Hits} {c : Call} (h : full hits c.key = false) :
    (operate L maxHits hits c).1 =
      if ceiling L maxHits c.key ≤ 0 then (true, 0)
      else if ceiling L maxHits c.key ≤ (recent L.window c.now (bucket hits c.key)).length then
        (false, retryAfter L.window c.now (recent L.window c.now (bucket hits c.key)))
      else (true, 0) := by
  rcases c with ⟨op, k, failClosed, now⟩
  have hroom : makeRoom L.window now hits k = hits := makeRoom_of_room h _ _
  change _ = if (maxHits k).getD L.max ≤ 0 then _ else
    if (maxHits k).getD L.max ≤ (recent L.window now (bucket hits k)).length then
      (false, retryAfter L.window now (recent L.window now (bucket hits k))) else _
  cases op with
  | hit =>
    change (hit L hits k (maxHits k) failClosed now).1 = _
    unfold hit
    dsimp only
    rw [hroom, show full hits k = false from h]
    simp only [Bool.false_eq_true, if_false]
    split_ifs <;> rfl
  | check =>
    change (check L hits k (maxHits k) failClosed now).1 = _
    unfold check
    dsimp only
    rw [hroom, show full hits k = false from h]
    simp only [Bool.false_eq_true, if_false]
    split_ifs <;> rfl

/-- **What a hit leaves in a table with room** is decided by the bucket of the key, too. -/
theorem bucket_operate_of_room {hits : Hits} {c : Call} (h : full hits c.key = false) :
    bucket (operate L maxHits hits c).2 c.key =
      if c.op = .check ∨ ceiling L maxHits c.key ≤ 0 then bucket hits c.key
      else if ceiling L maxHits c.key ≤ (recent L.window c.now (bucket hits c.key)).length then
        recent L.window c.now (bucket hits c.key)
      else recent L.window c.now (bucket hits c.key) ++ [c.now] := by
  rcases c with ⟨op, k, failClosed, now⟩
  have hroom : makeRoom L.window now hits k = hits := makeRoom_of_room h _ _
  cases op with
  | hit =>
    change bucket (hit L hits k (maxHits k) failClosed now).2 k =
      if Operation.hit = .check ∨ (maxHits k).getD L.max ≤ 0 then bucket hits k else
        if (maxHits k).getD L.max ≤ (recent L.window now (bucket hits k)).length then _ else _
    unfold hit
    dsimp only
    rw [hroom, show full hits k = false from h]
    simp only [Bool.false_eq_true, if_false, reduceCtorEq, false_or]
    split_ifs
    · rfl
    · rw [bucket_insert, if_pos rfl]
    · rw [bucket_insert, if_pos rfl]
  | check =>
    rw [if_pos (Or.inl rfl)]
    exact bucket_check_self L hits k (maxHits k) failClosed now

theorem operate_congr {hits hits' : Hits} {c : Call} (h : c.key ∈ hits) (h' : c.key ∈ hits')
    (heq : bucket hits' c.key = bucket hits c.key) :
    (operate L maxHits hits' c).1 = (operate L maxHits hits c).1 ∧
      bucket (operate L maxHits hits' c).2 c.key = bucket (operate L maxHits hits c).2 c.key := by
  constructor
  · rw [operate_of_room (full_of_mem h), operate_of_room (full_of_mem h'), heq]
  · rw [bucket_operate_of_room (full_of_mem h), bucket_operate_of_room (full_of_mem h'), heq]

end Live

/-! ### Coming back -/

section Retry

variable {L : Limiter} {maxHits : Str → Option ℤ}

/-- **A refusal by a table that has room** is one by the window: the first hit that is there leaves
the window when the caller is told to come back. -/
theorem mem_of_refused {hits : Hits} {c : Call} {r : ℚ} (hroom : hits.keys.length < maxKeys)
    (h : (operate L maxHits hits c).1 = (false, r)) :
    0 < ceiling L maxHits c.key ∧ c.now + r - L.window ∈ bucket hits c.key := by
  rw [operate_of_room (full_of_lt hroom c.key)] at h
  split_ifs at h with hoff hrefused
  · cases h
  · have hpos : 0 < ceiling L maxHits c.key := not_le.mp hoff
    rcases hrecent : recent L.window c.now (bucket hits c.key) with _ | ⟨first, rest⟩
    · rw [hrecent] at hrefused
      exact absurd hrefused (not_le.mpr hpos)
    · have hmem : first ∈ recent L.window c.now (bucket hits c.key) := by
        rw [hrecent]
        exact mem_cons_self ..
      obtain ⟨hbucket, hlive⟩ := mem_filter.mp hmem
      rw [decide_eq_true_eq] at hlive
      have hr : r = L.window - (c.now - first) := by
        rw [hrecent] at h
        have hmax : r = Max.max 0 (L.window - (c.now - first)) := (congrArg Prod.snd h).symm
        rw [hmax, max_eq_right (by linarith)]
      refine ⟨hpos, ?_⟩
      have hfirst : c.now + r - L.window = first := by linarith
      rw [hfirst]
      exact hbucket
  · cases h

theorem allowed_of_room {hits : Hits} {c : Call} (hroom : hits.keys.length < maxKeys)
    (h : (after (c.now - L.window) (bucket hits c.key) : ℤ) < ceiling L maxHits c.key) :
    (operate L maxHits hits c).1.1 = true := by
  rw [operate_of_room (full_of_lt hroom c.key), length_recent]
  split_ifs
  · rfl
  · omega
  · rfl

theorem after_lt_length {ts : List ℚ} {t : ℚ} (h : t ∈ ts) : after t ts < ts.length := by
  refine lt_of_le_of_ne countP_le_length fun heq => ?_
  have hall := countP_eq_length.mp heq t h
  rw [decide_eq_true_eq] at hall
  exact lt_irrefl t hall

theorem after_of_unhit {key : Str} {s s' : State} {y : ℚ} (hrun : Run (step L maxHits)
    (fun _ c => ¬ c.Hits key) s s') :
    after y (bucket s'.hits key) ≤ after y (bucket s.hits key) := by
  refine hrun.invariant (P := fun t => after y (bucket t.hits key) ≤ after y (bucket s.hits key)) ?_
    le_rfl
  intro t u c ht hok hstep
  unfold step at hstep
  split_ifs at hstep
  cases hstep
  change after y (bucket (operate L maxHits t.hits c).2 key) ≤ _
  rcases (bucket_operate L maxHits t.hits c key).of_not_hits hok with h | ⟨h, -⟩
  · rw [h]
    exact ht
  · rw [h, after_nil]
    exact Nat.zero_le _

theorem after_of_refused {s s₁ : State} {c : Call} {r y : ℚ} (hstep : step L maxHits s c = some s₁)
    (h : (operate L maxHits s.hits c).1 = (false, r)) :
    after y (bucket s₁.hits c.key) ≤ after y (bucket s.hits c.key) := by
  unfold step at hstep
  split_ifs at hstep
  cases hstep
  change after y (bucket (operate L maxHits s.hits c).2 c.key) ≤ _
  have hchange := bucket_operate L maxHits s.hits c c.key
  rw [h] at hchange
  generalize bucket (operate L maxHits s.hits c).2 c.key = ts' at hchange
  cases hchange with
  | same => exact le_rfl
  | evicted => exact Nat.zero_le _
  | refused => exact Sublist.countP_le filter_sublist

end Retry

/-- **The limits hold in every state** that the limiter reaches by calls, for every key whose
ceiling is above zero. -/
theorem limited_of_run {L : Limiter} {maxHits : Str → Option ℤ} {s₀ s : State} (h : s₀.Fresh)
    (hrun : Run (step L maxHits) (fun _ _ => True) s₀ s) : Limited L maxHits s := by
  have hinv : InvAll L maxHits s :=
    hrun.invariant (fun hs _ hstep => invAll_step hs hstep) (invAll_fresh h)
  refine ⟨fun key hpos hclosed => (hinv key).spread hpos hclosed, ?_, ?_⟩
  · intro key last hlast _ s' hrun'
    have hbucket := bucket_of_live hlast hrun'
    have hne : bucket s.hits key ≠ [] := by
      intro hnil
      rw [hnil] at hlast
      cases hlast
    refine ⟨hbucket, ?_⟩
    rintro c rfl
    exact operate_congr (mem_of_bucket hne) (mem_of_bucket (hbucket ▸ hne)) hbucket
  · intro c r hroom hrefused s₁ s' hstep hrun' hroom' op failClosed
    obtain ⟨hpos, hmem⟩ := mem_of_refused hroom hrefused
    refine allowed_of_room hroom' ?_
    have hlt := after_lt_length hmem
    have hshort := (hinv c.key).short
    have hle := (after_of_unhit (y := c.now + r - L.window) hrun').trans
      (after_of_refused hstep hrefused)
    change (after (c.now + r - L.window) (bucket s'.hits c.key) : ℤ) < ceiling L maxHits c.key
    omega

def twoHits : List Call :=
  [⟨.hit, "acct:a", true, 0⟩, ⟨.hit, "acct:a", true, 10⟩]

/-- For a ceiling of one, the second hit is refused. -/
theorem limited_of_run_sample :
    ∃ s, twoHits.foldlM (step ⟨1, 60⟩ fun _ => none) ⟨∅, 0, []⟩ = some s ∧
      s.answers.map Answer.allowed = [false, true] ∧ Limited ⟨1, 60⟩ (fun _ => none) s := by
  have hrun : twoHits.foldlM (step ⟨1, 60⟩ fun _ => none) ⟨∅, 0, []⟩ = some _ := rfl
  refine ⟨_, hrun, by decide +kernel, ?_⟩
  exact limited_of_run ⟨rfl, rfl⟩ (run_of_foldlM (fun _ _ => trivial) hrun)

/-! ### A ceiling of zero -/

/-- **A ceiling of zero** turns the limiter off: the hit is allowed. -/
theorem allowed_at_zero : ∃ s, Run (step ⟨0, 60⟩ fun _ => none) (fun _ _ => True) ⟨∅, 0, []⟩ s ∧
    FailsClosed "acct:a" s.answers ∧
      ¬ Spread 60 (ceiling ⟨0, 60⟩ (fun _ => none) "acct:a")
        (allowedHits "acct:a" s.answers) := by
  have hrun : [Call.mk .hit "acct:a" true 0].foldlM (step ⟨0, 60⟩ fun _ => none) ⟨∅, 0, []⟩ =
      some ⟨∅, 0, [⟨⟨.hit, "acct:a", true, 0⟩, true, 0⟩]⟩ := rfl
  refine ⟨_, run_of_foldlM (fun _ _ => trivial) hrun, fun a ha _ => ?_, fun h => ?_⟩
  · rw [mem_singleton.mp ha]
  · exact absurd (h 0) (by decide +kernel)

end Guardian.RateLimit.Calls

import Guardian.Versioning.Range

/-!
# The order of the events of a range

`inEventRange` promises to establish the order of the events itself, and only moves the beginning of
time to the front.  `inEventRange_perm_iff` says when that is enough.
-/

namespace Guardian.Versioning

open Python Guardian.Order List

variable {R : Runtime}

/-! ### The outcome -/

variable {p : PointKey × Kind} {points : List (PointKey × Kind)} {vkey : Key}

theorem mem_sortable :
    p ∈ sortable points ↔ p ∈ points := by
  unfold sortable
  rw [mem_insertionSort]

theorem introduced_of_isStart {eco : Ecosystem} (hp : PointOf eco p)
    (h : isStart p = true) : p.2 = .introduced := by
  obtain ⟨key, kind⟩ := p
  obtain ⟨-, hkind⟩ | ⟨k, hk, -⟩ := hp
  · exact hkind
  · dsimp only at hk
    subst hk
    cases h

theorem inEventRange_eq {version : Str} {events : List (Option Event)} {arg : Ecosystem ⊕ Str}

    (hpoints : eventPoints R events (Ecosystem.of R arg) = .ok points)
    (hv : versionKey R version (.inl (Ecosystem.of R arg)) = .ok vkey)
    (hends : ∀ p ∈ points, Ends R vkey p) :
    inEventRange R version events arg =
      .ok (verdict ((sortable points).map (readingOf R vkey))) := by
  have hreads := forall₂_reads fun p hp => hends p (mem_sortable.mp hp)
  have hstart : ∀ p ∈ sortable points, isStart p = true → p.2 = .introduced := fun p hp =>
    introduced_of_isStart (eventPoints_mem hpoints p (mem_sortable.mp hp))
  refine bind_eq_ok.mpr ⟨points, hpoints, ?_⟩
  rcases points with _ | ⟨p, ps⟩
  · rfl
  · exact bind_eq_ok.mpr ⟨vkey, hv, bind_eq_ok.mpr
      ⟨_, foldlM_scanStep hreads false, foldlM_lastStep hreads hstart _⟩⟩

theorem inEventRange_nil {version : Str} {events : List (Option Event)} {arg : Ecosystem ⊕ Str}
    (hpoints : eventPoints R events (Ecosystem.of R arg) = .ok []) :
    inEventRange R version events arg = .ok false :=
  bind_eq_ok.mpr ⟨[], hpoints, rfl⟩

theorem inEventRange_diverges {version : Str} {events : List (Option Event)}
    {arg : Ecosystem ⊕ Str}
    (hpoints : eventPoints R events (Ecosystem.of R arg) = .ok points)
    (hv : versionKey R version (.inl (Ecosystem.of R arg)) = .ok vkey)
    (hends : ¬ ∀ p ∈ points, Ends R vkey p) :
    inEventRange R version events arg = .error .diverges := by
  have hvkey : KeyOf (Ecosystem.of R arg) vkey := versionKey_mem hv
  have hmem := eventPoints_mem hpoints
  have hscan : (sortable points).foldlM (scanStep R vkey) false = .error .diverges :=
    foldlM_scanStep_diverges hvkey (fun p hp => hmem p (mem_sortable.mp hp))
      (fun h => hends fun p hp => h p (mem_sortable.mpr hp)) false
  have hne : points.isEmpty = false := by
    rcases points with _ | ⟨p, ps⟩
    · simp at hends
    · rfl
  unfold inEventRange
  simp only [hpoints]
  show (if points.isEmpty then _ else _) = _
  rw [hne, hv]
  show (sortable points).foldlM (scanStep R vkey) false >>= _ = _
  rw [hscan]
  rfl

/-! ### Opening and closing points -/

variable (R) in
/-- The point switches to affected. -/
def Opens (vkey : Key) (p : PointKey × Kind) : Prop :=
  p.2 = .introduced ∧ atOrBelow R vkey p.1 = .ok true

variable (R) in
/-- The point switches to not affected. -/
def Closes (vkey : Key) (p : PointKey × Kind) : Prop :=
  (p.2 = .fixed ∨ p.2 = .limit) ∧ atOrBelow R vkey p.1 = .ok true

theorem switch_eq_true_iff : (readingOf R vkey p).switch = some true ↔ Opens R vkey p := by
  obtain ⟨key, kind⟩ := p
  unfold readingOf Reading.switch Opens
  cases kind <;> simp

theorem switch_eq_false_iff {eco : Ecosystem} (hv : KeyOf eco vkey) (hp : PointOf eco p) :
    (readingOf R vkey p).switch = some false ↔ Closes R vkey p := by
  have hbelow := atOrBelow_of_below (R := R) hv hp
  obtain ⟨key, kind⟩ := p
  unfold readingOf Reading.switch Closes
  cases kind <;> simp
  exact hbelow

theorem isPast_iff :
    (readingOf R vkey p).isPast = true ↔ p.2 = .lastAffected ∧ below R vkey p.1 = .ok true := by
  unfold readingOf Reading.isPast
  simp

variable (R) in
/-- **The order of the events matters** for a version: an `introduced` event other than the
beginning of time and a `fixed` or `limit` event are both at or below the version, and no
`last_affected` event is below it. -/
def OrderMatters (version : Str) (events : List (Option Event)) (eco : Ecosystem) : Prop :=
  ∃ points vkey, eventPoints R events eco = .ok points ∧
    versionKey R version (.inl eco) = .ok vkey ∧ (∀ p ∈ points, Ends R vkey p) ∧
    (∃ p ∈ points, isStart p = false ∧ Opens R vkey p) ∧ (∃ p ∈ points, Closes R vkey p) ∧
    ∀ p ∈ points, p.2 = .lastAffected → below R vkey p.1 ≠ .ok true

theorem verdict_append_singleton {ps : List (PointKey × Kind)} {x : Bool} (hp : isStart p = false)
    (hx : (readingOf R vkey p).switch = some x)
    (hpast : ∀ q ∈ ps ++ [p], q.2 = .lastAffected → below R vkey q.1 ≠ .ok true) :
    verdict ((sortable (ps ++ [p])).map (readingOf R vkey)) = x := by
  have hsort : sortable (ps ++ [p]) =
      (ps.filter isStart ++ ps.filter (!isStart ·)) ++ [p] := by
    rw [sortable_eq, filter_append, filter_append]
    simp [hp]
  have hany : ((sortable (ps ++ [p])).map (readingOf R vkey)).any Reading.isPast = false := by
    rw [any_eq_false]
    intro r hr
    obtain ⟨q, hq, rfl⟩ := mem_map.mp hr
    rw [isPast_iff]
    exact fun h => hpast q (mem_sortable.mp hq) h.1 h.2
  unfold verdict
  rw [hany, hsort, map_append, map_singleton, latch_append_of_some hx]
  simp

/-- **No event moved, no verdict changed** where the points leave no choice. -/
theorem verdict_perm {eco : Ecosystem} {points' : List (PointKey × Kind)}
    (hv : KeyOf eco vkey) (hmem : ∀ p ∈ points, PointOf eco p) (hperm : points.Perm points')
    (h : (∀ p ∈ points, isStart p = false → ¬ Opens R vkey p) ∨
      (∀ p ∈ points, ¬ Closes R vkey p) ∨
      ∃ p ∈ points, p.2 = .lastAffected ∧ below R vkey p.1 = .ok true) :
    verdict ((sortable points).map (readingOf R vkey)) =
      verdict ((sortable points').map (readingOf R vkey)) := by
  have hsort : (sortable points).Perm (sortable points') :=
    (perm_insertionSort _ points).trans (hperm.trans (perm_insertionSort _ points').symm)
  have hreadings := hsort.map (readingOf R vkey)
  unfold verdict
  rw [hreadings.any_eq]
  rcases h with h | h | ⟨p, hp, hkind, hlt⟩
  · -- the beginning of time switches on, the rest only off
    congr 1
    rw [sortable_eq, sortable_eq, map_append, map_append, latch_append, latch_append]
    have hon : ∀ r ∈ (points.filter isStart).map (readingOf R vkey), r.switch ≠ some false := by
      intro r hr
      obtain ⟨q, hq, rfl⟩ := mem_map.mp hr
      obtain ⟨hq, hstart⟩ := mem_filter.mp hq
      rw [ne_eq, switch_eq_false_iff hv (hmem q hq)]
      intro hclose
      have hkind := introduced_of_isStart (hmem q hq) hstart
      rcases hclose.1 with h' | h' <;> rw [hkind] at h' <;> cases h'
    have hoff : ∀ r ∈ (points.filter (!isStart ·)).map (readingOf R vkey),
        r.switch ≠ some true := by
      intro r hr
      obtain ⟨q, hq, rfl⟩ := mem_map.mp hr
      obtain ⟨hq, hstart⟩ := mem_filter.mp hq
      rw [ne_eq, switch_eq_true_iff]
      exact h q hq (by simpa using hstart)
    rw [latch_perm ((hperm.filter _).map _) (Or.inr hon),
      latch_perm ((hperm.filter _).map _) (Or.inl hoff)]
  · -- nothing switches off
    congr 1
    refine latch_perm hreadings (Or.inr fun r hr => ?_)
    obtain ⟨q, hq, rfl⟩ := mem_map.mp hr
    have hq' := mem_sortable.mp hq
    rw [ne_eq, switch_eq_false_iff hv (hmem q hq')]
    exact h q hq'
  · -- the version is past a `last_affected`
    have hany : ((sortable points').map (readingOf R vkey)).any Reading.isPast = true := by
      rw [any_eq_true]
      exact ⟨_, mem_map_of_mem (mem_sortable.mpr (hperm.mem_iff.mp hp)),
        isPast_iff.mpr ⟨hkind, hlt⟩⟩
    rw [hany]
    simp

/-! ### Every order of the events -/

/-- **The order of the events does not matter** unless the version is at or above both an
`introduced` event and a `fixed` or `limit` event, and above no `last_affected` event: the events
are scanned as they come, and the last of the two that was listed decides. -/
theorem inEventRange_perm_iff {version : Str} {events : List (Option Event)}
    {arg : Ecosystem ⊕ Str} :
    (∀ events', events.Perm events' →
      inEventRange R version events' arg = inEventRange R version events arg) ↔
      ¬ OrderMatters R version events (Ecosystem.of R arg) := by
  constructor
  · -- an order that ends with either of the two
    rintro hall ⟨points, vkey, hpoints, hv, hends, ⟨p, hp, hstart, hopen⟩, ⟨q, hq, hclose⟩, hlast⟩
    have hvkey : KeyOf (Ecosystem.of R arg) vkey := versionKey_mem hv
    have hmem := eventPoints_mem hpoints
    have hq' : isStart q = false := by
      by_contra h
      have hkind := introduced_of_isStart (hmem q hq) (by simpa using h)
      rcases hclose.1 with h' | h' <;> rw [hkind] at h' <;> cases h'
    obtain ⟨evs1, ps1, hperm1, hps1, hpp1⟩ := exists_perm_last hpoints hp
    obtain ⟨evs2, ps2, hperm2, hps2, hpp2⟩ := exists_perm_last hpoints hq
    have htrue := inEventRange_eq hps1 hv fun r hr => hends r (hpp1.mem_iff.mpr hr)
    have hfalse := inEventRange_eq hps2 hv fun r hr => hends r (hpp2.mem_iff.mpr hr)
    rw [verdict_append_singleton hstart (switch_eq_true_iff.mpr hopen)
      fun r hr => hlast r (hpp1.mem_iff.mpr hr)] at htrue
    rw [verdict_append_singleton hq' ((switch_eq_false_iff hvkey (hmem q hq)).mpr hclose)
      fun r hr => hlast r (hpp2.mem_iff.mpr hr)] at hfalse
    have heq := (hall evs1 hperm1).trans (hall evs2 hperm2).symm
    rw [htrue, hfalse] at heq
    cases heq
  · intro hnot events' hperm
    rcases hpoints : eventPoints R events (Ecosystem.of R arg) with f | points
    · -- a boundary without a key
      rcases hpoints' : eventPoints R events' (Ecosystem.of R arg) with f' | points'
      · obtain rfl := onlyValueError_eventPoints _ _ f hpoints
        obtain rfl := onlyValueError_eventPoints _ _ f' hpoints'
        unfold inEventRange
        simp only [hpoints, hpoints']
      · obtain ⟨points, h, -⟩ := eventPoints_perm hperm.symm hpoints'
        rw [hpoints] at h
        cases h
    obtain ⟨points', hpoints', hpp⟩ := eventPoints_perm hperm hpoints
    rcases points with _ | ⟨p, ps⟩
    · obtain rfl := hpp.nil_eq
      rw [inEventRange_nil hpoints, inEventRange_nil hpoints']
    rcases hv : versionKey R version (.inl (Ecosystem.of R arg)) with f | vkey
    · -- the version has no key
      have hne : points'.isEmpty = false := by
        rcases points' with _ | ⟨p', ps'⟩
        · exact absurd hpp.eq_nil (by simp)
        · rfl
      unfold inEventRange
      simp only [hpoints, hpoints', hv]
      show (if points'.isEmpty then _ else _) = _
      rw [hne]
      rfl
    have hvkey : KeyOf (Ecosystem.of R arg) vkey := versionKey_mem hv
    have hmem := eventPoints_mem hpoints
    by_cases hends : ∀ q ∈ p :: ps, Ends R vkey q
    · have hends' : ∀ q ∈ points', Ends R vkey q := fun q hq => hends q (hpp.mem_iff.mpr hq)
      rw [inEventRange_eq hpoints hv hends, inEventRange_eq hpoints' hv hends']
      have hcase : (∀ q ∈ p :: ps, isStart q = false → ¬ Opens R vkey q) ∨
          (∀ q ∈ p :: ps, ¬ Closes R vkey q) ∨
          ∃ q ∈ p :: ps, q.2 = .lastAffected ∧ below R vkey q.1 = .ok true := by
        by_contra h
        push Not at h
        obtain ⟨h1, h2, h3⟩ := h
        exact hnot ⟨_, vkey, hpoints, hv, hends, h1, h2, h3⟩
      rw [verdict_perm hvkey hmem hpp hcase]
    · have hends' : ¬ ∀ q ∈ points', Ends R vkey q := fun h =>
        hends fun q hq => h q (hpp.mem_iff.mp hq)
      rw [inEventRange_diverges hpoints hv hends, inEventRange_diverges hpoints' hv hends']

/-- **Two orders of one range**: with `fixed` listed before `introduced`, a version that both are
below is affected. -/
theorem inEventRange_perm_ne :
    ¬ ∀ (R : Runtime) (version : Str) (arg : Ecosystem ⊕ Str) (l l' : List (Kind × Str)),
      l.Pairwise (fun p q => compare R p.2 q.2 arg ≠ .ok 0) → l.Perm l' →
      inEventRange R version (l'.map Event.single) arg =
        inEventRange R version (l.map Event.single) arg := by
  intro h
  have heq := h .ascii "3.0" (.inl .npm)
    [(.introduced, "1.0"), (.fixed, "2.0")]
    [(.fixed, "2.0"), (.introduced, "1.0")]
    (by decide) (Perm.swap _ _ _)
  revert heq
  decide

end Guardian.Versioning

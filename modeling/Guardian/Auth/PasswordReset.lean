import Guardian.Auth.Session

/-!
# Single use of reset tokens

A confirmation reads its token as unused, and only its commit consumes it, together with the rows
that its `UPDATE` found.  Another confirmation may commit in between, and so may a new token.
`single_use` gives the runs in which no token sets a password twice.
-/

namespace Guardian.Auth

open Python Transition List

variable (P : Platform)

/-- **Single use**: no token is in two resets, and no token that was outstanding at a reset is in a
later one.  The latest reset comes first. -/
def SingleUse (s : System) : Prop :=
  (s.resets.map (·.tokenHash)).Nodup ∧
    s.resets.Pairwise fun later earlier => later.tokenHash ∉ earlier.outstanding

/-- A token that can still set a password: it has not expired, or a request under way presents
it. -/
def Live (s : System) (h : Str) : Prop :=
  (∃ row ∈ s.resetTokens, row.tokenHash = h ∧ s.now < row.expiresAt) ∨
    ∃ q ∈ s.requests, q.presents = some h

/-- **The commit consumes all**: the token is still among the unused ones of its user, and those of
them that can still set a password are among the rows that were marked. -/
def ConsumesAll (s : System) : Event → Prop
  | .advance (.marked c _ marks) =>
    c.tokenHash ∈ unused s c.userId ∧ ∀ h ∈ unused s c.userId, Live s h → h ∈ marks
  | _ => True

/-- A token that sets no password any more. -/
def Spent (s : System) (h : Str) : Prop :=
  h ∈ s.resetTokens.map (·.tokenHash) ∧ ∀ row ∈ s.resetTokens, row.tokenHash = h →
    row.usedAt ≠ none ∨ row.expiresAt ≤ s.now ∧ ∀ q ∈ s.requests, q.presents ≠ some h

/-- Every token that was presented or outstanding at a commit is spent. -/
structure Consumed (s : System) : Prop where
  spent : ∀ r ∈ s.resets, ∀ h, h = r.tokenHash ∨ h ∈ r.outstanding → Spent s h
  singleUse : SingleUse s

theorem mem_unused {s : System} {userId : ℕ} {h : Str} :
    h ∈ unused s userId ↔
      ∃ row ∈ s.resetTokens, row.userId = userId ∧ row.usedAt = none ∧ row.tokenHash = h := by
  simp [unused, and_assoc]

/-! ### Spent tokens stay spent -/

theorem Spent.mono {s t : System} {h : Str} (hs : Spent s h)
    (htokens : t.resetTokens = s.resetTokens)
    (hnow : s.now ≤ t.now) (hreq : ∀ q ∈ t.requests, q.presents = some h →
      ∃ q' ∈ s.requests, q'.presents = some h) : Spent t h := by
  refine ⟨by rw [htokens]; exact hs.1, fun row hrow hh => ?_⟩
  rw [htokens] at hrow
  rcases hs.2 row hrow hh with hused | ⟨hexp, hnone⟩
  · exact .inl hused
  · refine .inr ⟨by omega, fun q hq hp => ?_⟩
    obtain ⟨q', hq', hp'⟩ := hreq q hq hp
    exact hnone q' hq' hp'

theorem Spent.drop {s : System} {h : Str} (hs : Spent s h) (q : Request) : Spent (s.drop q) h :=
  hs.mono rfl le_rfl fun q' hq' hp => ⟨q', mem_of_mem_erase hq', hp⟩

theorem Spent.issue {s : System} {h : Str} {row : PasswordResetToken} (hs : Spent s h)
    (hfresh : row.tokenHash ∉ s.resetTokens.map (·.tokenHash)) :
    Spent { s with resetTokens := row :: s.resetTokens } h := by
  refine ⟨mem_cons_of_mem _ hs.1, fun row' hrow' hh => ?_⟩
  rcases mem_cons.mp hrow' with rfl | hrow'
  · rw [hh] at hfresh
    exact absurd hs.1 hfresh
  · exact hs.2 row' hrow' hh

theorem Spent.ne_of_found {s : System} {h : Str} {row : PasswordResetToken} (hs : Spent s h)
    (hrow : row ∈ s.resetTokens) (hunused : row.usedAt = none) (hexpires : s.now < row.expiresAt) :
    row.tokenHash ≠ h := by
  intro hh
  rcases hs.2 row hrow hh with hused | ⟨hexp, -⟩
  · exact hused hunused
  · omega

theorem Spent.not_presented {s : System} {h : Str} {userId : ℕ} {q : Request} (hs : Spent s h)
    (hunused : h ∈ unused s userId) (hq : q ∈ s.requests) : q.presents ≠ some h := by
  obtain ⟨row, hrow, -, hnone, hh⟩ := mem_unused.mp hunused
  rcases hs.2 row hrow hh with hused | ⟨-, hreq⟩
  · exact absurd hnone hused
  · exact hreq q hq

/-! ### The commit of a confirmation -/

section Commit

variable {s : System} {c : Confirmation} {loaded : User} {marks : List Str}

theorem mem_commitReset {row : PasswordResetToken}
    (h : row ∈ (commitReset P s c loaded marks).resetTokens) :
    ∃ old ∈ s.resetTokens, row.tokenHash = old.tokenHash ∧ row.expiresAt = old.expiresAt ∧
      (old.tokenHash ∈ marks → row.usedAt ≠ none) ∧ (old.usedAt ≠ none → row.usedAt ≠ none) := by
  obtain ⟨old, hold, rfl⟩ := mem_map.mp h
  by_cases hm : old.tokenHash ∈ marks
  · refine ⟨old, hold, ?_⟩
    simp [hm]
  · refine ⟨old, hold, ?_⟩
    simp [hm]

theorem map_tokenHash_commitReset :
    (commitReset P s c loaded marks).resetTokens.map (·.tokenHash) =
      s.resetTokens.map (·.tokenHash) := by
  show (s.resetTokens.map _).map _ = _
  rw [map_map]
  refine map_congr_left fun row _ => ?_
  show PasswordResetToken.tokenHash (if _ then _ else _) = _
  split_ifs
  · rfl
  · rfl

theorem Spent.commitReset {h : Str} (hs : Spent s h) :
    Spent (commitReset P s c loaded marks) h := by
  refine ⟨by rw [map_tokenHash_commitReset]; exact hs.1, fun row hrow hh => ?_⟩
  obtain ⟨old, hold, hhash, hexp, -, hkeeps⟩ := mem_commitReset P hrow
  rcases hs.2 old hold (by rw [← hhash, hh]) with hused | ⟨hle, hreq⟩
  · exact .inl (hkeeps hused)
  · exact .inr ⟨by rw [hexp]; exact hle, hreq⟩

theorem spent_commitReset {h : Str} {userId : ℕ} (hunused : h ∈ unused s userId)
    (hmarked : Live s h → h ∈ marks) : Spent (commitReset P s c loaded marks) h := by
  obtain ⟨row₀, hrow₀, -, -, hh₀⟩ := mem_unused.mp hunused
  refine ⟨?_, fun row hrow hh => ?_⟩
  · rw [map_tokenHash_commitReset]
    exact mem_map.mpr ⟨row₀, hrow₀, hh₀⟩
  · obtain ⟨old, hold, hhash, hexp, hmark, -⟩ := mem_commitReset P hrow
    by_cases hlive : Live s h
    · left
      apply hmark
      rw [← hhash, hh]
      exact hmarked hlive
    · right
      refine ⟨?_, fun q hq hp => hlive (.inr ⟨q, hq, hp⟩)⟩
      by_contra hlt
      rw [hexp] at hlt
      exact hlive (.inl ⟨old, hold, by rw [← hhash, hh], not_le.mp hlt⟩)

end Commit

/-! ### The invariant -/

theorem Consumed.congr {s t : System} (hs : Consumed s) (hresets : t.resets = s.resets)
    (hspent : ∀ h, Spent s h → Spent t h) : Consumed t := by
  refine ⟨fun r hr h hh => ?_, ?_⟩
  · rw [hresets] at hr
    exact hspent h (hs.spent r hr h hh)
  · unfold SingleUse
    rw [hresets]
    exact hs.singleUse

theorem Consumed.reset {s : System} {c : Confirmation} {loaded : User} {marks : List Str}
    (hs : Consumed s) (hq : Request.marked c loaded marks ∈ s.requests)
    (hok : ConsumesAll s (.advance (.marked c loaded marks))) :
    Consumed (commitReset P (s.drop (.marked c loaded marks)) c loaded marks) := by
  obtain ⟨hown, hall⟩ := hok
  -- no token of an earlier reset is the one that is presented now
  have hnew : ∀ r ∈ s.resets, ∀ h, h = r.tokenHash ∨ h ∈ r.outstanding → c.tokenHash ≠ h := by
    rintro r hr h hh rfl
    exact (hs.spent r hr _ hh).not_presented hown hq rfl
  refine ⟨fun r hr h hh => ?_, ?_, ?_⟩
  · rcases mem_cons.mp hr with rfl | hr
    · have hmem : h ∈ unused s c.userId := by
        rcases hh with rfl | hh
        · exact hown
        · exact hh
      refine spent_commitReset P (s := s.drop _) hmem fun hlive => hall h hmem ?_
      rcases hlive with hrow | ⟨q, hq', hp⟩
      · exact .inl hrow
      · exact .inr ⟨q, mem_of_mem_erase hq', hp⟩
    · exact ((hs.spent r hr h hh).drop _).commitReset P
  · show (c.tokenHash :: s.resets.map (·.tokenHash)).Nodup
    refine nodup_cons.mpr ⟨fun hmem => ?_, hs.singleUse.1⟩
    obtain ⟨r, hr, heq⟩ := mem_map.mp hmem
    exact hnew r hr r.tokenHash (.inl rfl) heq.symm
  · show (_ :: s.resets).Pairwise _
    refine pairwise_cons.mpr ⟨fun r hr hmem => ?_, hs.singleUse.2⟩
    exact hnew r hr _ (.inr hmem) rfl

theorem Consumed.change {s t : System} {e : Event} (hs : Consumed s) (hok : ConsumesAll s e)
    (h : Change P s e t) : Consumed t := by
  rcases h with ⟨⟩ | ⟨seconds⟩ | ⟨⟩ | ⟨_, hfresh⟩ | ⟨⟩ | ⟨_, hrow, hhash, hunused, hexpires⟩ |
    ⟨hq, hpresents⟩ | ⟨⟩ | ⟨hq⟩ | ⟨hq⟩
  · exact hs
  · refine hs.congr rfl fun h hh => hh.mono rfl ?_ fun q hq hp => ⟨q, hq, hp⟩
    show s.now ≤ s.now + seconds
    omega
  · exact hs.congr rfl fun h hh => hh.mono rfl le_rfl fun q hq hp => ⟨q, hq, hp⟩
  · exact hs.congr rfl fun h hh => hh.issue hfresh
  · refine hs.congr rfl fun h hh => hh.mono rfl le_rfl fun q hq hp => ?_
    rcases mem_cons.mp hq with rfl | hq
    · cases hp
    · exact ⟨q, hq, hp⟩
  · refine hs.congr rfl fun h hh => hh.mono rfl le_rfl fun q hq hp => ?_
    rcases mem_cons.mp hq with rfl | hq
    · refine absurd ?_ (hh.ne_of_found hrow hunused hexpires)
      rw [hhash]
      exact Option.some_inj.mp hp
    · exact ⟨q, hq, hp⟩
  · refine hs.congr rfl fun h hh => hh.mono rfl le_rfl fun q hq' hp => ?_
    rcases mem_cons.mp hq' with rfl | hq'
    · exact ⟨_, hq, by rw [← hpresents, hp]⟩
    · exact ⟨q, mem_of_mem_erase hq', hp⟩
  · exact hs.congr rfl fun h hh => hh.drop _
  · exact hs.congr rfl fun h hh => (hh.drop _).mono rfl le_rfl fun q hq' hp => ⟨q, hq', hp⟩
  · exact hs.reset P hq hok

/-- **A reset token is used once**: in every run whose confirmations consume all that can still be
presented, no token sets two passwords, and none sets one that was outstanding when a reset of its
user committed. -/
theorem single_use {s₀ s : System} (h₀ : s₀.Initial) (hrun : Run (step P) ConsumesAll s₀ s) :
    SingleUse s := by
  refine (hrun.invariant (P := Consumed)
    (fun hs hok he => hs.change P hok (step_change P he)) ⟨?_, ?_⟩).singleUse
  · intro r hr
    rw [h₀.resets] at hr
    cases hr
  · unfold SingleUse
    rw [h₀.resets]
    exact ⟨nodup_nil, List.Pairwise.nil⟩

/-- The first confirmation of the runs below. -/
def firstConfirmation : Confirmation := ⟨"token", "first", 0, 0⟩

/-- A confirmation that presents the same token. -/
def secondConfirmation : Confirmation := ⟨"token", "second", 0, 0⟩

/-- A token is requested and sets a password. -/
theorem single_use_once :
    ∃ s, Run (step plainPlatform) ConsumesAll sampleSystem s ∧
      s.resets.map (·.tokenHash) = ["token".toList] ∧ SingleUse s := by
  have hnew : Run (step plainPlatform) ConsumesAll sampleSystem sampleSystem := .refl _
  have hread := (((hnew.tail (e := Event.requestReset 0 "token".toList) trivial rfl).tail
    (e := Event.confirmReset "token".toList "first".toList) trivial rfl).tail
    (e := Event.advance (.tokenRead firstConfirmation)) trivial rfl).tail
    (e := Event.advance (.userRead firstConfirmation sampleUser)) trivial rfl
  have hrun := hread.tail
    (e := Event.advance (.marked firstConfirmation sampleUser ["token".toList]))
    ⟨by decide, fun h hh _ => hh⟩ rfl
  exact ⟨_, hrun, rfl, single_use plainPlatform sampleSystem_initial hrun⟩

/-- **A token that is used twice**: both confirmations read it before either commits. -/
theorem single_use_overlap :
    ¬ ∀ (P : Platform) (s₀ s : System), s₀.Initial → Run (step P) (fun _ _ => True) s₀ s →
      SingleUse s := by
  intro h
  have hevents : [Event.requestReset 0 "token",
      .confirmReset "token" "first", .confirmReset "token" "second",
      .advance (.tokenRead firstConfirmation), .advance (.tokenRead secondConfirmation),
      .advance (.userRead firstConfirmation sampleUser),
      .advance (.marked firstConfirmation sampleUser ["token"]),
      .advance (.userRead secondConfirmation sampleUser),
      .advance (.marked secondConfirmation sampleUser [])].foldlM (step plainPlatform)
        sampleSystem = some _ := rfl
  have hrun := run_of_foldlM (fun _ _ => trivial) hevents
  have hnodup := (h _ _ _ sampleSystem_initial hrun).1
  revert hnodup
  decide

end Guardian.Auth

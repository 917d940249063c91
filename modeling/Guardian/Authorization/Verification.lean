import Guardian.Authorization.Recording

/-!
# The life of a domain verification

A check of a verification loads its record, looks for the proof outside, and writes at its end what
it concluded from the record it loaded.  A withdrawal of the verification does the same.  Neither
holds a lock, a queued check may be delivered more than once, and any number of them may be between
their first and their last step.  `revoked_withdrawn` gives the runs in which a withdrawal leaves no
authorization active.
-/

namespace Guardian.Authorization

open Python Transition List

variable (R : Runtime)

/-! ### The tables -/

/-- The status of a verification. -/
inductive Status
  | pending
  | verified
  | expired
  | failed
  | revoked
  deriving DecidableEq

/-- `DomainVerification`, without the columns that no step reads. -/
structure Verification where
  tenantId : Id
  customerId : Id
  domain : Str
  status : Status
  attempts : ℕ
  expiresAt : ℤ
  authorizationId : Option Id
  deriving DecidableEq

/-- An authorization that a check granted, and the verification it checked. -/
structure Grant where
  row : AuthorizationRow
  grantedBy : Id

/-- A check between its first and its last step: the record it loaded, and when. -/
structure CheckTask where
  verificationId : Id
  loaded : Verification
  startedAt : ℤ
  deriving DecidableEq

/-- A withdrawal between its first and its last step: the record it loaded, the authorization it is
going to revoke, and when. -/
structure RevokeTask where
  verificationId : Id
  loaded : Verification
  revokes : Option Id
  startedAt : ℤ
  deriving DecidableEq

/-- **The system**: the tables, the queue, what is under way, and the verifications whose withdrawal
has completed. -/
structure System where
  verifications : Id → Option Verification
  grants : Id → Option Grant
  queue : List Id
  checks : List CheckTask
  revokes : List RevokeTask
  revoked : List Id
  nextId : Id
  now : ℤ

/-! ### A check -/

/-- `DEFAULT_VALIDITY_DAYS`. -/
def defaultValidity : ℤ := 365 * day

/-- `MAX_ATTEMPTS`. -/
def maxAttempts : ℕ := 50

/-- What a check concludes. -/
inductive CheckOutcome
  | alreadyVerified
  | expired
  | failed
  | pending
  | verified
  deriving DecidableEq

/-- `check_domain_verification`, up to what it writes. -/
def CheckTask.outcome (task : CheckTask) (proven : Bool) : CheckOutcome :=
  if task.loaded.status = .verified then .alreadyVerified
  else if task.loaded.expiresAt ≤ task.startedAt then .expired
  else if maxAttempts ≤ task.loaded.attempts then .failed
  else if !proven then .pending
  else .verified

/-- The status after a task assigned one: the column is written if the value differs from the one
that was loaded. -/
def assignStatus (loaded assigned stored : Status) : Status :=
  if loaded = assigned then stored else assigned

/-- What a check writes to the stored record. -/
def CheckTask.write (task : CheckTask) (grantId : Id) (stored : Verification) :
    CheckOutcome → Verification
  | .alreadyVerified => stored
  | .expired => { stored with status := assignStatus task.loaded.status .expired stored.status }
  | .failed => { stored with status := assignStatus task.loaded.status .failed stored.status }
  | .pending => { stored with attempts := task.loaded.attempts + 1 }
  | .verified =>
    { stored with
      attempts := task.loaded.attempts + 1
      status := assignStatus task.loaded.status .verified stored.status
      authorizationId := some grantId }

/-- `_grant`. -/
def CheckTask.grant (task : CheckTask) (id : Id) : Grant where
  row :=
    { id := id
      tenantId := task.loaded.tenantId
      customerId := task.loaded.customerId
      assetId := none
      authorizedTargets := [some (Target.of "domain" task.loaded.domain)]
      method := .ownershipVerified
      validFrom := task.startedAt
      validUntil := task.loaded.expiresAt
      revokedAt := none }
  grantedBy := task.verificationId

/-- The system after a check has written its record. -/
def recordCheck (s : System) (task : CheckTask) (outcome : CheckOutcome) (stored : Verification) :
    System :=
  { s with
    checks := s.checks.erase task
    verifications := Function.update s.verifications task.verificationId
      (some (task.write s.nextId stored outcome)) }

def insertGrant (s : System) (g : Grant) : System :=
  { s with grants := Function.update s.grants s.nextId (some g), nextId := s.nextId + 1 }

/-- The last step of a check. -/
def commitCheck (s : System) (task : CheckTask) (proven : Bool) (stored : Verification) : System :=
  let outcome := task.outcome proven
  if outcome = .verified then
    insertGrant (recordCheck s task outcome stored) (task.grant s.nextId)
  else recordCheck s task outcome stored

/-! ### A withdrawal -/

/-- An authorization that is revoked. -/
def Grant.revoke (instant : ℤ) (g : Grant) : Grant :=
  { g with row := { g.row with revokedAt := some instant } }

/-- The authorization that a withdrawal is going to revoke: the one on record, unless it is revoked. -/
def recordedUnrevoked (s : System) (loaded : Verification) : Option Id :=
  loaded.authorizationId.filter fun id =>
    (s.grants id).any fun g => decide (g.row.revokedAt = none)

def revokeIn (grants : Id → Option Grant) (instant : ℤ) : Option Id → Id → Option Grant
  | none => grants
  | some id => Function.update grants id ((grants id).map (Grant.revoke instant))

/-- The last step of `revoke_verification`. -/
def commitRevoke (s : System) (task : RevokeTask) (stored : Verification) : System :=
  { s with
    revokes := s.revokes.erase task
    verifications := Function.update s.verifications task.verificationId
      (some { stored with
              status := assignStatus task.loaded.status .revoked stored.status })
    grants := revokeIn s.grants task.startedAt task.revokes
    revoked := task.verificationId :: s.revoked }

/-! ### The steps -/

/-- What happens to the system.  The first argument of a request is the tenant of who makes it. -/
inductive Event
  | create (tenantId customerId : Id) (domain : Str)
  | requestCheck (tenantId verificationId : Id)
  | startCheck (verificationId : Id)
  | commitCheck (task : CheckTask) (proven : Bool)
  | abortCheck (task : CheckTask)
  | acknowledge (verificationId : Id)
  | startRevoke (tenantId verificationId : Id)
  | commitRevoke (task : RevokeTask)
  | abortRevoke (task : RevokeTask)
  | revokeAuthorization (tenantId authorizationId : Id)
  | wait (time : ℕ)

def System.find (s : System) (tenantId verificationId : Id) : Option Verification :=
  (s.verifications verificationId).filter fun w => decide (w.tenantId = tenantId)

/-- **One step.** -/
def step (s : System) : Event → Option System
  | .create tenantId customerId domain =>
    match normalizeDomain R domain with
    | .error _ => some s
    | .ok d =>
      some { s with
             verifications := Function.update s.verifications s.nextId
               (some ⟨tenantId, customerId, d, .pending, 0, s.now + defaultValidity, none⟩)
             nextId := s.nextId + 1 }
  | .requestCheck tenantId v =>
    match s.find tenantId v with
    | none => some s
    | some w => some (if w.status = .verified then s else { s with queue := v :: s.queue })
  | .startCheck v =>
    -- the entry stays in the queue until it is acknowledged
    if v ∈ s.queue then
      match s.verifications v with
      | none => some s
      | some w => some { s with checks := ⟨v, w, s.now⟩ :: s.checks }
    else none
  | .commitCheck task proven =>
    if task ∈ s.checks then
      (s.verifications task.verificationId).map (Authorization.commitCheck s task proven)
    else none
  | .abortCheck task => some { s with checks := s.checks.erase task }
  | .acknowledge v => some { s with queue := s.queue.erase v }
  | .startRevoke tenantId v =>
    match s.find tenantId v with
    | none => some s
    | some w => some { s with revokes := ⟨v, w, recordedUnrevoked s w, s.now⟩ :: s.revokes }
  | .commitRevoke task =>
    if task ∈ s.revokes then
      (s.verifications task.verificationId).map (Authorization.commitRevoke s task)
    else none
  | .abortRevoke task => some { s with revokes := s.revokes.erase task }
  | .revokeAuthorization tenantId id =>
    match s.grants id with
    | none => some s
    | some g =>
      some (if g.row.tenantId = tenantId ∧ g.row.revokedAt = none then
        { s with grants := revokeIn s.grants s.now (some id) } else s)
  | .wait time => some { s with now := s.now + time }

/-- The system before the first verification. -/
def System.empty (now : ℤ) : System where
  verifications _ := none
  grants _ := none
  queue := []
  checks := []
  revokes := []
  revoked := []
  nextId := 0
  now := now

/-! ### What a withdrawal promises -/

/-- **A withdrawal withdraws**: once it has completed, no authorization that a check of the
verification granted is active. -/
def Withdrawn (s : System) : Prop :=
  ∀ v ∈ s.revoked, ∀ id g, s.grants id = some g → g.grantedBy = v → g.row.view.active s.now = false

/-- The authorization is neither revoked nor expired. -/
def Live (s : System) (g : Grant) : Prop := g.row.revokedAt = none ∧ s.now ≤ g.row.validUntil

/-- A check that grants if it finds the proof. -/
def CheckTask.Grants (task : CheckTask) : Prop :=
  task.loaded.status ≠ .verified ∧ task.startedAt < task.loaded.expiresAt ∧
    task.loaded.attempts < maxAttempts

/-- **The condition on a step**: when a check commits a grant that has not expired yet, the
authorization then on record is not live, and no withdrawal of the verification is under way or
has completed. -/
def Orderly (s : System) : Event → Prop
  | .commitCheck task true =>
    task.Grants → s.now ≤ task.loaded.expiresAt →
      (∀ w id g, s.verifications task.verificationId = some w → w.authorizationId = some id →
        s.grants id = some g → ¬ Live s g) ∧
      (∀ r ∈ s.revokes, r.verificationId ≠ task.verificationId) ∧
      task.verificationId ∉ s.revoked
  | _ => True

/-- The system `t` has everything that `s` has. -/
structure Extends (s t : System) : Prop where
  verifications : ∀ v w, s.verifications v = some w →
    ∃ w', t.verifications v = some w' ∧ w'.expiresAt = w.expiresAt
  grants : ∀ id g, s.grants id = some g → ∃ g', t.grants id = some g' ∧ g'.grantedBy = g.grantedBy
  nextId : s.nextId ≤ t.nextId
  now : s.now ≤ t.now

/-- The verification is stored with this expiry. -/
def OnFile (s : System) (v : Id) (expiresAt : ℤ) : Prop :=
  ∃ w, s.verifications v = some w ∧ w.expiresAt = expiresAt

/-- **What holds in every run**: ids are given out once, nothing began after now, and an
authorization ends with its verification. -/
structure WellFormed (s : System) : Prop where
  fresh : ∀ v, s.nextId ≤ v → s.verifications v = none
  grants : ∀ id g, s.grants id = some g →
    id < s.nextId ∧ g.row.validFrom ≤ s.now ∧ OnFile s g.grantedBy g.row.validUntil
  checks : ∀ task ∈ s.checks,
    task.startedAt ≤ s.now ∧ OnFile s task.verificationId task.loaded.expiresAt
  revokes : ∀ r ∈ s.revokes, (∀ id, r.revokes = some id → id < s.nextId) ∧
    ∃ expiresAt, OnFile s r.verificationId expiresAt
  recorded : ∀ v w id, s.verifications v = some w → w.authorizationId = some id →
    ∃ g, s.grants id = some g ∧ g.grantedBy = v

/-- **The invariant of orderly runs**: a live authorization is the one on record, a withdrawal under
way is going to revoke it, and none has completed. -/
structure OnRecord (s : System) : Prop where
  recorded : ∀ id g, s.grants id = some g → Live s g →
    ∃ w, s.verifications g.grantedBy = some w ∧ w.authorizationId = some id
  underWay : ∀ r ∈ s.revokes, ∀ id g, s.grants id = some g → Live s g →
    g.grantedBy = r.verificationId → r.revokes = some id
  completed : ∀ v ∈ s.revoked, ∀ id g, s.grants id = some g → Live s g → g.grantedBy ≠ v

variable {R}

/-! ### What holds in every run -/

theorem WellFormed.empty (now : ℤ) : WellFormed (System.empty now) := by
  refine ⟨fun _ _ => rfl, ?_, ?_, ?_, ?_⟩
  · rintro id g ⟨⟩
  · rintro task ⟨⟩
  · rintro r ⟨⟩
  · rintro v w id ⟨⟩

variable {s t : System} {w stored : Verification} {grants : Id → Option Grant} {g : Grant}
  {revokes : Option Id} {id : Id}

theorem OnFile.mono (h : Extends s t) {v : Id} {expiresAt : ℤ}
    (hv : OnFile s v expiresAt) : OnFile t v expiresAt := by
  obtain ⟨w, hw, hend⟩ := hv
  obtain ⟨w', hw', hend'⟩ := h.verifications v w hw
  exact ⟨w', hw', hend'.trans hend⟩

theorem WellFormed.lt (h : WellFormed s) {v : Id}
    (hw : s.verifications v = some w) : v < s.nextId := by
  by_contra hle
  rw [h.fresh v (Nat.le_of_not_lt hle)] at hw
  cases hw

/-- Everything old stays well formed: what is left to show is about what is new. -/
theorem WellFormed.extend (h : WellFormed s) (hext : Extends s t)
    (hfresh : ∀ v, t.nextId ≤ v → t.verifications v = s.verifications v)
    (hgrants : ∀ id g, t.grants id = some g → (∃ g₀, s.grants id = some g₀ ∧
      g.grantedBy = g₀.grantedBy ∧ g.row.validFrom = g₀.row.validFrom ∧
      g.row.validUntil = g₀.row.validUntil) ∨
      (id < t.nextId ∧ g.row.validFrom ≤ t.now ∧ OnFile t g.grantedBy g.row.validUntil))
    (hchecks : ∀ task ∈ t.checks, task ∈ s.checks ∨
      (task.startedAt ≤ t.now ∧ OnFile t task.verificationId task.loaded.expiresAt))
    (hrevokes : ∀ r ∈ t.revokes, r ∈ s.revokes ∨ ((∀ id, r.revokes = some id → id < t.nextId) ∧
      ∃ expiresAt, OnFile t r.verificationId expiresAt))
    (hrecorded : ∀ v w id, t.verifications v = some w → w.authorizationId = some id →
      (∃ w₀, s.verifications v = some w₀ ∧ w₀.authorizationId = some id) ∨
      ∃ g, t.grants id = some g ∧ g.grantedBy = v) : WellFormed t := by
  refine ⟨?_, ?_, ?_, ?_, ?_⟩
  · intro v hv
    rw [hfresh v hv, h.fresh v (Nat.le_trans hext.nextId hv)]
  · intro id g hg
    rcases hgrants id g hg with ⟨g₀, hg₀, hby, hfrom, huntil⟩ | hnew
    · obtain ⟨hlt, hle, hfile⟩ := h.grants id g₀ hg₀
      rw [hby, hfrom, huntil]
      exact ⟨Nat.lt_of_lt_of_le hlt hext.nextId, hle.trans hext.now, hfile.mono hext⟩
    · exact hnew
  · intro task htask
    rcases hchecks task htask with hold | hnew
    · obtain ⟨hle, hfile⟩ := h.checks task hold
      exact ⟨hle.trans hext.now, hfile.mono hext⟩
    · exact hnew
  · intro r hr
    rcases hrevokes r hr with hold | hnew
    · obtain ⟨hlt, expiresAt, hfile⟩ := h.revokes r hold
      exact ⟨fun id hid => Nat.lt_of_lt_of_le (hlt id hid) hext.nextId, expiresAt, hfile.mono hext⟩
    · exact hnew
  · intro v w id hw hid
    rcases hrecorded v w id hw hid with ⟨w₀, hw₀, hid₀⟩ | hnew
    · obtain ⟨g, hg, hby⟩ := h.recorded v w₀ id hw₀ hid₀
      obtain ⟨g', hg', hby'⟩ := hext.grants id g hg
      exact ⟨g', hg', hby'.trans hby⟩
    · exact hnew

/-! ### The parts of a step -/

theorem CheckTask.outcome_verified {task : CheckTask} {proven : Bool} :
    task.outcome proven = .verified ↔ task.Grants ∧ proven = true := by
  unfold CheckTask.outcome CheckTask.Grants
  split_ifs with hverified hexpired hattempts hproven
  · simp [hverified]
  · simp only [false_iff]
    omega
  · simp only [false_iff]
    omega
  · refine iff_of_false (fun h => nomatch h) fun h => ?_
    rw [h.2] at hproven
    cases hproven
  · have : proven = true := by simpa using hproven
    simp only [true_iff]
    exact ⟨⟨hverified, by omega, by omega⟩, this⟩

theorem CheckTask.write_expiresAt (task : CheckTask) (id : Id) (stored : Verification)
    (outcome : CheckOutcome) : (task.write id stored outcome).expiresAt = stored.expiresAt := by
  cases outcome <;> rfl

theorem CheckTask.write_authorizationId (task : CheckTask) (id : Id) (stored : Verification)
    (outcome : CheckOutcome) : (task.write id stored outcome).authorizationId =
      if outcome = .verified then some id else stored.authorizationId := by
  cases outcome <;> rfl

theorem of_revokeIn {instant : ℤ} (hg : revokeIn grants instant revokes id = some g) :
    (grants id = some g ∧ revokes ≠ some id) ∨
      ∃ g₀, grants id = some g₀ ∧ g = g₀.revoke instant := by
  cases revokes with
  | none => exact Or.inl ⟨hg, fun h => nomatch h⟩
  | some id' =>
    rw [revokeIn] at hg
    by_cases hid : id = id'
    · rw [hid, Function.update_self] at hg
      obtain ⟨g₀, hg₀, rfl⟩ := Option.map_eq_some_iff.mp hg
      exact Or.inr ⟨g₀, hid ▸ hg₀, rfl⟩
    · rw [Function.update_of_ne hid] at hg
      exact Or.inl ⟨hg, fun h => hid (Option.some.inj h).symm⟩

theorem revokeIn_some (instant : ℤ) (revokes : Option Id) (hg : grants id = some g) :
    ∃ g', revokeIn grants instant revokes id = some g' ∧ g'.grantedBy = g.grantedBy := by
  cases revokes with
  | none => exact ⟨g, hg, rfl⟩
  | some id' =>
    rw [revokeIn]
    by_cases hid : id = id'
    · rw [← hid, Function.update_self, hg]
      exact ⟨_, rfl, rfl⟩
    · rw [Function.update_of_ne hid]
      exact ⟨g, hg, rfl⟩

theorem of_update {A : Type} {f : Id → Option A} {i j : Id} {x y : A}
    (h : Function.update f i (some x) j = some y) : j = i ∧ y = x ∨ f j = some y := by
  by_cases hj : j = i
  · rw [hj, Function.update_self] at h
    exact Or.inl ⟨hj, (Option.some.inj h).symm⟩
  · rw [Function.update_of_ne hj] at h
    exact Or.inr h

theorem update_verifications {A : Type} (f : Verification → A) {v : Id} {w' : Verification}
    (hw : s.verifications v = some w) (hkeep : f w' = f w) :
    ∀ u x, s.verifications u = some x →
      ∃ x', Function.update s.verifications v (some w') u = some x' ∧ f x' = f x := by
  intro u x hx
  by_cases huv : u = v
  · rw [huv] at hx ⊢
    cases hw.symm.trans hx
    exact ⟨w', Function.update_self .., hkeep⟩
  · exact ⟨x, (Function.update_of_ne huv _ _).trans hx, rfl⟩

theorem WellFormed.commitCheck (h : WellFormed s) {task : CheckTask} {proven : Bool}
    (htask : task ∈ s.checks)
    (hstored : s.verifications task.verificationId = some stored) :
    WellFormed (Authorization.commitCheck s task proven stored) := by
  have hverifications := update_verifications Verification.expiresAt hstored
    (task.write_expiresAt s.nextId stored (task.outcome proven))
  have hfresh : ∀ v, s.nextId ≤ v → Function.update s.verifications task.verificationId
      (some (task.write s.nextId stored (task.outcome proven))) v = s.verifications v := by
    intro v hv
    exact Function.update_of_ne (Nat.ne_of_gt (Nat.lt_of_lt_of_le (h.lt hstored) hv)) _ _
  have hwrite := task.write_authorizationId s.nextId stored (task.outcome proven)
  unfold Authorization.commitCheck
  dsimp only
  split_ifs with houtcome
  · rw [if_pos houtcome] at hwrite
    have hgrants : ∀ id g, s.grants id = some g →
        Function.update s.grants s.nextId (some (task.grant s.nextId)) id = some g := by
      intro id g hg
      exact (Function.update_of_ne (Nat.ne_of_lt (h.grants id g hg).1) _ _).trans hg
    have hext : Extends s (insertGrant (recordCheck s task (task.outcome proven) stored)
        (task.grant s.nextId)) :=
      ⟨hverifications, fun id g hg => ⟨g, hgrants id g hg, rfl⟩, Nat.le_succ _, le_rfl⟩
    refine h.extend hext (fun v hv => hfresh v (Nat.le_of_succ_le hv)) ?_
      (fun _ ht => Or.inl (mem_of_mem_erase ht)) (fun _ hr => Or.inl hr) ?_
    · intro id g hg
      rcases of_update hg with ⟨rfl, rfl⟩ | hg
      · obtain ⟨hle, hfile⟩ := h.checks task htask
        exact Or.inr ⟨Nat.lt_succ_self _, hle, hfile.mono hext⟩
      · exact Or.inl ⟨g, hg, rfl, rfl, rfl⟩
    · intro v w id hw hid
      rcases of_update hw with ⟨rfl, rfl⟩ | hw
      · cases hwrite.symm.trans hid
        exact Or.inr ⟨_, Function.update_self .., rfl⟩
      · exact Or.inl ⟨w, hw, hid⟩
  · rw [if_neg houtcome] at hwrite
    refine h.extend ⟨hverifications, fun id g hg => ⟨g, hg, rfl⟩, le_rfl, le_rfl⟩ hfresh
      (fun id g hg => Or.inl ⟨g, hg, rfl, rfl, rfl⟩)
      (fun _ ht => Or.inl (mem_of_mem_erase ht)) (fun _ hr => Or.inl hr) ?_
    intro v w id hw hid
    rcases of_update hw with ⟨rfl, rfl⟩ | hw
    · exact Or.inl ⟨stored, hstored, hwrite.symm.trans hid⟩
    · exact Or.inl ⟨w, hw, hid⟩

theorem revokeIn_dated {instant : ℤ} (hg : revokeIn grants instant revokes id = some g) :
    ∃ g₀, grants id = some g₀ ∧ g.grantedBy = g₀.grantedBy ∧
      g.row.validFrom = g₀.row.validFrom ∧ g.row.validUntil = g₀.row.validUntil := by
  rcases of_revokeIn hg with ⟨hg, -⟩ | ⟨g₀, hg₀, rfl⟩
  · exact ⟨g, hg, rfl, rfl, rfl⟩
  · exact ⟨g₀, hg₀, rfl, rfl, rfl⟩

theorem WellFormed.commitRevoke (h : WellFormed s) (task : RevokeTask)
    (hstored : s.verifications task.verificationId = some stored) :
    WellFormed (Authorization.commitRevoke s task stored) := by
  refine h.extend
    ⟨update_verifications Verification.expiresAt hstored rfl,
      fun id g hg => revokeIn_some _ _ hg, le_rfl, le_rfl⟩ ?_
    (fun id g hg => Or.inl (revokeIn_dated hg)) (fun _ ht => Or.inl ht)
    (fun _ hr => Or.inl (mem_of_mem_erase hr)) ?_
  · intro v hv
    exact Function.update_of_ne (Nat.ne_of_gt (Nat.lt_of_lt_of_le (h.lt hstored) hv)) _ _
  · intro v w id hw hid
    rcases of_update hw with ⟨rfl, rfl⟩ | hw
    · exact Or.inl ⟨stored, hstored, hid⟩
    · exact Or.inl ⟨w, hw, hid⟩

theorem WellFormed.of_tables (h : WellFormed s)
    (hverifications : t.verifications = s.verifications) (hgrants : t.grants = s.grants)
    (hnext : t.nextId = s.nextId) (hnow : s.now ≤ t.now)
    (hchecks : ∀ task ∈ t.checks, task ∈ s.checks ∨ (task.startedAt ≤ s.now ∧
      OnFile s task.verificationId task.loaded.expiresAt))
    (hrevokes : ∀ r ∈ t.revokes, r ∈ s.revokes ∨ ((∀ id, r.revokes = some id → id < s.nextId) ∧
      ∃ expiresAt, OnFile s r.verificationId expiresAt)) : WellFormed t := by
  have hext : Extends s t := by
    refine ⟨?_, ?_, hnext.ge, hnow⟩
    · intro v w hw
      exact ⟨w, hverifications ▸ hw, rfl⟩
    · intro id g hg
      exact ⟨g, hgrants ▸ hg, rfl⟩
  refine h.extend hext (fun v _ => by rw [hverifications]) ?_ ?_ ?_ ?_
  · intro id g hg
    exact Or.inl ⟨g, hgrants ▸ hg, rfl, rfl, rfl⟩
  · intro task htask
    refine (hchecks task htask).imp_right ?_
    rintro ⟨hle, hfile⟩
    exact ⟨hle.trans hnow, hfile.mono hext⟩
  · intro r hr
    refine (hrevokes r hr).imp_right ?_
    rintro ⟨hlt, expiresAt, hfile⟩
    exact ⟨fun id hid => hnext ▸ hlt id hid, expiresAt, hfile.mono hext⟩
  · intro v w id hw hid
    exact Or.inl ⟨w, hverifications ▸ hw, hid⟩

theorem find_spec {tenantId v : Id} (h : s.find tenantId v = some w) : s.verifications v = some w :=
  (Option.filter_eq_some_iff.mp h).1

theorem recordedUnrevoked_spec :
    recordedUnrevoked s w = some id ↔
      w.authorizationId = some id ∧ ∃ g, s.grants id = some g ∧ g.row.revokedAt = none := by
  unfold recordedUnrevoked
  rw [Option.filter_eq_some_iff, Option.any_eq_true]
  simp only [decide_eq_true_eq]

theorem WellFormed.create (h : WellFormed s) (hnone : w.authorizationId = none) :
    WellFormed { s with
                 verifications := Function.update s.verifications s.nextId (some w)
                 nextId := s.nextId + 1 } := by
  have hold : ∀ v x, s.verifications v = some x →
      Function.update s.verifications s.nextId (some w) v = some x := by
    intro v x hx
    exact (Function.update_of_ne (Nat.ne_of_lt (h.lt hx)) _ _).trans hx
  refine h.extend ⟨fun v x hx => ⟨x, hold v x hx, rfl⟩, fun id g hg => ⟨g, hg, rfl⟩, Nat.le_succ _,
    le_rfl⟩ ?_ (fun id g hg => Or.inl ⟨g, hg, rfl, rfl, rfl⟩) (fun _ ht => Or.inl ht)
    (fun _ hr => Or.inl hr) ?_
  · intro v hv
    exact Function.update_of_ne (Nat.ne_of_gt hv) _ _
  · intro v x id hx hid
    rcases of_update hx with ⟨-, rfl⟩ | hx
    · cases hnone.symm.trans hid
    · exact Or.inl ⟨x, hx, hid⟩

/-- **What a step does**: nothing, or the change that its event makes. -/
inductive Moves (s : System) : Event → System → Prop
  | idle (e : Event) : Moves s e s
  | create (tenantId customerId : Id) (domain d : Str) :
    Moves s (.create tenantId customerId domain)
      { s with
        verifications := Function.update s.verifications s.nextId
          (some ⟨tenantId, customerId, d, .pending, 0, s.now + defaultValidity, none⟩)
        nextId := s.nextId + 1 }
  | requestCheck (tenantId v : Id) :
    Moves s (.requestCheck tenantId v) { s with queue := v :: s.queue }
  | startCheck {v : Id} {w : Verification} (hw : s.verifications v = some w) :
    Moves s (.startCheck v) { s with checks := ⟨v, w, s.now⟩ :: s.checks }
  | commitCheck {task : CheckTask} {proven : Bool} {stored : Verification} (htask : task ∈ s.checks)
    (hstored : s.verifications task.verificationId = some stored) :
    Moves s (.commitCheck task proven) (commitCheck s task proven stored)
  | abortCheck (task : CheckTask) :
    Moves s (.abortCheck task) { s with checks := s.checks.erase task }
  | acknowledge (v : Id) : Moves s (.acknowledge v) { s with queue := s.queue.erase v }
  | startRevoke {tenantId v : Id} {w : Verification} (hw : s.verifications v = some w) :
    Moves s (.startRevoke tenantId v)
      { s with revokes := ⟨v, w, recordedUnrevoked s w, s.now⟩ :: s.revokes }
  | commitRevoke {task : RevokeTask} {stored : Verification} (htask : task ∈ s.revokes)
    (hstored : s.verifications task.verificationId = some stored) :
    Moves s (.commitRevoke task) (commitRevoke s task stored)
  | abortRevoke (task : RevokeTask) :
    Moves s (.abortRevoke task) { s with revokes := s.revokes.erase task }
  | revokeAuthorization (tenantId id : Id) :
    Moves s (.revokeAuthorization tenantId id) { s with grants := revokeIn s.grants s.now (some id) }
  | wait (time : ℕ) : Moves s (.wait time) { s with now := s.now + time }

theorem moves_of_step {e : Event} (he : step R s e = some t) : Moves s e t := by
  cases e with
  | create tenantId customerId domain =>
    rw [step] at he
    split at he
    · cases he
      exact .idle _
    · cases he
      exact .create _ _ _ _
  | requestCheck tenantId v =>
    rw [step] at he
    split at he
    · cases he
      exact .idle _
    · cases he
      split_ifs
      · exact .idle _
      · exact .requestCheck _ _
  | startCheck v =>
    rw [step] at he
    split_ifs at he
    split at he
    · cases he
      exact .idle _
    · next w hw =>
      cases he
      exact .startCheck hw
  | commitCheck task proven =>
    rw [step] at he
    split_ifs at he with htask
    obtain ⟨stored, hstored, rfl⟩ := Option.map_eq_some_iff.mp he
    exact .commitCheck htask hstored
  | abortCheck task =>
    cases he
    exact .abortCheck _
  | acknowledge v =>
    cases he
    exact .acknowledge _
  | startRevoke tenantId v =>
    rw [step] at he
    split at he
    · cases he
      exact .idle _
    · next w hw =>
      cases he
      exact .startRevoke (find_spec hw)
  | commitRevoke task =>
    rw [step] at he
    split_ifs at he with htask
    obtain ⟨stored, hstored, rfl⟩ := Option.map_eq_some_iff.mp he
    exact .commitRevoke htask hstored
  | abortRevoke task =>
    cases he
    exact .abortRevoke _
  | revokeAuthorization tenantId id =>
    rw [step] at he
    split at he
    · cases he
      exact .idle _
    · cases he
      split_ifs
      · exact .revokeAuthorization _ _
      · exact .idle _
  | wait time =>
    cases he
    exact .wait _

/-- **One step keeps the system well formed.** -/
theorem WellFormed.step {e : Event} (h : WellFormed s) (he : step R s e = some t) :
    WellFormed t := by
  cases moves_of_step he with
  | idle => exact h
  | create => exact h.create rfl
  | requestCheck =>
    exact h.of_tables rfl rfl rfl le_rfl (fun _ ht => Or.inl ht) fun _ hr => Or.inl hr
  | startCheck hw =>
    refine h.of_tables rfl rfl rfl le_rfl ?_ fun _ hr => Or.inl hr
    intro task htask
    rcases mem_cons.mp htask with rfl | htask
    · exact Or.inr ⟨le_rfl, _, hw, rfl⟩
    · exact Or.inl htask
  | commitCheck htask hstored => exact h.commitCheck htask hstored
  | abortCheck =>
    exact h.of_tables rfl rfl rfl le_rfl (fun _ ht => Or.inl (mem_of_mem_erase ht))
      fun _ hr => Or.inl hr
  | acknowledge =>
    exact h.of_tables rfl rfl rfl le_rfl (fun _ ht => Or.inl ht) fun _ hr => Or.inl hr
  | startRevoke hw =>
    refine h.of_tables rfl rfl rfl le_rfl (fun _ ht => Or.inl ht) ?_
    intro r hr
    rcases mem_cons.mp hr with rfl | hr
    · refine Or.inr ⟨?_, _, _, hw, rfl⟩
      intro id hid
      obtain ⟨-, g, hg, -⟩ := recordedUnrevoked_spec.mp hid
      exact (h.grants id g hg).1
    · exact Or.inl hr
  | commitRevoke _ hstored => exact h.commitRevoke _ hstored
  | abortRevoke =>
    exact h.of_tables rfl rfl rfl le_rfl (fun _ ht => Or.inl ht)
      fun _ hr => Or.inl (mem_of_mem_erase hr)
  | revokeAuthorization tenantId id =>
    exact h.extend ⟨fun v w hw => ⟨w, hw, rfl⟩,
      fun _ _ hg => revokeIn_some s.now (some id) hg, le_rfl, le_rfl⟩ (fun _ _ => rfl)
      (fun i g hg => Or.inl (revokeIn_dated (show revokeIn _ _ (some id) i = some g from hg)))
      (fun _ ht => Or.inl ht) (fun _ hr => Or.inl hr)
      fun v w id hw hid => Or.inl ⟨w, hw, hid⟩
  | wait time =>
    exact h.of_tables rfl rfl rfl (Int.le_add_of_nonneg_right (Int.natCast_nonneg time))
      (fun _ ht => Or.inl ht) fun _ hr => Or.inl hr

/-! ### What holds in orderly runs -/

theorem OnRecord.empty (now : ℤ) : OnRecord (System.empty now) := by
  refine ⟨?_, ?_, ?_⟩
  · rintro id g ⟨⟩
  · rintro r ⟨⟩
  · rintro v ⟨⟩

theorem OnRecord.frame (h : OnRecord s)
    (hgrants : ∀ id g, t.grants id = some g → Live t g → s.grants id = some g ∧ Live s g)
    (hrecorded : ∀ v w, s.verifications v = some w →
      ∃ w', t.verifications v = some w' ∧ w'.authorizationId = w.authorizationId)
    (hrevokes : t.revokes ⊆ s.revokes) (hrevoked : t.revoked ⊆ s.revoked) : OnRecord t := by
  refine ⟨?_, ?_, ?_⟩
  · intro id g hg hlive
    obtain ⟨hg, hlive⟩ := hgrants id g hg hlive
    obtain ⟨w, hw, hid⟩ := h.recorded id g hg hlive
    obtain ⟨w', hw', hid'⟩ := hrecorded _ w hw
    exact ⟨w', hw', hid'.trans hid⟩
  · intro r hr id g hg hlive
    obtain ⟨hg, hlive⟩ := hgrants id g hg hlive
    exact h.underWay r (hrevokes hr) id g hg hlive
  · intro v hv id g hg hlive
    obtain ⟨hg, hlive⟩ := hgrants id g hg hlive
    exact h.completed v (hrevoked hv) id g hg hlive

theorem OnRecord.grantedBy_ne (h : OnRecord s) (hwf : WellFormed s) {task : CheckTask}
    (htask : task ∈ s.checks) (hgrants : task.Grants) (hok : Orderly s (.commitCheck task true))
    (hg : s.grants id = some g) (hlive : Live s g) :
    g.grantedBy ≠ task.verificationId := by
  intro hby
  obtain ⟨w, hw, hid⟩ := h.recorded id g hg hlive
  obtain ⟨-, -, w₁, hw₁, huntil⟩ := hwf.grants id g hg
  obtain ⟨-, w₂, hw₂, hend⟩ := hwf.checks task htask
  rw [hby] at hw hw₁
  cases hw₁.symm.trans hw₂
  have hle : s.now ≤ task.loaded.expiresAt := hend ▸ huntil ▸ hlive.2
  exact (hok hgrants hle).1 w id g hw hid hg hlive

theorem OnRecord.commitCheck (h : OnRecord s) (hwf : WellFormed s) {task : CheckTask}
    {proven : Bool} (htask : task ∈ s.checks)
    (hstored : s.verifications task.verificationId = some stored)
    (hok : Orderly s (.commitCheck task proven)) :
    OnRecord (Authorization.commitCheck s task proven stored) := by
  have hwrite := task.write_authorizationId s.nextId stored (task.outcome proven)
  unfold Authorization.commitCheck
  dsimp only
  split_ifs with houtcome
  swap
  · rw [if_neg houtcome] at hwrite
    exact h.frame (fun _ _ hg hlive => ⟨hg, hlive⟩)
      (update_verifications Verification.authorizationId hstored hwrite)
      (fun _ hr => hr) fun _ hv => hv
  rw [if_pos houtcome] at hwrite
  obtain ⟨hgrants, rfl⟩ := CheckTask.outcome_verified.mp houtcome
  refine ⟨?_, ?_, ?_⟩
  · intro id g hg hlive
    rcases of_update hg with ⟨rfl, rfl⟩ | hold
    · exact ⟨_, Function.update_self .., hwrite⟩
    · obtain ⟨w, hw, hid⟩ := h.recorded id g hold hlive
      have hne := h.grantedBy_ne hwf htask hgrants hok hold hlive
      exact ⟨w, (Function.update_of_ne hne _ _).trans hw, hid⟩
  · intro r hr id g hg hlive hby
    rcases of_update hg with ⟨rfl, rfl⟩ | hold
    · exact absurd hby.symm ((hok hgrants hlive.2).2.1 r hr)
    · exact h.underWay r hr id g hold hlive hby
  · intro v hv id g hg hlive hby
    rcases of_update hg with ⟨rfl, rfl⟩ | hold
    · rw [← hby] at hv
      exact (hok hgrants hlive.2).2.2 hv
    · exact h.completed v hv id g hold hlive hby

theorem live_of_revokeIn {instant : ℤ}
    (hg : revokeIn s.grants instant revokes id = some g) (hlive : Live t g) (hnow : t.now = s.now) :
    s.grants id = some g ∧ Live s g ∧ revokes ≠ some id := by
  rcases of_revokeIn hg with ⟨hold, hne⟩ | ⟨g₀, -, rfl⟩
  · exact ⟨hold, ⟨hlive.1, hnow ▸ hlive.2⟩, hne⟩
  · cases hlive.1

theorem OnRecord.commitRevoke (h : OnRecord s) {task : RevokeTask} (htask : task ∈ s.revokes)
    (hstored : s.verifications task.verificationId = some stored) :
    OnRecord (Authorization.commitRevoke s task stored) := by
  have hgrants : ∀ id g, (Authorization.commitRevoke s task stored).grants id = some g →
      Live (Authorization.commitRevoke s task stored) g →
      s.grants id = some g ∧ Live s g ∧ task.revokes ≠ some id :=
    fun id g hg hlive => live_of_revokeIn hg hlive rfl
  have hframe : OnRecord { Authorization.commitRevoke s task stored with revoked := s.revoked } :=
    h.frame (fun id g hg hlive => (hgrants id g hg hlive).imp_right And.left)
      (update_verifications Verification.authorizationId hstored rfl) (erase_subset ..) fun _ hv => hv
  refine ⟨hframe.recorded, hframe.underWay, ?_⟩
  intro v hv id g hg hlive hby
  rcases mem_cons.mp hv with rfl | hv
  · obtain ⟨hold, hlive', hne⟩ := hgrants id g hg hlive
    exact hne (h.underWay task htask id g hold hlive' hby)
  · exact hframe.completed v hv id g hg hlive hby

theorem OnRecord.startRevoke (h : OnRecord s) {v : Id} (hw : s.verifications v = some w) :
    OnRecord { s with revokes := ⟨v, w, recordedUnrevoked s w, s.now⟩ :: s.revokes } := by
  refine ⟨h.recorded, ?_, h.completed⟩
  intro r hr id g hg hlive hby
  rcases mem_cons.mp hr with rfl | hr
  · obtain ⟨w', hw', hid⟩ := h.recorded id g hg hlive
    rw [hby] at hw'
    cases hw.symm.trans hw'
    exact recordedUnrevoked_spec.mpr ⟨hid, g, hg, hlive.1⟩
  · exact h.underWay r hr id g hg hlive hby

/-- **One orderly step keeps the invariant.** -/
theorem OnRecord.step {e : Event} (h : OnRecord s) (hwf : WellFormed s)
    (hok : Orderly s e) (he : step R s e = some t) : OnRecord t := by
  cases moves_of_step he with
  | idle => exact h
  | create =>
    refine h.frame (fun _ _ hg hlive => ⟨hg, hlive⟩) ?_ (fun _ hr => hr) fun _ hv => hv
    intro v w hw
    exact ⟨w, (Function.update_of_ne (Nat.ne_of_lt (hwf.lt hw)) _ _).trans hw, rfl⟩
  | requestCheck => exact ⟨h.recorded, h.underWay, h.completed⟩
  | startCheck => exact ⟨h.recorded, h.underWay, h.completed⟩
  | commitCheck htask hstored => exact h.commitCheck hwf htask hstored hok
  | abortCheck => exact ⟨h.recorded, h.underWay, h.completed⟩
  | acknowledge => exact ⟨h.recorded, h.underWay, h.completed⟩
  | startRevoke hw => exact h.startRevoke hw
  | commitRevoke htask hstored => exact h.commitRevoke htask hstored
  | abortRevoke =>
    exact ⟨h.recorded, fun r hr => h.underWay r (mem_of_mem_erase hr), h.completed⟩
  | revokeAuthorization tenantId id =>
    refine h.frame ?_ (fun v w hw => ⟨w, hw, rfl⟩) (fun _ hr => hr) fun _ hv => hv
    intro i g hg hlive
    have hrevoke : revokeIn s.grants s.now (some id) i = some g := hg
    obtain ⟨hold, hlive, -⟩ := live_of_revokeIn hrevoke hlive rfl
    exact ⟨hold, hlive⟩
  | wait time =>
    refine h.frame ?_ (fun v w hw => ⟨w, hw, rfl⟩) (fun _ hr => hr) fun _ hv => hv
    rintro id g hg ⟨hunrevoked, hle⟩
    have hmono : s.now ≤ s.now + time := Int.le_add_of_nonneg_right (Int.natCast_nonneg time)
    exact ⟨hg, hunrevoked, hmono.trans hle⟩

/-! ### The main result -/

theorem not_live_of_inactive (h : ¬ Live s g) :
    g.row.view.active s.now = false := by
  by_contra hactive
  rw [Bool.not_eq_false, view_active_iff] at hactive
  exact h ⟨hactive.1, hactive.2.2⟩

/-- **A withdrawal withdraws** in every run whose checks grant in order. -/
theorem revoked_withdrawn {now : ℤ} {s : System}
    (h : Run (step R) Orderly (System.empty now) s) : Withdrawn s := by
  have hinv : WellFormed s ∧ OnRecord s :=
    h.invariant (P := fun s => WellFormed s ∧ OnRecord s)
      (fun hinv hok he => ⟨hinv.1.step he, hinv.2.step hinv.1 hok he⟩)
      ⟨WellFormed.empty now, OnRecord.empty now⟩
  intro v hv id g hg hby
  apply not_live_of_inactive
  intro hlive
  exact hinv.2.completed v hv id g hg hlive hby

/-! ### The condition is exact -/

theorem revokeIn_of_ne {instant : ℤ}
    (h : revokes ≠ some id) : revokeIn grants instant revokes id = grants id := by
  cases revokes with
  | none => rfl
  | some id' =>
    rw [revokeIn, Function.update_of_ne]
    rintro rfl
    exact h rfl

theorem not_withdrawn_commitRevoke {task : RevokeTask}
    (hg : s.grants id = some g) (hby : g.grantedBy = task.verificationId)
    (hactive : g.row.view.active s.now = true) (hne : task.revokes ≠ some id) :
    ¬ Withdrawn (commitRevoke s task stored) := by
  intro h
  have hkept : (commitRevoke s task stored).grants id = some g := (revokeIn_of_ne hne).trans hg
  have hinactive : g.row.view.active s.now = false :=
    h task.verificationId mem_cons_self id g hkept hby
  rw [hactive] at hinactive
  cases hinactive

theorem step_commitRevoke {task : RevokeTask}
    (htask : task ∈ s.revokes) (hstored : s.verifications task.verificationId = some stored) :
    step R s (.commitRevoke task) = some (commitRevoke s task stored) := by
  rw [step, if_pos htask, hstored]
  rfl

theorem step_startRevoke {v : Id} (hw : s.verifications v = some w) :
    step R s (.startRevoke w.tenantId v) =
      some { s with revokes := ⟨v, w, recordedUnrevoked s w, s.now⟩ :: s.revokes } := by
  have hfind : s.find w.tenantId v = some w :=
    Option.filter_eq_some_iff.mpr ⟨hw, decide_eq_true rfl⟩
  rw [step, hfind]

/-- **A check that grants out of order** leaves an active authorization that some withdrawal does not
withdraw. -/
theorem exists_not_withdrawn {now : ℤ} {e : Event}
    (h : Run (step R) (fun _ _ => True) (System.empty now) s) (hnot : ¬ Orderly s e)
    (he : step R s e = some t) : ∃ u, Run (step R) (fun _ _ => True) t u ∧ ¬ Withdrawn u := by
  have hwf : WellFormed s :=
    h.invariant (P := WellFormed) (fun hwf _ he => hwf.step he) (WellFormed.empty now)
  unfold Orderly at hnot
  split at hnot
  swap
  · exact absurd trivial hnot
  next task =>
  push Not at hnot
  obtain ⟨hgrants, hend, hdisorder⟩ := hnot
  rw [step] at he
  split_ifs at he with htask
  obtain ⟨stored, hstored, rfl⟩ := Option.map_eq_some_iff.mp he
  have houtcome : task.outcome true = .verified := CheckTask.outcome_verified.mpr ⟨hgrants, rfl⟩
  have hcommit : commitCheck s task true stored =
      insertGrant (recordCheck s task .verified stored) (task.grant s.nextId) := by
    rw [commitCheck, houtcome]
    rfl
  rw [hcommit]
  set t := insertGrant (recordCheck s task .verified stored) (task.grant s.nextId) with ht
  have hnew : t.grants s.nextId = some (task.grant s.nextId) := Function.update_self ..
  have hactive : (task.grant s.nextId).row.view.active t.now = true :=
    (view_active_iff _ _).mpr ⟨rfl, (hwf.checks task htask).1, hend⟩
  obtain ⟨record, hrecord, hid⟩ : ∃ w, t.verifications task.verificationId = some w ∧
      w.authorizationId = some s.nextId := ⟨_, Function.update_self .., rfl⟩
  by_cases hlive : ∃ w id g, s.verifications task.verificationId = some w ∧
      w.authorizationId = some id ∧ s.grants id = some g ∧ Live s g
  · -- a withdrawal revokes the new authorization, and the one that was on record stays
    obtain ⟨w, id, g, hw, hwid, hg, hunrevoked, hle⟩ := hlive
    obtain ⟨hlt, hfrom, -⟩ := hwf.grants id g hg
    obtain ⟨g', hg', hby⟩ := hwf.recorded _ w id hw hwid
    cases hg.symm.trans hg'
    have hkept : t.grants id = some g := (Function.update_of_ne (Nat.ne_of_lt hlt) _ _).trans hg
    have hrevokes : recordedUnrevoked t record = some s.nextId :=
      recordedUnrevoked_spec.mpr ⟨hid, _, hnew, rfl⟩
    refine ⟨_, ((Run.refl t).tail trivial (step_startRevoke hrecord)).tail trivial
      (step_commitRevoke mem_cons_self hrecord), ?_⟩
    refine not_withdrawn_commitRevoke (g := g) hkept hby
      ((view_active_iff _ _).mpr ⟨hunrevoked, hfrom, hle⟩) ?_
    rw [hrevokes]
    exact fun heq => Nat.ne_of_gt hlt (Option.some.inj heq)
  · have hdisorder := hdisorder fun w id g hw hwid hg hl => hlive ⟨w, id, g, hw, hwid, hg, hl⟩
    by_cases hunder : ∃ r ∈ s.revokes, r.verificationId = task.verificationId
    · -- the withdrawal under way does not know of the new authorization
      obtain ⟨r, hr, hrv⟩ := hunder
      rw [← hrv] at hrecord
      refine ⟨_, (Run.refl t).tail trivial (step_commitRevoke hr hrecord), ?_⟩
      refine not_withdrawn_commitRevoke hnew hrv.symm hactive ?_
      exact fun heq => Nat.lt_irrefl _ ((hwf.revokes r hr).1 _ heq)
    · refine ⟨t, Run.refl t, ?_⟩
      intro hwithdrawn
      have hrevoked : task.verificationId ∈ t.revoked :=
        hdisorder fun r hr hrv => hunder ⟨r, hr, hrv⟩
      have hinactive := hwithdrawn _ hrevoked _ _ hnew rfl
      rw [hactive] at hinactive
      cases hinactive

/-! ### A check after the withdrawal -/

/-- A challenge for `example.com`. -/
def sampleRecord : Verification :=
  ⟨1, 1, "example.com", .pending, 0, defaultValidity, none⟩

def challenged : System :=
  { System.empty 0 with
    verifications := Function.update (fun _ => none) 0 (some sampleRecord)
    nextId := 1 }

theorem step_challenged :
    step .ascii (System.empty 0) (.create 1 1 "example.com") = some challenged := by
  have hdomain : normalizeDomain .ascii "example.com" = .ok "example.com" := by
    decide
  rw [step, hdomain]
  rfl

/-- A check of the challenge that finds the proof, and then a withdrawal. -/
theorem revoked_withdrawn_checked :
    ∃ s, Run (step .ascii) Orderly (System.empty 0) s ∧ s.revoked = [0] ∧
      (∃ g, s.grants 1 = some g ∧ g.grantedBy = 0) ∧ Withdrawn s := by
  have hissued : Run (step .ascii) Orderly (System.empty 0) challenged :=
    (Run.refl _).tail (e := Event.create 1 1 "example.com") trivial step_challenged
  have hstarted : Run (step .ascii) Orderly (System.empty 0)
      { challenged with queue := [0], checks := [⟨0, sampleRecord, 0⟩] } :=
    (hissued.tail (e := Event.requestCheck 1 0) trivial rfl).tail (e := Event.startCheck 0) trivial rfl
  have horderly : Orderly { challenged with queue := [0], checks := [⟨0, sampleRecord, 0⟩] }
      (.commitCheck ⟨0, sampleRecord, 0⟩ true) := by
    intro _ _
    refine ⟨?_, ?_, ?_⟩
    · intro w id g hw hid
      cases hw
      cases hid
    · rintro r ⟨⟩
    · rintro ⟨⟩
  have hrun := ((hstarted.tail horderly rfl).tail (e := Event.startRevoke 1 0) trivial rfl).tail
    (e := Event.commitRevoke ⟨0, ⟨1, 1, "example.com", .verified, 1, defaultValidity, some 1⟩,
      some 1, 0⟩) trivial rfl
  exact ⟨_, hrun, rfl, ⟨_, rfl, rfl⟩, revoked_withdrawn hrun⟩

/-- The check commits behind a withdrawal that has completed. -/
theorem exists_not_withdrawn_revoked :
    ∃ t, t.revoked = [0] ∧ ∃ u, Run (step .ascii) (fun _ _ => True) t u ∧ ¬ Withdrawn u := by
  have hissued : Run (step .ascii) (fun _ _ => True) (System.empty 0) challenged :=
    (Run.refl _).tail trivial step_challenged
  have hrun := (((hissued.tail (e := Event.startRevoke 1 0) trivial rfl).tail
    (e := Event.commitRevoke ⟨0, sampleRecord, none, 0⟩) trivial rfl).tail
    (e := Event.requestCheck 1 0) trivial rfl).tail (e := Event.startCheck 0) trivial rfl
  refine ⟨_, ?_, exists_not_withdrawn hrun
    (e := .commitCheck ⟨0, { sampleRecord with status := .revoked }, 0⟩ true) (fun h => ?_) rfl⟩
  · rfl
  · exact (h ⟨by decide, by decide, by decide⟩ (by decide)).2.2 mem_cons_self

/-- **A check that follows the withdrawal** grants again. -/
theorem revoked_active :
    ¬ ∀ (R : Runtime) (now : ℤ) (s : System),
      Run (step R) (fun _ _ => True) (System.empty now) s → Withdrawn s := by
  intro h
  have hissued : Run (step .ascii) (fun _ _ => True) (System.empty 0) challenged :=
    (Run.refl _).tail trivial step_challenged
  have hrun := ((((hissued.tail (e := Event.startRevoke 1 0) trivial rfl).tail
    (e := Event.commitRevoke ⟨0, sampleRecord, none, 0⟩) trivial rfl).tail
    (e := Event.requestCheck 1 0) trivial rfl).tail (e := Event.startCheck 0) trivial rfl).tail
    (e := Event.commitCheck ⟨0, { sampleRecord with status := .revoked }, 0⟩ true) trivial rfl
  have hinactive := h _ _ _ hrun 0 (mem_singleton_self _) 1 _ rfl rfl
  revert hinactive
  decide

end Guardian.Authorization

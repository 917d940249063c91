import Guardian.Python.Text
import Guardian.Transition.Lease

/-!
# Single use of a signed job

The tool plane authenticates a signed job and then reserves its nonce in a store that all workers
share.  The checks compare instants; the reservation lives for a whole number of seconds.
`successes_le_one_iff` says when no job is used twice.
-/

namespace Guardian.Signing

open Python Transition List

def second : ℤ := 1000000

/-- `_MAX_FUTURE_SKEW`, in seconds. -/
def maxFutureSkew : ℤ := 60

/-- What `fromisoformat` makes of a text: a time of day with or without an offset from UTC. -/
inductive Timestamp
  | naive
  | aware (instant : ℤ)
  deriving DecidableEq

/-- What `verify_job` calls outside the repository: the decoders, and the verification of a
signature. -/
structure Platform (J K : Type) where
  fromisoformat : Str → Option Timestamp
  b64decode : Str → Option (List UInt8)
  fromPublicBytes : List UInt8 → Option K
  devKey : K
  canonical : J → Str → Str → Str → List UInt8
  verify : K → List UInt8 → List UInt8 → Bool
  isDict : J → Bool

/-- The settings that `verify_job` reads. -/
structure Settings where
  isLocalOrDev : Bool
  jobSigningPublicKey : Str

/-- An envelope with all its fields. -/
structure Signed (J : Type) where
  job : J
  issuedAt : Str
  expiresAt : Str
  nonce : Str
  sig : Str

/-- How a call ends that returns no job. -/
inductive Refusal
  | jobVerificationError (message : Str)
  | typeError
  | valueError
  deriving DecidableEq

/-- `JobVerificationError(message)`. -/
def refuse (message : String) : Refusal := .jobVerificationError message.toList

variable {J K : Type} (P : Platform J K) (settings : Settings)

/-! ### The checks -/

/-- `_public_key`. -/
def publicKey : Except Refusal K :=
  if settings.jobSigningPublicKey ≠ [] then
    match (P.b64decode settings.jobSigningPublicKey).bind P.fromPublicBytes with
    | some key => .ok key
    | none => .error .valueError
  else if settings.isLocalOrDev then .ok P.devKey
  else .error (refuse "no job-signing public key configured")

/-- The comparisons of `verify_job` with the clock.  An instant is not comparable with a time
without an offset. -/
def checkClock (expires issued : Timestamp) (now : ℤ) : Except Refusal ℤ :=
  match expires with
  | .naive => .error .typeError
  | .aware expires =>
    if now > expires then .error (refuse "expired job")
    else
      match issued with
      | .naive => .error .typeError
      | .aware issued =>
        if issued > now + maxFutureSkew * second then .error (refuse "issued in the future")
        else .ok expires

/-- `verify_job` up to the reservation: the instant at which the envelope expires. -/
def authenticate (signed : Option (Signed J)) (now : ℤ) : Except Refusal (Signed J × ℤ) :=
  match signed with
  | none => .error (refuse "malformed envelope")
  | some signed =>
    match P.b64decode signed.sig with
    | none => .error (refuse "malformed envelope")
    | some signature =>
      match P.fromisoformat signed.expiresAt, P.fromisoformat signed.issuedAt with
      | some expires, some issued => do
        let expires ← checkClock expires issued now
        let key ← publicKey P settings
        if P.verify key signature
            (P.canonical signed.job signed.issuedAt signed.expiresAt signed.nonce) then
          pure (signed, expires)
        else .error (refuse "bad signature")
      | _, _ => .error (refuse "bad timestamps")

/-! ### The reservation -/

/-- A store of nonces: the shared one, or the fallback of one process. -/
inductive Store
  | shared
  | process (worker : ℕ)
  deriving DecidableEq

/-- A call of `verify_job`: who makes it, when it looks at the clock, when it reserves the nonce,
and whether the shared store answers it. -/
structure Call where
  worker : ℕ
  checkedAt : ℤ
  reservedAt : ℤ
  storeAnswers : Bool

/-- The store in which a call reserves. -/
def Call.store (c : Call) : Store :=
  if c.storeAnswers then .shared else .process c.worker

/-- The lifetime of a reservation: `int(max(1, expires.timestamp() - now.timestamp()))`. -/
def ttl (expires now : ℤ) : ℤ := max 1 ((expires - now) / second)

/-- `reserve_nonce`: `SET NX EX` on the shared store, or the fallback. -/
def reserveNonce (leases : Leases (Store × Str)) (c : Call) (nonce : Str) (ttlSeconds : ℤ) :
    Except Refusal Bool × Leases (Store × Str) :=
  let ask : Ask (Store × Str) := ⟨(c.store, nonce), c.reservedAt, max 1 ttlSeconds * second⟩
  if c.storeAnswers || settings.isLocalOrDev then
    (.ok (leases.acquire ask).1, (leases.acquire ask).2)
  else (.error (refuse "replay store unavailable"), leases)

/-- **`verify_job`.** -/
def verifyJob (signed : Option (Signed J)) (leases : Leases (Store × Str)) (c : Call) :
    Except Refusal J × Leases (Store × Str) :=
  match authenticate P settings signed c.checkedAt with
  | .error e => (.error e, leases)
  | .ok (signed, expires) =>
    match reserveNonce settings leases c signed.nonce (ttl expires c.checkedAt) with
    | (.error e, leases) => (.error e, leases)
    | (.ok false, leases) => (.error (refuse "replayed nonce"), leases)
    | (.ok true, leases) =>
      if P.isDict signed.job then (.ok signed.job, leases)
      else (.error (refuse "malformed job"), leases)

/-- The calls on one envelope, in the order in which they reserve. -/
def verifyJobs (signed : Option (Signed J)) (leases : Leases (Store × Str)) :
    List Call → List (Except Refusal J)
  | [] => []
  | c :: cs =>
    (verifyJob P settings signed leases c).1 ::
      verifyJobs signed (verifyJob P settings signed leases c).2 cs

/-- How many calls succeed. -/
def successes (signed : Option (Signed J)) (leases : Leases (Store × Str)) (calls : List Call) :
    ℕ :=
  (verifyJobs P settings signed leases calls).countP (·.isOk)

/-! ### Which calls reserve -/

/-- **The envelope passes the checks** at an instant, and this is when it expires. -/
def Accepts (signed : Signed J) (expires now : ℤ) : Prop :=
  P.fromisoformat signed.expiresAt = some (.aware expires) ∧ now ≤ expires ∧
    (∃ issued, P.fromisoformat signed.issuedAt = some (.aware issued) ∧
      issued ≤ now + maxFutureSkew * second) ∧
    ∃ signature key, P.b64decode signed.sig = some signature ∧
      publicKey P settings = .ok key ∧ P.verify key signature
        (P.canonical signed.job signed.issuedAt signed.expiresAt signed.nonce) = true

/-- A call that reserves: the envelope passes its checks, and a store takes the nonce. -/
def Reserves (signed : Signed J) (expires : ℤ) (c : Call) : Prop :=
  Accepts P settings signed expires c.checkedAt ∧
    (c.storeAnswers = true ∨ settings.isLocalOrDev = true)

/-- **One reservation covers all**: the calls that reserve do so in the store of the first one, and
before the whole seconds that it reserved have passed. -/
def OneReservation (signed : Signed J) (calls : List Call) : Prop :=
  ∀ expires before first after, calls = before ++ first :: after →
    (∀ c ∈ before, ¬ Reserves P settings signed expires c) →
    Reserves P settings signed expires first →
    ∀ c ∈ after, Reserves P settings signed expires c →
      c.store = first.store ∧
        c.reservedAt < first.reservedAt + max 1 ((expires - first.checkedAt) / second) * second

theorem checkClock_eq_ok_iff {expires issued : Timestamp} {now t : ℤ} :
    checkClock expires issued now = .ok t ↔ expires = .aware t ∧ now ≤ t ∧
      ∃ i, issued = .aware i ∧ i ≤ now + maxFutureSkew * second := by
  unfold checkClock
  rcases expires with _ | e
  · simp
  · rcases issued with _ | i
    · by_cases he : now > e <;> simp [he]
    · by_cases he : now > e
      · simp only [he, if_true, Timestamp.aware.injEq]
        constructor
        · rintro ⟨⟩
        · rintro ⟨rfl, hle, -⟩
          omega
      · by_cases hi : i > now + maxFutureSkew * second
        · simp only [he, hi, if_false, if_true, Timestamp.aware.injEq]
          constructor
          · rintro ⟨⟩
          · rintro ⟨-, -, j, rfl, hle⟩
            omega
        · simp only [he, hi, if_false, Timestamp.aware.injEq, Except.ok.injEq]
          constructor
          · rintro rfl
            exact ⟨rfl, by omega, i, rfl, by omega⟩
          · rintro ⟨h, -⟩
            exact h

theorem authenticate_eq_ok_iff {signed s : Signed J} {expires now : ℤ} :
    authenticate P settings (some signed) now = .ok (s, expires) ↔
      s = signed ∧ Accepts P settings signed expires now := by
  simp only [authenticate, Accepts]
  rcases hsig : P.b64decode signed.sig with _ | signature
  · simp
  rcases hexp : P.fromisoformat signed.expiresAt with _ | e
  · simp
  rcases hiss : P.fromisoformat signed.issuedAt with _ | i
  · simp
  simp only [bind_eq_ok, checkClock_eq_ok_iff]
  constructor
  · rintro ⟨t, ⟨he, hle, hi⟩, key, hkey, h⟩
    by_cases hv : P.verify key signature
        (P.canonical signed.job signed.issuedAt signed.expiresAt signed.nonce) = true
    · rw [if_pos hv] at h
      cases h
      obtain ⟨issued, hi, hskew⟩ := hi
      exact ⟨rfl, by rw [he], hle, ⟨issued, by rw [hi], hskew⟩, signature, key, rfl, hkey, hv⟩
    · rw [if_neg hv] at h
      cases h
  · rintro ⟨rfl, he, hle, ⟨issued, hi, hskew⟩, signature', key, hs, hkey, hv⟩
    cases he
    cases hi
    cases hs
    exact ⟨expires, ⟨rfl, hle, issued, rfl, hskew⟩, key, hkey, by rw [if_pos hv]; rfl⟩

/-! ### A sequence of calls -/

/-- What a call asks of its store, if it comes to that. -/
def ask (signed : Signed J) (c : Call) : Option (Ask (Store × Str)) :=
  match authenticate P settings (some signed) c.checkedAt with
  | .error _ => none
  | .ok (_, expires) =>
    if c.storeAnswers || settings.isLocalOrDev then
      some ⟨(c.store, signed.nonce), c.reservedAt, max 1 (ttl expires c.checkedAt) * second⟩
    else none

theorem ask_eq_some_iff {signed : Signed J} {c : Call} {a : Ask (Store × Str)} :
    ask P settings signed c = some a ↔ ∃ expires, Reserves P settings signed expires c ∧
      a = ⟨(c.store, signed.nonce), c.reservedAt,
        max 1 ((expires - c.checkedAt) / second) * second⟩ := by
  unfold ask Reserves
  rcases h : authenticate P settings (some signed) c.checkedAt with e | ⟨s, t⟩
  · constructor
    · rintro ⟨⟩
    · rintro ⟨expires, ⟨hacc, -⟩, -⟩
      rw [(authenticate_eq_ok_iff P settings (s := signed)).mpr ⟨rfl, hacc⟩] at h
      cases h
  · obtain ⟨rfl, hacc⟩ := (authenticate_eq_ok_iff P settings).mp h
    have hmax : max 1 (ttl t c.checkedAt) = max 1 ((t - c.checkedAt) / second) := by
      unfold ttl
      omega
    by_cases hst : (c.storeAnswers || settings.isLocalOrDev) = true
    · simp only [hst, if_true, Option.some.injEq, hmax]
      constructor
      · rintro rfl
        exact ⟨t, ⟨hacc, by simpa using hst⟩, rfl⟩
      · rintro ⟨t', ⟨hacc', -⟩, rfl⟩
        have := hacc.1.symm.trans hacc'.1
        cases this
        rfl
    · simp only [hst]
      constructor
      · rintro ⟨⟩
      · rintro ⟨t', ⟨-, h'⟩, -⟩
        exact absurd (by simpa using h') hst

/-- **One call**: it succeeds exactly if it gets the lease that it asks for and the job is one. -/
theorem verifyJob_eq (signed : Signed J) (leases : Leases (Store × Str)) (c : Call) :
    (match ask P settings signed c with
      | none => (verifyJob P settings (some signed) leases c).1.isOk = false ∧
          (verifyJob P settings (some signed) leases c).2 = leases
      | some a => (verifyJob P settings (some signed) leases c).1.isOk =
            ((leases.acquire a).1 && P.isDict signed.job) ∧
          (verifyJob P settings (some signed) leases c).2 = (leases.acquire a).2) := by
  unfold ask verifyJob
  rcases h : authenticate P settings (some signed) c.checkedAt with e | ⟨s, t⟩
  · exact ⟨rfl, rfl⟩
  · obtain ⟨rfl, -⟩ := (authenticate_eq_ok_iff P settings).mp h
    by_cases hst : (c.storeAnswers || settings.isLocalOrDev) = true
    · simp only [hst, if_true, reserveNonce]
      rcases (leases.acquire ⟨(c.store, s.nonce), c.reservedAt,
        max 1 (ttl t c.checkedAt) * second⟩).1 with _ | _
      · exact ⟨rfl, rfl⟩
      · by_cases hd : P.isDict s.job = true
        · simp [hd, Except.isOk, Except.toBool]
        · simp [hd, Except.isOk, Except.toBool]
    · simp only [hst, reserveNonce]
      exact ⟨rfl, rfl⟩

theorem successes_eq (signed : Signed J) (leases : Leases (Store × Str)) (calls : List Call) :
    successes P settings (some signed) leases calls =
      if P.isDict signed.job then leases.granted (calls.filterMap (ask P settings signed)) else 0 := by
  induction calls generalizing leases with
  | nil => simp [successes, verifyJobs, Leases.granted]
  | cons c cs ih =>
    have hone := verifyJob_eq P settings signed leases c
    have hcons : successes P settings (some signed) leases (c :: cs) =
        successes P settings (some signed) (verifyJob P settings (some signed) leases c).2 cs +
          if (verifyJob P settings (some signed) leases c).1.isOk then 1 else 0 := by
      unfold successes
      rw [verifyJobs, countP_cons]
    rw [hcons, ih]
    rcases hask : ask P settings signed c with _ | a
    · rw [hask] at hone
      obtain ⟨hres, hleases⟩ := hone
      rw [filterMap_cons_none hask, hres, hleases]
      simp
    · rw [hask] at hone
      obtain ⟨hres, hleases⟩ := hone
      rw [filterMap_cons_some hask, hres, hleases, Leases.granted]
      by_cases hd : P.isDict signed.job = true
      · simp only [hd, if_true, Bool.and_true]
        omega
      · simp [hd]

/-- **Single use**: over any sequence of calls at most one succeeds exactly when one reservation
covers all that pass the checks, or the envelope holds no job. -/
theorem successes_le_one_iff (signed : Signed J) (calls : List Call) :
    successes P settings (some signed) (fun _ => none) calls ≤ 1 ↔
      P.isDict signed.job = false ∨ OneReservation P settings signed calls := by
  rw [successes_eq]
  by_cases hd : P.isDict signed.job = true
  swap
  · simp [hd]
  simp only [hd, if_true, Bool.true_eq_false, false_or, granted_le_one_iff]
  constructor
  · intro h expires before first after hcalls hbefore hfirst c hc hres
    have ha := (ask_eq_some_iff P settings).mpr ⟨expires, hfirst, rfl⟩
    have hnone : ∀ b ∈ before, ask P settings signed b = none := by
      intro b hb
      rcases hask : ask P settings signed b with _ | a
      · rfl
      · obtain ⟨t, ht, -⟩ := (ask_eq_some_iff P settings).mp hask
        have := ht.1.1.symm.trans hfirst.1.1
        cases this
        exact absurd ht (hbefore b hb)
    have hsplit := filterMap_eq_cons_iff.mpr ⟨before, first, after, hcalls, hnone, ha, rfl⟩
    have hb := (ask_eq_some_iff P settings).mpr ⟨expires, hres, rfl⟩
    have hmem := mem_filterMap.mpr ⟨c, hc, hb⟩
    obtain ⟨hplace, htime⟩ := h _ _ hsplit _ hmem
    exact ⟨congrArg Prod.fst hplace, htime⟩
  · intro h a rest hsplit b hb
    obtain ⟨before, first, after, hcalls, hnone, ha, rfl⟩ := filterMap_eq_cons_iff.mp hsplit
    obtain ⟨c, hc, hask⟩ := mem_filterMap.mp hb
    obtain ⟨t, hfirst, rfl⟩ := (ask_eq_some_iff P settings).mp ha
    obtain ⟨t', hres, rfl⟩ := (ask_eq_some_iff P settings).mp hask
    have := hfirst.1.1.symm.trans hres.1.1
    cases this
    have hbefore : ∀ c ∈ before, ¬ Reserves P settings signed t c := by
      intro c hc hr
      have := hnone c hc
      rw [(ask_eq_some_iff P settings).mpr ⟨t, hr, rfl⟩] at this
      cases this
    obtain ⟨hstore, htime⟩ := h t before first after hcalls hbefore hfirst c hc hres
    exact ⟨by rw [hstore], htime⟩

/-! ### The last fraction of a second -/

/-- A platform that reads the two texts of the envelope below as `fromisoformat` does, and one
signature over it. -/
def platform : Platform Str Unit where
  fromisoformat text :=
    if text = "2026-01-01T00:00:00.500000+00:00" then some (.aware 1767225600500000)
    else if text = "2026-01-01T00:05:00.500000+00:00" then some (.aware 1767225900500000)
    else none
  b64decode text := if text = "AQ==" then some [1] else none
  fromPublicBytes _ := some ()
  devKey := ()
  canonical _ _ _ _ := []
  verify _ signature _ := signature = [1]
  isDict job := job = "{}"

/-- The settings of a production worker. -/
def production : Settings := ⟨false, "AQ=="⟩

/-- An envelope as `sign_job` makes it with its default lifetime of 300 seconds. -/
def envelope : Signed Str :=
  ⟨"{}", "2026-01-01T00:00:00.500000+00:00",
    "2026-01-01T00:05:00.500000+00:00", "00", "AQ=="⟩

/-- A call half a second after the envelope is issued: its reservation lasts 299 seconds. -/
def early : Call := ⟨0, 1767225601000000, 1767225601000000, true⟩

/-- A call of another worker, three tenths of a second before the envelope expires. -/
def late : Call := ⟨1, 1767225900200000, 1767225900200000, true⟩

/-- **An envelope that is used twice**: both calls find the shared store, in the order of their
clocks, and both succeed. -/
theorem successes_last_fraction :
    (early.checkedAt ≤ early.reservedAt ∧ early.reservedAt ≤ late.checkedAt ∧
      late.checkedAt ≤ late.reservedAt) ∧ early.storeAnswers = true ∧ late.storeAnswers = true ∧
    successes platform production (some envelope) (fun _ => none) [early, late] = 2 := by
  decide

end Guardian.Signing

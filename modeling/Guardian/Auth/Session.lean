import Guardian.Python.Text
import Guardian.Transition.Run
import Mathlib.Algebra.Order.Group.Int

/-!
# Sessions and password resets

The requests of the users of one deployment: logins, logouts and password resets.  Each request runs
in its own transaction under read committed, so between two of its steps any steps of the others may
come.  `revoked_rejected` gives the runs in which no token is accepted after it was revoked.
-/

namespace Guardian.Auth

open Python Transition List

/-! ### The tables -/

/-- `User`, as far as the requests read or write it. -/
structure User where
  passwordHash : Option Str
  active : Bool
  tokenVersion : ℕ
  deriving DecidableEq

/-- `PasswordResetToken`. -/
structure PasswordResetToken where
  userId : ℕ
  tokenHash : Str
  expiresAt : ℤ
  usedAt : Option ℤ
  deriving DecidableEq

/-- The claims of an access token. -/
structure AccessToken where
  sub : ℕ
  tv : ℕ
  exp : ℤ
  deriving DecidableEq

/-- What the requests take from outside: the hash functions and the lifetimes, in seconds. -/
structure Platform where
  verifyPassword : Str → Str → Bool
  hashPassword : Str → Str
  hashResetToken : Str → Str
  accessTokenTtl : ℤ
  passwordResetTtl : ℤ

/-- The body of a reset confirmation, when it came in, and whose token it presents. -/
structure Confirmation where
  tokenHash : Str
  newPassword : Str
  startedAt : ℤ
  userId : ℕ
  deriving DecidableEq

/-- A request between two of its steps, with what it has read. -/
inductive Request
  | logout (userId : ℕ) (loaded : User)
  | tokenRead (c : Confirmation)
  | userRead (c : Confirmation) (loaded : User)
  | marked (c : Confirmation) (loaded : User) (marks : List Str)
  deriving DecidableEq

/-- The reset token with which a request under way is going to set a password. -/
def Request.presents : Request → Option Str
  | .logout .. => none
  | .tokenRead c => some c.tokenHash
  | .userRead c _ => some c.tokenHash
  | .marked c .. => some c.tokenHash

/-- The rows of reset tokens that a request has updated and not committed. -/
def Request.locks : Request → List Str
  | .marked _ _ marks => marks
  | _ => []

/-- A token that a login minted, and how many logouts and resets of the user had committed when the
login read the version. -/
structure Minted where
  token : AccessToken
  revocations : ℕ

/-- A reset that committed: its token, and the tokens of the user that were outstanding then. -/
structure Reset where
  tokenHash : Str
  outstanding : List Str

/-- **The system**: the tables, the requests under way, and what has happened. -/
structure System where
  users : ℕ → Option User
  resetTokens : List PasswordResetToken
  requests : List Request
  now : ℤ
  minted : List Minted
  revocations : ℕ → ℕ
  resets : List Reset

/-- Nothing is under way and nothing has happened. -/
structure System.Initial (s : System) : Prop where
  requests : s.requests = []
  minted : s.minted = []
  resets : s.resets = []

variable (P : Platform)

/-! ### Access tokens -/

/-- `get_current_identity`, up to the version check. -/
def currentIdentity (s : System) (token : AccessToken) : Option User :=
  if token.exp ≤ s.now then none
  else
    match s.users token.sub with
    | none => none
    | some user =>
      if !user.active then none
      else if token.tv ≠ user.tokenVersion then none
      else some user

/-- `login`: the password is verified against the row that is read, and the token carries the
version of that row. -/
def login (s : System) (userId : ℕ) (password : Str) : System :=
  match s.users userId with
  | none => s
  | some user =>
    match user.passwordHash with
    | none => s
    | some hash =>
      if !P.verifyPassword password hash then s
      else if !user.active then s
      else
        { s with
          minted := ⟨⟨userId, user.tokenVersion, s.now + P.accessTokenTtl⟩,
            s.revocations userId⟩ :: s.minted }

/-- The first step of `logout`: the identity, with the user as loaded. -/
def startLogout (s : System) (token : AccessToken) : System :=
  match currentIdentity s token with
  | none => s
  | some user => { s with requests := .logout token.sub user :: s.requests }

/-- The `UPDATE` of a user and its commit. -/
def writeUser (s : System) (userId : ℕ) (write : User → User) : System :=
  { s with
    users := Function.update s.users userId ((s.users userId).map write)
    revocations := Function.update s.revocations userId (s.revocations userId + 1) }

/-! ### Reset tokens -/

/-- The unused reset tokens of a user. -/
def unused (s : System) (userId : ℕ) : List Str :=
  (s.resetTokens.filter fun t => t.userId = userId && t.usedAt.isNone).map (·.tokenHash)

/-- `request_password_reset`, once it has found the user.  The hash is unique among the rows. -/
def requestReset (s : System) (userId : ℕ) (tokenHash : Str) : System :=
  match s.users userId with
  | none => s
  | some user =>
    if !user.active then s
    else if tokenHash ∈ s.resetTokens.map (·.tokenHash) then s
    else
      { s with
        resetTokens := ⟨userId, tokenHash, s.now + P.passwordResetTtl, none⟩ :: s.resetTokens }

/-- The first step of `confirm_password_reset`: the token, unused and unexpired. -/
def readToken (s : System) (token newPassword : Str) : System :=
  match s.resetTokens.find? fun t =>
      t.tokenHash = P.hashResetToken token && t.usedAt.isNone && s.now < t.expiresAt with
  | none => s
  | some row =>
    { s with requests := .tokenRead ⟨row.tokenHash, newPassword, s.now, row.userId⟩ :: s.requests }

/-- The user of the token, or the answer that the token is invalid. -/
def readUser (s : System) (c : Confirmation) : System :=
  match s.users c.userId with
  | none => s
  | some user => if !user.active then s else { s with requests := .userRead c user :: s.requests }

/-- The `UPDATE` that consumes the outstanding tokens.  It waits while another transaction holds one
of the rows. -/
def markTokens (s : System) (c : Confirmation) (loaded : User) : Option System :=
  if s.requests.any fun q => q.locks.any (· ∈ unused s c.userId) then none
  else some { s with requests := .marked c loaded (unused s c.userId) :: s.requests }

/-- The commit of a confirmation: the password and the version of the user, and the marks. -/
def commitReset (s : System) (c : Confirmation) (loaded : User) (marks : List Str) : System :=
  let t := writeUser s c.userId fun user =>
    { user with
      passwordHash := some (P.hashPassword c.newPassword)
      tokenVersion := loaded.tokenVersion + 1 }
  { t with
    resetTokens := s.resetTokens.map fun row =>
      if row.tokenHash ∈ marks then { row with usedAt := some c.startedAt } else row
    resets := ⟨c.tokenHash, unused s c.userId⟩ :: s.resets }

def commitLogout (s : System) (userId : ℕ) (loaded : User) : System :=
  writeUser s userId fun user => { user with tokenVersion := loaded.tokenVersion + 1 }

/-! ### The transition system -/

/-- What may happen: time passes, a request starts, or a request under way takes its next step or
breaks off. -/
inductive Event
  | tick (seconds : ℕ)
  | login (userId : ℕ) (password : Str)
  | logout (token : AccessToken)
  | requestReset (userId : ℕ) (tokenHash : Str)
  | confirmReset (token newPassword : Str)
  | advance (q : Request)
  | rollback (q : Request)

/-- The request without its place among those under way. -/
def System.drop (s : System) (q : Request) : System := { s with requests := s.requests.erase q }

/-- The next step of a request. -/
def advance (s : System) : Request → Option System
  | .logout userId loaded => some (commitLogout s userId loaded)
  | .tokenRead c => some (readUser s c)
  | .userRead c loaded => markTokens s c loaded
  | .marked c loaded marks => some (commitReset P s c loaded marks)

/-- **The step function.** -/
def step (s : System) : Event → Option System
  | .tick seconds => some { s with now := s.now + seconds }
  | .login userId password => some (login P s userId password)
  | .logout token => some (startLogout s token)
  | .requestReset userId tokenHash => some (requestReset P s userId tokenHash)
  | .confirmReset token newPassword => some (readToken P s token newPassword)
  | .advance q => if q ∈ s.requests then advance P (s.drop q) q else none
  | .rollback q => if q ∈ s.requests then some (s.drop q) else none

/-! ### What a step changes -/

/-- **The change that a step makes.**  A request that is refused changes nothing. -/
inductive Change (s : System) : Event → System → Prop
  | refused (e : Event) : Change s e s
  | tick (seconds : ℕ) : Change s (.tick seconds) { s with now := s.now + seconds }
  | mint {userId : ℕ} {user : User} (e : Event) (exp : ℤ) (huser : s.users userId = some user) :
      Change s e
        { s with minted := ⟨⟨userId, user.tokenVersion, exp⟩, s.revocations userId⟩ :: s.minted }
  | issue {row : PasswordResetToken} (e : Event)
      (hfresh : row.tokenHash ∉ s.resetTokens.map (·.tokenHash)) :
      Change s e { s with resetTokens := row :: s.resetTokens }
  | startLogout (e : Event) (userId : ℕ) (user : User) :
      Change s e { s with requests := .logout userId user :: s.requests }
  | startReset {c : Confirmation} {row : PasswordResetToken} (e : Event)
      (hrow : row ∈ s.resetTokens) (hhash : row.tokenHash = c.tokenHash)
      (hunused : row.usedAt = none) (hexpires : s.now < row.expiresAt) :
      Change s e { s with requests := .tokenRead c :: s.requests }
  | proceed {q q' : Request} (hq : q ∈ s.requests) (hpresents : q'.presents = q.presents) :
      Change s (.advance q) { s with requests := q' :: s.requests.erase q }
  | drop {q : Request} (e : Event) (hq : q ∈ s.requests) : Change s e (s.drop q)
  | logout {userId : ℕ} {loaded : User} (hq : .logout userId loaded ∈ s.requests) :
      Change s (.advance (.logout userId loaded))
        (commitLogout (s.drop (.logout userId loaded)) userId loaded)
  | reset {c : Confirmation} {loaded : User} {marks : List Str}
      (hq : .marked c loaded marks ∈ s.requests) :
      Change s (.advance (.marked c loaded marks))
        (commitReset P (s.drop (.marked c loaded marks)) c loaded marks)

theorem login_change (s : System) (e : Event) (userId : ℕ) (password : Str) :
    Change P s e (login P s userId password) := by
  unfold login
  split
  · exact .refused e
  · rename_i user huser
    split
    · exact .refused e
    · split_ifs
      · exact .refused e
      · exact .refused e
      · exact .mint e _ huser

theorem startLogout_change (s : System) (e : Event) (token : AccessToken) :
    Change P s e (startLogout s token) := by
  unfold startLogout
  split
  · exact .refused e
  · exact .startLogout e _ _

theorem requestReset_change (s : System) (e : Event) (userId : ℕ) (tokenHash : Str) :
    Change P s e (requestReset P s userId tokenHash) := by
  unfold requestReset
  split
  · exact .refused e
  · split_ifs with hactive hmem
    · exact .refused e
    · exact .refused e
    · exact .issue e hmem

theorem readToken_change (s : System) (e : Event) (token newPassword : Str) :
    Change P s e (readToken P s token newPassword) := by
  unfold readToken
  split
  · exact .refused e
  · rename_i row hrow
    have hmem := mem_of_find?_eq_some hrow
    have hprop := find?_some hrow
    simp only [Bool.and_eq_true, decide_eq_true_eq, Option.isNone_iff_eq_none] at hprop
    exact .startReset e hmem rfl hprop.1.2 hprop.2

theorem advance_change {s t : System} {q : Request} (hq : q ∈ s.requests)
    (h : advance P (s.drop q) q = some t) : Change P s (.advance q) t := by
  rcases q with ⟨userId, loaded⟩ | c | ⟨c, loaded⟩ | ⟨c, loaded, marks⟩
  · cases h
    exact .logout hq
  · cases h
    unfold readUser
    split
    · exact .drop _ hq
    · split_ifs
      · exact .drop _ hq
      · exact .proceed hq rfl
  · simp only [advance, markTokens] at h
    split_ifs at h
    cases h
    exact .proceed hq rfl
  · cases h
    exact .reset hq

/-- **The inversion rule** of the step function. -/
theorem step_change {s t : System} {e : Event} (h : step P s e = some t) : Change P s e t := by
  rcases e with seconds | ⟨userId, password⟩ | token | ⟨userId, tokenHash⟩ |
    ⟨token, newPassword⟩ | q | q
  · cases h
    exact .tick seconds
  · cases h
    exact login_change P s _ userId password
  · cases h
    exact startLogout_change P s _ token
  · cases h
    exact requestReset_change P s _ userId tokenHash
  · cases h
    exact readToken_change P s _ token newPassword
  · simp only [step] at h
    split_ifs at h with hq
    exact advance_change P hq h
  · simp only [step] at h
    split_ifs at h with hq
    cases h
    exact .drop _ hq

/-! ### A small deployment -/

/-- A platform whose hashes are the texts themselves. -/
def plainPlatform : Platform where
  verifyPassword password hash := password = hash
  hashPassword password := password
  hashResetToken token := token
  accessTokenTtl := 3600
  passwordResetTtl := 1800

def sampleUser : User := ⟨some "old", true, 0⟩

def sampleSystem : System where
  users := Function.update (fun _ => none) 0 (some sampleUser)
  resetTokens := []
  requests := []
  now := 0
  minted := []
  revocations := fun _ => 0
  resets := []

theorem sampleSystem_initial : sampleSystem.Initial := ⟨rfl, rfl, rfl⟩

/-! ### Revocation by the token version -/

/-- The stored version is the one that was loaded. -/
def System.UpToDate (s : System) (userId : ℕ) (loaded : User) : Prop :=
  ∀ user, s.users userId = some user → user.tokenVersion = loaded.tokenVersion

/-- **No lost update**: a logout or a reset commits over the version that it loaded. -/
def NoLostUpdate (s : System) : Event → Prop
  | .advance (.logout userId loaded) => s.UpToDate userId loaded
  | .advance (.marked c loaded _) => s.UpToDate c.userId loaded
  | _ => True

/-- Every minted token carries at most the stored version, and less than it once a logout or a reset
has committed. -/
def Versioned (s : System) : Prop :=
  ∀ m ∈ s.minted, ∃ user, s.users m.token.sub = some user ∧ m.token.tv ≤ user.tokenVersion ∧
    (m.revocations < s.revocations m.token.sub → m.token.tv < user.tokenVersion)

theorem currentIdentity_eq_none {s : System} {token : AccessToken} {user : User}
    (huser : s.users token.sub = some user) (h : token.tv ≠ user.tokenVersion) :
    currentIdentity s token = none := by
  unfold currentIdentity
  split_ifs
  · rfl
  · rw [huser]
    simp [h]

theorem Versioned.writeUser {s : System} (hs : Versioned s) {userId : ℕ} {write : User → User}
    (hwrite : ∀ user, s.users userId = some user →
      (write user).tokenVersion = user.tokenVersion + 1) :
    Versioned (writeUser s userId write) := by
  intro m hm
  obtain ⟨user, huser, hle, hlt⟩ := hs m hm
  by_cases hid : m.token.sub = userId
  · subst hid
    have hw := hwrite user huser
    refine ⟨write user, ?_, ?_, ?_⟩
    · simp [Auth.writeUser, huser]
    · omega
    · intro _
      omega
  · refine ⟨user, ?_, hle, ?_⟩
    · simp [Auth.writeUser, hid, huser]
    · intro hrev
      apply hlt
      simpa [Auth.writeUser, hid] using hrev

theorem Versioned.congr {s t : System} (hs : Versioned s) (husers : t.users = s.users)
    (hminted : t.minted = s.minted) (hrev : t.revocations = s.revocations) : Versioned t := by
  intro m hm
  rw [hminted] at hm
  rw [husers, hrev]
  exact hs m hm

theorem Versioned.drop {s : System} (hs : Versioned s) (q : Request) : Versioned (s.drop q) :=
  hs.congr rfl rfl rfl

theorem Versioned.change {s t : System} {e : Event} (hs : Versioned s) (hok : NoLostUpdate s e)
    (h : Change P s e t) : Versioned t := by
  rcases h with ⟨⟩ | ⟨⟩ | ⟨_, exp, huser⟩ | ⟨⟩ | ⟨⟩ | ⟨⟩ | ⟨⟩ | ⟨⟩ | ⟨hq⟩ | ⟨hq⟩
  · exact hs
  · exact hs.congr rfl rfl rfl
  · intro m hm
    rcases mem_cons.mp hm with rfl | hm
    · exact ⟨_, huser, le_refl _, fun h => absurd h (lt_irrefl _)⟩
    · exact hs m hm
  · exact hs.congr rfl rfl rfl
  · exact hs.congr rfl rfl rfl
  · exact hs.congr rfl rfl rfl
  · exact hs.congr rfl rfl rfl
  · exact hs.congr rfl rfl rfl
  · refine (hs.drop _).writeUser fun user huser => ?_
    rw [hok user huser]
  · refine ((hs.drop _).writeUser fun user huser => ?_).congr rfl rfl rfl
    rw [hok user huser]

/-- **A revoked token is rejected**: in every run without lost updates, a token whose version was
read before a logout or reset of its user committed is rejected from then on. -/
theorem revoked_rejected {s₀ s : System} (h₀ : s₀.Initial) (hrun : Run (step P) NoLostUpdate s₀ s) :
    ∀ m ∈ s.minted, m.revocations < s.revocations m.token.sub → currentIdentity s m.token = none := by
  have hinv : Versioned s := by
    refine hrun.invariant (P := Versioned) (fun hs hok he => hs.change P hok (step_change P he)) ?_
    intro m hm
    rw [h₀.minted] at hm
    cases hm
  intro m hm hrev
  obtain ⟨user, huser, -, hlt⟩ := hinv m hm
  have := hlt hrev
  exact currentIdentity_eq_none huser (by omega)

/-- A login and a logout: the token of the login is rejected. -/
theorem revoked_rejected_logout :
    ∃ s, Run (step plainPlatform) NoLostUpdate sampleSystem s ∧ s.revocations 0 = 1 ∧
      (∃ m ∈ s.minted, m.token = ⟨0, 0, 3600⟩ ∧ m.revocations < s.revocations 0) ∧
      ∀ m ∈ s.minted, m.revocations < s.revocations m.token.sub →
        currentIdentity s m.token = none := by
  have hnew : Run (step plainPlatform) NoLostUpdate sampleSystem sampleSystem := .refl _
  have hstarted := (hnew.tail (e := Event.login 0 "old") trivial rfl).tail
    (e := Event.logout ⟨0, 0, 3600⟩) trivial rfl
  have hrun := hstarted.tail (e := Event.advance (.logout 0 sampleUser)) (by rintro _ ⟨⟩; rfl) rfl
  exact ⟨_, hrun, rfl, ⟨_, mem_singleton_self _, rfl, by decide⟩,
    revoked_rejected plainPlatform sampleSystem_initial hrun⟩

/-- **A token that survives**: two logouts load the first version and write the second; a login
between their commits reads the second, and its token is accepted after the later commit. -/
theorem revoked_accepted :
    ¬ ∀ (P : Platform) (s₀ s : System), s₀.Initial → Run (step P) (fun _ _ => True) s₀ s →
      ∀ m ∈ s.minted, m.revocations < s.revocations m.token.sub →
        currentIdentity s m.token = none := by
  intro h
  have hevents : [Event.login 0 "old", .logout ⟨0, 0, 3600⟩, .logout ⟨0, 0, 3600⟩,
      .advance (.logout 0 sampleUser), .login 0 "old",
      .advance (.logout 0 sampleUser)].foldlM (step plainPlatform) sampleSystem = some _ := rfl
  have hrun := run_of_foldlM (fun _ _ => trivial) hevents
  have hnone := h _ _ _ sampleSystem_initial hrun ⟨⟨0, 1, 3600⟩, 1⟩ (mem_cons_self ..)
    (by decide)
  revert hnone
  decide

end Guardian.Auth

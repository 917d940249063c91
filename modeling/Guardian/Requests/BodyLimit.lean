import Guardian.Python.Text
import Guardian.Transition.Run
import Mathlib.Algebra.GroupWithZero.Nat

/-!
# The limit of a request body

The middleware stands between the server and the application.  It counts the bytes of the messages
that the application receives, and watches what the application sends: once the body is over the
limit, the application receives no more of it, and what it then has to say is replaced.

The application is any program: it receives, sends and ends in any order, and may catch what is
raised on it.  The server takes what is sent to it.  `limited` is what it sees.
-/

namespace Guardian.Requests

open Python Transition List

variable (R : Runtime) (limit : ℤ)

/-! ### Messages -/

/-- A message of the server.  A body that is not there is empty. -/
inductive Incoming
  | request (body : Str) (moreBody : Bool)
  | other (type : Str)
  deriving DecidableEq

/-- A message to the server. -/
inductive Outgoing
  | start (status : ℕ) (headers : List (Str × Str))
  | body (body : Str) (moreBody : Bool)
  | other (type : Str)
  deriving DecidableEq

/-- `message["type"] == "http.response.start"`. -/
def Outgoing.isStart : Outgoing → Bool
  | .start .. => true
  | _ => false

/-- What is raised on the application, or by it. -/
inductive Problem
  | bodyTooLarge
  | other
  deriving DecidableEq

/-- How the application ends. -/
inductive Ending
  | returned
  | raised (problem : Problem)
  deriving DecidableEq

/-- What the application does next: a call of `receive` is answered with a message. -/
inductive Event
  | receive (message : Incoming)
  | send (message : Outgoing)
  | finish (ending : Ending)
  deriving DecidableEq

/-- **A request**: the variables of `__call__`, what the application has received, what the server
was sent, and what the application did, last first. -/
structure Exchange where
  received : ℕ
  responseStarted : Bool
  overflowBeforeResponse : Bool
  delivered : List Incoming
  sent : List Outgoing
  running : Bool
  events : List Event

/-! ### The middleware -/

def rejectText : Str := "\x7b\"detail\":\"request body too large\"\x7d"

/-- The first message of a refusal. -/
def rejectStart : Outgoing :=
  .start 413 [("content-type", "application/json"),
    ("content-length", (toString rejectText.length).toList)]

/-- `send`, of the server. -/
def hand (message : Outgoing) (s : Exchange) : Exchange := { s with sent := s.sent ++ [message] }

/-- `_reject`. -/
def reject (s : Exchange) : Exchange := hand (.body rejectText false) (hand rejectStart s)

/-- `counting_receive`, when the server has answered with a message: what the application is given,
or what is raised on it. -/
def countingReceive (message : Incoming) (s : Exchange) : Except Problem Incoming × Exchange :=
  match message with
  | .request body _ =>
    let s := { s with received := s.received + body.length }
    if limit < s.received then
      let s := if s.responseStarted then s else { s with overflowBeforeResponse := true }
      (.error .bodyTooLarge, s)
    else (.ok message, s)
  | .other _ => (.ok message, s)

/-- `watching_send`. -/
def watchingSend (message : Outgoing) (s : Exchange) : Exchange :=
  if s.overflowBeforeResponse then
    if s.responseStarted then s
    else reject { s with responseStarted := true }
  else
    let s := if message.isStart then { s with responseStarted := true } else s
    hand message s

/-- What follows the application. -/
def settle (ending : Ending) (s : Exchange) : Exchange :=
  match ending with
  | .raised .bodyTooLarge => if s.responseStarted then s else reject s
  | _ => s

/-- `int(s)`, with blanks around, a sign, and underscores between the digits.  Of a text in ASCII
only the blanks of C are skipped. -/
def signedInt (s : Str) : Except Fault ℤ :=
  let blank := if s.all fun c => c.toNat < 128 then (fun c => decide (c ∈ " \t\n\r\x0b\x0c".toList))
    else R.isSpace
  let stripped := (s.dropWhile blank).rdropWhile blank
  let (negative, digits) := match stripped with
    | '-' :: t => (true, t)
    | '+' :: t => (false, t)
    | t => (false, t)
  let groups := digits.splitOn '_'
  if [] ∈ groups then .error .valueError
  else do
    let n ← int R groups.flatten
    return if negative then -(n : ℤ) else n

/-- A request whose application has not done anything. -/
def freshExchange : Exchange := ⟨0, false, false, [], [], true, []⟩

/-- The length that the headers declare: that of the first header of the name, if it is a number. -/
def declaredLength (headers : List (Str × Str)) : Option ℤ :=
  match headers.lookup "content-length".toList with
  | some raw => (signedInt R raw).toOption
  | none => none

/-- **`__call__`**, up to the call of the application, which is not called if the headers declare a
length above the limit. -/
def enter (headers : List (Str × Str)) : Exchange :=
  if ∃ n ∈ declaredLength R headers, limit < n then
    { reject freshExchange with running := false }
  else freshExchange

/-- What an event makes of the request. -/
def advance : Event → Exchange → Exchange
  | .receive message, s =>
    match countingReceive limit message s with
    | (.ok message, t) => { t with delivered := t.delivered ++ [message] }
    | (.error _, t) => t
  | .send message, s => watchingSend message s
  | .finish ending, s => { settle ending s with running := false }

/-- **A step of the application**, while it runs. -/
def step (s : Exchange) (e : Event) : Option Exchange :=
  if s.running then some { advance limit e s with events := e :: s.events } else none

/-! ### What is claimed of a request -/

/-- The bytes of the bodies of messages. -/
def bytes (messages : List Incoming) : ℕ :=
  (messages.map fun
    | .request body _ => body.length
    | .other _ => 0).sum

/-- The messages that the server sent. -/
def arrived (events : List Event) : List Incoming :=
  events.filterMap fun
    | .receive message => some message
    | _ => none

/-- The application has started a response. -/
def Started (events : List Event) : Prop := ∃ m, Event.send m ∈ events ∧ m.isStart = true

/-- **The limit is exceeded before the application has started a response**: a part of the body
arrives with which it is over the limit. -/
def ExceededFirst : List Event → Prop
  | [] => False
  | e :: events =>
    ExceededFirst events ∨
      ∃ body more, e = .receive (.request body more) ∧
        limit < bytes (arrived events) + body.length ∧ ¬ Started events

/-- The application tries to respond, or lets the abort propagate. -/
def Responds (e : Event) : Prop := (∃ m, e = .send m) ∨ e = .finish (.raised .bodyTooLarge)

/-- It does so after the limit was exceeded. -/
def Answered : List Event → Prop
  | [] => False
  | e :: events => Answered events ∨ ExceededFirst limit events ∧ Responds e

/-- The responses that the server sees. -/
def Exchange.starts (s : Exchange) : List Outgoing := s.sent.filter Outgoing.isStart

/-- **The limit is kept**: the application receives no more than it; the server sees one response at
most; if the limit is exceeded first, it is the refusal, and there is one if the application tries
to respond or lets the abort propagate. -/
structure Limited (s : Exchange) : Prop where
  within : bytes s.delivered ≤ limit.toNat
  once : s.starts.length ≤ 1
  refused : ExceededFirst limit s.events → ∀ m ∈ s.starts, m = rejectStart
  answered : Answered limit s.events → rejectStart ∈ s.starts

/-- The application starts one response at most. -/
def OneResponse (s : Exchange) (e : Event) : Prop :=
  ∀ m, e = .send m → m.isStart = true → ¬ Started s.events

variable {R limit}

/-! ### What an event does -/

theorem advance_request (body : Str) (more : Bool) (s : Exchange) :
    advance limit (.receive (.request body more)) s =
      if limit < (s.received + body.length : ℕ) then
        { s with
          received := s.received + body.length
          overflowBeforeResponse := s.overflowBeforeResponse || !s.responseStarted }
      else
        { s with
          received := s.received + body.length
          delivered := s.delivered ++ [.request body more] } := by
  unfold advance countingReceive
  by_cases hlimit : limit < (s.received + body.length : ℕ)
  · rw [if_pos hlimit]
    dsimp only
    rw [if_pos hlimit]
    cases s.responseStarted <;> simp
  · rw [if_neg hlimit]
    dsimp only
    rw [if_neg hlimit]

variable {s : Exchange}

theorem watchingSend_pass {m : Outgoing} (h : s.overflowBeforeResponse = false) :
    watchingSend m s = hand m { s with responseStarted := m.isStart || s.responseStarted } := by
  unfold watchingSend
  rw [if_neg (by rw [h]; exact Bool.false_ne_true)]
  cases m.isStart <;> rfl

theorem watchingSend_replace {m : Outgoing} (h : s.overflowBeforeResponse = true) :
    watchingSend m s = if s.responseStarted then s else reject { s with responseStarted := true } :=
  if_pos h

theorem advance_finish (ending : Ending) (s : Exchange) :
    advance limit (.finish ending) s =
      if ending = .raised .bodyTooLarge ∧ s.responseStarted = false then
        { reject s with running := false }
      else { s with running := false } := by
  unfold advance settle
  rcases ending with _ | _ | _
  · rfl
  · cases hstarted : s.responseStarted <;> simp [hstarted]
  · rfl

theorem starts_hand (m : Outgoing) (s : Exchange) :
    (hand m s).starts = if m.isStart = true then s.starts ++ [m] else s.starts := by
  unfold Exchange.starts hand
  cases hm : m.isStart <;> simp [hm]

theorem starts_reject (s : Exchange) : (reject s).starts = s.starts ++ [rejectStart] := by
  rw [reject, starts_hand, starts_hand]
  rfl

/-! ### The invariant -/

variable (limit) in
/-- **The invariant**: what the code counts is what arrived, and its flags say what the application
and the server have seen. -/
structure Inv (s : Exchange) : Prop where
  received : s.received = bytes (arrived s.events)
  delivered : bytes s.delivered ≤ s.received
  within : bytes s.delivered ≤ limit.toNat
  overflow : s.overflowBeforeResponse = true ↔ ExceededFirst limit s.events
  started : s.running = true → s.overflowBeforeResponse = false →
    (s.responseStarted = true ↔ Started s.events)
  silent : s.running = true → s.responseStarted = false → s.starts = []
  seen : s.starts = [] ∨
    ∃ m, s.starts = [m] ∧ (s.overflowBeforeResponse = true → m = rejectStart)
  answered : Answered limit s.events → rejectStart ∈ s.starts
  responds : s.running = true → s.overflowBeforeResponse = true → s.responseStarted = true →
    rejectStart ∈ s.starts

theorem limited_of_inv (h : Inv limit s) : Limited limit s := by
  refine ⟨h.within, ?_, fun hex m hm => ?_, h.answered⟩
  · rcases h.seen with hnil | ⟨m, hone, -⟩
    · rw [hnil]
      exact Nat.zero_le 1
    · rw [hone]
      exact le_rfl
  · rcases h.seen with hnil | ⟨m', hone, heq⟩
    · rw [hnil] at hm
      cases hm
    · rw [hone, mem_singleton] at hm
      rw [hm]
      exact heq (h.overflow.mpr hex)

theorem bytes_concat (messages : List Incoming) (m : Incoming) :
    bytes (messages ++ [m]) = bytes messages + bytes [m] := by
  unfold bytes
  rw [map_append, sum_append]

theorem started_cons {e : Event} {events : List Event} (h : ∀ m, e = .send m → m.isStart = false) :
    Started (e :: events) ↔ Started events := by
  unfold Started
  constructor
  · rintro ⟨m, hm, hstart⟩
    rcases mem_cons.mp hm with he | hm
    · rw [h m he.symm] at hstart
      cases hstart
    · exact ⟨m, hm, hstart⟩
  · rintro ⟨m, hm, hstart⟩
    exact ⟨m, mem_cons_of_mem _ hm, hstart⟩

theorem exceededFirst_cons {e : Event} {events : List Event}
    (h : ∀ body more, e ≠ .receive (.request body more)) :
    ExceededFirst limit (e :: events) ↔ ExceededFirst limit events :=
  or_iff_left fun ⟨body, more, he, _⟩ => h body more he

theorem answered_cons {e : Event} {events : List Event} (h : ¬ Responds e) :
    Answered limit (e :: events) ↔ Answered limit events :=
  or_iff_left fun hr => h hr.2

theorem started_receive (m : Incoming) (events : List Event) :
    Started (.receive m :: events) ↔ Started events :=
  started_cons fun _ he => (by cases he)

theorem answered_receive (m : Incoming) (events : List Event) :
    Answered limit (.receive m :: events) ↔ Answered limit events := by
  refine answered_cons ?_
  rintro (⟨m', he⟩ | he) <;> cases he

theorem exceededFirst_request (body : Str) (more : Bool) (events : List Event) :
    ExceededFirst limit (.receive (.request body more) :: events) ↔
      ExceededFirst limit events ∨
        limit < (bytes (arrived events) + body.length : ℕ) ∧ ¬ Started events := by
  rw [Int.natCast_add]
  refine or_congr_right ⟨?_, fun hex => ⟨body, more, rfl, hex⟩⟩
  rintro ⟨_, _, he, hex⟩
  cases he
  exact hex

theorem inv_fresh : Inv limit freshExchange :=
  ⟨rfl, le_rfl, Nat.zero_le _, ⟨fun h => (by cases h), fun h => h.elim⟩,
    fun _ _ => ⟨fun h => (by cases h), fun ⟨_, hm, _⟩ => (by cases hm)⟩, fun _ _ => rfl, Or.inl rfl,
    fun h => h.elim, fun _ h => (by cases h)⟩

theorem inv_enter (headers : List (Str × Str)) : Inv limit (enter R limit headers) := by
  unfold enter
  split_ifs
  · have hstarts : ({ reject freshExchange with running := false } : Exchange).starts =
        [rejectStart] := starts_reject freshExchange
    exact ⟨rfl, le_rfl, Nat.zero_le _, ⟨fun h => (by cases h), fun h => h.elim⟩,
      fun h => (by cases h), fun h => (by cases h), Or.inr ⟨_, hstarts, fun _ => rfl⟩,
      fun h => h.elim, fun h => (by cases h)⟩
  · exact inv_fresh

theorem inv_other (h : Inv limit s) (type : Str) :
    Inv limit { advance limit (.receive (.other type)) s with
      events := .receive (.other type) :: s.events } := by
  have hbytes : bytes (s.delivered ++ [.other type]) = bytes s.delivered := bytes_concat _ _
  have harrived : bytes (arrived (.receive (.other type) :: s.events)) =
      bytes (arrived s.events) := Nat.zero_add _
  refine ⟨h.received.trans harrived.symm, hbytes.le.trans h.delivered, hbytes.le.trans h.within,
    ?_, fun hrun hover => (h.started hrun hover).trans (started_receive _ _).symm, h.silent, h.seen,
    fun hans => h.answered ((answered_receive _ _).mp hans), h.responds⟩
  exact h.overflow.trans (exceededFirst_cons fun _ _ he => (by cases he)).symm

theorem inv_over (h : Inv limit s) (hrun : s.running = true) {body : Str}
    (more : Bool) (hlimit : limit < (s.received + body.length : ℕ)) :
    Inv limit { advance limit (.receive (.request body more)) s with
      events := .receive (.request body more) :: s.events } := by
  have harrived : bytes (arrived (.receive (.request body more) :: s.events)) =
      body.length + bytes (arrived s.events) := rfl
  have hreceived := h.received
  have hdelivered := h.delivered
  -- the flag is set if nothing was sent before
  have hflag : (s.overflowBeforeResponse || !s.responseStarted) = true ↔
      ExceededFirst limit (.receive (.request body more) :: s.events) := by
    rw [exceededFirst_request, ← hreceived, ← h.overflow]
    cases hold : s.overflowBeforeResponse
    · have := h.started hrun hold
      cases hresponse : s.responseStarted <;> simp_all
    · simp
  rw [advance_request, if_pos hlimit]
  refine ⟨by dsimp only; omega, by dsimp only; omega, h.within, hflag, fun _ hno => ?_,
    h.silent, ?_, fun hans => h.answered ((answered_receive _ _).mp hans),
    fun _ hyes hresponse => ?_⟩
  · rw [Bool.or_eq_false_iff] at hno
    exact (h.started hrun hno.1).trans (started_receive _ _).symm
  · rcases h.seen with hnil | ⟨m, hone, heq⟩
    · exact Or.inl hnil
    · refine Or.inr ⟨m, hone, fun hyes => heq ?_⟩
      cases hresponse : s.responseStarted
      · rw [show s.starts = [] from h.silent hrun hresponse] at hone
        cases hone
      · simpa [hresponse] using hyes
  · dsimp only at hyes hresponse
    rw [hresponse, Bool.not_true, Bool.or_false] at hyes
    exact h.responds hrun hyes hresponse

theorem inv_within (h : Inv limit s) {body : Str} (more : Bool)
    (hlimit : ¬ limit < (s.received + body.length : ℕ)) :
    Inv limit { advance limit (.receive (.request body more)) s with
      events := .receive (.request body more) :: s.events } := by
  have harrived : bytes (arrived (.receive (.request body more) :: s.events)) =
      body.length + bytes (arrived s.events) := rfl
  have hbytes : bytes (s.delivered ++ [.request body more]) =
      bytes s.delivered + body.length := bytes_concat _ _
  have hreceived := h.received
  have hdelivered := h.delivered
  rw [advance_request, if_neg hlimit]
  refine ⟨by dsimp only; omega, by dsimp only; omega, by dsimp only; omega, ?_,
    fun hrun hno => (h.started hrun hno).trans (started_receive _ _).symm, h.silent, h.seen,
    fun hans => h.answered ((answered_receive _ _).mp hans), h.responds⟩
  rw [exceededFirst_request, ← hreceived]
  exact h.overflow.trans (or_iff_left fun hex => hlimit hex.1).symm

theorem inv_pass (h : Inv limit s) (hrun : s.running = true) {m : Outgoing}
    (hone : OneResponse s (.send m)) (hflag : s.overflowBeforeResponse = false) :
    Inv limit { watchingSend m s with events := .send m :: s.events } := by
  have hover : ExceededFirst limit (.send m :: s.events) ↔ ExceededFirst limit s.events :=
    exceededFirst_cons fun _ _ he => (by cases he)
  have hstarts : ({ watchingSend m s with events := .send m :: s.events } : Exchange).starts =
      if m.isStart = true then s.starts ++ [m] else s.starts := by
    rw [watchingSend_pass hflag]
    exact starts_hand m s
  have hnone : ¬ ExceededFirst limit s.events := by
    rw [← h.overflow, hflag]
    exact Bool.false_ne_true
  have hstart := h.started hrun hflag
  -- a response that starts is the first one
  have hempty : m.isStart = true → s.starts = [] := by
    intro hm
    refine h.silent hrun ?_
    rw [← Bool.not_eq_true, hstart]
    exact hone m rfl hm
  rw [watchingSend_pass hflag] at hstarts ⊢
  refine ⟨h.received, h.delivered, h.within, h.overflow.trans hover.symm, fun _ _ => ?_,
    fun _ hno => ?_, ?_, fun hans => ?_, fun _ hyes => (by cases hflag.symm.trans hyes)⟩
  · dsimp only [hand]
    rw [Bool.or_eq_true, hstart]
    unfold Started
    constructor
    · rintro (hm | ⟨m', hm', hstart'⟩)
      · exact ⟨m, mem_cons_self, hm⟩
      · exact ⟨m', mem_cons_of_mem _ hm', hstart'⟩
    · rintro ⟨m', hm', hstart'⟩
      rcases mem_cons.mp hm' with he | hm'
      · cases he
        exact Or.inl hstart'
      · exact Or.inr ⟨m', hm', hstart'⟩
  · dsimp only [hand] at hno
    rw [Bool.or_eq_false_iff] at hno
    rw [hstarts, if_neg (by rw [hno.1]; exact Bool.false_ne_true)]
    exact h.silent hrun hno.2
  · rw [hstarts]
    split_ifs with hm
    · rw [hempty hm]
      exact Or.inr ⟨m, rfl, fun hyes => (by cases hflag.symm.trans hyes)⟩
    · exact h.seen
  · rw [hstarts]
    have hin := h.answered (hans.resolve_right fun hex => hnone hex.1)
    split_ifs
    · exact mem_append_left _ hin
    · exact hin

theorem inv_replace (h : Inv limit s) (hrun : s.running = true) {m : Outgoing}
    (hflag : s.overflowBeforeResponse = true) :
    Inv limit { watchingSend m s with events := .send m :: s.events } := by
  have hover : ExceededFirst limit (.send m :: s.events) ↔ ExceededFirst limit s.events :=
    exceededFirst_cons fun _ _ he => (by cases he)
  rw [watchingSend_replace hflag]
  cases hresponse : s.responseStarted
  · have hstarts : ({ reject { s with responseStarted := true } with
        events := .send m :: s.events } : Exchange).starts = [rejectStart] := by
      have hnil : ({ s with responseStarted := true } : Exchange).starts = [] :=
        h.silent hrun hresponse
      have hreject := starts_reject { s with responseStarted := true }
      rw [hnil] at hreject
      exact hreject
    rw [if_neg Bool.false_ne_true]
    refine ⟨h.received, h.delivered, h.within, h.overflow.trans hover.symm,
      fun _ hno => (by cases hflag.symm.trans hno), fun _ hno => (by cases hno),
      Or.inr ⟨_, hstarts, fun _ => rfl⟩, fun _ => ?_, fun _ _ _ => ?_⟩
    all_goals
      rw [hstarts]
      exact mem_cons_self
  · rw [if_pos rfl]
    exact ⟨h.received, h.delivered, h.within, h.overflow.trans hover.symm,
      fun _ hno => (by cases hflag.symm.trans hno), h.silent, h.seen,
      fun _ => h.responds hrun hflag hresponse, h.responds⟩

theorem inv_finish (h : Inv limit s) (hrun : s.running = true) (ending : Ending) :
    Inv limit { advance limit (.finish ending) s with events := .finish ending :: s.events } := by
  have hover : ExceededFirst limit (.finish ending :: s.events) ↔ ExceededFirst limit s.events :=
    exceededFirst_cons fun _ _ he => (by cases he)
  rw [advance_finish]
  split_ifs with hreject
  · have hstarts : ({ reject s with
        running := false, events := .finish ending :: s.events } : Exchange).starts =
          [rejectStart] := by
      have hstarts := starts_reject s
      rw [h.silent hrun hreject.2] at hstarts
      exact hstarts
    refine ⟨h.received, h.delivered, h.within, h.overflow.trans hover.symm,
      fun hno => (by cases hno), fun hno => (by cases hno),
      Or.inr ⟨_, hstarts, fun _ => rfl⟩, fun _ => ?_,
      fun hno => (by cases hno)⟩
    rw [hstarts]
    exact mem_cons_self
  · refine ⟨h.received, h.delivered, h.within, h.overflow.trans hover.symm,
      fun hno => (by cases hno), fun hno => (by cases hno), h.seen, fun hans => ?_,
      fun hno => (by cases hno)⟩
    rcases hans with hans | ⟨hex, ⟨m, hm⟩ | habort⟩
    · exact h.answered hans
    · cases hm
    · cases habort
      have hresponse : s.responseStarted = true := by
        rw [← Bool.not_eq_false]
        exact fun hno => hreject ⟨rfl, hno⟩
      exact h.responds hrun (h.overflow.mpr hex) hresponse

/-- **Every step keeps the invariant.** -/
theorem inv_step {t : Exchange} {e : Event} (h : Inv limit s) (hone : OneResponse s e)
    (hstep : step limit s e = some t) : Inv limit t := by
  unfold step at hstep
  split_ifs at hstep with hrun
  cases hstep
  cases e with
  | receive message =>
    cases message with
    | request body more =>
      by_cases hlimit : limit < (s.received + body.length : ℕ)
      · exact inv_over h hrun more hlimit
      · exact inv_within h more hlimit
    | other type => exact inv_other h type
  | send m =>
    cases hflag : s.overflowBeforeResponse
    · exact inv_pass h hrun hone hflag
    · exact inv_replace h hrun hflag
  | finish ending => exact inv_finish h hrun ending

/-- **The limit is kept in every run**, whatever the headers, the parts of the body and the
application are. -/
theorem limited (headers : List (Str × Str)) {s : Exchange}
    (h : Run (step limit) OneResponse (enter R limit headers) s) : Limited limit s :=
  limited_of_inv (h.invariant (fun hinv hone hstep => inv_step hinv hone hstep) (inv_enter headers))

/-- A request with an understated length: the application catches the abort and answers it. -/
def swallowed : Exchange where
  received := 4
  responseStarted := true
  overflowBeforeResponse := true
  delivered := []
  sent := [rejectStart, .body rejectText false]
  running := false
  events := [.finish .returned, .send (.start 400 []), .receive (.request "abcd" false)]

theorem limited_swallowed : Limited 3 swallowed := by
  refine limited (R := .ascii) [("content-length", "2")]
    (.tail (e := .finish .returned) (.tail (e := .send (.start 400 []))
      (.tail (e := .receive (.request "abcd" false)) (.refl _) ?_ rfl) ?_ rfl) ?_ rfl)
  · exact fun _ hm => (by cases hm)
  · rintro _ - - ⟨m, hm, -⟩
    cases hm with
    | tail _ hm => cases hm
  · exact fun _ hm => (by cases hm)

end Guardian.Requests

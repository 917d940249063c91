import Guardian.Python.Text
import Guardian.Transition.Run

/-!
# Webhook deliveries

An event is one row for each endpoint that asked for it, and a task that posts it.  The sweep queues
another task for every row whose backoff has elapsed, and leaves the row as it is; a task reads the
row, posts, and writes what it found over what it had read.  Between two steps of one task the
others take theirs.  `promised_of_exclusive` gives the runs in which no delivery is posted too often
or too early.
-/

namespace Guardian.Webhooks

open Python Transition List

/-! ### The retry policy -/

def retryDelaysSeconds : List ℕ := [60, 300, 1500]

def maxAttempts : ℕ := retryDelaysSeconds.length + 1

def maxConsecutiveFailures : ℕ := 20

/-- `should_retry`: whether a failed delivery is worth trying again. -/
def shouldRetry (status attempt : ℕ) : Bool :=
  if maxAttempts ≤ attempt then false
  else if status = 0 then true
  else if 200 ≤ status ∧ status < 300 then false
  else if 400 ≤ status ∧ status < 500 then status == 408 || status == 429
  else true

def retryDelay (attempt : ℕ) : ℕ :=
  let index := min (max (attempt - 1) 0) (retryDelaysSeconds.length - 1)
  retryDelaysSeconds.getD index 0

/-! ### The rows -/

/-- Where a delivery stands. -/
inductive DeliveryStatus
  | pending | delivered | failed | dropped
  deriving DecidableEq

/-- A row of `webhook_deliveries`, without what was sent.  Instants are in microseconds. -/
structure WebhookDelivery where
  endpointId : ℕ
  status : DeliveryStatus
  attempts : ℕ
  responseStatus : Option ℕ
  error : Option Str
  nextAttemptAt : Option ℕ
  deliveredAt : Option ℕ
  deriving DecidableEq

/-- A row of `webhook_endpoints`, without its destination. -/
structure WebhookEndpoint where
  enabled : Bool
  consecutiveFailures : ℕ
  lastSuccessAt : Option ℕ
  disabledAt : Option ℕ
  disabledReason : Option Str
  deriving DecidableEq

/-- The row that `enqueue` adds for an endpoint. -/
def enqueued (endpointId now : ℕ) : WebhookDelivery where
  endpointId := endpointId
  status := .pending
  attempts := 0
  responseStatus := none
  error := none
  nextAttemptAt := some now
  deliveredAt := none

def disabledReason (failures status : ℕ) (detail : Str) : Str :=
  "disabled after " ++ failures.repr.toList ++
    " consecutive failures; the last was HTTP " ++ status.repr.toList ++ ": " ++
    detail.take 120

/-- What `deliver_webhook` makes of its rows when the endpoint is gone. -/
def dropped (delivery : WebhookDelivery) : WebhookDelivery :=
  { delivery with
    status := .dropped
    error := some "the endpoint was removed or disabled before delivery" }

/-- **What `deliver_webhook` makes of its rows**, given what the post returned. -/
def settled (delivery : WebhookDelivery) (endpoint : WebhookEndpoint) (now status : ℕ)
    (detail : Str) : WebhookDelivery × WebhookEndpoint :=
  let delivery :=
    { delivery with attempts := delivery.attempts + 1, responseStatus := some status }
  if 200 ≤ status ∧ status < 300 then
    ({ delivery with
        status := .delivered, deliveredAt := some now, error := none, nextAttemptAt := none },
      { endpoint with consecutiveFailures := 0, lastSuccessAt := some now })
  else
    let delivery := { delivery with error := some detail }
    let endpoint := { endpoint with consecutiveFailures := endpoint.consecutiveFailures + 1 }
    let delivery :=
      if shouldRetry status delivery.attempts then
        { delivery with
          status := .pending
          nextAttemptAt := some (now + retryDelay delivery.attempts * 1000000) }
      else { delivery with status := .failed, nextAttemptAt := none }
    let endpoint :=
      if maxConsecutiveFailures ≤ endpoint.consecutiveFailures then
        { endpoint with
          enabled := false
          disabledAt := some now
          disabledReason := some (disabledReason endpoint.consecutiveFailures status detail) }
      else endpoint
    (delivery, endpoint)

theorem lt_of_shouldRetry {status attempt : ℕ} (h : shouldRetry status attempt = true) :
    attempt < maxAttempts := by
  unfold shouldRetry at h
  split_ifs at h <;> omega

section Settled

variable (delivery : WebhookDelivery) (endpoint : WebhookEndpoint) (now status : ℕ) (detail : Str)

theorem settled_attempts :
    (settled delivery endpoint now status detail).1.attempts = delivery.attempts + 1 := by
  simp only [settled]
  split_ifs <;> rfl

theorem settled_pending (h : (settled delivery endpoint now status detail).1.status = .pending) :
    delivery.attempts + 1 < maxAttempts := by
  by_cases hsuccess : 200 ≤ status ∧ status < 300
  · simp [settled, hsuccess] at h
  · by_cases hretry : shouldRetry status (delivery.attempts + 1) = true
    · exact lt_of_shouldRetry hretry
    · simp [settled, hsuccess, hretry] at h

end Settled

/-! ### What a commit writes -/

/-- **A column is written** only where the task changed what it had loaded. -/
def written {α : Type} [DecidableEq α] (loaded assigned stored : α) : α :=
  if assigned = loaded then stored else assigned

@[simp] theorem written_self {α : Type} [DecidableEq α] (loaded assigned : α) :
    written loaded assigned loaded = assigned := by
  unfold written
  split_ifs with h
  · exact h.symm
  · rfl

/-- The `UPDATE` of a delivery that was loaded and changed, over the row that is stored. -/
def WebhookDelivery.write (loaded assigned stored : WebhookDelivery) : WebhookDelivery where
  endpointId := written loaded.endpointId assigned.endpointId stored.endpointId
  status := written loaded.status assigned.status stored.status
  attempts := written loaded.attempts assigned.attempts stored.attempts
  responseStatus := written loaded.responseStatus assigned.responseStatus stored.responseStatus
  error := written loaded.error assigned.error stored.error
  nextAttemptAt := written loaded.nextAttemptAt assigned.nextAttemptAt stored.nextAttemptAt
  deliveredAt := written loaded.deliveredAt assigned.deliveredAt stored.deliveredAt

/-- The `UPDATE` of an endpoint. -/
def WebhookEndpoint.write (loaded assigned stored : WebhookEndpoint) : WebhookEndpoint where
  enabled := written loaded.enabled assigned.enabled stored.enabled
  consecutiveFailures :=
    written loaded.consecutiveFailures assigned.consecutiveFailures stored.consecutiveFailures
  lastSuccessAt := written loaded.lastSuccessAt assigned.lastSuccessAt stored.lastSuccessAt
  disabledAt := written loaded.disabledAt assigned.disabledAt stored.disabledAt
  disabledReason := written loaded.disabledReason assigned.disabledReason stored.disabledReason

@[simp] theorem WebhookDelivery.write_self (loaded assigned : WebhookDelivery) :
    loaded.write assigned loaded = assigned := by
  simp [WebhookDelivery.write]

/-! ### Tasks -/

/-- **How far a task is**: queued, then with the row that it read; then it either drops the delivery
or has taken the time for a post, which it makes and whose answer it waits for. -/
inductive Stage
  | queued
  | reading (seen : WebhookDelivery)
  | dropping (seen : WebhookDelivery)
  | sending (seen : WebhookDelivery) (endpoint : WebhookEndpoint) (now : ℕ)
  | sent (seen : WebhookDelivery) (endpoint : WebhookEndpoint) (now : ℕ)
  | ended
  deriving DecidableEq

/-- The task has a row in hand. -/
def Stage.active : Stage → Bool
  | .queued | .ended => false
  | _ => true

/-- The task has posted and not committed. -/
def Stage.isSent : Stage → Bool
  | .sent .. => true
  | _ => false

/-- The row of a task that has not looked at its endpoint yet. -/
def Stage.unchecked : Stage → Option WebhookDelivery
  | .reading seen => some seen
  | _ => none

/-- A call of `deliver_webhook`. -/
structure Task where
  deliveryId : ℕ
  stage : Stage
  deriving DecidableEq

/-- What has happened to a delivery: a post, with its time and what the row then said of the next
attempt, or a commit, with the status that it left. -/
inductive Entry
  | posted (deliveryId time : ℕ) (nextAttemptAt : Option ℕ)
  | committed (deliveryId : ℕ) (status : DeliveryStatus)
  deriving DecidableEq

def Entry.deliveryId : Entry → ℕ
  | .posted id _ _ => id
  | .committed id _ => id

/-- The entry is a post of the delivery. -/
def Entry.isPost (id : ℕ) : Entry → Bool
  | .posted id' _ _ => id' == id
  | .committed .. => false

theorem Entry.deliveryId_of_isPost {id : ℕ} {e : Entry} (h : e.isPost id = true) :
    e.deliveryId = id := by
  cases e with
  | posted id' => exact beq_iff_eq.mp h
  | committed => cases h

/-- How often a delivery has been posted. -/
def posts (id : ℕ) (log : List Entry) : ℕ := log.countP (Entry.isPost id)

/-- **The system**: the clock, the tables (the id of a row is its place), the tasks and what has
happened, the latest first. -/
structure System where
  now : ℕ
  deliveries : List WebhookDelivery
  endpoints : List WebhookEndpoint
  tasks : List Task
  log : List Entry
  deriving DecidableEq

/-- No event has been emitted yet. -/
structure System.Initial (s : System) : Prop where
  deliveries : s.deliveries = []
  tasks : s.tasks = []
  log : s.log = []

/-- When the row says that the delivery may be attempted. -/
def System.nextAttempt (s : System) (id : ℕ) : Option ℕ :=
  s.deliveries[id]?.bind (·.nextAttemptAt)

def System.dispatch (s : System) (ids : List ℕ) : System :=
  { s with tasks := s.tasks ++ ids.map fun id => ⟨id, .queued⟩ }

def System.move (s : System) (i : ℕ) (id : ℕ) (stage : Stage) : System :=
  { s with tasks := s.tasks.set i ⟨id, stage⟩ }

/-- The commit of a delivery. -/
def System.commitDelivery (s : System) (id : ℕ) (loaded assigned : WebhookDelivery) : System :=
  match s.deliveries[id]? with
  | none => s
  | some stored =>
    { s with
      deliveries := s.deliveries.set id (loaded.write assigned stored)
      log := .committed id (loaded.write assigned stored).status :: s.log }

def System.commitEndpoint (s : System) (id : ℕ) (loaded assigned : WebhookEndpoint) : System :=
  { s with endpoints := s.endpoints.modify id (loaded.write assigned) }

/-! ### The steps of `deliver_webhook` -/

/-- The delivery is read. -/
def begin (s : System) (i id : ℕ) : System :=
  match s.deliveries[id]? with
  | none => s.move i id .ended
  | some delivery =>
    if delivery.status = .delivered then s.move i id .ended
    else s.move i id (.reading delivery)

/-- The endpoint is read, and the clock. -/
def look (s : System) (i id : ℕ) (seen : WebhookDelivery) : System :=
  match s.endpoints[seen.endpointId]? with
  | none => s.move i id (.dropping seen)
  | some endpoint =>
    if !endpoint.enabled then s.move i id (.dropping seen)
    else s.move i id (.sending seen endpoint s.now)

/-- The delivery is posted. -/
def post (s : System) (i id : ℕ) (seen : WebhookDelivery) (endpoint : WebhookEndpoint) (now : ℕ) :
    System :=
  { s.move i id (.sent seen endpoint now) with
    log := .posted id s.now (s.nextAttempt id) :: s.log }

/-- The answer is there, and both rows are committed. -/
def answer (s : System) (i id : ℕ) (seen : WebhookDelivery) (endpoint : WebhookEndpoint)
    (now status : ℕ) (detail : Str) : System :=
  let (delivery, endpoint') := settled seen endpoint now status detail
  ((s.commitDelivery id seen delivery).commitEndpoint seen.endpointId endpoint endpoint').move i id
    .ended

/-! ### The sweep -/

/-- The rows that the sweep selects: pending, and due. -/
def System.due (s : System) : List ℕ :=
  (List.range s.deliveries.length).filter fun id =>
    s.deliveries[id]?.any (fun delivery => delivery.status == .pending) &&
      (s.nextAttempt id).any (fun next => next ≤ s.now)

/-- The selected rows in an order that `ORDER BY next_attempt_at` may give. -/
def System.Sorted (s : System) (order : List ℕ) : Prop :=
  order.Perm s.due ∧
    order.Pairwise fun a b => (s.nextAttempt a).getD 0 ≤ (s.nextAttempt b).getD 0

instance (s : System) (order : List ℕ) : Decidable (s.Sorted order) := instDecidableAnd

/-! ### The transition system -/

/-- What may happen: time passes, an event is emitted, the sweep runs, an endpoint is deleted, or a
task takes its next step. -/
inductive Event
  | tick (elapsed : ℕ)
  | emit (endpointId : ℕ)
  | sweep (limit : ℕ) (order : List ℕ)
  | deleteEndpoint (endpointId : ℕ)
  | begin (i : ℕ)
  | look (i : ℕ)
  | drop (i : ℕ)
  | post (i : ℕ)
  | answer (i status : ℕ) (detail : Str)

/-- **The step function.** -/
def step (s : System) : Event → Option System
  | .tick elapsed => some { s with now := s.now + elapsed }
  | .emit endpointId =>
    match s.endpoints[endpointId]? with
    | none => none
    | some endpoint =>
      if !endpoint.enabled then none
      else
        some ({ s with deliveries := s.deliveries ++ [enqueued endpointId s.now] }.dispatch
          [s.deliveries.length])
  | .sweep limit order => if s.Sorted order then some (s.dispatch (order.take limit)) else none
  | .deleteEndpoint id =>
    some { s with
      endpoints := s.endpoints.modify id fun endpoint => { endpoint with enabled := false } }
  | .begin i =>
    match s.tasks[i]? with
    | some ⟨id, .queued⟩ => some (begin s i id)
    | _ => none
  | .look i =>
    match s.tasks[i]? with
    | some ⟨id, .reading seen⟩ => some (look s i id seen)
    | _ => none
  | .drop i =>
    match s.tasks[i]? with
    | some ⟨id, .dropping seen⟩ => some ((s.commitDelivery id seen (dropped seen)).move i id .ended)
    | _ => none
  | .post i =>
    match s.tasks[i]? with
    | some ⟨id, .sending seen endpoint now⟩ => some (post s i id seen endpoint now)
    | _ => none
  | .answer i status detail =>
    match s.tasks[i]? with
    | some ⟨id, .sent seen endpoint now⟩ => some (answer s i id seen endpoint now status detail)
    | _ => none

/-! ### What a step changes -/

/-- **The change that a step makes.** -/
inductive Change (s : System) : Event → System → Prop
  | tick (elapsed : ℕ) : Change s (.tick elapsed) { s with now := s.now + elapsed }
  | emit (endpointId : ℕ) :
      Change s (.emit endpointId)
        ({ s with deliveries := s.deliveries ++ [enqueued endpointId s.now] }.dispatch
          [s.deliveries.length])
  | sweep (limit : ℕ) (order : List ℕ) :
      Change s (.sweep limit order) (s.dispatch (order.take limit))
  | deleteEndpoint (id : ℕ) (endpoints : List WebhookEndpoint) :
      Change s (.deleteEndpoint id) { s with endpoints := endpoints }
  | skip {i id : ℕ} (htask : s.tasks[i]? = some ⟨id, .queued⟩) :
      Change s (.begin i) (s.move i id .ended)
  | read {i id : ℕ} {seen : WebhookDelivery} (htask : s.tasks[i]? = some ⟨id, .queued⟩)
      (hseen : s.deliveries[id]? = some seen) (hstatus : seen.status ≠ .delivered) :
      Change s (.begin i) (s.move i id (.reading seen))
  | giveUp {i id : ℕ} {seen : WebhookDelivery} (htask : s.tasks[i]? = some ⟨id, .reading seen⟩) :
      Change s (.look i) (s.move i id (.dropping seen))
  | attempt {i id : ℕ} {seen : WebhookDelivery} {endpoint : WebhookEndpoint}
      (htask : s.tasks[i]? = some ⟨id, .reading seen⟩)
      (hendpoint : s.endpoints[seen.endpointId]? = some endpoint)
      (henabled : endpoint.enabled = true) :
      Change s (.look i) (s.move i id (.sending seen endpoint s.now))
  | drop {i id : ℕ} {seen : WebhookDelivery} (htask : s.tasks[i]? = some ⟨id, .dropping seen⟩) :
      Change s (.drop i) ((s.commitDelivery id seen (dropped seen)).move i id .ended)
  | post {i id now : ℕ} {seen : WebhookDelivery} {endpoint : WebhookEndpoint}
      (htask : s.tasks[i]? = some ⟨id, .sending seen endpoint now⟩) :
      Change s (.post i) (post s i id seen endpoint now)
  | answer {i id now : ℕ} {seen : WebhookDelivery} {endpoint : WebhookEndpoint} (status : ℕ)
      (detail : Str) (htask : s.tasks[i]? = some ⟨id, .sent seen endpoint now⟩) :
      Change s (.answer i status detail) (answer s i id seen endpoint now status detail)

theorem step_change {s t : System} {e : Event} (h : step s e = some t) : Change s e t := by
  cases e with
  | tick elapsed =>
    cases h
    exact .tick elapsed
  | emit endpointId =>
    rw [step] at h
    split at h
    · cases h
    · split_ifs at h
      cases h
      exact .emit endpointId
  | sweep limit order =>
    rw [step] at h
    split_ifs at h
    cases h
    exact .sweep limit order
  | deleteEndpoint id =>
    cases h
    exact .deleteEndpoint id _
  | begin i =>
    rw [step] at h
    split at h
    · rename_i id htask
      cases h
      unfold begin
      split
      · exact .skip htask
      · rename_i seen hseen
        split_ifs with hstatus
        · exact .skip htask
        · exact .read htask hseen hstatus
    · cases h
  | look i =>
    rw [step] at h
    split at h
    · rename_i id seen htask
      cases h
      unfold look
      split
      · exact .giveUp htask
      · rename_i endpoint hendpoint
        split_ifs with henabled
        · exact .giveUp htask
        · exact .attempt htask hendpoint (by simpa using henabled)
    · cases h
  | drop i =>
    rw [step] at h
    split at h
    · rename_i id seen htask
      cases h
      exact .drop htask
    · cases h
  | post i =>
    rw [step] at h
    split at h
    · rename_i id seen endpoint now htask
      cases h
      exact .post htask
    · cases h
  | answer i status detail =>
    rw [step] at h
    split at h
    · rename_i id seen endpoint now htask
      cases h
      exact .answer status detail htask
    · cases h

/-! ### The promise -/

/-- **What is promised of the posts**: there are few of them, none comes after a commit that closed
the delivery, and none before the next attempt is due. -/
structure Promised (log : List Entry) : Prop where
  bounded : ∀ id, posts id log ≤ maxAttempts
  unclosed : ∀ newer older id time due, log = newer ++ .posted id time due :: older →
    ∀ status, .committed id status ∈ older → status = .pending
  scheduled : ∀ id time due, .posted id time (some due) ∈ log → due ≤ time

/-- No task has the delivery in hand. -/
def System.Unclaimed (s : System) (id : ℕ) : Prop :=
  ∀ task ∈ s.tasks, task.deliveryId = id → task.stage.active = false

/-- The delivery is pending, and its next attempt is due. -/
def WebhookDelivery.DueAt (delivery : WebhookDelivery) (now : ℕ) : Prop :=
  delivery.status = .pending ∧ ∀ due ∈ delivery.nextAttemptAt, due ≤ now

/-- **A task has its delivery to itself**: it takes up a row that no other one has in hand, and goes
on to post it only when it is pending and due. -/
def Exclusive (s : System) : Event → Prop
  | .begin i => ∀ task ∈ s.tasks[i]?, ∀ delivery ∈ s.deliveries[task.deliveryId]?,
      delivery.status ≠ .delivered → s.Unclaimed task.deliveryId
  | .look i => ∀ task ∈ s.tasks[i]?, ∀ seen ∈ task.stage.unchecked,
      ∀ endpoint ∈ s.endpoints[seen.endpointId]?, endpoint.enabled = true → seen.DueAt s.now
  | _ => True

theorem promised_nil : Promised [] := by
  refine ⟨fun id => Nat.zero_le _, fun newer older id time due h => ?_, fun id time due h => ?_⟩
  · cases newer <;> cases h
  · cases h

section Promise

variable {log : List Entry} (h : Promised log)
include h

theorem Promised.committed (id : ℕ) (status : DeliveryStatus) :
    Promised (.committed id status :: log) := by
  refine ⟨fun id' => ?_, fun newer older id' time due hlog => ?_, fun id' time due hmem => ?_⟩
  · exact (countP_cons_of_neg (by simp [Entry.isPost])).trans_le (h.bounded id')
  · rcases newer with _ | ⟨e, newer⟩
    · cases hlog
    · rw [cons_append, List.cons.injEq] at hlog
      exact h.unclosed newer older id' time due hlog.2
  · rcases mem_cons.mp hmem with hmem | hmem
    · cases hmem
    · exact h.scheduled id' time due hmem

/-- **A post keeps the promise** when the delivery has attempts left, is not closed and is due. -/
theorem Promised.posted {id time : ℕ} {next : Option ℕ} (hposts : posts id log < maxAttempts)
    (hpending : ∀ status, .committed id status ∈ log → status = .pending)
    (hdue : ∀ due ∈ next, due ≤ time) : Promised (.posted id time next :: log) := by
  refine ⟨fun id' => ?_, fun newer older id' time' due hlog => ?_, fun id' time' due hmem => ?_⟩
  · by_cases hid : id = id'
    · subst hid
      have : posts id (.posted id time next :: log) = posts id log + 1 :=
        countP_cons_of_pos (by simp [Entry.isPost])
      omega
    · exact (countP_cons_of_neg (by simp [Entry.isPost, hid])).trans_le (h.bounded id')
  · rcases newer with _ | ⟨e, newer⟩
    · cases hlog
      exact hpending
    · rw [cons_append, List.cons.injEq] at hlog
      exact h.unclosed newer older id' time' due hlog.2
  · rcases mem_cons.mp hmem with hmem | hmem
    · cases hmem
      exact hdue due rfl
    · exact h.scheduled id' time' due hmem

end Promise

/-! ### The invariant -/

/-- No task waits for the answer to a post of the delivery. -/
def System.Quiet (s : System) (id : ℕ) : Prop :=
  ∀ (i : ℕ) (task : Task), s.tasks[i]? = some task → task.deliveryId = id →
    task.stage.isSent = false

/-- The row of a delivery agrees with the log. -/
structure Kept (s : System) (id : ℕ) (row : WebhookDelivery) : Prop where
  attempts : row.attempts ≤ maxAttempts
  counted : s.Quiet id → posts id s.log = row.attempts
  pending : row.status = .pending → row.attempts < maxAttempts ∧
    ∀ status, .committed id status ∈ s.log → status = .pending
  closed : row.status ≠ .pending → .committed id row.status ∈ s.log

/-- What a task has read is what is stored. -/
def Holds (s : System) (id : ℕ) : Stage → Prop
  | .queued => True
  | .reading seen => s.deliveries[id]? = some seen
  | .dropping seen => s.deliveries[id]? = some seen
  | .sending seen _ _ => s.deliveries[id]? = some seen ∧ seen.DueAt s.now
  | .sent seen _ _ =>
    s.deliveries[id]? = some seen ∧ seen.status = .pending ∧ posts id s.log = seen.attempts + 1
  | .ended => True

/-- **The invariant.** -/
structure Consistent (s : System) : Prop where
  promised : Promised s.log
  rows : ∀ id row, s.deliveries[id]? = some row → Kept s id row
  known : ∀ e ∈ s.log, e.deliveryId < s.deliveries.length
  held : ∀ (i : ℕ) (task : Task), s.tasks[i]? = some task → Holds s task.deliveryId task.stage
  alone : ∀ (i j : ℕ) (a b : Task), s.tasks[i]? = some a → s.tasks[j]? = some b →
    a.deliveryId = b.deliveryId → a.stage.active = true → b.stage.active = true → i = j

theorem holds_of_not_active {s : System} {id : ℕ} {stage : Stage} (h : stage.active = false) :
    Holds s id stage := by
  cases stage with
  | queued => trivial
  | ended => trivial
  | reading => cases h
  | dropping => cases h
  | sending => cases h
  | sent => cases h

theorem Stage.active_of_isSent {stage : Stage} (h : stage.isSent = true) : stage.active = true := by
  cases stage with
  | sent => rfl
  | queued => cases h
  | ended => cases h
  | reading => cases h
  | dropping => cases h
  | sending => cases h

theorem initial_consistent {s : System} (h : s.Initial) : Consistent s := by
  refine ⟨?_, fun id row hrow => ?_, fun e he => ?_, fun i task htask => ?_,
    fun i j a b ha => ?_⟩
  · rw [h.log]
    exact promised_nil
  · rw [h.deliveries] at hrow
    cases hrow
  · rw [h.log] at he
    cases he
  · rw [h.tasks] at htask
    cases htask
  · rw [h.tasks] at ha
    cases ha

/-! ### One task takes a step -/

section Set

variable {tasks : List Task} {i j id : ℕ} {stage : Stage} {task : Task}

theorem getElem?_set_task (h : (tasks.set i ⟨id, stage⟩)[j]? = some task) :
    j = i ∧ task = ⟨id, stage⟩ ∨ j ≠ i ∧ tasks[j]? = some task := by
  rw [getElem?_set] at h
  split_ifs at h with hij hi
  · cases h
    exact .inl ⟨hij.symm, rfl⟩
  · exact .inr ⟨Ne.symm hij, h⟩

theorem set_of_getElem? {α : Type} {l : List α} {a : α} (h : l[i]? = some a) : l.set i a = l := by
  obtain ⟨hlt, rfl⟩ := List.getElem?_eq_some_iff.mp h
  exact set_getElem_self hlt

theorem getElem?_set_task_ne (h : tasks[j]? = some task) (hji : j ≠ i) :
    (tasks.set i ⟨id, stage⟩)[j]? = some task := by
  rwa [getElem?_set_ne hji.symm]

end Set

section Replace

variable {s t : System} {i id : ℕ} {stage : Stage} {new : List Entry}

theorem posts_append {id' : ℕ} (hnew : ∀ e ∈ new, e.deliveryId = id) (hid : id' ≠ id)
    (log : List Entry) : posts id' (new ++ log) = posts id' log := by
  have hnone : new.countP (Entry.isPost id') = 0 := by
    refine countP_eq_zero.mpr fun e he hpost => hid ?_
    rw [← Entry.deliveryId_of_isPost hpost, hnew e he]
  rw [posts, countP_append, hnone, Nat.zero_add, posts]

theorem committed_append {id' : ℕ} {status : DeliveryStatus} {log : List Entry}
    (hnew : ∀ e ∈ new, e.deliveryId = id) (hid : id' ≠ id) :
    .committed id' status ∈ new ++ log ↔ .committed id' status ∈ log := by
  rw [mem_append]
  constructor
  · rintro (h | h)
    · exact absurd (hnew _ h) hid
    · exact h
  · exact .inr

theorem Holds.mono {id' : ℕ} {stage' : Stage} (h : Holds s id' stage')
    (hdeliveries : ∀ row', s.deliveries[id']? = some row' → t.deliveries[id']? = some row')
    (hnow : s.now ≤ t.now) (hposts : posts id' t.log = posts id' s.log) : Holds t id' stage' := by
  cases stage' with
  | queued => trivial
  | ended => trivial
  | reading seen => exact hdeliveries seen h
  | dropping seen => exact hdeliveries seen h
  | sending seen endpoint now =>
    exact ⟨hdeliveries seen h.1, h.2.1, fun due hdue => (h.2.2 due hdue).trans hnow⟩
  | sent seen endpoint now => exact ⟨hdeliveries seen h.1, h.2.1, hposts.trans h.2.2⟩

theorem Kept.congr {id' : ℕ} {row' : WebhookDelivery} (h : Kept s id' row')
    (hquiet : t.Quiet id' → s.Quiet id') (hposts : posts id' t.log = posts id' s.log)
    (hcommitted : ∀ status, .committed id' status ∈ t.log ↔ .committed id' status ∈ s.log) :
    Kept t id' row' where
  attempts := h.attempts
  counted hq := hposts.trans (h.counted (hquiet hq))
  pending hp := ⟨(h.pending hp).1, fun status hs => (h.pending hp).2 status ((hcommitted _).mp hs)⟩
  closed hc := (hcommitted _).mpr (h.closed hc)

variable (h : Consistent s)
include h

/-- **One task and its delivery change**, and no other task has the delivery in hand. -/
theorem Consistent.replace (row : WebhookDelivery) (new : List Entry) {old : Stage}
    (htask : s.tasks[i]? = some ⟨id, old⟩)
    (hrow : ∃ seen, s.deliveries[id]? = some seen)
    (hothers : ∀ (j : ℕ) (b : Task), s.tasks[j]? = some b → j ≠ i → b.deliveryId = id →
      b.stage.active = false)
    (htasks : t.tasks = s.tasks.set i ⟨id, stage⟩)
    (hdeliveries : t.deliveries = s.deliveries.set id row) (hnow : t.now = s.now)
    (hlog : t.log = new ++ s.log) (hnew : ∀ e ∈ new, e.deliveryId = id)
    (hpromised : Promised t.log) (hkept : Kept t id row) (hholds : Holds t id stage) :
    Consistent t := by
  obtain ⟨seen, hseen⟩ := hrow
  have hlt : id < s.deliveries.length := (List.getElem?_eq_some_iff.mp hseen).1
  have hother : ∀ id', id' ≠ id → t.deliveries[id']? = s.deliveries[id']? := by
    intro id' hid
    rw [hdeliveries, getElem?_set_ne hid.symm]
  have hposts : ∀ id', id' ≠ id → posts id' t.log = posts id' s.log := by
    intro id' hid
    rw [hlog, posts_append hnew hid]
  refine ⟨hpromised, fun id' row' hrow' => ?_, fun e he => ?_, fun j b hb => ?_,
    fun j k a b ha hb hab hactive hactive' => ?_⟩
  · by_cases hid : id' = id
    · subst hid
      rw [hdeliveries, getElem?_set_self hlt] at hrow'
      cases hrow'
      exact hkept
    · refine (h.rows id' row' (hother id' hid ▸ hrow')).congr (fun hq j b hb hb' => ?_)
        (hposts id' hid) (fun status => by rw [hlog, committed_append hnew hid])
      have hji : j ≠ i := by
        rintro rfl
        rw [htask] at hb
        cases hb
        exact hid hb'.symm
      exact hq j b (htasks ▸ getElem?_set_task_ne hb hji) hb'
  · rw [hdeliveries, length_set]
    rw [hlog] at he
    rcases mem_append.mp he with he | he
    · rw [hnew e he]
      exact hlt
    · exact h.known e he
  · rw [htasks] at hb
    rcases getElem?_set_task hb with ⟨-, rfl⟩ | ⟨hji, hb⟩
    · exact hholds
    · by_cases hid : b.deliveryId = id
      · exact holds_of_not_active (hothers j b hb hji hid)
      · exact (h.held j b hb).mono (fun row' hr => (hother _ hid).trans hr) hnow.ge (hposts _ hid)
  · rw [htasks] at ha hb
    rcases getElem?_set_task ha with ⟨rfl, rfl⟩ | ⟨hji, ha'⟩
    · rcases getElem?_set_task hb with ⟨rfl, -⟩ | ⟨hki, hb⟩
      · rfl
      · rw [hothers k b hb hki hab.symm] at hactive'
        cases hactive'
    · rcases getElem?_set_task hb with ⟨rfl, rfl⟩ | ⟨hki, hb'⟩
      · rw [hothers j a ha' hji hab] at hactive
        cases hactive
      · exact h.alone j k a b ha' hb' hab hactive hactive'

theorem Consistent.others {old : Stage} (htask : s.tasks[i]? = some ⟨id, old⟩)
    (hactive : old.active = true) (j : ℕ) (b : Task) (hb : s.tasks[j]? = some b) (hji : j ≠ i)
    (hid : b.deliveryId = id) : b.stage.active = false := by
  by_contra hb'
  exact hji (h.alone j i b _ hb htask hid (by simpa using hb') hactive)

omit h in
theorem quiet_of_set {old : Stage} (htask : s.tasks[i]? = some ⟨id, old⟩)
    (hold : old.isSent = false) (htasks : t.tasks = s.tasks.set i ⟨id, stage⟩) {id' : ℕ}
    (hq : t.Quiet id') : s.Quiet id' := by
  intro j b hb hid
  by_cases hji : j = i
  · subst hji
    rw [htask] at hb
    cases hb
    exact hold
  · exact hq j b (htasks ▸ getElem?_set_task_ne hb hji) hid

theorem Consistent.move {old : Stage} {seen : WebhookDelivery}
    (htask : s.tasks[i]? = some ⟨id, old⟩) (hseen : s.deliveries[id]? = some seen)
    (hothers : ∀ (j : ℕ) (b : Task), s.tasks[j]? = some b → j ≠ i → b.deliveryId = id →
      b.stage.active = false)
    (hold : old.isSent = false) (hholds : Holds (s.move i id stage) id stage) :
    Consistent (s.move i id stage) := by
  refine h.replace seen [] htask ⟨seen, hseen⟩ hothers rfl (set_of_getElem? hseen).symm rfl rfl
    (forall_mem_nil _) h.promised ?_ hholds
  exact (h.rows id seen hseen).congr (quiet_of_set htask hold rfl) rfl fun _ => Iff.rfl

theorem Consistent.skip (htask : s.tasks[i]? = some ⟨id, .queued⟩) :
    Consistent (s.move i id .ended) := by
  refine ⟨h.promised, fun id' row hrow => ?_, h.known, fun j b hb => ?_,
    fun j k a b ha hb hab hactive hactive' => ?_⟩
  · exact (h.rows id' row hrow).congr (quiet_of_set htask rfl rfl) rfl fun _ => Iff.rfl
  · rcases getElem?_set_task hb with ⟨-, rfl⟩ | ⟨-, hb⟩
    · trivial
    · exact (h.held j b hb).mono (fun _ hr => hr) le_rfl rfl
  · rcases getElem?_set_task ha with ⟨-, rfl⟩ | ⟨-, ha⟩
    · cases hactive
    · rcases getElem?_set_task hb with ⟨-, rfl⟩ | ⟨-, hb⟩
      · cases hactive'
      · exact h.alone j k a b ha hb hab hactive hactive'

omit h in
theorem commitDelivery_eq {seen assigned : WebhookDelivery}
    (hseen : s.deliveries[id]? = some seen) :
    s.commitDelivery id seen assigned =
      { s with
        deliveries := s.deliveries.set id assigned
        log := .committed id assigned.status :: s.log } := by
  rw [System.commitDelivery, hseen]
  simp

omit h in
theorem posts_committed (id' : ℕ) (status : DeliveryStatus) (log : List Entry) :
    posts id (.committed id' status :: log) = posts id log :=
  countP_cons_of_neg (by simp [Entry.isPost])

theorem Consistent.drop {seen : WebhookDelivery} (htask : s.tasks[i]? = some ⟨id, .dropping seen⟩) :
    Consistent ((s.commitDelivery id seen (dropped seen)).move i id .ended) := by
  have hseen : s.deliveries[id]? = some seen := h.held i _ htask
  have hrow := h.rows id seen hseen
  rw [commitDelivery_eq hseen]
  refine h.replace (dropped seen) [.committed id .dropped] htask ⟨seen, hseen⟩
    (h.others htask rfl) rfl rfl rfl rfl (forall_mem_singleton.mpr rfl)
    (h.promised.committed id .dropped) ?_ trivial
  refine ⟨hrow.attempts, fun hq => ?_, fun hp => ?_, fun _ => mem_cons_self⟩
  · exact (posts_committed id _ _).trans (hrow.counted (quiet_of_set htask rfl rfl hq))
  · cases hp

theorem Consistent.post {seen : WebhookDelivery} {endpoint : WebhookEndpoint} {now : ℕ}
    (htask : s.tasks[i]? = some ⟨id, .sending seen endpoint now⟩) :
    Consistent (post s i id seen endpoint now) := by
  obtain ⟨hseen, hpending, hdue⟩ := h.held i _ htask
  have hrow := h.rows id seen hseen
  have hothers := h.others htask rfl
  have hquiet : s.Quiet id := by
    intro j b hb hid
    by_cases hji : j = i
    · subst hji
      rw [htask] at hb
      cases hb
      rfl
    · by_contra hsent
      have hactive := Stage.active_of_isSent (by simpa using hsent)
      rw [hothers j b hb hji hid] at hactive
      cases hactive
  have hcount := hrow.counted hquiet
  obtain ⟨hlt, hcommits⟩ := hrow.pending hpending
  have hnext : s.nextAttempt id = seen.nextAttemptAt := by
    rw [System.nextAttempt, hseen]
    rfl
  have hposts : posts id (.posted id s.now (s.nextAttempt id) :: s.log) = seen.attempts + 1 := by
    rw [← hcount]
    exact countP_cons_of_pos (by simp [Entry.isPost])
  refine h.replace seen [.posted id s.now (s.nextAttempt id)] htask ⟨seen, hseen⟩ hothers rfl
    (set_of_getElem? hseen).symm rfl rfl (forall_mem_singleton.mpr rfl) ?_ ?_
    ⟨hseen, hpending, hposts⟩
  · exact h.promised.posted (hcount ▸ hlt) hcommits (hnext ▸ hdue)
  · refine ⟨hrow.attempts, fun hq => ?_, fun _ => ⟨hlt, fun status hs => ?_⟩, fun hc => ?_⟩
    · have hi := (List.getElem?_eq_some_iff.mp htask).1
      exact absurd (hq i _ (getElem?_set_self hi) rfl) (by simp [Stage.isSent])
    · rcases mem_cons.mp hs with hs | hs
      · cases hs
      · exact hcommits status hs
    · exact absurd hpending hc

theorem Consistent.answer {seen : WebhookDelivery} {endpoint : WebhookEndpoint} {now : ℕ}
    (status : ℕ) (detail : Str) (htask : s.tasks[i]? = some ⟨id, .sent seen endpoint now⟩) :
    Consistent (answer s i id seen endpoint now status detail) := by
  obtain ⟨hseen, hpending, hposts⟩ := h.held i _ htask
  have hrow := h.rows id seen hseen
  have hattempts := settled_attempts seen endpoint now status detail
  have hleft := settled_pending seen endpoint now status detail
  simp only [Webhooks.answer, commitDelivery_eq hseen]
  generalize (settled seen endpoint now status detail).1 = row at hattempts hleft ⊢
  refine h.replace row [.committed id row.status] htask ⟨seen, hseen⟩
    (h.others htask rfl) rfl rfl rfl rfl (forall_mem_singleton.mpr rfl)
    (h.promised.committed id row.status) ?_ trivial
  obtain ⟨hlt, hcommits⟩ := hrow.pending hpending
  refine ⟨by omega, fun _ => ?_, fun hp => ⟨?_, fun status hs => ?_⟩, fun _ => mem_cons_self⟩
  · rw [hattempts, ← hposts]
    exact posts_committed id _ _
  · rw [hattempts]
    exact hleft hp
  · rcases mem_cons.mp hs with hs | hs
    · cases hs
      exact hp
    · exact hcommits status hs

end Replace

/-! ### New tasks and new rows -/

section Dispatch

variable {s : System} (h : Consistent s)
include h

theorem Consistent.tick (elapsed : ℕ) : Consistent { s with now := s.now + elapsed } where
  promised := h.promised
  rows id row hrow := (h.rows id row hrow).congr (fun hq => hq) rfl fun _ => Iff.rfl
  known := h.known
  held i task htask := (h.held i task htask).mono (fun _ hr => hr) (Nat.le_add_right _ _) rfl
  alone := h.alone

theorem Consistent.setEndpoints (endpoints : List WebhookEndpoint) :
    Consistent { s with endpoints := endpoints } where
  promised := h.promised
  rows id row hrow := (h.rows id row hrow).congr (fun hq => hq) rfl fun _ => Iff.rfl
  known := h.known
  held i task htask := (h.held i task htask).mono (fun _ hr => hr) le_rfl rfl
  alone := h.alone

theorem Consistent.dispatch (ids : List ℕ) : Consistent (s.dispatch ids) := by
  have htask : ∀ (i : ℕ) (task : Task), (s.dispatch ids).tasks[i]? = some task →
      task.stage.active = true → s.tasks[i]? = some task := by
    intro i task hi hactive
    rw [System.dispatch, getElem?_append] at hi
    split_ifs at hi
    · exact hi
    · obtain ⟨id, -, rfl⟩ := mem_map.mp (mem_of_getElem? hi)
      cases hactive
  refine ⟨h.promised, fun id row hrow => ?_, h.known, fun i task hi => ?_,
    fun i j a b ha hb hab hactive hactive' => ?_⟩
  · refine (h.rows id row hrow).congr (fun hq i task hi => hq i task ?_) rfl fun _ => Iff.rfl
    exact (getElem?_append_left (List.getElem?_eq_some_iff.mp hi).1).trans hi
  · rcases hactive : task.stage.active with _ | _
    · exact holds_of_not_active hactive
    · exact (h.held i task (htask i task hi hactive)).mono (fun _ hr => hr) le_rfl rfl
  · exact h.alone i j a b (htask i a ha hactive) (htask j b hb hactive') hab hactive hactive'

theorem Consistent.enqueue (endpointId now : ℕ) :
    Consistent { s with deliveries := s.deliveries ++ [enqueued endpointId now] } := by
  refine ⟨h.promised, fun id row hrow => ?_, fun e he => ?_, fun i task hi => ?_, h.alone⟩
  · rw [getElem?_append] at hrow
    split_ifs at hrow with hlt
    · exact (h.rows id row hrow).congr (fun hq => hq) rfl fun _ => Iff.rfl
    · have hnone : ∀ e ∈ s.log, e.deliveryId ≠ id := by
        intro e he hid
        exact hlt (hid ▸ h.known e he)
      have hrow' : row = enqueued endpointId now :=
        mem_singleton.mp (mem_of_getElem? hrow)
      subst hrow'
      refine ⟨Nat.zero_le _, fun _ => ?_, fun _ => ⟨Nat.succ_pos _, fun status hs => ?_⟩,
        fun hc => absurd rfl hc⟩
      · refine countP_eq_zero.mpr fun e he hpost => ?_
        exact hnone e he (Entry.deliveryId_of_isPost hpost)
      · exact absurd rfl (hnone _ hs)
  · rw [length_append]
    exact Nat.lt_add_right _ (h.known e he)
  · refine (h.held i task hi).mono (fun row hr => ?_) le_rfl rfl
    exact (getElem?_append_left (List.getElem?_eq_some_iff.mp hr).1).trans hr

/-! ### Every step -/

theorem Consistent.change {t : System} {e : Event} (hok : Exclusive s e) (hchange : Change s e t) :
    Consistent t := by
  cases hchange with
  | tick elapsed => exact h.tick elapsed
  | emit endpointId => exact (h.enqueue endpointId s.now).dispatch _
  | sweep limit order => exact h.dispatch _
  | deleteEndpoint id endpoints => exact h.setEndpoints endpoints
  | skip htask => exact h.skip htask
  | read htask hseen hstatus =>
    refine h.move htask hseen (fun j b hb _ hid => ?_) rfl hseen
    exact hok _ htask _ hseen hstatus b (mem_of_getElem? hb) hid
  | giveUp htask =>
    have hseen := h.held _ _ htask
    exact h.move htask hseen (h.others htask rfl) rfl hseen
  | attempt htask hendpoint henabled =>
    have hseen := h.held _ _ htask
    have hdue := hok _ htask _ rfl _ hendpoint henabled
    exact h.move htask hseen (h.others htask rfl) rfl ⟨hseen, hdue⟩
  | drop htask => exact h.drop htask
  | post htask => exact h.post htask
  | answer status detail htask => exact h.answer status detail htask

end Dispatch

theorem consistent_of_exclusive {s₀ s : System} (h₀ : s₀.Initial) (hrun : Run step Exclusive s₀ s) :
    Consistent s :=
  hrun.invariant (P := Consistent) (fun hs hok he => hs.change hok (step_change he))
    (initial_consistent h₀)

instance (s : System) (id : ℕ) : Decidable (s.Unclaimed id) :=
  inferInstanceAs (Decidable (∀ task ∈ s.tasks, task.deliveryId = id → task.stage.active = false))

instance (delivery : WebhookDelivery) (now : ℕ) : Decidable (delivery.DueAt now) :=
  inferInstanceAs (Decidable (_ ∧ ∀ due ∈ delivery.nextAttemptAt, due ≤ now))

instance (s : System) (e : Event) : Decidable (Exclusive s e) :=
  match e with
  | .begin i => inferInstanceAs (Decidable (∀ task ∈ s.tasks[i]?,
      ∀ delivery ∈ s.deliveries[task.deliveryId]?,
        delivery.status ≠ .delivered → s.Unclaimed task.deliveryId))
  | .look i => inferInstanceAs (Decidable (∀ task ∈ s.tasks[i]?, ∀ seen ∈ task.stage.unchecked,
      ∀ endpoint ∈ s.endpoints[seen.endpointId]?, endpoint.enabled = true → seen.DueAt s.now))
  | .tick _ | .emit _ | .sweep .. | .deleteEndpoint _ | .drop _ | .post _ | .answer .. =>
    inferInstanceAs (Decidable True)

def sampleSystem : System where
  now := 0
  deliveries := []
  endpoints := [⟨true, 0, none, none, none⟩]
  tasks := []
  log := []

theorem sampleSystem_initial : sampleSystem.Initial := ⟨rfl, rfl, rfl⟩

/-- **A task that goes on with a row that is closed or not due** breaks the promise with its next
step. -/
theorem broken_of_look {s₀ s : System} (h₀ : s₀.Initial) (hrun : Run step Exclusive s₀ s) {i : ℕ}
    (hnot : ¬ Exclusive s (.look i)) :
    ∃ t u, step s (.look i) = some t ∧ step t (.post i) = some u ∧ ¬ Promised u.log := by
  have hs := consistent_of_exclusive h₀ hrun
  simp only [Exclusive, not_forall] at hnot
  obtain ⟨⟨id, stage⟩, htask, seen, hstage, endpoint, hendpoint, henabled, hdue⟩ := hnot
  obtain rfl : stage = .reading seen := by
    cases stage with
    | reading => rw [Option.mem_some.mp hstage]
    | queued => cases hstage
    | ended => cases hstage
    | dropping => cases hstage
    | sending => cases hstage
    | sent => cases hstage
  have hseen : s.deliveries[id]? = some seen := hs.held i _ htask
  have hi := (List.getElem?_eq_some_iff.mp htask).1
  have hlook : step s (.look i) = some (s.move i id (.sending seen endpoint s.now)) := by
    rw [Option.mem_def] at htask hendpoint
    simp [step, htask, look, hendpoint, henabled]
  have hpost : step (s.move i id (.sending seen endpoint s.now)) (.post i) =
      some (post (s.move i id (.sending seen endpoint s.now)) i id seen endpoint s.now) := by
    simp [step, System.move, hi]
  refine ⟨_, _, hlook, hpost, fun hpromised => hdue ⟨?_, fun due hnext => ?_⟩⟩
  · by_contra hclosed
    have hcommitted := (hs.rows id seen hseen).closed hclosed
    exact hclosed (hpromised.unclosed [] _ _ _ _ rfl _ hcommitted)
  · refine hpromised.scheduled id s.now due (mem_cons.mpr (.inl ?_))
    have : s.nextAttempt id = some due := by
      rw [System.nextAttempt, hseen]
      exact hnext
    exact congrArg (Entry.posted id s.now) this.symm

/-- The second task looks at the delivery that the first one has failed. -/
theorem broken_of_look_failed : ∃ s t u, Run step Exclusive sampleSystem s ∧
    step s (.look 1) = some t ∧ step t (.post 1) = some u ∧ ¬ Promised u.log := by
  have hrun : ∃ s, Run step Exclusive sampleSystem s ∧ ¬ Exclusive s (.look 1) :=
    ⟨_, run_of_guarded [.emit 0, .sweep 100 [0], .begin 0, .look 0, .post 0, .answer 0 400 [],
      .begin 1] rfl, by decide⟩
  obtain ⟨s, hs, hnot⟩ := hrun
  obtain ⟨t, u, hbroken⟩ := broken_of_look sampleSystem_initial hs hnot
  exact ⟨s, t, u, hs, hbroken⟩

end Guardian.Webhooks

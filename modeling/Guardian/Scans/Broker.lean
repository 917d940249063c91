import Guardian.Python.Json
import Guardian.Scans.RunScan
import Guardian.Transition.Run
import Mathlib.Data.List.Sort

/-!
# Scans whose message the broker still holds

A message waits in the list of its queue, or was delivered and is in the hash of what has not been
acknowledged.  The recovery sweep reads the length of the list, the list and the hash one after the
other, and sends again the scans that it has not seen; messages move both ways meanwhile.
`complete_of_unrestored` gives the runs in which it sees all of them.
-/

namespace Guardian.Scans

open Python Transition List

namespace Broker

/-! ### What a message says -/

/-- **What messages are read with**: `json.loads` and `base64.b64decode`, which may raise, and the
truth and the text of a value. -/
structure Reader where
  loads : Str → Option Json
  b64decode : Str → Option Str
  truthy : Json → Bool
  str : Json → Str

/-- `_RECOVERABLE_TASKS` -/
def recoverableTasks : List Str := ["guardian.run_scan"]

/-- `MAX_BROKER_MESSAGES` -/
def maxBrokerMessages : ℕ := 5000

/-- The value, if it is a dictionary; nothing else has a `get`. -/
def dictOf : Json → Option Json.Dict
  | .dict entries => some entries
  | _ => none

/-- `value[0]` -/
def first : Json → Option Json
  | .list (x :: _) => some x
  | .str (c :: _) => some (.str [c])
  | _ => none

variable (R : Reader)

/-- **`_scan_id_of`**: the scan of an envelope, `none` inside if it belongs to another task. -/
def scanIdOf (envelope : Json) : Option (Option Str) := do
  let entries ← dictOf envelope
  let found := (Json.get entries "headers").getD .null
  let headers ← if R.truthy found then dictOf found else some []
  if ((Json.get headers "task").bind Json.text).all (· ∉ recoverableTasks) then
    return none
  let body ← Json.get entries "body"
  let decoded ← R.b64decode (← body.text)
  let args ← first (← R.loads decoded)
  if R.truthy args then return some (R.str (← first args)) else return none

/-- What the text of a message in a queue says. -/
def pending (raw : Str) : Option (Option Str) := do scanIdOf R (← R.loads raw)

/-- `payload[0] if isinstance(payload, list) and payload else payload` -/
def envelopeOf : Json → Json
  | .list (envelope :: _) => envelope
  | payload => payload

/-- What the text of a message that is not acknowledged says. -/
def held (raw : Str) : Option (Option Str) := do scanIdOf R (envelopeOf (← R.loads raw))

/-- `if scan_id: seen.add(scan_id)` -/
def addSeen (seen : List Str) : Option Str → List Str
  | some id => if id = [] then seen else seen ++ [id]
  | none => seen

/-- One pass over texts. -/
def collect (read : Str → Option (Option Str)) (raws : List Str) (seen : List Str) :
    Option (List Str) :=
  raws.foldlM (fun seen raw => do return addSeen seen (← read raw)) seen

theorem subset_addSeen (seen : List Str) (id : Option Str) : seen ⊆ addSeen seen id := by
  intro x hx
  unfold addSeen
  split
  · split_ifs
    · exact hx
    · exact mem_append_left _ hx
  · exact hx

theorem mem_addSeen {id : Str} (hid : id ≠ []) (seen : List Str) : id ∈ addSeen seen (some id) := by
  unfold addSeen
  dsimp only
  rw [if_neg hid]
  exact mem_append_right _ (mem_singleton_self id)

/-- **A pass sees** what was seen before, and the scan of every text. -/
theorem mem_collect {read : Str → Option (Option Str)} {raws seen ids : List Str}
    (h : collect read raws seen = some ids) :
    seen ⊆ ids ∧ ∀ raw ∈ raws, ∀ id, read raw = some (some id) → id ≠ [] → id ∈ ids := by
  induction raws generalizing seen with
  | nil =>
    cases h
    exact ⟨List.Subset.refl _, fun _ h => by cases h⟩
  | cons raw raws ih =>
    unfold collect at h
    rw [foldlM_cons] at h
    rcases hread : read raw with _ | found
    · rw [hread] at h
      cases h
    · rw [hread] at h
      obtain ⟨hsub, hall⟩ := ih h
      refine ⟨List.Subset.trans (subset_addSeen seen found) hsub, fun raw' hraw' id hid hne => ?_⟩
      rcases mem_cons.mp hraw' with rfl | hmem
      · rw [hread] at hid
        cases hid
        exact hsub (mem_addSeen hne seen)
      · exact hall raw' hmem id hid hne

/-! ### Moves and reads -/

/-- A message with its text at the place where it is. -/
structure Entry where
  message : ℕ
  raw : Str
  deriving DecidableEq

/-- How far `visible_scan_ids` is: it has read the length of the queue; it has read the queue, with
what it has seen there; it has returned, `none` for what it could not establish. -/
inductive Call
  | idle
  | counted
  | listed (seen : List Str)
  | returned (visible : Option (List Str))
  deriving DecidableEq

/-- The call has read the queue, and the hash not yet. -/
def Call.isListed : Call → Bool
  | .listed _ => true
  | _ => false

/-- **The broker and a call**: the queue `default`, what is not acknowledged, and the messages that
the broker has held ever since the call began. -/
structure State where
  queue : List Entry
  unacked : List Entry
  call : Call
  kept : List ℕ
  deriving DecidableEq

/-- What happens.  A message is published, is delivered, goes back to its queue, or is acknowledged;
the call reads the length of the queue, the queue, or the hash, or a read fails. -/
inductive Event
  | publish (message : ℕ) (raw : Str)
  | deliver (message : ℕ) (raw : Str)
  | restore (message : ℕ) (raw : Str) (front : Bool)
  | acknowledge (message : ℕ)
  | llen
  | lrange
  | hvals
  | unreadable

namespace State

variable (s : State)

/-- The messages that the broker holds. -/
def present : List ℕ := (s.queue ++ s.unacked).map Entry.message

/-- What is no longer there was not there all the time. -/
def settled : State := { s with kept := s.kept.filter (· ∈ s.present) }

/-- The entry of a message is gone. -/
def without (m : ℕ) (entries : List Entry) : List Entry :=
  entries.eraseP fun e => e.message = m

end State

/-- **One step**, where `content` is what each message says: a move may write a message anew, and it
says what it has said. -/
def step (content : ℕ → Option (Option Str)) (s : State) : Event → Option State
  | .publish m raw =>
    if m ∉ s.present ∧ pending R raw = content m then
      some (State.settled { s with queue := ⟨m, raw⟩ :: s.queue })
    else none
  | .deliver m raw =>
    if m ∈ s.queue.map Entry.message ∧ held R raw = content m then
      some (State.settled { s with
        queue := State.without m s.queue
        unacked := ⟨m, raw⟩ :: s.unacked })
    else none
  | .restore m raw front =>
    if m ∈ s.unacked.map Entry.message ∧ pending R raw = content m then
      some (State.settled { s with
        queue := if front then ⟨m, raw⟩ :: s.queue else s.queue ++ [⟨m, raw⟩]
        unacked := State.without m s.unacked })
    else none
  | .acknowledge m => some (State.settled { s with unacked := State.without m s.unacked })
  | .llen =>
    match s.call with
    | .idle =>
      some { s with
        call := if s.queue.length > maxBrokerMessages then .returned none else .counted
        kept := s.present }
    | _ => none
  | .lrange =>
    match s.call with
    | .counted =>
      -- both ends of the range are read
      match collect (pending R) ((s.queue.take (maxBrokerMessages + 1)).map Entry.raw) [] with
      | some seen => some { s with call := .listed seen }
      | none => some { s with call := .returned none }
    | _ => none
  | .hvals =>
    match s.call with
    | .listed seen =>
      some { s with call := .returned (collect (held R) (s.unacked.map Entry.raw) seen) }
    | _ => none
  | .unreadable =>
    match s.call with
    | .idle => some { s with call := .returned none, kept := s.present }
    | .returned _ => none
    | _ => some { s with call := .returned none }

/-! ### The sweep -/

/-- A row of `scans`, with its id as text and its time in microseconds. -/
structure ScanRow where
  id : Str
  status : ScanStatus
  createdAt : ℤ
  deriving DecidableEq

/-- `STRANDED_AFTER_SECONDS`, in microseconds -/
def strandedAfterSeconds : ℤ := 2400 * 1000000

/-- `MAX_CANDIDATES` -/
def maxCandidates : ℕ := 200

/-- **`stranded_scan_ids`**: the oldest scans that have been queued for too long. -/
def strandedScanIds (rows : List ScanRow) (now : ℤ) : List ScanRow :=
  ((rows.filter fun r => r.status = .queued ∧ r.createdAt ≤ now - strandedAfterSeconds).insertionSort
    fun a b => a.createdAt ≤ b.createdAt).take maxCandidates

/-- **What `sweep_stranded_scans` sends again**: nothing, if it cannot tell what the broker holds.
-/
def requeued (rows : List ScanRow) (now : ℤ) : Option (List Str) → List ScanRow
  | none => []
  | some visible => (strandedScanIds rows now).filter (·.id ∉ visible)

/-! ### What the call sees -/

/-- The message is one of the scan. -/
def Carries (content : ℕ → Option (Option Str)) (m : ℕ) (scan : Str) : Prop :=
  content m = some (some scan) ∧ scan ≠ []

/-- **No scan is missed**: the scan of a message that the broker held throughout the call is among
those returned, and the sweep does not send it again. -/
structure Complete (content : ℕ → Option (Option Str)) (s : State) : Prop where
  visible : ∀ ids, s.call = .returned (some ids) → ∀ m ∈ s.kept, ∀ scan, Carries content m scan →
    scan ∈ ids
  left : ∀ visible, s.call = .returned visible → ∀ m ∈ s.kept, ∀ scan, Carries content m scan →
    ∀ rows now, scan ∉ (requeued rows now visible).map ScanRow.id

/-- **Nothing goes back between the reads**, and the queue is read as a whole. -/
def Unrestored (s : State) : Event → Prop
  | .restore _ _ _ => s.call.isListed = false
  | .lrange => s.queue.length ≤ maxBrokerMessages + 1
  | _ => True

instance (s : State) (e : Event) : Decidable (Unrestored s e) := by
  unfold Unrestored
  split <;> infer_instance

/-- Every message says at its place what it says. -/
structure Legible (content : ℕ → Option (Option Str)) (s : State) : Prop where
  queue : ∀ e ∈ s.queue, pending R e.raw = content e.message
  unacked : ∀ e ∈ s.unacked, held R e.raw = content e.message

/-- **The invariant** of a call: what it is to see is there, and what is in the queue after the
queue was read was seen there. -/
structure Inv (content : ℕ → Option (Option Str)) (s : State) : Prop where
  legible : Legible R content s
  kept : ∀ m ∈ s.kept, m ∈ s.present
  listed : ∀ seen, s.call = .listed seen → ∀ m ∈ s.kept, ∀ scan, Carries content m scan →
    scan ∈ seen ∨ m ∉ s.queue.map Entry.message
  returned : ∀ ids, s.call = .returned (some ids) → ∀ m ∈ s.kept, ∀ scan,
    Carries content m scan → scan ∈ ids

section Steps

variable {R} {content : ℕ → Option (Option Str)} {s t : State} {m : ℕ} {raw : Str}

theorem mem_present : m ∈ s.present ↔ (∃ e ∈ s.queue, e.message = m) ∨
    ∃ e ∈ s.unacked, e.message = m := by
  unfold State.present
  simp only [mem_map, mem_append]
  constructor
  · rintro ⟨e, he | he, hm⟩
    · exact Or.inl ⟨e, he, hm⟩
    · exact Or.inr ⟨e, he, hm⟩
  · rintro (⟨e, he, hm⟩ | ⟨e, he, hm⟩)
    · exact ⟨e, Or.inl he, hm⟩
    · exact ⟨e, Or.inr he, hm⟩

theorem mem_kept_settled : m ∈ s.settled.kept ↔ m ∈ s.kept ∧ m ∈ s.present := by
  unfold State.settled
  rw [mem_filter, decide_eq_true_eq]

/-- **A move of the broker** keeps the invariant, if all texts stay legible and, once the queue was
read, no message that was kept comes into it. -/
theorem inv_settled (h : Inv R content s) (hlegible : Legible R content t) (hcall : t.call = s.call)
    (hkept : t.kept = s.kept)
    (hqueue : ∀ seen, s.call = .listed seen → ∀ m ∈ s.kept, m ∈ t.queue.map Entry.message →
      m ∈ s.queue.map Entry.message) : Inv R content t.settled := by
  refine ⟨⟨hlegible.queue, hlegible.unacked⟩, fun m hm => (mem_kept_settled.mp hm).2,
    fun seen hseen m hm scan hscan => ?_, fun ids hids m hm scan hscan => ?_⟩
  · have hmem := (mem_kept_settled.mp hm).1
    rw [hkept] at hmem
    have hs : s.call = .listed seen := hcall ▸ hseen
    exact (h.listed seen hs m hmem scan hscan).imp_right fun hnot hin =>
      hnot (hqueue seen hs m hmem hin)
  · have hmem := (mem_kept_settled.mp hm).1
    rw [hkept] at hmem
    exact h.returned ids (hcall ▸ hids) m hmem scan hscan

theorem mem_without {e : Entry} {entries : List Entry} (h : e ∈ State.without m entries) :
    e ∈ entries :=
  mem_of_mem_eraseP h

theorem inv_publish (h : Inv R content s) (hnew : m ∉ s.present)
    (hraw : pending R raw = content m) :
    Inv R content (State.settled { s with queue := ⟨m, raw⟩ :: s.queue }) := by
  refine inv_settled h ⟨fun e he => ?_, h.legible.unacked⟩ rfl rfl fun seen _ k hk hin => ?_
  · rcases mem_cons.mp he with rfl | he
    · exact hraw
    · exact h.legible.queue e he
  · rcases mem_cons.mp hin with rfl | hin
    · exact absurd (h.kept _ hk) hnew
    · exact hin

theorem inv_deliver (h : Inv R content s) (hraw : held R raw = content m) :
    Inv R content (State.settled { s with
      queue := State.without m s.queue
      unacked := ⟨m, raw⟩ :: s.unacked }) := by
  refine inv_settled h ⟨fun e he => h.legible.queue e (mem_without he), fun e he => ?_⟩ rfl rfl
    fun seen _ k hk hin => ?_
  · rcases mem_cons.mp he with rfl | he
    · exact hraw
    · exact h.legible.unacked e he
  · obtain ⟨e, he, hek⟩ := mem_map.mp hin
    exact mem_map.mpr ⟨e, mem_without he, hek⟩

theorem inv_restore (h : Inv R content s) (hraw : pending R raw = content m)
    (hcall : s.call.isListed = false) (front : Bool) :
    Inv R content (State.settled { s with
      queue := if front then ⟨m, raw⟩ :: s.queue else s.queue ++ [⟨m, raw⟩]
      unacked := State.without m s.unacked }) := by
  refine inv_settled h ⟨fun e he => ?_, fun e he => h.legible.unacked e (mem_without he)⟩ rfl rfl
    fun seen hseen => (by rw [hseen] at hcall; cases hcall)
  have hcases : e = ⟨m, raw⟩ ∨ e ∈ s.queue := by
    cases front
    · rcases mem_append.mp he with he | he
      · exact Or.inr he
      · exact Or.inl (mem_singleton.mp he)
    · exact mem_cons.mp he
  rcases hcases with rfl | he
  · exact hraw
  · exact h.legible.queue e he

theorem inv_acknowledge (h : Inv R content s) :
    Inv R content (State.settled { s with unacked := State.without m s.unacked }) :=
  inv_settled h ⟨h.legible.queue, fun e he => h.legible.unacked e (mem_without he)⟩ rfl rfl
    fun _ _ _ _ hin => hin

theorem inv_read (h : Inv R content s) (call : Call) (kept : List ℕ)
    (hkept : ∀ m ∈ kept, m ∈ s.present)
    (hlisted : ∀ seen, call = .listed seen → ∀ m ∈ kept, ∀ scan, Carries content m scan →
      scan ∈ seen ∨ m ∉ s.queue.map Entry.message)
    (hreturned : ∀ ids, call = .returned (some ids) → ∀ m ∈ kept, ∀ scan,
      Carries content m scan → scan ∈ ids) :
    Inv R content { s with call := call, kept := kept } :=
  ⟨⟨h.legible.queue, h.legible.unacked⟩, hkept, hlisted, hreturned⟩

/-- **The whole queue is read**: the scan of every message in it is seen. -/
theorem seen_of_lrange (h : Legible R content s) (hlength : s.queue.length ≤ maxBrokerMessages + 1)
    {seen : List Str}
    (hcollect : collect (pending R) ((s.queue.take (maxBrokerMessages + 1)).map Entry.raw) [] =
      some seen) {scan : Str} (hscan : Carries content m scan)
    (hm : m ∈ s.queue.map Entry.message) : scan ∈ seen := by
  obtain ⟨e, he, rfl⟩ := mem_map.mp hm
  rw [take_of_length_le hlength] at hcollect
  exact (mem_collect hcollect).2 e.raw (mem_map_of_mem he) scan
    ((h.queue e he).trans hscan.1) hscan.2

/-- **The hash is read**: what is not in the queue is seen there. -/
theorem seen_of_hvals (h : Inv R content s) {seen ids : List Str} (hcall : s.call = .listed seen)
    (hcollect : collect (held R) (s.unacked.map Entry.raw) seen = some ids) {scan : Str}
    (hm : m ∈ s.kept) (hscan : Carries content m scan) : scan ∈ ids := by
  rcases h.listed seen hcall m hm scan hscan with hseen | hqueue
  · exact (mem_collect hcollect).1 hseen
  · rcases mem_present.mp (h.kept m hm) with ⟨e, he, hem⟩ | ⟨e, he, rfl⟩
    · exact absurd (mem_map.mpr ⟨e, he, hem⟩) hqueue
    · exact (mem_collect hcollect).2 e.raw (mem_map_of_mem he) scan
        ((h.legible.unacked e he).trans hscan.1) hscan.2

/-- **What one step keeps.** -/
theorem inv_step {e : Event} (h : Inv R content s) (hok : Unrestored s e)
    (hstep : step R content s e = some t) : Inv R content t := by
  cases e with
  | publish m raw =>
    simp only [step] at hstep
    split_ifs at hstep with hguard
    cases hstep
    exact inv_publish h hguard.1 hguard.2
  | deliver m raw =>
    simp only [step] at hstep
    split_ifs at hstep with hguard
    cases hstep
    exact inv_deliver h hguard.2
  | restore m raw front =>
    simp only [step] at hstep
    by_cases hguard : m ∈ s.unacked.map Entry.message ∧ pending R raw = content m
    · rw [if_pos hguard] at hstep
      cases hstep
      exact inv_restore h hguard.2 hok front
    · rw [if_neg hguard] at hstep
      cases hstep
  | acknowledge m =>
    cases hstep
    exact inv_acknowledge h
  | llen =>
    simp only [step] at hstep
    split at hstep
    · cases hstep
      refine inv_read h _ _ (fun _ hm => hm) (fun seen hseen => ?_) fun ids hids => ?_
      · split_ifs at hseen
      · split_ifs at hids
        cases hids
    · cases hstep
  | lrange =>
    simp only [step] at hstep
    split at hstep
    · split at hstep
      · rename_i seen hcollect
        cases hstep
        refine inv_read h _ _ h.kept (fun seen' hseen m _ scan hscan => ?_) fun ids hids => ?_
        · cases hseen
          by_cases hm : m ∈ s.queue.map Entry.message
          · exact Or.inl (seen_of_lrange h.legible hok hcollect hscan hm)
          · exact Or.inr hm
        · cases hids
      · cases hstep
        exact inv_read h _ _ h.kept (fun _ hseen => (by cases hseen)) fun _ hids => (by cases hids)
    · cases hstep
  | hvals =>
    simp only [step] at hstep
    split at hstep
    · rename_i seen hcall
      cases hstep
      refine inv_read h _ _ h.kept (fun _ hseen => (by cases hseen))
        fun ids hids m hm scan hscan => ?_
      exact seen_of_hvals h hcall (Call.returned.inj hids) hm hscan
    · cases hstep
  | unreadable =>
    simp only [step] at hstep
    split at hstep
    · cases hstep
      exact inv_read h _ _ (fun _ hm => hm) (fun _ hseen => (by cases hseen))
        fun _ hids => (by cases hids)
    · cases hstep
    · cases hstep
      exact inv_read h _ _ h.kept (fun _ hseen => (by cases hseen)) fun _ hids => (by cases hids)

end Steps

/-- No call has begun. -/
structure Begins (content : ℕ → Option (Option Str)) (s : State) : Prop where
  legible : Legible R content s
  call : s.call = .idle
  kept : s.kept = []

theorem inv_begins {content : ℕ → Option (Option Str)} {s : State} (h : Begins R content s) :
    Inv R content s := by
  refine ⟨h.legible, fun m hm => ?_, fun seen hseen => ?_, fun ids hids => ?_⟩
  · rw [h.kept] at hm
    cases hm
  · rw [h.call] at hseen
    cases hseen
  · rw [h.call] at hids
    cases hids

theorem notMem_requeued {visible : Option (List Str)} {scan : Str}
    (h : ∀ ids, visible = some ids → scan ∈ ids) (rows : List ScanRow) (now : ℤ) :
    scan ∉ (requeued rows now visible).map ScanRow.id := by
  intro hmem
  obtain ⟨row, hrow, rfl⟩ := mem_map.mp hmem
  rcases visible with _ | ids
  · cases hrow
  · have hnot := (mem_filter.mp hrow).2
    rw [decide_eq_true_eq] at hnot
    exact hnot (h ids rfl)

/-- **A call that no message goes against** misses no scan. -/
theorem complete_of_unrestored {content : ℕ → Option (Option Str)} {s t : State}
    (h : Begins R content s) (hrun : Run (step R content) Unrestored s t) : Complete content t := by
  have hinv : Inv R content t := hrun.invariant inv_step (inv_begins R h)
  refine ⟨hinv.returned, fun visible hvisible m hm scan hscan => ?_⟩
  refine notMem_requeued fun ids hids => ?_
  exact hinv.returned ids (hids ▸ hvisible) m hm scan hscan

/-! ### A message that goes back -/

/-- The arguments of a message, and what the broker holds of it: in its queue, and in the hash. -/
def sampleArgs : Str := "[[\"scan-1\"], \x7b\x7d, \x7b\x7d]"

def sampleBody : Str := "W1sic2Nhbi0xIl0sIHt9LCB7fV0="

def samplePending : Str :=
  "\x7b\"body\": \"W1sic2Nhbi0xIl0sIHt9LCB7fV0=\", \"headers\": \x7b\"task\": " ++
    "\"guardian.run_scan\"\x7d\x7d"

def sampleHeld : Str := "[" ++ samplePending ++ ", \"\", \"default\"]"

def sampleEnvelope : Json :=
  .dict [("body", .str sampleBody),
    ("headers", .dict [("task", .str "guardian.run_scan")])]

def sampleReader : Reader where
  loads raw :=
    if raw = samplePending then some sampleEnvelope
    else if raw = sampleHeld then some (.list [sampleEnvelope, .str [], .str "default"])
    else if raw = sampleArgs then
      some (.list [.list [.str "scan-1"], .dict [], .dict []])
    else none
  b64decode text := if text = sampleBody then some sampleArgs else none
  truthy
    | .dict entries => !entries.isEmpty
    | .list items => !items.isEmpty
    | _ => false
  str value := value.text.getD []

def sampleState : State where
  queue := []
  unacked := [⟨7, sampleHeld⟩]
  call := .idle
  kept := []

def sampleContent : ℕ → Option (Option Str) := fun _ => some (some "scan-1")

theorem begins_sample : Begins sampleReader sampleContent sampleState := by
  refine ⟨⟨fun e he => (by cases he), fun e he => ?_⟩, rfl, rfl⟩
  rw [mem_singleton.mp he]
  decide

def sampleRow : ScanRow := ⟨"scan-1", .queued, 0⟩

/-- **A message that goes back between the reads** is in the queue when the hash is read, and was in
the hash when the queue was read: its scan is not seen, and is sent again. -/
theorem restored_between :
    ∃ t, Run (step sampleReader sampleContent) (fun _ _ => True) sampleState t ∧
    t.call = .returned (some []) ∧ t.kept = [7] ∧ t.queue = [⟨7, samplePending⟩] ∧
    requeued [sampleRow] strandedAfterSeconds (some []) = [sampleRow] ∧
    ¬ Complete sampleContent t := by
  have hrun : [Event.llen, .lrange, .restore 7 samplePending true, .hvals].foldlM
      (step sampleReader sampleContent) sampleState =
        some ⟨[⟨7, samplePending⟩], [], .returned (some []), [7]⟩ := by decide
  refine ⟨_, run_of_foldlM (fun _ _ => trivial) hrun, rfl, rfl, rfl, by decide, fun h => ?_⟩
  cases h.visible [] rfl 7 (mem_singleton_self 7) "scan-1" ⟨rfl, by decide⟩

/-- A message that goes back before the queue is read is seen there. -/
theorem complete_of_unrestored_sample : Complete sampleContent
    ⟨[⟨7, samplePending⟩], [], .returned (some ["scan-1"]), [7]⟩ :=
  complete_of_unrestored sampleReader begins_sample
    (run_of_guarded [.llen, .restore 7 samplePending true, .lrange, .hvals] (by decide))

end Broker

end Guardian.Scans

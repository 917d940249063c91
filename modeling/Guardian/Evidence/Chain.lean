import Guardian.Evidence.Canonical
import Guardian.Order.LinkChain
import Guardian.Transition.Run
import Mathlib.Data.List.Sort

/-!
# The evidence chain

Each item of evidence holds the digest of its content and of the digest before it.  The writer finds
the end of a tenant's chain by time and id; the reader follows the digests.
`verify_iff_tail_latest` says when the two agree; `tampering_detected` says what the reader finds
out.
-/

namespace Guardian.Evidence

open Python Guardian.Order Transition List

/-! ### The items and their reader -/

/-- A row of `evidence_items`. -/
structure EvidenceItem (D : Type) where
  id : ℕ
  tenantId : ℕ
  createdAt : ℤ
  kind : Str
  summary : Str
  detail : D
  contentSha256 : Option Str
  prevHash : Option Str

/-- `_hash`. -/
def hash (sha256 : Str → Str) (prevHash : Option Str) (canonical : Str) : Str :=
  sha256 (prevHash.getD [] ++ canonical)

section Reader
variable {D : Type} (sha256 : Str → Str) (dumps : D → Str)

/-- What `verify_chain` checks of an item that it reaches from `prev`. -/
def validAt (prev : Option Str) (item : EvidenceItem D) : Bool :=
  decide (item.prevHash = prev) &&
    decide (item.contentSha256 = some (hash sha256 prev (dumps item.detail)))

/-- **`verify_chain`**, on the items of a tenant: the walk along the links starts with as many items
to be seen as there are. -/
def verifyItems (rows : List (EvidenceItem D)) : Bool :=
  follow (validAt sha256 dumps) EvidenceItem.prevHash EvidenceItem.contentSha256 rows rows.length
    none

variable {sha256 dumps}

theorem content_of_validAt {prev : Option Str} {item : EvidenceItem D}
    (h : validAt sha256 dumps prev item = true) :
    item.contentSha256 = some (hash sha256 prev (dumps item.detail)) := by
  simp only [validAt, Bool.and_eq_true, decide_eq_true_eq] at h
  exact h.2

/-! ### Tampering -/

def IsTail (rows : List (EvidenceItem D)) (item : EvidenceItem D) : Prop :=
  ∀ s ∈ rows, s.prevHash ≠ item.contentSha256

/-- The fields the chain is made of. -/
def EvidenceItem.chained (item : EvidenceItem D) : D × Option Str × Option Str :=
  (item.detail, item.contentSha256, item.prevHash)

/-- Exactly one of the fields the chain is made of has another value. -/
def ChangedOnce (item item' : EvidenceItem D) : Prop :=
  (item'.detail ≠ item.detail ∧ item'.contentSha256 = item.contentSha256 ∧
      item'.prevHash = item.prevHash) ∨
    (item'.detail = item.detail ∧ item'.contentSha256 ≠ item.contentSha256 ∧
      item'.prevHash = item.prevHash) ∨
    (item'.detail = item.detail ∧ item'.contentSha256 = item.contentSha256 ∧
      item'.prevHash ≠ item.prevHash)

theorem split_of_verify {rows : List (EvidenceItem D)} (h : verifyItems sha256 dumps rows = true)
    {k : ℕ} {item : EvidenceItem D} (hk : rows[k]? = some item) :
    ∃ as bs, Linked (validAt sha256 dumps) EvidenceItem.prevHash EvidenceItem.contentSha256 none
        (as ++ item :: bs) ∧
      (none :: (as ++ item :: bs).map EvidenceItem.contentSha256).Nodup ∧
      (as ++ item :: bs).Perm rows ∧ (as ++ bs).Perm (rows.eraseIdx k) ∧
      ∀ item', (as ++ item' :: bs).Perm (rows.set k item') := by
  obtain ⟨path, hperm, hlinked, hkeys⟩ := follow_length_iff.mp h
  obtain ⟨hlt, hget⟩ := List.getElem?_eq_some_iff.mp hk
  have hrows : rows = rows.take k ++ item :: rows.drop (k + 1) := by
    rw [← hget, getElem_cons_drop hlt, take_append_drop]
  obtain ⟨as, bs, rfl⟩ := append_of_mem (hperm.mem_iff.mpr (mem_of_getElem? hk))
  have hrest : (as ++ bs).Perm (rows.take k ++ rows.drop (k + 1)) := by
    refine (perm_cons item).mp ?_
    refine perm_middle.symm.trans (Perm.trans ?_ perm_middle)
    rw [← hrows]
    exact hperm
  refine ⟨as, bs, hlinked, hkeys, hperm, ?_, fun item' => ?_⟩
  · rw [eraseIdx_eq_take_drop_succ]
    exact hrest
  · rw [set_eq_take_append_cons_drop, if_pos hlt]
    exact perm_middle.trans ((hrest.cons item').trans perm_middle.symm)

/-- **Tampering is detected.** -/
theorem tampering_detected (hsha : Function.Injective sha256) (hdumps : Function.Injective dumps)
    {rows : List (EvidenceItem D)} (h : verifyItems sha256 dumps rows = true) {k : ℕ}
    {item : EvidenceItem D} (hk : rows[k]? = some item) :
    (∀ item', ChangedOnce item item' →
      verifyItems sha256 dumps (rows.set k item') = false) ∧
    (¬ IsTail rows item → ∀ item' : EvidenceItem D, item'.chained ≠ item.chained →
      verifyItems sha256 dumps (rows.set k item') = false) ∧
    (¬ IsTail rows item → verifyItems sha256 dumps (rows.eraseIdx k) = false) := by
  obtain ⟨as, bs, hlinked, hkeys, hperm, hdropped, hchanged⟩ := split_of_verify h hk
  have hvalid : item.contentSha256 = some (hash sha256 item.prevHash (dumps item.detail)) := by
    have := (linked_append.mp hlinked).2
    rw [this.1]
    exact content_of_validAt this.2.1
  have hbs : ¬ IsTail rows item → bs ≠ [] := by
    rintro htail rfl
    refine htail fun s hs heq => hlinked.finish_notMem hkeys ?_
    rw [finish_append, finish, finish, ← heq]
    exact mem_map_of_mem (hperm.mem_iff.mpr hs)
  -- what an accepted list with another item in its place leaves of the fields
  have hsame : ∀ item', verifyItems sha256 dumps (rows.set k item') = true →
      item'.prevHash = item.prevHash ∧
      (item'.contentSha256 = item.contentSha256 → item'.detail = item.detail) ∧
      (item'.detail = item.detail → item'.contentSha256 = item.contentSha256) ∧
      (bs ≠ [] → item'.contentSha256 = item.contentSha256) := by
    intro item' hverify
    obtain ⟨path, hpath, hlinked', hkeys'⟩ := follow_length_iff.mp hverify
    obtain ⟨hprev, hvalid', hkey⟩ :=
      hlinked.changed hkeys hlinked' hkeys' (hpath.trans (hchanged item').symm)
    have hcontent := content_of_validAt hvalid'
    refine ⟨hprev, fun heq => ?_, fun heq => ?_, hkey⟩
    · rw [hcontent, hvalid, Option.some.injEq] at heq
      exact hdumps (append_cancel_left (hsha heq))
    · rw [hcontent, hvalid, heq]
  refine ⟨fun item' hone => ?_, fun htail item' hne => ?_, fun htail => ?_⟩
  · by_contra hverify
    obtain ⟨hprev, hdetail, hcontent, -⟩ := hsame item' (by simpa using hverify)
    rcases hone with ⟨hd, hc, -⟩ | ⟨hd, hc, -⟩ | ⟨-, -, hp⟩
    · exact hd (hdetail hc)
    · exact hc (hcontent hd)
    · exact hp hprev
  · by_contra hverify
    obtain ⟨hprev, hdetail, -, hkey⟩ := hsame item' (by simpa using hverify)
    have hcontent := hkey (hbs htail)
    exact hne (by rw [EvidenceItem.chained, hdetail hcontent, hcontent, hprev]; rfl)
  · by_contra hverify
    obtain ⟨path, hpath, hlinked', hkeys'⟩ :=
      follow_length_iff.mp (by simpa using hverify : verifyItems sha256 dumps _ = true)
    exact hbs htail (hlinked.dropped hkeys hlinked' hkeys' (hpath.trans hdropped.symm))

end Reader

/-- Two items of evidence. -/
def twoItems : List (EvidenceItem Str) :=
  [⟨0, 0, 0, [], [], "a", some "a", none⟩,
    ⟨1, 0, 0, [], [], "b", some "ab", some "a"⟩]

theorem tampering_detected_two :
    (∀ item', ChangedOnce ⟨0, 0, 0, [], [], "a".toList, some "a".toList, none⟩ item' →
      verifyItems id id (twoItems.set 0 item') = false) ∧
    (¬ IsTail twoItems ⟨0, 0, 0, [], [], "a", some "a", none⟩ →
      ∀ item' : EvidenceItem Str,
        item'.chained ≠ ("a".toList, some "a".toList, none) →
          verifyItems id id (twoItems.set 0 item') = false) ∧
    (¬ IsTail twoItems ⟨0, 0, 0, [], [], "a", some "a", none⟩ →
      verifyItems id id (twoItems.eraseIdx 0) = false) :=
  tampering_detected Function.injective_id Function.injective_id
    (by decide : verifyItems id id twoItems = true) rfl

/-! ### The writer -/

variable (L : Library)

/-- `_order_key`. -/
def orderKey (e : RawEvidence) : List Str := [e.occurredAt, e.executionId, e.target, e.kind]

/-- A call of `persist_evidence_chain`: its transaction's timestamp, and the ids its items get. -/
structure Call where
  tenantId : ℕ
  now : ℤ
  evidences : List RawEvidence
  ids : ℕ → ℕ

/-- The loop of `persist_evidence_chain`, from the item `n` on and with the digest before it. -/
def chainFrom (call : Call) : ℕ → Option Str → List RawEvidence → List (EvidenceItem Json)
  | _, _, [] => []
  | n, prev, e :: es =>
    let text := (canonical L e).1
    let digest := hash L.sha256 prev text
    { id := call.ids n
      tenantId := call.tenantId
      createdAt := call.now
      kind := if e.kind.take 30 = [] then "tool" else e.kind.take 30
      summary := (e.tool ++ ':' :: e.target).take 300
      detail := L.loads text
      contentSha256 := some digest
      prevHash := prev } :: chainFrom call (n + 1) (some digest) es

def itemsOf (tenantId : ℕ) (store : List (EvidenceItem Json)) : List (EvidenceItem Json) :=
  store.filter (·.tenantId = tenantId)

/-- `ORDER BY created_at, id` does not put the second item before the first. -/
def EvidenceItem.NotAfter (r s : EvidenceItem Json) : Prop :=
  r.createdAt < s.createdAt ∨ (r.createdAt = s.createdAt ∧ r.id ≤ s.id)

instance (r s : EvidenceItem Json) : Decidable (r.NotAfter s) := by
  unfold EvidenceItem.NotAfter; infer_instance

/-- The item that comes last in the order of time and id. -/
def latest (rows : List (EvidenceItem Json)) : Option (EvidenceItem Json) :=
  rows.foldl (fun best r =>
    match best with
    | none => some r
    | some b => if b.NotAfter r then some r else some b) none

/-- `_latest_hash`. -/
def latestHash (tenantId : ℕ) (store : List (EvidenceItem Json)) : Option Str :=
  (latest (itemsOf tenantId store)).bind (·.contentSha256)

/-- **`persist_evidence_chain`.** -/
def persistEvidenceChain (store : List (EvidenceItem Json)) (call : Call) :
    List (EvidenceItem Json) :=
  store ++ chainFrom L call 0 (latestHash call.tenantId store)
    (call.evidences.insertionSort fun e f => orderKey e ≤ orderKey f)

/-- **`verify_chain`.** -/
def verifyChain (tenantId : ℕ) (store : List (EvidenceItem Json)) : Bool :=
  verifyItems L.sha256 L.dumps (itemsOf tenantId store)

/-! ### The end of the chain -/

/-- **The end of the tenant's chain is its latest item**, if the call has something to add. -/
def TailLatest (store : List (EvidenceItem Json)) (call : Call) : Prop :=
  call.evidences ≠ [] → ∀ tail ∈ (itemsOf call.tenantId store).getLast?,
    ∀ r ∈ itemsOf call.tenantId store, r.NotAfter tail

theorem EvidenceItem.NotAfter.trans {r s t : EvidenceItem Json} (hrs : r.NotAfter s)
    (hst : s.NotAfter t) : r.NotAfter t := by
  unfold EvidenceItem.NotAfter at *
  omega

theorem EvidenceItem.notAfter_of_not {r s : EvidenceItem Json} (h : ¬ r.NotAfter s) :
    s.NotAfter r := by
  unfold EvidenceItem.NotAfter at *
  omega

theorem latest_concat (rows : List (EvidenceItem Json)) (r : EvidenceItem Json) :
    latest (rows ++ [r]) = match latest rows with
      | none => some r
      | some b => if b.NotAfter r then some r else some b := by
  rw [latest, foldl_append]
  rfl

variable {rows : List (EvidenceItem Json)}

theorem latest_spec (h : rows ≠ []) :
    ∃ b ∈ rows, latest rows = some b ∧ ∀ r ∈ rows, r.NotAfter b := by
  induction rows using reverseRecOn with
  | nil => exact absurd rfl h
  | append_singleton rows r ih =>
    rw [latest_concat]
    have hself : r.NotAfter r := Or.inr ⟨rfl, le_refl _⟩
    by_cases hrows : rows = []
    · subst hrows
      exact ⟨r, by simp, rfl, by simpa using hself⟩
    · obtain ⟨b, hb, hlatest, hmax⟩ := ih hrows
      simp only [hlatest]
      by_cases hbr : b.NotAfter r
      · refine ⟨r, by simp, if_pos hbr, fun s hs => ?_⟩
        rcases mem_append.mp hs with hs | hs
        · exact (hmax s hs).trans hbr
        · rw [mem_singleton] at hs
          exact hs ▸ hself
      · refine ⟨b, by simp [hb], if_neg hbr, fun s hs => ?_⟩
        rcases mem_append.mp hs with hs | hs
        · exact hmax s hs
        · rw [mem_singleton] at hs
          exact hs ▸ EvidenceItem.notAfter_of_not hbr

theorem latest_tail (rows : List (EvidenceItem Json)) (tail : EvidenceItem Json) :
    ((∀ r ∈ rows ++ [tail], r.NotAfter tail) ∧ latest (rows ++ [tail]) = some tail) ∨
      (¬ (∀ r ∈ rows ++ [tail], r.NotAfter tail) ∧
        ∃ b ∈ rows, latest (rows ++ [tail]) = some b) := by
  obtain ⟨b, hb, hlatest, hmax⟩ := latest_spec (by simp : rows ++ [tail] ≠ [])
  by_cases hall : ∀ r ∈ rows ++ [tail], r.NotAfter tail
  · refine Or.inl ⟨hall, ?_⟩
    rw [latest_concat]
    rcases hrows : latest rows with _ | c
    · rfl
    · have hc : c ∈ rows := by
        have hne : rows ≠ [] := by
          rintro rfl
          cases hrows
        obtain ⟨d, hd, hlatest, -⟩ := latest_spec hne
        rw [hrows, Option.some.injEq] at hlatest
        exact hlatest ▸ hd
      exact if_pos (hall c (by simp [hc]))
  · refine Or.inr ⟨hall, b, ?_, hlatest⟩
    rcases mem_append.mp hb with hb | hb
    · exact hb
    · rw [mem_singleton] at hb
      subst hb
      exact absurd hmax hall

/-! ### What the writer leaves -/

variable {L}

/-- A chain of items whose contents are dictionaries. -/
structure Written (L : Library) (rows : List (EvidenceItem Json)) : Prop where
  linked : Linked (validAt L.sha256 L.dumps) EvidenceItem.prevHash EvidenceItem.contentSha256 none
    rows
  brace : ∀ r ∈ rows, ∃ rest, L.dumps r.detail = '\x7b' :: rest

theorem written_nil : Written L [] := ⟨trivial, by simp⟩

theorem Written.of_append {rest : List (EvidenceItem Json)} (h : Written L (rows ++ rest)) :
    Written L rows :=
  ⟨(linked_append.mp h.linked).1, fun r hr => h.brace r (by simp [hr])⟩

theorem append_brace_inj {a b x y : Str} (ha : '\x7b' ∉ a) (hb : '\x7b' ∉ b)
    (h : a ++ '\x7b' :: x = b ++ '\x7b' :: y) : a = b := by
  induction a generalizing b with
  | nil =>
    rcases b with _ | ⟨d, b⟩
    · rfl
    · rw [nil_append, cons_append, List.cons.injEq] at h
      exact absurd (h.1 ▸ mem_cons_self ..) hb
  | cons c a ih =>
    rcases b with _ | ⟨d, b⟩
    · rw [nil_append, cons_append, List.cons.injEq] at h
      exact absurd (h.1.symm ▸ mem_cons_self ..) ha
    · rw [cons_append, cons_append, List.cons.injEq] at h
      rw [h.1, ih (fun hc => ha (by simp [hc])) (fun hc => hb (by simp [hc])) h.2]

/-- A pointer of a chain is empty or a digest. -/
def IsDigest (L : Library) (prev : Option Str) : Prop := prev = none ∨ ∃ s, prev = some (L.sha256 s)

theorem IsDigest.brace_notMem (hL : L.Sound) {prev : Option Str} (h : IsDigest L prev) :
    '\x7b' ∉ prev.getD [] := by
  rcases h with rfl | ⟨s, rfl⟩
  · simp
  · exact hL.brace_notMem s

theorem IsDigest.eq_of_getD (hL : L.Sound) {p q : Option Str} (hp : IsDigest L p)
    (hq : IsDigest L q) (h : p.getD [] = q.getD []) : p = q := by
  rcases hp with rfl | ⟨s, rfl⟩ <;> rcases hq with rfl | ⟨t, rfl⟩
  · rfl
  · exact absurd h.symm (hL.digest_ne_nil t)
  · exact absurd h (hL.digest_ne_nil s)
  · exact congrArg some h

theorem Written.content (h : Written L rows) :
    ∀ r ∈ rows, r.contentSha256 = some (hash L.sha256 r.prevHash (L.dumps r.detail)) :=
  fun r hr => content_of_validAt (h.linked.valid_of_mem r hr)

theorem Written.isDigest (h : Written L rows) :
    ∀ p ∈ rows.map EvidenceItem.prevHash ++ [finish EvidenceItem.contentSha256 none rows],
      IsDigest L p := by
  rw [h.linked.backs]
  intro p hp
  rcases mem_cons.mp hp with rfl | hp
  · exact Or.inl rfl
  · obtain ⟨r, hr, rfl⟩ := mem_map.mp hp
    exact Or.inr ⟨_, h.content r hr⟩

/-- **The digests of a chain are different.** -/
theorem Written.nodup (hL : L.Sound) (h : Written L rows) :
    (none :: rows.map EvidenceItem.contentSha256).Nodup := by
  induction rows using reverseRecOn with
  | nil => simp
  | append_singleton rows r ih =>
    have hrows := ih h.of_append
    have hr := h.content r (by simp)
    have hprev : r.prevHash = finish EvidenceItem.contentSha256 none rows :=
      (linked_append.mp h.linked).2.1
    rw [map_append, ← cons_append, map_singleton]
    refine nodup_append.mpr ⟨hrows, by simp, ?_⟩
    rintro p hp q hq rfl
    rw [mem_singleton] at hq
    subst hq
    rcases mem_cons.mp hp with hnone | hmem
    · rw [hr] at hnone
      cases hnone
    · obtain ⟨s, hs, hkey⟩ := mem_map.mp hmem
      -- one digest is made of one text, so `s` points where `r` does: to the end of the chain
      rw [h.content s (by simp [hs]), hr, Option.some.injEq] at hkey
      obtain ⟨x, hx⟩ := h.brace s (by simp [hs])
      obtain ⟨y, hy⟩ := h.brace r (by simp)
      have htext := hL.injective hkey
      rw [hx, hy] at htext
      have hds : IsDigest L s.prevHash := h.of_append.isDigest _
        (mem_append_left _ (mem_map_of_mem hs))
      have hdr : IsDigest L r.prevHash := h.of_append.isDigest _
        (mem_append_right _ (by simp [hprev]))
      have hsr := hds.eq_of_getD hL hdr
        (append_brace_inj (hds.brace_notMem hL) (hdr.brace_notMem hL) htext)
      refine h.of_append.linked.finish_notMem hrows ?_
      rw [← hprev, ← hsr]
      exact mem_map_of_mem hs

theorem Written.verify (hL : L.Sound) (h : Written L rows) :
    verifyItems L.sha256 L.dumps rows = true :=
  follow_length_iff.mpr ⟨rows, Perm.refl _, h.linked, h.nodup hL⟩

theorem linked_chainFrom (hL : L.Sound) (call : Call) (es : List RawEvidence) (n : ℕ)
    (prev : Option Str) :
    Linked (validAt L.sha256 L.dumps) EvidenceItem.prevHash EvidenceItem.contentSha256 prev
      (chainFrom L call n prev es) := by
  induction es generalizing n prev with
  | nil => trivial
  | cons e es ih =>
    refine ⟨rfl, ?_, ih _ _⟩
    obtain ⟨entries, hentries⟩ := canonical_dict L e
    simp [validAt, hentries, hL.dumps_loads]

theorem brace_chainFrom (hL : L.Sound) (call : Call) (es : List RawEvidence) (n : ℕ)
    (prev : Option Str) :
    ∀ r ∈ chainFrom L call n prev es, ∃ rest, L.dumps r.detail = '\x7b' :: rest := by
  induction es generalizing n prev with
  | nil => simp [chainFrom]
  | cons e es ih =>
    intro r hr
    rcases mem_cons.mp hr with rfl | hr
    · obtain ⟨entries, hentries⟩ := canonical_dict L e
      obtain ⟨rest, hrest⟩ := hL.dumps_dict entries
      refine ⟨rest, ?_⟩
      dsimp only
      rw [hentries, hL.dumps_loads, hrest]
    · exact ih _ _ r hr

theorem tenantId_chainFrom (call : Call) (es : List RawEvidence) (n : ℕ) (prev : Option Str) :
    ∀ r ∈ chainFrom L call n prev es, r.tenantId = call.tenantId := by
  induction es generalizing n prev with
  | nil => simp [chainFrom]
  | cons e es ih =>
    intro r hr
    rcases mem_cons.mp hr with rfl | hr
    · rfl
    · exact ih _ _ r hr

theorem itemsOf_persist_of_ne {store : List (EvidenceItem Json)} {call : Call} {t : ℕ}
    (h : t ≠ call.tenantId) : itemsOf t (persistEvidenceChain L store call) = itemsOf t store := by
  have hnone : itemsOf t (chainFrom L call 0 (latestHash call.tenantId store)
      (call.evidences.insertionSort fun e f => orderKey e ≤ orderKey f)) = [] := by
    refine filter_eq_nil_iff.mpr fun r hr => ?_
    rw [tenantId_chainFrom _ _ _ _ r hr]
    simpa using Ne.symm h
  rw [persistEvidenceChain, itemsOf, filter_append]
  exact (congrArg (itemsOf t store ++ ·) hnone).trans (append_nil _)

theorem itemsOf_persist (store : List (EvidenceItem Json)) (call : Call) :
    itemsOf call.tenantId (persistEvidenceChain L store call) =
      itemsOf call.tenantId store ++ chainFrom L call 0 (latestHash call.tenantId store)
        (call.evidences.insertionSort fun e f => orderKey e ≤ orderKey f) := by
  rw [persistEvidenceChain, itemsOf, filter_append]
  refine congrArg (itemsOf call.tenantId store ++ ·) (filter_eq_self.mpr fun r hr => ?_)
  simpa using tenantId_chainFrom _ _ _ _ r hr

/-- Every tenant's items are a chain. -/
def AllWritten (L : Library) (store : List (EvidenceItem Json)) : Prop :=
  ∀ t, Written L (itemsOf t store)

/-- **A call that finds the end of the chain** extends the chain. -/
theorem AllWritten.persist (hL : L.Sound) {store : List (EvidenceItem Json)} {call : Call}
    (h : AllWritten L store) (htail : TailLatest store call) :
    AllWritten L (persistEvidenceChain L store call) := by
  intro t
  by_cases ht : t = call.tenantId
  · subst ht
    rw [itemsOf_persist]
    refine ⟨linked_append.mpr ⟨(h _).linked, ?_⟩, fun r hr => ?_⟩
    · rcases hes : call.evidences.insertionSort fun e f => orderKey e ≤ orderKey f with _ | ⟨e, es⟩
      · trivial
      · have hne : call.evidences ≠ [] := by
          intro hnil
          rw [hnil] at hes
          cases hes
        have hend : latestHash call.tenantId store =
            finish EvidenceItem.contentSha256 none (itemsOf call.tenantId store) := by
          rcases (itemsOf call.tenantId store).eq_nil_or_concat with hnil | ⟨rows, tail, hrows⟩
          · rw [latestHash, hnil]
            rfl
          · rw [concat_eq_append] at hrows
            have hall := htail hne tail (by simp [hrows])
            rw [hrows] at hall
            rw [latestHash, hrows, finish_append]
            rcases latest_tail rows tail with ⟨-, hlatest⟩ | ⟨hnot, -⟩
            · rw [hlatest]
              rfl
            · exact absurd hall hnot
        rw [← hend]
        exact linked_chainFrom hL call _ _ _
    · rcases mem_append.mp hr with hr | hr
      · exact (h _).brace r hr
      · exact brace_chainFrom hL call _ _ _ r hr
  · rw [itemsOf_persist_of_ne ht]
    exact h t

/-- **A call that finds an earlier item** gives its successor a second one, and the reader
refuses. -/
theorem AllWritten.fork {store : List (EvidenceItem Json)} {call : Call}
    (h : AllWritten L store) (htail : ¬ TailLatest store call) :
    verifyChain L call.tenantId (persistEvidenceChain L store call) = false := by
  unfold TailLatest at htail
  push Not at htail
  obtain ⟨hne, tail, hlast, r, hr, hnot⟩ := htail
  obtain ⟨rows, hrows⟩ := getLast?_eq_some_iff.mp hlast
  rcases latest_tail rows tail with ⟨hall, -⟩ | ⟨-, b, hb, hlatest⟩
  · exact absurd (hall r (hrows ▸ hr)) hnot
  have hlinked := (h call.tenantId).linked
  rw [hrows] at hlinked
  have hbacks := hlinked.backs
  rw [finish_append, finish, finish, map_append, map_append, ← cons_append] at hbacks
  -- the digest of `b` is already the pointer of the item after it
  have hb' : b.contentSha256 ∈ (rows ++ [tail]).map EvidenceItem.prevHash := by
    have := append_cancel_right hbacks
    rw [map_append, this]
    exact mem_cons_of_mem _ (mem_map_of_mem hb)
  by_contra hverify
  rw [Bool.not_eq_false, verifyChain, itemsOf_persist, hrows] at hverify
  have hnodup := nodup_backs_of_follow hverify
  rcases hes : call.evidences.insertionSort fun e f => orderKey e ≤ orderKey f with _ | ⟨e, es⟩
  · have := (perm_insertionSort (fun e f => orderKey e ≤ orderKey f) call.evidences).length_eq
    rw [hes] at this
    exact hne (length_eq_zero_iff.mp this.symm)
  · rw [hes, chainFrom, map_append, map_cons] at hnodup
    have hprev : latestHash call.tenantId store = b.contentSha256 := by
      rw [latestHash, hrows, hlatest]
      rfl
    refine (nodup_append.mp hnodup).2.2 _ hb' _ (mem_cons_self ..) ?_
    exact hprev.symm

/-- **The chain is accepted after every call** exactly when every call finds its end as the latest
item. -/
theorem verify_iff_tail_latest (hL : L.Sound) (calls : List Call) :
    Along (persistEvidenceChain L)
        (fun store call => ∀ t, verifyChain L t (persistEvidenceChain L store call) = true)
        [] calls ↔
      Along (persistEvidenceChain L) TailLatest [] calls := by
  refine along_iff (I := AllWritten L) (fun store call h => ⟨fun hgood => ?_, fun htail t => ?_⟩)
    (fun store call h htail => h.persist hL htail) (fun _ => written_nil) calls
  · by_contra htail
    have := h.fork htail
    rw [hgood call.tenantId] at this
    cases this
  · exact (h.persist hL htail t).verify hL

/-! ### Two calls -/

def sampleDigest (s : Str) : Str :=
  'h' :: s.flatMap fun c =>
    if c = '\x7b' then ['z', 'b'] else if c = 'z' then ['z', 'z'] else [c]

theorem sampleDigest_injective : Function.Injective sampleDigest := by
  intro s t h
  rw [sampleDigest, sampleDigest, List.cons.injEq] at h
  replace h := h.2
  induction s generalizing t with
  | nil =>
    rcases t with _ | ⟨d, t⟩
    · rfl
    · rw [flatMap_nil, flatMap_cons] at h
      split_ifs at h <;> cases h
  | cons c s ih =>
    rcases t with _ | ⟨d, t⟩
    · rw [flatMap_nil, flatMap_cons] at h
      split_ifs at h <;> cases h
    · rw [flatMap_cons, flatMap_cons] at h
      split_ifs at h with hc hc' hd hd' hd hd' <;>
        simp only [cons_append, nil_append, List.cons.injEq] at h
      all_goals grind

/-- **A library that keeps the laws**: a dictionary is written as a pair of braces. -/
def sampleLibrary : Library where
  runtime := Runtime.ascii
  sha256 := sampleDigest
  dumps
    | .dict _ => ['\x7b', '\x7d']
    | _ => ['0']
  loads s := if s = ['\x7b', '\x7d'] then .dict [] else .null
  alreadyMasked _ := false
  scrubText s := (s, [])

theorem sampleLibrary_sound : sampleLibrary.Sound where
  injective := sampleDigest_injective
  digest_ne_nil s := cons_ne_nil _ _
  brace_notMem s := by
    intro hmem
    rcases mem_cons.mp hmem with h | h
    · exact absurd h (by decide)
    · obtain ⟨c, -, hc⟩ := mem_flatMap.mp h
      split_ifs at hc with hbrace hz
      · exact absurd hc (by decide)
      · exact absurd hc (by decide)
      · rw [mem_singleton] at hc
        exact hbrace hc.symm
  dumps_dict entries := ⟨['\x7d'], rfl⟩
  dumps_loads j := by
    cases j <;> rfl

def sampleEvidence : RawEvidence :=
  ⟨"nmap", "e1", "10.0.0.1", "port", [], [], 90, []⟩

/-- A call with two pieces of evidence, of which the first gets the greater id, and a call with one
more. -/
def forkCalls : List Call :=
  [⟨0, 0, [sampleEvidence, sampleEvidence], fun n => 2 - n⟩, ⟨0, 1, [sampleEvidence], fun _ => 3⟩]

theorem forkCalls_not_verified :
    ¬ Along (persistEvidenceChain sampleLibrary)
      (fun store call => ∀ t,
        verifyChain sampleLibrary t (persistEvidenceChain sampleLibrary store call) = true)
      [] forkCalls := by
  intro h
  have h2 := h.2.1 0
  revert h2
  decide

/-- The same calls, with ids that grow. -/
def growingCalls : List Call :=
  [⟨0, 0, [sampleEvidence, sampleEvidence], fun n => n⟩, ⟨0, 1, [sampleEvidence], fun _ => 3⟩]

theorem growingCalls_verified :
    Along (persistEvidenceChain sampleLibrary)
      (fun store call => ∀ t,
        verifyChain sampleLibrary t (persistEvidenceChain sampleLibrary store call) = true)
      [] growingCalls :=
  (verify_iff_tail_latest sampleLibrary_sound growingCalls).mpr
    ⟨by unfold TailLatest; decide, by unfold TailLatest; decide, trivial⟩

end Guardian.Evidence

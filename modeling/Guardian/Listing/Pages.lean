import Guardian.Listing.Cursor
import Guardian.Order.Keyset
import Mathlib.Data.Prod.Lex

/-!
# Lists by pages

The findings workbench lists the worst findings first; the other lists have the newest rows first.
Both fetch one row more than a page holds, and give the cursor of the last row of the page if there
is another one.  Following the cursors lists the table (`lists_paged`).
-/

namespace Guardian.Listing

open Python Guardian.Order

variable (V : Readers)

/-- What a response lists, and its headers `X-Has-More` and `X-Next-Cursor`. -/
structure Response (α : Type) where
  rows : List α
  hasMore : Bool
  nextCursor : Option Str

def Response.page {α : Type} (response : Response α) : Page α Str :=
  ⟨response.rows, response.nextCursor⟩

/-- The status of an exception: `HTTP_422_UNPROCESSABLE_ENTITY` for a cursor that is not valid. -/
def orStatus {A : Type} : Except CursorError A → Except ℕ A
  | .ok a => .ok a
  | .error .invalidCursor => .error 422
  | .error (.uncaught _) => .error 500

/-- `if cursor:` -/
def truthy (cursor : Option Str) : Option Str := cursor.filter (· ≠ [])

/-! ### The findings workbench -/

namespace Workbench

variable {D : Type}

/-- The order of `apply_order`: the rank ascending, the risk score and the time descending, the id
ascending. -/
abbrev SortKey := ℤ ×ₗ ℤᵒᵈ ×ₗ ℤᵒᵈ ×ₗ UUID

/-- The key of a finding. -/
def sortKey (finding : Finding D) : SortKey :=
  toLex (severityRank finding.severity, toLex (OrderDual.toDual finding.riskScore,
    toLex (OrderDual.toDual finding.createdAt.instant, finding.id)))

/-- **`apply_order`** -/
def applyOrder (rows : List (Finding D)) : List (Finding D) := sortBy sortKey rows

/-- The condition of `apply_cursor`. -/
def strictlyAfter (cursor : Cursor) (finding : Finding D) : Bool :=
  let rank := severityRank finding.severity
  decide (cursor.rank < rank) ||
    (rank = cursor.rank && decide (finding.riskScore < cursor.risk)) ||
    (rank = cursor.rank && finding.riskScore = cursor.risk &&
      decide (finding.createdAt.instant < cursor.createdAt.instant)) ||
    (rank = cursor.rank && finding.riskScore = cursor.risk &&
      finding.createdAt.instant = cursor.createdAt.instant && decide (cursor.id < finding.id))

/-- **`apply_cursor`** -/
def applyCursor (cursor : Option Cursor) (rows : List (Finding D)) : List (Finding D) :=
  rows.filter fun finding => cursor.all fun cursor => strictlyAfter cursor finding

/-- `page_size` -/
def pageSize (requested : Option ℤ) : ℕ :=
  match requested with
  | none => 50
  | some n => if n < 1 then 50 else min n.toNat 200

/-- **`list_findings`** over the findings that are visible and pass the filters. -/
def listFindings (matching : Finding D → Bool) (limit : Option ℤ) (rows : List (Finding D))
    (cursor : Option Str) : Except ℕ (Response (Finding D)) := do
  let after ← (truthy cursor).mapM fun raw => orStatus (decodeCursor V raw)
  let size := pageSize limit
  -- The database orders what the conditions leave, and cuts it last.
  let rows := (applyOrder (applyCursor after (rows.filter matching))).take (size + 1)
  let hasMore := decide (size < rows.length)
  let rows := rows.take size
  return ⟨rows, hasMore, if hasMore then rows.getLast?.map encodeCursor else none⟩

/-- The endpoint, as the pages that it answers with. -/
def endpoint (matching : Finding D → Bool) (limit : Option ℤ) (rows : List (Finding D))
    (cursor : Option Str) : Option (Page (Finding D) Str) :=
  (listFindings V matching limit rows cursor).toOption.map Response.page

theorem pageSize_pos (requested : Option ℤ) : 0 < pageSize requested := by
  unfold pageSize
  split
  · decide
  · split_ifs with h
    · decide
    · exact lt_min (by omega) (by decide)

/-- **The order of the findings.** -/
def listing (matching : Finding D → Bool) (limit : Option ℤ) :
    Listing (Finding D) SortKey Str UUID where
  key := sortKey
  id := Finding.id
  id_of_key _ _ h := congrArg (fun k : SortKey => (ofLex (ofLex (ofLex k).2).2).2) h
  matching := matching
  encode := encodeCursor
  size := pageSize limit
  size_pos := pageSize_pos limit

section Fields

variable (matching : Finding D → Bool) (limit : Option ℤ)

@[simp] theorem key_listing : (listing matching limit).key = sortKey := rfl

@[simp] theorem encode_listing : (listing matching limit).encode = encodeCursor := by
  dsimp only [listing]

@[simp] theorem size_listing : (listing matching limit).size = pageSize limit := rfl

end Fields

/-- **The condition of the cursor** is the order of the keys. -/
theorem strictlyAfter_iff (last finding : Finding D) :
    strictlyAfter (cursorOf last) finding = true ↔ sortKey last < sortKey finding := by
  unfold strictlyAfter sortKey cursorOf
  simp only [Prod.Lex.toLex_lt_toLex, OrderDual.toDual_lt_toDual, OrderDual.toDual_inj,
    Bool.or_eq_true, Bool.and_eq_true, decide_eq_true_eq]
  constructor
  · rintro (((h | ⟨hr, hs⟩) | ⟨⟨hr, hs⟩, ht⟩) | ⟨⟨⟨hr, hs⟩, ht⟩, hi⟩)
    · exact Or.inl h
    · exact Or.inr ⟨hr.symm, Or.inl hs⟩
    · exact Or.inr ⟨hr.symm, Or.inr ⟨hs.symm, Or.inl ht⟩⟩
    · exact Or.inr ⟨hr.symm, Or.inr ⟨hs.symm, Or.inr ⟨ht.symm, hi⟩⟩⟩
  · rintro (h | ⟨hr, hs | ⟨hs, ht | ⟨ht, hi⟩⟩⟩)
    · exact Or.inl (Or.inl (Or.inl h))
    · exact Or.inl (Or.inl (Or.inr ⟨hr.symm, hs⟩))
    · exact Or.inl (Or.inr ⟨⟨hr.symm, hs.symm⟩, ht⟩)
    · exact Or.inr ⟨⟨⟨hr.symm, hs.symm⟩, ht.symm⟩, hi⟩

theorem applyCursor_filter (matching : Finding D → Bool) (limit : Option ℤ)
    (rows : List (Finding D)) (last : Option (Finding D)) :
    applyCursor (last.map cursorOf) (rows.filter matching) =
      (listing matching limit).beyond rows (last.map sortKey) :=
  filter_after (L := listing matching limit) strictlyAfter_iff rows last

theorem readAfter (last : Option (Finding D)) :
    ((truthy (last.map encodeCursor)).mapM fun raw => orStatus (decodeCursor V raw)) =
      .ok (last.map cursorOf) := by
  rcases last with _ | last
  · rfl
  · have htruthy : truthy (some (encodeCursor last)) = some (encodeCursor last) :=
      Option.filter_some_pos (decide_eq_true (encodeCursor_ne_nil last))
    rw [Option.map_some, htruthy, Option.mapM_some, decodeCursor_encodeCursor]
    rfl

theorem endpoint_eq (matching : Finding D → Bool) (limit : Option ℤ) (rows : List (Finding D))
    (last : Option (Finding D)) :
    endpoint V matching limit rows (last.map encodeCursor) =
      some (keysetPage (listing matching limit) rows (last.map sortKey)) := by
  unfold endpoint listFindings keysetPage
  rw [readAfter, ok_bind]
  dsimp only
  rw [applyCursor_filter matching limit, key_listing, encode_listing, size_listing]
  change some (Response.page _) = _
  unfold Response.page applyOrder
  simp only [decide_eq_true_eq]

theorem answers (matching : Finding D → Bool) (limit : Option ℤ) :
    Answers (listing matching limit) (endpoint V matching limit) :=
  ⟨fun rows => endpoint_eq V matching limit rows none, fun rows last => by
    rw [key_listing, encode_listing]
    exact endpoint_eq V matching limit rows (some last)⟩

end Workbench

/-! ### The newest first -/

namespace Pagination

variable {α : Type}

/-- The columns of a `model` that the lists are ordered by. -/
structure Model (α : Type) where
  createdAt : α → DateTime
  id : α → UUID

variable (model : Model α)

/-- The order of `order_newest_first`: the time and the id descending. -/
abbrev SortKey := (ℤ ×ₗ UUID)ᵒᵈ

def sortKey (row : α) : SortKey :=
  OrderDual.toDual (toLex ((model.createdAt row).instant, model.id row))

/-- **`order_newest_first`** -/
def orderNewestFirst (rows : List α) : List α := sortBy (sortKey model) rows

/-- `tuple_(model.created_at, model.id) < tuple_(cursor.created_at, cursor.id)` -/
def strictlyAfter (cursor : TimeCursor) (row : α) : Bool :=
  decide ((model.createdAt row).instant < cursor.createdAt.instant) ||
    (model.createdAt row).instant = cursor.createdAt.instant && decide (model.id row < cursor.id)

/-- **`apply_cursor`** -/
def applyCursor (cursor : Option TimeCursor) (rows : List α) : List α :=
  rows.filter fun row => cursor.all fun cursor => strictlyAfter model cursor row

/-- **`paginate`** -/
def paginate (rows : List α) (limit : ℕ) : Response α :=
  let hasMore := decide (limit < rows.length)
  let page := rows.take limit
  ⟨page, hasMore,
    if hasMore then
      page.getLast?.map fun last => encodeCursor (model.createdAt last) (model.id last)
    else none⟩

/-- `quota.page_size`, which raises for a number that is not a page size. -/
def pageSize (requested : Option ℤ) (maximum default : ℕ) : Option ℕ :=
  match requested with
  | none => some (min default maximum)
  | some n => if n < 1 then none else some (min n.toNat maximum)

/-- `page_request` -/
def pageRequest (limit : Option ℤ) (cursor : Option Str) (maximum : ℕ) :
    Except ℕ (ℕ × Option TimeCursor) := do
  let size ← (pageSize limit maximum maximum).elim (.error 422) .ok
  let decoded ← (truthy cursor).mapM fun raw => orStatus (decodeCursor V raw)
  return (size, decoded)

/-- **`list_scans`**, and the lists of assets, customers, discovery runs, reports and
authorizations: the rows that are visible, and asked for. -/
def listRows (matching : α → Bool) (limit : Option ℤ) (maximum : ℕ) (rows : List α)
    (cursor : Option Str) : Except ℕ (Response α) := do
  let (size, after) ← pageRequest V limit cursor maximum
  let rows := orderNewestFirst model (applyCursor model after (rows.filter matching))
  return paginate model (rows.take (size + 1)) size

/-- The endpoint, as the pages that it answers with. -/
def endpoint (matching : α → Bool) (limit : Option ℤ) (maximum : ℕ) (rows : List α)
    (cursor : Option Str) : Option (Page α Str) :=
  (listRows V model matching limit maximum rows cursor).toOption.map Response.page

/-- **The order of the rows**, by pages of a size. -/
def listing (matching : α → Bool) (size : ℕ) (hsize : 0 < size) : Listing α SortKey Str UUID where
  key := sortKey model
  id := model.id
  id_of_key _ _ h := congrArg (fun k : SortKey => (ofLex (OrderDual.ofDual k)).2) h
  matching := matching
  encode row := encodeCursor (model.createdAt row) (model.id row)
  size := size
  size_pos := hsize

def cursorOf (row : α) : TimeCursor := ⟨model.createdAt row, model.id row⟩

theorem strictlyAfter_iff (last row : α) :
    strictlyAfter model (cursorOf model last) row = true ↔
      sortKey model last < sortKey model row := by
  unfold strictlyAfter sortKey cursorOf
  simp only [OrderDual.toDual_lt_toDual, Prod.Lex.toLex_lt_toLex, Bool.or_eq_true,
    Bool.and_eq_true, decide_eq_true_eq]

theorem applyCursor_filter (matching : α → Bool) {size : ℕ} (hsize : 0 < size) (rows : List α)
    (last : Option α) :
    applyCursor model (last.map (cursorOf model)) (rows.filter matching) =
      (listing model matching size hsize).beyond rows (last.map (sortKey model)) :=
  filter_after (L := listing model matching size hsize) (strictlyAfter_iff model) rows last

theorem pageRequest_row {limit : Option ℤ} {maximum size : ℕ}
    (hsize : pageSize limit maximum maximum = some size) (last : Option α) :
    pageRequest V limit
      (last.map fun row => encodeCursor (model.createdAt row) (model.id row)) maximum =
        .ok (size, last.map (cursorOf model)) := by
  unfold pageRequest
  rw [hsize]
  rcases last with _ | last
  · rfl
  · have htruthy : ∀ row, truthy (some (encodeCursor (model.createdAt row) (model.id row))) =
        some (encodeCursor (model.createdAt row) (model.id row)) := fun row =>
      Option.filter_some_pos (decide_eq_true (encodeCursor_ne_nil _ _))
    rw [Option.map_some, htruthy, Option.mapM_some, decodeCursor_encodeCursor]
    rfl

theorem endpoint_eq (matching : α → Bool) {limit : Option ℤ} {maximum size : ℕ}
    (hsize : pageSize limit maximum maximum = some size) (hpos : 0 < size) (rows : List α)
    (last : Option α) :
    endpoint V model matching limit maximum rows
      (last.map fun row => encodeCursor (model.createdAt row) (model.id row)) =
        some (keysetPage (listing model matching size hpos) rows (last.map (sortKey model))) := by
  unfold endpoint listRows keysetPage
  rw [pageRequest_row V model hsize, ok_bind]
  dsimp only
  rw [applyCursor_filter model matching hpos]
  change some (Response.page (paginate ..)) = _
  unfold Response.page paginate
  simp only [decide_eq_true_eq]
  rfl

theorem answers (matching : α → Bool) {limit : Option ℤ} {maximum size : ℕ}
    (hsize : pageSize limit maximum maximum = some size) (hpos : 0 < size) :
    Answers (listing model matching size hpos) (endpoint V model matching limit maximum) :=
  ⟨fun rows => endpoint_eq V model matching hsize hpos rows none,
    fun rows last => endpoint_eq V model matching hsize hpos rows (some last)⟩

end Pagination

/-! ### Both -/

/-- **Following the cursors lists the table**, for both orders, and the cursor of a row is read as
the key of that row. -/
theorem lists_paged {D α : Type} (visible : Workbench.Finding D → Bool) (limit : Option ℤ)
    (model : Pagination.Model α) (matching : α → Bool) (requested : Option ℤ) (maximum size : ℕ)
    (hsize : Pagination.pageSize requested maximum maximum = some size) (hpos : 1 ≤ size) :
    (Paged (Workbench.listing visible limit) (Workbench.endpoint V visible limit) ∧
      ∀ finding : Workbench.Finding D,
        Workbench.decodeCursor V (Workbench.encodeCursor finding) =
          .ok (Workbench.cursorOf finding)) ∧
    Paged (Pagination.listing model matching size hpos)
        (Pagination.endpoint V model matching requested maximum) ∧
      ∀ row, Pagination.decodeCursor V
          (Pagination.encodeCursor (model.createdAt row) (model.id row)) =
        .ok (Pagination.cursorOf model row) :=
  ⟨⟨(Workbench.answers V visible limit).paged, Workbench.decodeCursor_encodeCursor V⟩,
    (Pagination.answers V model matching hsize hpos).paged,
    fun row => Pagination.decodeCursor_encodeCursor V (model.createdAt row) (model.id row)⟩

/-- A list by pages of two rows. -/
theorem lists_paged_sample :
    Paged (Pagination.listing (⟨Prod.fst, Prod.snd⟩ : Pagination.Model (DateTime × UUID))
        (fun _ => true) 2 (by decide))
      (Pagination.endpoint (Readers.strict Runtime.ascii) ⟨Prod.fst, Prod.snd⟩ (fun _ => true)
        (some 2) 200) :=
  (lists_paged (Readers.strict Runtime.ascii) (fun _ : Workbench.Finding Unit => true) none
    ⟨Prod.fst, Prod.snd⟩ (fun _ => true) (some 2) 200 2 rfl (by decide)).2.1

end Guardian.Listing

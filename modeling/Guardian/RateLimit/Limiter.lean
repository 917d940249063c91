import Guardian.Order.Window
import Guardian.Python.Text
import Mathlib.Data.List.AList

/-!
# The sliding-window limiter

A table of the recent hits of each key.  Each operation reads the clock, takes the lock, and then
works on the table with the instant that it read.
-/

namespace Guardian.RateLimit

open Python Guardian.Order
open List hiding after

/-- `_MAX_KEYS`. -/
def maxKeys : ℕ := 50000

/-- `SlidingWindowLimiter._max` and `_window`. -/
structure Limiter where
  max : ℤ
  window : ℚ

/-- `SlidingWindowLimiter._hits`. -/
abbrev Hits := AList fun _ : Str => List ℚ

def bucket (hits : Hits) (key : Str) : List ℚ := (hits.lookup key).getD []

/-- `[t for t in ts if now - t < window]`. -/
def recent (window now : ℚ) (ts : List ℚ) : List ℚ := ts.filter fun t => now - t < window

/-- The test of `_evict_expired`. -/
def stale (window now : ℚ) (ts : List ℚ) : Bool :=
  match ts.getLast? with
  | none => true
  | some t => window ≤ now - t

/-- `_evict_expired`. -/
def evictExpired (window now : ℚ) (hits : Hits) : Hits :=
  ((hits.entries.filter fun e => stale window now e.2).map Sigma.fst).foldl (fun h k => h.erase k)
    hits

/-- The table is full, and the key is not in it. -/
def full (hits : Hits) (key : Str) : Bool := maxKeys ≤ hits.keys.length && key ∉ hits

/-- The table after expired keys are evicted under memory pressure. -/
def makeRoom (window now : ℚ) (hits : Hits) (key : Str) : Hits :=
  if full hits key then evictExpired window now hits else hits

/-- The `retry_after_seconds` of a refusal. -/
def retryAfter (window now : ℚ) (recent : List ℚ) : ℚ :=
  Max.max 0 (window - (now - recent.headD now))

/-- The answer for a key that a table full of live buckets has no room for. -/
def saturated (window : ℚ) (failClosed : Bool) : Bool × ℚ :=
  if failClosed then (false, window) else (true, 0)

/-- **`hit`.** -/
def hit (L : Limiter) (hits : Hits) (key : Str) (maxHits : Option ℤ) (failClosed : Bool) (now : ℚ) :
    (Bool × ℚ) × Hits :=
  if maxHits.getD L.max ≤ 0 then ((true, 0), hits)
  else
    let hits := makeRoom L.window now hits key
    if full hits key then (saturated L.window failClosed, hits)
    else
      let ts := recent L.window now (bucket hits key)
      if maxHits.getD L.max ≤ ts.length then
        ((false, retryAfter L.window now ts), hits.insert key ts)
      else ((true, 0), hits.insert key (ts ++ [now]))

/-- **`check`.** -/
def check (L : Limiter) (hits : Hits) (key : Str) (maxHits : Option ℤ) (failClosed : Bool)
    (now : ℚ) : (Bool × ℚ) × Hits :=
  if maxHits.getD L.max ≤ 0 then ((true, 0), hits)
  else
    let hits := makeRoom L.window now hits key
    if full hits key then (saturated L.window failClosed, hits)
    else
      let ts := recent L.window now (bucket hits key)
      if maxHits.getD L.max ≤ ts.length then ((false, retryAfter L.window now ts), hits)
      else ((true, 0), hits)

/-! ### Eviction -/

theorem bucket_insert (hits : Hits) (key key' : Str) (ts : List ℚ) :
    bucket (hits.insert key ts) key' = if key' = key then ts else bucket hits key' := by
  unfold bucket
  by_cases h : key' = key
  · subst h
    simp
  · rw [AList.lookup_insert_ne h, if_neg h]

theorem bucket_foldl_erase (keys : List Str) (hits : Hits) (key : Str) :
    bucket (keys.foldl (fun h k => h.erase k) hits) key =
      if key ∈ keys then [] else bucket hits key := by
  induction keys generalizing hits with
  | nil => simp
  | cons k keys ih =>
    rw [foldl_cons, ih]
    by_cases hmem : key ∈ keys
    · simp [hmem]
    · by_cases hk : key = k
      · subst hk
        simp [bucket, hmem]
      · simp [bucket, hmem, hk, AList.lookup_erase_ne hk]

/-- **An eviction** leaves a bucket as it is, or drops it because its last hit is out of the
window. -/
theorem bucket_evictExpired (window now : ℚ) (hits : Hits) (key : Str) :
    bucket (evictExpired window now hits) key = bucket hits key ∨
      bucket (evictExpired window now hits) key = [] ∧ stale window now (bucket hits key) = true := by
  unfold evictExpired
  rw [bucket_foldl_erase]
  split_ifs with hmem
  · right
    refine ⟨rfl, ?_⟩
    obtain ⟨e, he, hkey⟩ := mem_map.mp hmem
    obtain ⟨hmem, hstale⟩ := mem_filter.mp he
    have hlookup : hits.lookup e.1 = some e.2 := AList.mem_lookup_iff.mpr hmem
    rw [← hkey, bucket, hlookup]
    exact hstale
  · exact .inl rfl

theorem bucket_makeRoom_self (window now : ℚ) (hits : Hits) (key : Str) :
    bucket (makeRoom window now hits key) key = bucket hits key := by
  unfold makeRoom
  split_ifs with hfull
  · rcases bucket_evictExpired window now hits key with h | ⟨h, -⟩
    · exact h
    · have habsent : key ∉ hits := by
        unfold full at hfull
        simp only [Bool.and_eq_true, decide_eq_true_eq] at hfull
        exact hfull.2
      rw [h, bucket, AList.lookup_eq_none.mpr habsent]
      rfl
  · rfl

theorem bucket_makeRoom (window now : ℚ) (hits : Hits) (key key' : Str) :
    bucket (makeRoom window now hits key') key = bucket hits key ∨
      bucket (makeRoom window now hits key') key = [] ∧ full hits key' = true ∧
        stale window now (bucket hits key) = true := by
  unfold makeRoom
  split_ifs with hfull
  · rcases bucket_evictExpired window now hits key with h | ⟨h, hstale⟩
    · exact .inl h
    · exact .inr ⟨h, hfull, hstale⟩
  · exact .inl rfl

/-! ### The two operations -/

theorem length_recent (window now : ℚ) (ts : List ℚ) :
    (recent window now ts).length = after (now - window) ts := by
  unfold recent after
  rw [countP_eq_length_filter]
  congr 1
  refine filter_congr fun t _ => ?_
  simp only [sub_lt_comm]

theorem after_recent {window now y : ℚ} (hy : now - window ≤ y) (ts : List ℚ) :
    after y (recent window now ts) = after y ts := by
  refine after_filter (fun t ht => ?_) ts
  simp only [decide_eq_true_eq]
  linarith

/-- **A hit below the ceiling is recorded**, if the table has room for its key. -/
theorem bucket_hit_self {L : Limiter} {hits : Hits} {key : Str} (maxHits : Option ℤ)
    (failClosed : Bool) {now : ℚ} (hroom : full (makeRoom L.window now hits key) key = false)
    (hlt : (after (now - L.window) (bucket hits key) : ℤ) < maxHits.getD L.max) :
    bucket (hit L hits key maxHits failClosed now).2 key =
      recent L.window now (bucket hits key) ++ [now] := by
  have hpos : ¬ maxHits.getD L.max ≤ 0 := by omega
  have hlen : ¬ maxHits.getD L.max ≤ (recent L.window now (bucket hits key)).length := by
    rw [length_recent]
    omega
  simp only [hit, hpos, hroom, bucket_makeRoom_self, hlen, if_false, Bool.false_eq_true]
  rw [bucket_insert, if_pos rfl]

theorem bucket_check_self (L : Limiter) (hits : Hits) (key : Str) (maxHits : Option ℤ)
    (failClosed : Bool) (now : ℚ) :
    bucket (check L hits key maxHits failClosed now).2 key = bucket hits key := by
  have hself := bucket_makeRoom_self L.window now hits key
  unfold check
  dsimp only
  split_ifs
  · rfl
  · exact hself
  · exact hself
  · exact hself

theorem bucket_hit_of_ne {L : Limiter} {hits : Hits} {key key' : Str} (hne : key ≠ key')
    (maxHits : Option ℤ) (failClosed : Bool) (now : ℚ) :
    bucket (hit L hits key' maxHits failClosed now).2 key = bucket hits key ∨
      bucket (hit L hits key' maxHits failClosed now).2 key = [] ∧ full hits key' = true ∧
        stale L.window now (bucket hits key) = true := by
  have hroom := bucket_makeRoom L.window now hits key key'
  unfold hit
  dsimp only
  split_ifs
  · exact .inl rfl
  · exact hroom
  · rw [bucket_insert, if_neg hne]
    exact hroom
  · rw [bucket_insert, if_neg hne]
    exact hroom

theorem bucket_check_of_ne {L : Limiter} {hits : Hits} {key key' : Str}
    (maxHits : Option ℤ) (failClosed : Bool) (now : ℚ) :
    bucket (check L hits key' maxHits failClosed now).2 key = bucket hits key ∨
      bucket (check L hits key' maxHits failClosed now).2 key = [] ∧ full hits key' = true ∧
        stale L.window now (bucket hits key) = true := by
  have hroom := bucket_makeRoom L.window now hits key key'
  unfold check
  dsimp only
  split_ifs
  · exact .inl rfl
  · exact hroom
  · exact hroom
  · exact hroom

end Guardian.RateLimit

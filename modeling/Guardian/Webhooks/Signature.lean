import Guardian.Python.JsonText

/-!
# Signatures of webhooks

A delivery carries the time at which it was signed and the HMAC of the time and the body.  The check
that a receiver performs reads both out of a header that anybody may write.  `verify_iff` says when
it answers at all.
-/

namespace Guardian.Webhooks

open Python
open List hiding partition

/-! ### Numbers as texts -/

section Numbers
variable {R : Runtime} {n : ℤ} {s : Str}

/-- `str(n)`, which raises for a number with more digits than are allowed. -/
def strOf (R : Runtime) (n : ℤ) : Except Fault Str :=
  if R.maxStrDigits = 0 ∨ (Nat.toDigits 10 n.natAbs).length ≤ R.maxStrDigits then
    .ok (integerText n)
  else .error .valueError

theorem isDigit_spec {c : Char} (h : c.isDigit = true) :
    c.toNat < 128 ∧ isBlank c = false ∧ c ≠ '-' ∧ c ≠ '+' := by
  have hc := isAscii_of_isDigit h
  exact ⟨hc, forall_ascii (P := fun c => c.isDigit = true →
    isBlank c = false ∧ c ≠ '-' ∧ c ≠ '+') (by decide) hc h⟩

theorem readBase10_digits (hs : ∀ c ∈ s, c.isDigit = true) (after : Bool) (h : after ∨ s ≠ [])
    (m : ℕ) : readBase10 after m s = some (Nat.ofDigitChars 10 s m) := by
  induction s generalizing after m with
  | nil =>
    rw [readBase10, if_pos (h.resolve_right fun hne => hne rfl)]
    rfl
  | cons c s ih =>
    have hc := hs c mem_cons_self
    have hne : c ≠ '_' := by
      rintro rfl
      cases hc
    rw [readBase10, if_neg hne, if_pos hc,
      ih (fun d hd => hs d (mem_cons_of_mem c hd)) true (Or.inl rfl), Nat.ofDigitChars_cons]
    rfl

theorem readBase10_lt {after : Bool} {m k : ℕ} (h : readBase10 after m s = some k) :
    k < (m + 1) * 10 ^ s.countP Char.isDigit := by
  induction s generalizing after m with
  | nil =>
    rw [readBase10] at h
    split_ifs at h
    cases h
    simp
  | cons c s ih =>
    rw [readBase10] at h
    split_ifs at h with hmark hafter hdigit
    · rw [countP_cons_of_neg (by simp [hmark])]
      exact ih h
    · rw [countP_cons_of_pos hdigit, pow_succ, mul_comm _ 10, ← mul_assoc]
      refine (ih h).trans_le (Nat.mul_le_mul_right _ ?_)
      have hvalue : decimalValue c < 10 := by
        have hhigh : c.toNat ≤ 57 := (Char.isDigit_iff_toNat.mp hdigit).2
        unfold decimalValue
        omega
      omega

theorem intBase10_nil : intBase10 R [] = none := if_neg fun h => absurd h.2 (Nat.not_lt_zero _)

/-- **A number that is read can be written.** -/
theorem strOf_of_intBase10 (h : intBase10 R s = some n) : strOf R n = .ok (integerText n) := by
  unfold intBase10 at h
  dsimp only at h
  generalize ((s.map (asciiOf R)).dropWhile isBlank).rdropWhile isBlank = t at h
  split_ifs at h with hlimit
  have hread : ∃ u k, readBase10 false 0 u = some k ∧ n.natAbs = k ∧
      u.countP Char.isDigit ≤ t.countP Char.isDigit := by
    split at h
    all_goals
      obtain ⟨k, hk, rfl⟩ := Option.map_eq_some_iff.mp h
      exact ⟨_, k, hk, by simp, by simp⟩
  obtain ⟨u, k, hk, hn, hcount⟩ := hread
  have hlt := readBase10_lt hk
  rw [zero_add, one_mul] at hlt
  refine if_pos ?_
  rw [not_and_or, not_not, not_lt] at hlimit
  rcases Nat.eq_zero_or_pos R.maxStrDigits with hzero | hpos
  · exact Or.inl hzero
  · have hle : u.countP Char.isDigit ≤ R.maxStrDigits := hcount.trans (hlimit.resolve_left hpos.ne')
    rw [hn, Nat.length_toDigits_le_iff (by decide) hpos]
    exact Or.inr (hlt.trans_le (Nat.pow_le_pow_right (by decide) hle))

theorem mem_integerText {c : Char} (hc : c ∈ integerText n) : c = '-' ∨ c.isDigit = true := by
  have hdigits {d : Char} (hd : d ∈ Nat.toDigits 10 n.natAbs) : d.isDigit = true :=
    Nat.isDigit_of_mem_toDigits (by decide) (by decide) hd
  unfold integerText at hc
  split_ifs at hc
  · exact (mem_cons.mp hc).imp_right hdigits
  · exact Or.inr (hdigits hc)

/-- **A number is read back from its text.** -/
theorem intBase10_integerText (h : strOf R n = .ok s) :
    s = integerText n ∧ intBase10 R s = some n := by
  unfold strOf at h
  split_ifs at h with hlimit
  cases h
  refine ⟨rfl, ?_⟩
  have hdigits : ∀ c ∈ Nat.toDigits 10 n.natAbs, c.isDigit = true := fun c hc =>
    Nat.isDigit_of_mem_toDigits (by decide) (by decide) hc
  have hmap : (integerText n).map (asciiOf R) = integerText n := by
    refine (map_congr_left fun c hc => ?_).trans (map_id _)
    refine if_pos ?_
    rcases mem_integerText hc with rfl | hdigit
    · decide
    · exact (isDigit_spec hdigit).1
  have hstrip : ((integerText n).dropWhile isBlank).rdropWhile isBlank = integerText n := by
    refine dropWhile_rdropWhile_eq_self fun c hc => ?_
    rcases mem_integerText hc with rfl | hdigit
    · decide
    · exact (isDigit_spec hdigit).2.1
  have hcount : (integerText n).countP Char.isDigit = (Nat.toDigits 10 n.natAbs).length := by
    unfold integerText
    split_ifs
    · rw [countP_cons_of_neg (by decide), countP_eq_length.mpr hdigits]
    · exact countP_eq_length.mpr hdigits
  unfold intBase10
  dsimp only
  rw [hmap, hstrip, hcount, if_neg fun hexceeds => by omega]
  have hread := readBase10_digits hdigits false (Or.inr Nat.toDigits_ne_nil) 0
  rw [Nat.ofDigitChars_ten_toDigits] at hread
  unfold integerText
  split_ifs with hneg
  · simp only [hread, Option.map_some]
    exact congrArg some (by omega)
  · have hhead : ∀ c ∈ (Nat.toDigits 10 n.natAbs).head?, c ≠ '-' ∧ c ≠ '+' := fun c hc =>
      (isDigit_spec (hdigits c (mem_of_head? hc))).2.2
    split
    · rename_i heq
      exact absurd rfl (hhead _ (by rw [heq]; rfl)).1
    · rename_i heq
      exact absurd rfl (hhead _ (by rw [heq]; rfl)).2
    · rw [hread, Option.map_some, Int.natAbs_of_nonneg (not_lt.mp hneg)]

end Numbers

/-! ### The header -/

/-- The hexadecimal HMAC-SHA256 of a text under a key: `hmac.new(key, text, sha256).hexdigest()`. -/
structure Hmac where
  hexdigest : Bytes → Bytes → Str
  isHex : ∀ key text, ∀ c ∈ hexdigest key text, c ∈ "0123456789abcdef".toList

/-- `REPLAY_WINDOW_SECONDS` -/
def replayWindowSeconds : ℤ := 300

section Code
variable (R : Runtime) (mac : Hmac)

/-- The HMAC over `timestamp.body`. -/
def digest (secret timestamp body : Str) : Str :=
  mac.hexdigest (encode secret) (encode (timestamp ++ '.' :: body))

/-- **`sign`** -/
def sign (body secret : Str) (timestamp : ℤ) : Except Fault Str := do
  let t ← strOf R timestamp
  return "t=" ++ t ++ ",v1=" ++ digest mac secret t body

/-- `piece.split("=", 1)`, if there is a `=` in the piece. -/
def entry (piece : Str) : Option (Str × Str) :=
  match partition '=' piece with
  | (key, true, value) => some (key, value)
  | _ => none

/-- `dict(piece.split("=", 1) for piece in header.split(",") if "=" in piece)`, the last entry
first. -/
def parts (header : Str) : List (Str × Str) := ((header.splitOn ',').filterMap entry).reverse

/-- `parts.get(key, "")` -/
def field (header key : Str) : Str := ((parts header).lookup key).getD []

/-- `hmac.compare_digest(a, b)`, which takes texts only if they are ASCII. -/
def compareDigest (a b : Str) : Except Fault Bool :=
  if (∀ c ∈ a, IsAscii c) ∧ ∀ c ∈ b, IsAscii c then .ok (decide (a = b)) else .error .typeError

/-- **`verify`** -/
def verify (body header secret : Str) (now window : ℤ) : Except Fault Bool :=
  match intBase10 R (field header "t") with
  | none => .ok false
  | some timestamp =>
    if window < |now - timestamp| then .ok false
    else do
      let t ← strOf R timestamp
      compareDigest (digest mac secret t body) (field header "v1")

end Code

/-! ### What is read out of a header -/

/-- **A header carries a value** under a key: the last piece between its commas that begins with the
key and `=` goes on with the value. -/
def Carries (header key value : Str) : Prop :=
  ∃ before after, header.splitOn ',' = before ++ (key ++ '=' :: value) :: after ∧
    ∀ piece ∈ after, ¬key ++ ['='] <+: piece

section Header
variable {header key value piece : Str}

theorem entry_eq_some_iff :
    entry piece = some (key, value) ↔ '=' ∉ key ∧ piece = key ++ '=' :: value := by
  constructor
  · intro h
    by_cases hmem : '=' ∈ piece
    · obtain ⟨u, v, rfl, hu⟩ := eq_append_cons_of_mem hmem
      rw [entry, partition_append hu] at h
      cases h
      exact ⟨hu, rfl⟩
    · rw [entry, partition, decide_eq_false hmem] at h
      cases h
  · rintro ⟨hkey, rfl⟩
    rw [entry, partition_append hkey]

theorem exists_entry_iff (hkey : '=' ∉ key) :
    key ++ ['='] <+: piece ↔ ∃ v, entry piece = some (key, v) := by
  simp only [entry_eq_some_iff]
  constructor
  · rintro ⟨v, rfl⟩
    exact ⟨v, hkey, by simp⟩
  · rintro ⟨v, -, rfl⟩
    exact ⟨v, by simp⟩

theorem concat_eq_iff {pieces : List Str} {mark : Str} :
    (∃ before after, pieces ++ [piece] = before ++ mark :: after ∧
        ∀ p ∈ after, ¬key ++ ['='] <+: p) ↔
      piece = mark ∨ ¬key ++ ['='] <+: piece ∧
        ∃ before after, pieces = before ++ mark :: after ∧ ∀ p ∈ after, ¬key ++ ['='] <+: p := by
  constructor
  · rintro ⟨before, after, heq, hafter⟩
    rcases eq_nil_or_concat after with rfl | ⟨after, last, rfl⟩
    · exact Or.inl (singleton_inj.mp (append_inj' heq rfl).2)
    · have hsplit : pieces ++ [piece] = (before ++ mark :: after) ++ [last] := by
        rw [heq]
        simp
      obtain ⟨hpieces, hlast⟩ := append_inj' hsplit rfl
      obtain rfl : piece = last := by simpa using hlast
      refine Or.inr ⟨hafter piece (by simp), before, after, hpieces, fun p hp => hafter p ?_⟩
      simp [hp]
  · rintro (rfl | ⟨hpiece, before, after, rfl, hafter⟩)
    · exact ⟨pieces, [], rfl, by simp⟩
    · refine ⟨before, after ++ [piece], by simp, fun p hp => ?_⟩
      rcases mem_append.mp hp with hp | hp
      · exact hafter p hp
      · rw [mem_singleton.mp hp]
        exact hpiece

/-- **What `parts` holds** is what the header carries. -/
theorem lookup_parts_iff (hkey : '=' ∉ key) :
    (parts header).lookup key = some value ↔ Carries header key value := by
  unfold parts Carries
  induction header.splitOn ',' using reverseRecOn with
  | nil => simp
  | append_singleton pieces piece ih =>
    rw [concat_eq_iff, ← ih, filterMap_append, reverse_append, exists_entry_iff hkey]
    rcases hentry : entry piece with _ | ⟨k, v⟩
    · have hne : piece ≠ key ++ '=' :: value := by
        intro heq
        rw [entry_eq_some_iff.mpr ⟨hkey, heq⟩] at hentry
        cases hentry
      simp [hentry, hne]
    · obtain ⟨hk, rfl⟩ := entry_eq_some_iff.mp hentry
      simp only [filterMap_cons, hentry, filterMap_nil, reverse_singleton,
        singleton_append, lookup_cons]
      by_cases hsame : key = k
      · subst hsame
        simp
      · have hne : k ++ '=' :: v ≠ key ++ '=' :: value := by
          intro heq
          rw [entry_eq_some_iff.mpr ⟨hkey, heq⟩] at hentry
          exact hsame (Prod.mk.inj (Option.some.inj hentry)).1
        have hbeq : (key == k) = false := beq_eq_false_iff_ne.mpr hsame
        simp [hbeq, hne, Ne.symm hsame]

theorem field_of_carries (hkey : '=' ∉ key) (h : Carries header key value) :
    field header key = value := by
  rw [field, (lookup_parts_iff hkey).mpr h, Option.getD_some]

theorem field_eq_nil (hkey : '=' ∉ key) (h : ∀ value, ¬Carries header key value) :
    field header key = [] := by
  rw [field, Option.eq_none_iff_forall_ne_some.mpr fun v hv => h v ((lookup_parts_iff hkey).mp hv),
    Option.getD_none]

end Header

/-! ### Signing and checking -/

section Checks
variable {R : Runtime} {mac : Hmac} {body body' header secret secret' : Str}
  {now window timestamp : ℤ}

theorem isAscii_digest (s t b : Str) : ∀ c ∈ digest mac s t b, IsAscii c ∧ c ≠ ',' := by
  intro c hc
  have hall : ∀ c ∈ "0123456789abcdef".toList, IsAscii c ∧ c ≠ ',' := by decide
  exact hall c (mac.isHex _ _ c hc)

theorem comma_notMem_integerText (n : ℤ) : ',' ∉ integerText n := by
  intro hmem
  rcases mem_integerText hmem with hminus | hdigit
  · exact absurd hminus (by decide)
  · exact absurd hdigit (by decide)

/-- A signed header carries the time and the HMAC. -/
theorem carries_of_sign (h : sign R mac body secret timestamp = .ok header) :
    strOf R timestamp = .ok (integerText timestamp) ∧
      Carries header "t" (integerText timestamp) ∧
      Carries header "v1" (digest mac secret (integerText timestamp) body) := by
  obtain ⟨t, ht, h⟩ := bind_eq_ok.mp h
  obtain ⟨rfl, -⟩ := intBase10_integerText ht
  cases h
  set hmac := digest mac secret (integerText timestamp) body
  have hsplit : ("t=" ++ integerText timestamp ++ ",v1=" ++ hmac).splitOn ',' =
      ["t" ++ '=' :: integerText timestamp, "v1" ++ '=' :: hmac] := by
    have hpieces : ∀ piece ∈ ["t" ++ '=' :: integerText timestamp,
        "v1" ++ '=' :: hmac], ',' ∉ piece := by
      simp only [mem_cons, not_mem_nil, or_false, forall_eq_or_imp, forall_eq]
      refine ⟨fun hmem => ?_, fun hmem => ?_⟩
      · rcases mem_append.mp hmem with hmem | hmem
        · exact absurd hmem (by decide)
        · exact comma_notMem_integerText timestamp (mem_of_ne_of_mem (by decide) hmem)
      · rcases mem_append.mp hmem with hmem | hmem
        · exact absurd hmem (by decide)
        · exact (isAscii_digest secret _ body ','
            (mem_of_ne_of_mem (by decide) hmem)).2 rfl
    have hjoin : "t=" ++ integerText timestamp ++ ",v1=" ++ hmac =
        [','].intercalate ["t" ++ '=' :: integerText timestamp,
          "v1" ++ '=' :: hmac] := by
      simp [intercalate]
    rw [hjoin, splitOn_intercalate ',' hpieces (by simp)]
  refine ⟨ht, ⟨[], ["v1" ++ '=' :: hmac], hsplit, ?_⟩,
    ⟨["t" ++ '=' :: integerText timestamp], [], hsplit, by simp⟩⟩
  intro piece hpiece hprefix
  rw [mem_singleton.mp hpiece] at hprefix
  obtain ⟨v, hv⟩ := hprefix
  cases hv

theorem verify_of_carries {time : Str} (htime : Carries header "t" time)
    (hint : intBase10 R time = some timestamp) :
    verify R mac body header secret now window =
      if window < |now - timestamp| then .ok false
      else compareDigest (digest mac secret (integerText timestamp) body)
        (field header "v1") := by
  unfold verify
  rw [field_of_carries (by decide) htime, hint]
  dsimp only
  rw [strOf_of_intBase10 hint]
  rfl

/-- **A signed header is checked** against the HMAC of what it is checked for. -/
theorem verify_of_sign (h : sign R mac body' secret' timestamp = .ok header) :
    verify R mac body header secret now window = .ok (decide (|now - timestamp| ≤ window ∧
      digest mac secret (integerText timestamp) body =
        digest mac secret' (integerText timestamp) body')) := by
  obtain ⟨hstr, htime, hvalue⟩ := carries_of_sign h
  rw [verify_of_carries htime (intBase10_integerText hstr).2, field_of_carries (by decide) hvalue]
  have hcompare : ∀ s t b s' t' b', compareDigest (digest mac s t b) (digest mac s' t' b') =
      .ok (decide (digest mac s t b = digest mac s' t' b')) := fun s t b s' t' b' =>
    if_pos ⟨fun c hc => (isAscii_digest s t b c hc).1, fun c hc => (isAscii_digest s' t' b' c hc).1⟩
  rw [hcompare]
  split_ifs with hlate
  · rw [decide_eq_false fun hand => hlate.not_ge hand.1]
  · simp only [not_lt.mp hlate, true_and]

/-- **No collision**: two texts with one HMAC are one text, under one key. -/
def NoCollision (mac : Hmac) (secret text secret' text' : Str) : Prop :=
  mac.hexdigest (encode secret) (encode text) = mac.hexdigest (encode secret') (encode text') →
    encode secret = encode secret' ∧ encode text = encode text'

theorem encode_injective : Function.Injective encode := fun s t h => by
  have hdecode := congrArg decode h
  rwa [decode_encode, decode_encode, Option.some.injEq] at hdecode

/-- **The check answers** exactly if what is compared is ASCII wherever it comes to that. -/
theorem verify_returns_iff : (∃ b, verify R mac body header secret now window = .ok b) ↔
    ∀ time timestamp value, Carries header "t" time → intBase10 R time = some timestamp →
      |now - timestamp| ≤ window → Carries header "v1" value → ∀ c ∈ value, IsAscii c := by
  constructor
  · rintro ⟨b, hb⟩ time timestamp value htime hint hfresh hvalue
    rw [verify_of_carries htime hint, if_neg hfresh.not_gt, field_of_carries (by decide) hvalue,
      compareDigest] at hb
    split_ifs at hb with hascii
    exact hascii.2
  · intro h
    rcases hint : intBase10 R (field header "t") with _ | timestamp
    · refine ⟨false, ?_⟩
      rw [verify, hint]
    have htime : Carries header "t" (field header "t") := by
      by_cases hv : ∃ value, Carries header "t" value
      · obtain ⟨value, hvalue⟩ := hv
        rwa [field_of_carries (by decide) hvalue]
      · rw [field_eq_nil (by decide) fun value hvalue => hv ⟨value, hvalue⟩, intBase10_nil] at hint
        cases hint
    rw [verify_of_carries htime hint]
    by_cases hfresh : |now - timestamp| ≤ window
    · rw [if_neg hfresh.not_gt]
      have hascii : ∀ c ∈ field header "v1", IsAscii c := by
        by_cases hv : ∃ value, Carries header "v1" value
        · obtain ⟨value, hvalue⟩ := hv
          rw [field_of_carries (by decide) hvalue]
          exact h _ _ _ htime hint hfresh hvalue
        · rw [field_eq_nil (by decide) fun value hvalue => hv ⟨value, hvalue⟩]
          simp
      exact ⟨_, if_pos ⟨fun c hc => (isAscii_digest _ _ _ c hc).1, hascii⟩⟩
    · exact ⟨false, if_pos (not_le.mp hfresh)⟩

/-- **Another body or secret does not verify.** -/
theorem verify_other (h : sign R mac body' secret' timestamp = .ok header)
    (hother : (body', secret') ≠ (body, secret))
    (hmac : NoCollision mac secret (integerText timestamp ++ '.' :: body) secret'
      (integerText timestamp ++ '.' :: body')) :
    verify R mac body header secret now window = .ok false := by
  rw [verify_of_sign h, decide_eq_false]
  rintro ⟨-, hsame⟩
  obtain ⟨hsecret, htext⟩ := hmac hsame
  have hbody := append_cancel_left (encode_injective htext)
  exact hother (Prod.ext (List.cons.inj hbody).2.symm (encode_injective hsecret).symm)

variable (R mac body header secret now window) in
/-- **The check keeps what it promises**, that it answers, accepts a signed header while it is fresh
and no other body or secret under it, exactly if what is compared is ASCII wherever it comes to
that. -/
theorem verify_iff :
    ((∃ b, verify R mac body header secret now window = .ok b) ∧
      (∀ t, sign R mac body secret t = .ok header →
        verify R mac body header secret now window = .ok (decide (|now - t| ≤ window))) ∧
      ∀ body' secret' t, sign R mac body' secret' t = .ok header →
        (body', secret') ≠ (body, secret) →
        NoCollision mac secret (integerText t ++ '.' :: body) secret'
          (integerText t ++ '.' :: body') →
        verify R mac body header secret now window = .ok false) ↔
      ∀ time timestamp value, Carries header "t" time → intBase10 R time = some timestamp →
        |now - timestamp| ≤ window → Carries header "v1" value → ∀ c ∈ value, IsAscii c := by
  rw [← verify_returns_iff, and_iff_left_iff_imp]
  refine fun _ => ⟨fun t ht => ?_,
    fun body' secret' t ht hother hmac => verify_other ht hother hmac⟩
  rw [verify_of_sign ht]
  simp

def sampleHmac : Hmac := ⟨fun _ _ => ['0'], by simp⟩

/-- A fresh header with an accent. -/
theorem accent_raises :
    ¬∀ (R : Runtime) (mac : Hmac) (body header secret : Str) (now window : ℤ),
      ∃ b, verify R mac body header secret now window = .ok b := by
  intro h
  obtain ⟨b, hb⟩ := h .ascii sampleHmac [] "t=0,v1=é" [] 0 replayWindowSeconds
  have hraises : verify .ascii sampleHmac [] "t=0,v1=é" [] 0 replayWindowSeconds =
      .error .typeError := by decide
  rw [hraises] at hb
  cases hb

end Checks

end Guardian.Webhooks

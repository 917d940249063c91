import Guardian.Python.Text

/-!
# The `idna` codec

A name is encoded label by label.  What a label becomes depends on the Unicode tables behind
`nameprep` and on `punycode`; an ASCII name is only checked.
-/

namespace Guardian.Python

open List
/-- **What the codec calls**: `nameprep`, which refuses some labels, and `str.encode("punycode")`. -/
structure Idna where
  nameprep : Str → Option Str
  punycode : Str → Str

/-- An ASCII character that is no capital letter. -/
def IsLowAscii (c : Char) : Prop := IsAscii c ∧ c.toLower = c

instance (c : Char) : Decidable (IsLowAscii c) := by unfold IsLowAscii; infer_instance

/-- **What `nameprep` and `punycode` are documented to do**: `nameprep` folds the case of letters, and
`punycode` keeps the ASCII characters of a label, and appends a hyphen, digits and small letters. -/
structure Idna.Documented (I : Idna) : Prop where
  nameprep : ∀ s t, I.nameprep s = some t → ∀ c ∈ t, IsAscii c → c.toLower = c
  punycode : ∀ s, (∀ c ∈ s, IsAscii c → c.toLower = c) → ∀ c ∈ I.punycode s, IsLowAscii c

namespace Idna

variable (I : Idna)

/-- The length of a label is between 1 and 63. -/
def sizeOk (label : Str) : Option Str :=
  if 0 < label.length ∧ label.length < 64 then some label else none

/-- `ToASCII` -/
def toAscii (label : Str) : Option Str :=
  if ∀ c ∈ label, IsAscii c then sizeOk label
  else do
    let label ← I.nameprep label
    if ∀ c ∈ label, IsAscii c then sizeOk label
    else if "xn--" <+: label then none
    else sizeOk ("xn--" ++ I.punycode label)

def isDot (c : Char) : Bool := c == '.' || c == '\u3002' || c == '\uFF0E' || c == '\uFF61'

/-- The check of an ASCII name: no label is too long, and none but the last is empty. -/
def labelsOk (labels : List Str) : Prop :=
  (∀ label ∈ labels.dropLast, 0 < label.length ∧ label.length < 64) ∧
    (labels.getLastD []).length < 64

instance (labels : List Str) : Decidable (labelsOk labels) := by unfold labelsOk; infer_instance

/-- `s.encode("idna").decode("ascii")`; a `UnicodeError` is `none`. -/
def encode (s : Str) : Option Str :=
  if s = [] then some []
  else if ∀ c ∈ s, IsAscii c then
    if labelsOk (s.splitOn '.') then some s else none
  else do
    let labels := s.splitOnP isDot
    let trailing : Str := if labels.getLastD [] = [] then ['.'] else []
    let labels := if labels.getLastD [] = [] then labels.dropLast else labels
    let encoded ← labels.mapM I.toAscii
    return intercalate ['.'] encoded ++ trailing

variable {I}

theorem sizeOk_some {s t : Str} (h : sizeOk s = some t) : t = s := by
  unfold sizeOk at h
  split_ifs at h
  exact (Option.some.inj h).symm

theorem encode_ascii {s e : Str} (hs : ∀ c ∈ s, IsAscii c) (h : I.encode s = some e) : e = s := by
  unfold encode at h
  split_ifs at h with hnil
  · rw [hnil]
    exact (Option.some.inj h).symm
  · exact (Option.some.inj h).symm

theorem isLowAscii_toAscii (hI : I.Documented) {s t : Str}
    (hs : ∀ c ∈ s, IsAscii c → c.toLower = c) (h : I.toAscii s = some t) :
    ∀ c ∈ t, IsLowAscii c := by
  unfold toAscii at h
  split_ifs at h with hascii
  · rw [sizeOk_some h]
    exact fun c hc => ⟨hascii c hc, hs c hc (hascii c hc)⟩
  · obtain ⟨p, hp, h⟩ := Option.bind_eq_some_iff.mp h
    have hlow := hI.nameprep s p hp
    split_ifs at h with hascii
    · rw [sizeOk_some h]
      exact fun c hc => ⟨hascii c hc, hlow c hc (hascii c hc)⟩
    · rw [sizeOk_some h]
      intro c hc
      rcases mem_append.mp hc with hc | hc
      · exact (show ∀ c ∈ "xn--".toList, IsLowAscii c by decide) c hc
      · exact hI.punycode p hlow c hc

/-- **What the codec answers for a name in lower case** is ASCII, and in lower case. -/
theorem isLowAscii_encode (hI : I.Documented) {s e : Str}
    (hs : ∀ c ∈ s, IsAscii c → c.toLower = c) (h : I.encode s = some e) :
    ∀ c ∈ e, IsLowAscii c := by
  unfold encode at h
  split_ifs at h with hnil hascii
  · cases h
    exact fun c hc => absurd hc not_mem_nil
  · cases h
    exact fun c hc => ⟨hascii c hc, hs c hc (hascii c hc)⟩
  · obtain ⟨encoded, hencoded, h⟩ := Option.bind_eq_some_iff.mp h
    cases h
    have hdot : IsLowAscii '.' := by decide
    intro c hc
    rcases mem_append.mp hc with hc | hc
    · rcases mem_intercalate hc with rfl | ⟨t, ht, hct⟩
      · exact hdot
      obtain ⟨label, hlabel, hascii⟩ := exists_of_mem_mapM_some hencoded ht
      refine isLowAscii_toAscii hI (fun d hd => hs d ?_) hascii c hct
      refine mem_of_mem_splitOnP (p := isDot) ?_ hd
      split_ifs at hlabel
      · exact dropLast_subset _ hlabel
      · exact hlabel
    · split_ifs at hc
      · rwa [mem_singleton.mp hc]
      · cases hc

end Idna

end Guardian.Python

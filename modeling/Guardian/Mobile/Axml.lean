import Guardian.Python.Base64

/-!
# Android binary XML

`parseAxml` walks the chunks of a document: each says how long it is, and the ones it knows say
where in the bytes their strings and attributes are.  `parseAxml_decodes_iff` says when the outcome
is a tree or an `AxmlError`.
-/

namespace Guardian.Mobile

open Python List

/-- What `parse_axml` raises: its own error, `struct.error` where `unpack_from` reads beyond the end
of the bytes, and `IndexError` where a subscript does. -/
inductive Raised
  | axmlError
  | structError
  | indexError
  deriving DecidableEq

/-! ### Reading numbers -/

/-- The number of two bytes, the least significant first. -/
def le16 (b : Bytes) (o : ℕ) : ℕ := (b.getD o 0).toNat + 256 * (b.getD (o + 1) 0).toNat

/-- The number of four bytes, the least significant first. -/
def le32 (b : Bytes) (o : ℕ) : ℕ := le16 b o + 65536 * le16 b (o + 2)

/-- `_u16` -/
def u16 (b : Bytes) (o : ℕ) : Except Raised ℕ :=
  if o + 2 ≤ b.length then .ok (le16 b o) else .error .structError

/-- `_u32` -/
def u32 (b : Bytes) (o : ℕ) : Except Raised ℕ :=
  if o + 4 ≤ b.length then .ok (le32 b o) else .error .structError

/-- `b[o]` -/
def u8 (b : Bytes) (o : ℕ) : Except Raised ℕ :=
  if o < b.length then .ok (b.getD o 0).toNat else .error .indexError

/-! ### The string pool -/

/-- `_MAX_STRINGS` -/
def maxStrings : ℕ := 200000

/-- `_MAX_NODES` -/
def maxNodes : ℕ := 500000

/-- `_len8`, with the offset after it. -/
def len8 (data : Bytes) (p : ℕ) : Except Raised (ℕ × ℕ) := do
  let x ← u8 data p
  if x &&& 0x80 ≠ 0 then do
    let y ← u8 data (p + 1)
    return ((x &&& 0x7F) <<< 8 ||| y, p + 2)
  else return (x, p + 1)

/-- `_len16`, with the offset after it. -/
def len16 (data : Bytes) (p : ℕ) : Except Raised (ℕ × ℕ) := do
  let x ← u16 data p
  if x &&& 0x8000 ≠ 0 then do
    let y ← u16 data (p + 2)
    return ((x &&& 0x7FFF) <<< 16 ||| y, p + 4)
  else return (x, p + 2)

/-- `_decode_pool_string` -/
def decodePoolString (data : Bytes) (p : ℕ) (isUtf8 : Bool) : Except Raised Str :=
  if isUtf8 then do
    let (_, p) ← len8 data p
    let (n, p) ← len8 data p
    return utf8Replace ((data.drop p).take n)
  else do
    let (n, p) ← len16 data p
    return utf16Replace ((data.drop p).take (n * 2))

/-- `except (struct.error, UnicodeDecodeError, IndexError): out.append("")` -/
def orEmpty (x : Except Raised Str) : Except Raised Str :=
  match x with
  | .error .axmlError => .error .axmlError
  | .error _ => .ok []
  | .ok s => .ok s

/-- One string of a pool. -/
def poolString (data : Bytes) (off size stringsStart : ℕ) (isUtf8 : Bool) (i : ℕ) :
    Except Raised Str := do
  let so ← u32 data (off + 28 + i * 4)
  let p := off + stringsStart + so
  if off + size ≤ p then return [] else orEmpty (decodePoolString data p isUtf8)

/-- `_read_string_pool` -/
def readStringPool (data : Bytes) (off : ℕ) : Except Raised (List Str) := do
  let _ ← u16 data off
  let size ← u32 data (off + 4)
  let stringCount ← u32 data (off + 8)
  let flags ← u32 data (off + 16)
  let stringsStart ← u32 data (off + 20)
  if maxStrings < stringCount then .error .axmlError
  else
    (List.range stringCount).mapM
      (poolString data off size stringsStart (decide (flags &&& 0x100 ≠ 0)))

/-- `_s` -/
def pooledString (pool : List Str) (idx : ℕ) : Str := pool.getD idx []

/-! ### Elements -/

/-- The value of an attribute. -/
inductive AttrValue
  | str (s : Str)
  | bool (b : Bool)
  | int (n : ℤ)

/-- `Element` -/
structure Element where
  tag : Str
  attrs : List (Str × AttrValue) := []
  children : List Element := []
  text : Str := []

/-- `_localname` -/
def localname (name : Str) : Str := if ':' ∈ name then (partition ':' name).2.2 else name

/-- `f"@ref/0x{adata:08x}"` -/
def reference (adata : ℕ) : Str :=
  "@ref/0x" ++ replicate (8 - (Nat.toDigits 16 adata).length) '0' ++
    Nat.toDigits 16 adata

/-- `_attr_value` -/
def attrValue (dataType adata rawValIdx : ℕ) (pool : List Str) : AttrValue :=
  if dataType = 0x03 then
    .str (if adata ≠ 0xFFFFFFFF then pooledString pool adata else pooledString pool rawValIdx)
  else if dataType = 0x12 then .bool (decide (adata ≠ 0))
  else if dataType = 0x10 ∨ dataType = 0x11 then
    .int (if adata < 0x80000000 then adata else (adata : ℤ) - 0x100000000)
  else if dataType = 0x01 then .str (reference adata)
  else if rawValIdx ≠ 0xFFFFFFFF then .str (pooledString pool rawValIdx)
  else .int adata

/-- `attrs[key] = value`: a key that is there keeps its place. -/
def setAttr (key : Str) (value : AttrValue) (attrs : List (Str × AttrValue)) :
    List (Str × AttrValue) :=
  if key ∈ attrs.map Prod.fst then attrs.map fun e => if e.1 = key then (key, value) else e
  else attrs ++ [(key, value)]

/-- The loop over the attributes of an element, of which `n` are left at `ap`. -/
def readAttrs (data : Bytes) (pool : List Str) : ℕ → ℕ → List (Str × AttrValue) →
    Except Raised (List (Str × AttrValue))
  | 0, _, attrs => .ok attrs
  | n + 1, ap, attrs => do
    let nsIdx ← u32 data ap
    let anameIdx ← u32 data (ap + 4)
    let rawValIdx ← u32 data (ap + 8)
    let dataType ← u8 data (ap + 15)
    let adata ← u32 data (ap + 16)
    let name := localname (pooledString pool anameIdx)
    let key := if name ≠ [] then name else "attr" ++ Nat.toDigits 10 nsIdx
    readAttrs data pool n (ap + 20) (setAttr key (attrValue dataType adata rawValIdx pool) attrs)

/-- `_read_start_element` -/
def readStartElement (data : Bytes) (off : ℕ) (pool : List Str) : Except Raised Element := do
  let base := off + 16
  let nameIdx ← u32 data (base + 4)
  let attrStart ← u16 data (base + 8)
  let attrCount ← u16 data (base + 12)
  let attrs ← readAttrs data pool attrCount (base + attrStart) []
  return { tag := localname (pooledString pool nameIdx), attrs }

/-! ### The walk over the chunks -/

/-- `_RES_STRING_POOL` -/
def resStringPool : ℕ := 0x0001

/-- `_RES_XML_TYPE` -/
def resXmlType : ℕ := 0x0003

/-- `_XML_START_ELEMENT` -/
def xmlStartElement : ℕ := 0x0102

/-- `_XML_END_ELEMENT` -/
def xmlEndElement : ℕ := 0x0103

/-- `_XML_CDATA` -/
def xmlCdata : ℕ := 0x0104

/-- **What the loop carries.**  The stack is `top` and then `below`; an element is among the
children of the one below it as soon as it is closed. -/
structure Walk where
  pool : List Str := []
  nodes : ℕ := 0
  top : Element := { tag := "#root" }
  below : List Element := []

namespace Walk

/-- `stack[-1].children.append(el); stack.append(el)` -/
def push (el : Element) (s : Walk) : Walk := { s with top := el, below := s.top :: s.below }

/-- `if len(stack) > 1: stack.pop()` -/
def pop (s : Walk) : Walk :=
  match s.below with
  | [] => s
  | parent :: below =>
    { s with top := { parent with children := parent.children ++ [s.top] }, below }

/-- `stack[-1].text += text` -/
def addText (text : Str) (s : Walk) : Walk :=
  { s with top := { s.top with text := s.top.text ++ text } }

/-- The tree, whatever is still open. -/
def root (s : Walk) : Element :=
  s.below.foldl (fun el parent => { parent with children := parent.children ++ [el] }) s.top

end Walk

/-- The body of the loop for the chunk of type `ctype` at `off`. -/
def chunkStep (data : Bytes) (total ctype off : ℕ) (s : Walk) : Except Raised Walk :=
  if ctype = resStringPool ∧ s.pool = [] then
    (fun pool => { s with pool }) <$> readStringPool data off
  else if ctype = xmlStartElement then
    if maxNodes < s.nodes + 1 then .error .axmlError
    else ({ s with nodes := s.nodes + 1 }.push ·) <$> readStartElement data off s.pool
  else if ctype = xmlEndElement then .ok s.pop
  else if ctype = xmlCdata ∧ s.below ≠ [] ∧ off + 20 ≤ total then
    (s.addText <| pooledString s.pool ·) <$> u32 data (off + 16)
  else .ok s

/-- The loop. -/
def walk (data : Bytes) (total : ℕ) (s : Walk) (off : ℕ) : Except Raised Walk :=
  if off + 8 ≤ total then do
    let ctype ← u16 data off
    let _ ← u16 data (off + 2)
    let csize ← u32 data (off + 4)
    if csize < 8 ∨ total < off + csize then return s
    else do
      let s ← chunkStep data total ctype off s
      walk data total s (off + csize)
  else return s
termination_by total - off

/-- **`parse_axml`** -/
def parseAxml (data : Bytes) : Except Raised Element :=
  if data.length < 8 then .error .axmlError
  else do
    let magic ← u16 data 0
    if magic ≠ resXmlType then .error .axmlError
    else do
      let total ← u32 data 4
      let total := if data.length < total then data.length else total
      let off ← u16 data 2
      let s ← walk data total {} off
      return s.root

/-! ### The chunks of a document -/

/-- A chunk, by where it is. -/
structure Chunk where
  off : ℕ
  ctype : ℕ
  deriving DecidableEq

/-- The chunks from `off`: each begins where the one before it ends, and the last one that is there
in full ends them. -/
def chunks (data : Bytes) (total off : ℕ) : List Chunk :=
  if off + 8 ≤ total then
    if le32 data (off + 4) < 8 ∨ total < off + le32 data (off + 4) then []
    else ⟨off, le16 data off⟩ :: chunks data total (off + le32 data (off + 4))
  else []
termination_by total - off

/-- The chunks of a document; none where the bytes do not start as one. -/
def documentChunks (data : Bytes) : List Chunk :=
  if data.length < 8 ∨ le16 data 0 ≠ resXmlType then []
  else chunks data (min (le32 data 4) data.length) (le16 data 2)

/-- The number of strings that a pool declares. -/
def stringCount (data : Bytes) (c : Chunk) : ℕ := le32 data (c.off + 8)

/-- The number of attributes that an element declares. -/
def attrCount (data : Bytes) (c : Chunk) : ℕ := le16 data (c.off + 28)

/-- Where the attributes of an element start. -/
def attrsAt (data : Bytes) (c : Chunk) : ℕ := c.off + 16 + le16 data (c.off + 24)

/-- The pool that strings are looked up in: the first one that is not empty. -/
def poolOf (data : Bytes) (cs : List Chunk) : Option Chunk :=
  cs.find? fun c => decide (c.ctype = resStringPool ∧ stringCount data c ≠ 0)

/-- How many elements chunks start. -/
def starts (cs : List Chunk) : ℕ := cs.countP fun c => decide (c.ctype = xmlStartElement)

/-- Chunks within the two bounds of the decoder. -/
def Accepted (data : Bytes) (cs : List Chunk) : Prop :=
  starts cs ≤ maxNodes ∧ ∀ c ∈ poolOf data cs, stringCount data c ≤ maxStrings

/-- **A chunk whose counts and offsets stay within the bytes**, as far as it is read after the
chunks `before`: the header and the table of offsets of the first pool that is not empty, the body
of an element and its attributes. -/
def Fits (data : Bytes) (before : List Chunk) (c : Chunk) : Prop :=
  (c.ctype = resStringPool → poolOf data before = none →
    c.off + 24 ≤ data.length ∧ (stringCount data c ≤ maxStrings → stringCount data c ≠ 0 →
      c.off + 28 + 4 * stringCount data c ≤ data.length)) ∧
  (c.ctype = xmlStartElement → starts before < maxNodes →
    c.off + 30 ≤ data.length ∧
      (attrCount data c ≠ 0 → attrsAt data c + 20 * attrCount data c ≤ data.length))

/-! ### Reads beyond the end -/

section Reads
variable {A B : Type} {b data : Bytes} {o : ℕ}

/-- The call raises something else than an `AxmlError`. -/
def Escapes (x : Except Raised A) : Prop := ∃ r, x = .error r ∧ r ≠ .axmlError

theorem u8_of_lt (h : o < b.length) : u8 b o = .ok (b.getD o 0).toNat := if_pos h

theorem u16_of_le (h : o + 2 ≤ b.length) : u16 b o = .ok (le16 b o) := if_pos h

theorem u32_of_le (h : o + 4 ≤ b.length) : u32 b o = .ok (le32 b o) := if_pos h

theorem escapes_u8_bind {f : ℕ → Except Raised A}
    (h : o < b.length → Escapes (f (b.getD o 0).toNat)) : Escapes (u8 b o >>= f) := by
  unfold u8
  split_ifs with ho
  · exact h ho
  · exact ⟨.indexError, rfl, by decide⟩

theorem escapes_u16_bind {f : ℕ → Except Raised A}
    (h : o + 2 ≤ b.length → Escapes (f (le16 b o))) : Escapes (u16 b o >>= f) := by
  unfold u16
  split_ifs with ho
  · exact h ho
  · exact ⟨.structError, rfl, by decide⟩

theorem escapes_u32_bind {f : ℕ → Except Raised A}
    (h : o + 4 ≤ b.length → Escapes (f (le32 b o))) : Escapes (u32 b o >>= f) := by
  unfold u32
  split_ifs with ho
  · exact h ho
  · exact ⟨.structError, rfl, by decide⟩

theorem Escapes.bind {x : Except Raised A} (h : Escapes x) (f : A → Except Raised B) :
    Escapes (x >>= f) := by
  obtain ⟨r, rfl, hr⟩ := h
  exact ⟨r, rfl, hr⟩

theorem Escapes.map {x : Except Raised A} (h : Escapes x) (f : A → B) : Escapes (f <$> x) := by
  obtain ⟨r, rfl, hr⟩ := h
  exact ⟨r, rfl, hr⟩

theorem not_escapes_ok (a : A) : ¬ Escapes (.ok a) := by
  rintro ⟨r, h, -⟩
  cases h

theorem escapes_mapM {f : A → Except Raised B} {as : List A}
    (hf : ∀ a ∈ as, Returns (f a) ∨ Escapes (f a)) (h : ∃ a ∈ as, Escapes (f a)) :
    Escapes (as.mapM f) := by
  induction as with
  | nil => obtain ⟨a, ha, -⟩ := h; exact absurd ha not_mem_nil
  | cons a as ih =>
    rw [mapM_cons]
    rcases hf a mem_cons_self with ⟨b, hb⟩ | ha
    · obtain ⟨a', ha', hescape⟩ := h
      rcases mem_cons.mp ha' with rfl | ha'
      · rw [hb] at hescape
        exact absurd hescape (not_escapes_ok b)
      · rw [hb]
        exact (ih (fun a ha => hf a (mem_cons_of_mem _ ha)) ⟨a', ha', hescape⟩).bind _
    · exact ha.bind _

end Reads

/-! ### A pool -/

section Pool
variable {data : Bytes} {off : ℕ}

theorem ne_axmlError_bind {A B : Type} {x : Except Raised A} {f : A → Except Raised B}
    (hx : x ≠ .error .axmlError) (hf : ∀ a, f a ≠ .error .axmlError) :
    x >>= f ≠ .error .axmlError := by
  rcases x with r | a
  · exact fun h => hx (by cases h; rfl)
  · exact hf a

theorem u8_ne_axmlError (b : Bytes) (o : ℕ) : u8 b o ≠ .error .axmlError := by
  unfold u8
  split_ifs <;> simp

theorem u16_ne_axmlError (b : Bytes) (o : ℕ) : u16 b o ≠ .error .axmlError := by
  unfold u16
  split_ifs <;> simp

theorem len8_ne_axmlError (p : ℕ) : len8 data p ≠ .error .axmlError := by
  refine ne_axmlError_bind (u8_ne_axmlError _ _) fun x => ?_
  split_ifs
  · exact ne_axmlError_bind (u8_ne_axmlError _ _) fun y => by simp [pure, Except.pure]
  · simp [pure, Except.pure]

theorem len16_ne_axmlError (p : ℕ) : len16 data p ≠ .error .axmlError := by
  refine ne_axmlError_bind (u16_ne_axmlError _ _) fun x => ?_
  split_ifs
  · exact ne_axmlError_bind (u16_ne_axmlError _ _) fun y => by simp [pure, Except.pure]
  · simp [pure, Except.pure]

theorem decodePoolString_ne_axmlError (p : ℕ) (isUtf8 : Bool) :
    decodePoolString data p isUtf8 ≠ .error .axmlError := by
  unfold decodePoolString
  split_ifs
  · exact ne_axmlError_bind (len8_ne_axmlError _) fun x =>
      ne_axmlError_bind (len8_ne_axmlError _) fun y => by simp [pure, Except.pure]
  · exact ne_axmlError_bind (len16_ne_axmlError _) fun x => by simp [pure, Except.pure]

theorem returns_orEmpty {x : Except Raised Str} (h : x ≠ .error .axmlError) :
    Returns (orEmpty x) := by
  rcases x with r | s
  · cases r
    · exact absurd rfl h
    · exact returns_ok _
    · exact returns_ok _
  · exact returns_ok _

theorem returns_poolString {size stringsStart i : ℕ} {isUtf8 : Bool}
    (h : off + 28 + i * 4 + 4 ≤ data.length) :
    Returns (poolString data off size stringsStart isUtf8 i) := by
  unfold poolString
  rw [u32_of_le h]
  show Returns (if _ then _ else _)
  split_ifs
  · exact returns_ok _
  · exact returns_orEmpty (decodePoolString_ne_axmlError _ _)

theorem escapes_poolString {size stringsStart i : ℕ} {isUtf8 : Bool}
    (h : data.length < off + 28 + i * 4 + 4) :
    Escapes (poolString data off size stringsStart isUtf8 i) :=
  escapes_u32_bind fun h' => absurd h' (by omega)

theorem readStringPool_eq (h : off + 24 ≤ data.length) :
    readStringPool data off = if maxStrings < le32 data (off + 8) then .error .axmlError
      else (List.range (le32 data (off + 8))).mapM (poolString data off (le32 data (off + 4))
        (le32 data (off + 20)) (decide (le32 data (off + 16) &&& 0x100 ≠ 0))) := by
  unfold readStringPool
  rw [u16_of_le (by omega), u32_of_le (by omega), u32_of_le (by omega), u32_of_le (by omega),
    u32_of_le (by omega)]
  rfl

theorem readStringPool_refused (h : off + 24 ≤ data.length)
    (hcount : maxStrings < le32 data (off + 8)) :
    readStringPool data off = .error .axmlError := by
  rw [readStringPool_eq h, if_pos hcount]

/-- **A pool whose table of offsets is there** is read, whatever the offsets and the strings are. -/
theorem readStringPool_ok (h : off + 24 ≤ data.length) (hcount : le32 data (off + 8) ≤ maxStrings)
    (hfit : le32 data (off + 8) ≠ 0 → off + 28 + 4 * le32 data (off + 8) ≤ data.length) :
    ∃ pool, readStringPool data off = .ok pool ∧ pool.length = le32 data (off + 8) := by
  rw [readStringPool_eq h, if_neg (by omega)]
  have hstrings : Returns ((List.range (le32 data (off + 8))).mapM
      (poolString data off (le32 data (off + 4)) (le32 data (off + 20))
        (decide (le32 data (off + 16) &&& 0x100 ≠ 0)))) :=
    returns_mapM_iff.mpr fun i hi => returns_poolString (by
      have hi : i < le32 data (off + 8) := mem_range.mp hi
      have := hfit (by omega)
      omega)
  obtain ⟨pool, hpool⟩ := hstrings
  exact ⟨pool, hpool, by rw [length_of_mapM hpool, length_range]⟩

theorem readStringPool_escapes (h : off + 24 ≤ data.length →
    le32 data (off + 8) ≤ maxStrings ∧ le32 data (off + 8) ≠ 0 ∧
      data.length < off + 28 + 4 * le32 data (off + 8)) :
    Escapes (readStringPool data off) := by
  by_cases h24 : off + 24 ≤ data.length
  · obtain ⟨hcount, hne, hlen⟩ := h h24
    rw [readStringPool_eq h24, if_neg (by omega)]
    refine escapes_mapM (fun i _ => ?_) ⟨le32 data (off + 8) - 1, ?_, escapes_poolString ?_⟩
    · by_cases hi : off + 28 + i * 4 + 4 ≤ data.length
      · exact Or.inl (returns_poolString hi)
      · exact Or.inr (escapes_poolString (by omega))
    · exact mem_range.mpr (by omega)
    · omega
  · exact escapes_u16_bind fun _ => escapes_u32_bind fun _ => escapes_u32_bind fun _ =>
      escapes_u32_bind fun _ => escapes_u32_bind fun h' => absurd h' (by omega)

end Pool

/-! ### An element -/

section Element
variable {data : Bytes} {pool : List Str}

theorem returns_readAttrs {n : ℕ} : ∀ {ap : ℕ} {attrs : List (Str × AttrValue)},
    (n ≠ 0 → ap + 20 * n ≤ data.length) → Returns (readAttrs data pool n ap attrs) := by
  induction n with
  | zero => exact fun _ => returns_ok _
  | succ n ih =>
    intro ap attrs h
    have hlen := h (Nat.succ_ne_zero n)
    rw [readAttrs, u32_of_le (by omega), u32_of_le (by omega), u32_of_le (by omega),
      u8_of_lt (by omega), u32_of_le (by omega)]
    exact ih fun _ => by omega

theorem escapes_readAttrs {n : ℕ} : ∀ {ap : ℕ} {attrs : List (Str × AttrValue)}, n ≠ 0 →
    data.length < ap + 20 * n → Escapes (readAttrs data pool n ap attrs) := by
  induction n with
  | zero => exact fun h => absurd rfl h
  | succ n ih =>
    intro ap attrs _ hlen
    rw [readAttrs]
    refine escapes_u32_bind fun _ => escapes_u32_bind fun _ => escapes_u32_bind fun _ =>
      escapes_u8_bind fun _ => escapes_u32_bind fun h20 => ?_
    -- this attribute is there, so one of the others is not
    exact ih (by omega) (by omega)

theorem returns_readStartElement {c : Chunk} (h : c.off + 30 ≤ data.length)
    (hattrs : attrCount data c ≠ 0 → attrsAt data c + 20 * attrCount data c ≤ data.length) :
    Returns (readStartElement data c.off pool) := by
  unfold readStartElement
  dsimp only
  rw [u32_of_le (by omega), u16_of_le (by omega), u16_of_le (by omega)]
  exact returns_bind_pure_iff.mpr (returns_readAttrs hattrs)

theorem escapes_readStartElement {c : Chunk} (h : c.off + 30 ≤ data.length →
    attrCount data c ≠ 0 ∧ data.length < attrsAt data c + 20 * attrCount data c) :
    Escapes (readStartElement data c.off pool) := by
  refine escapes_u32_bind fun _ => escapes_u16_bind fun _ => escapes_u16_bind fun h30 => ?_
  obtain ⟨hne, hlen⟩ := h (by omega)
  exact (escapes_readAttrs hne hlen).bind _

end Element

/-! ### The run -/

section Run
variable {data : Bytes} {total : ℕ}

/-- **The loop takes the chunks one by one.** -/
theorem walk_eq (ht : total ≤ data.length) (off : ℕ) : ∀ s, walk data total s off =
    (chunks data total off).foldlM (fun s c => chunkStep data total c.ctype c.off s) s := by
  induction off using chunks.induct data total with
  | case1 off h8 hend =>
    intro s
    rw [walk, chunks, if_pos h8, if_pos h8, if_pos hend, u16_of_le (by omega),
      u16_of_le (by omega), u32_of_le (by omega)]
    show (if _ then _ else _) = _
    rw [if_pos hend]
    rfl
  | case2 off h8 hend ih =>
    intro s
    rw [walk, chunks, if_pos h8, if_pos h8, if_neg hend, u16_of_le (by omega),
      u16_of_le (by omega), u32_of_le (by omega), foldlM_cons]
    show (if _ then _ else _) = _
    rw [if_neg hend]
    rcases chunkStep data total (le16 data off) off s with r | s'
    · rfl
    · exact ih s'
  | case3 off h8 =>
    intro s
    rw [walk, chunks, if_neg h8, if_neg h8]
    rfl

/-- What the loop carries after the chunks `before`. -/
structure Inv (data : Bytes) (before : List Chunk) (s : Walk) : Prop where
  nodes : s.nodes = starts before
  pool : s.pool = [] ↔ poolOf data before = none

theorem poolOf_append (before : List Chunk) (c : Chunk) :
    poolOf data (before ++ [c]) = (poolOf data before).or
      (if c.ctype = resStringPool ∧ stringCount data c ≠ 0 then some c else none) := by
  unfold poolOf
  rw [find?_append, find?_singleton]
  simp only [decide_eq_true_eq]

theorem starts_append (before : List Chunk) (c : Chunk) :
    starts (before ++ [c]) = starts before + if c.ctype = xmlStartElement then 1 else 0 := by
  unfold starts
  rw [countP_append, countP_singleton]
  simp only [decide_eq_true_eq]

theorem Accepted.of_append {before after : List Chunk} (h : Accepted data (before ++ after)) :
    Accepted data before := by
  obtain ⟨hstarts, hpool⟩ := h
  constructor
  · unfold starts at hstarts ⊢
    rw [countP_append] at hstarts
    omega
  · intro c hc
    refine hpool c ?_
    unfold poolOf at hc ⊢
    rw [find?_append, Option.mem_def.mp hc]
    rfl

theorem poolOf_append_of_ne {before : List Chunk} {c : Chunk}
    (h : c.ctype = resStringPool → poolOf data before ≠ none) :
    poolOf data (before ++ [c]) = poolOf data before := by
  rw [poolOf_append]
  by_cases hc : c.ctype = resStringPool
  · obtain ⟨p, hp⟩ := Option.ne_none_iff_exists'.mp (h hc)
    rw [hp]
    rfl
  · rw [if_neg fun h => hc h.1, Option.or_none]

/-- **The three outcomes of a round**: the chunk fits, is within the bounds and is taken; it is
refused with an `AxmlError`; or it does not fit, and something else escapes. -/
def Handled (data : Bytes) (before : List Chunk) (c : Chunk) (x : Except Raised Walk) : Prop :=
  (∃ s, x = .ok s ∧ Inv data (before ++ [c]) s ∧ Accepted data (before ++ [c]) ∧
    Fits data before c) ∨
  (x = .error .axmlError ∧ ¬ Accepted data (before ++ [c]) ∧ Fits data before c) ∨
  Escapes x ∧ ¬ Fits data before c

section Round
variable {before : List Chunk} {c : Chunk} {s : Walk}

theorem handled_pool (hinv : Inv data before s) (hacc : Accepted data before)
    (hc : c.ctype = resStringPool) (hpool : s.pool = []) :
    Handled data before c ((fun pool => { s with pool }) <$> readStringPool data c.off) := by
  have hnone : poolOf data before = none := hinv.pool.mp hpool
  have hstart : c.ctype ≠ xmlStartElement := hc ▸ by decide
  have hstarts : starts (before ++ [c]) = starts before := by
    rw [starts_append, if_neg hstart, Nat.add_zero]
  by_cases h24 : c.off + 24 ≤ data.length
  swap
  · exact Or.inr (Or.inr ⟨(readStringPool_escapes fun h => absurd h h24).map _,
      fun hfit => h24 (hfit.1 hc hnone).1⟩)
  rcases Nat.lt_or_ge maxStrings (stringCount data c) with hcount | hcount
  · refine Or.inr (Or.inl ⟨by rw [readStringPool_refused h24 hcount]; rfl, fun hacc' => ?_,
      fun _ _ => ⟨h24, fun h => absurd hcount (by omega)⟩, fun h => absurd h hstart⟩)
    have hzero : stringCount data c ≠ 0 := by omega
    have := hacc'.2 c (by rw [poolOf_append, hnone, if_pos ⟨hc, hzero⟩]; rfl)
    omega
  by_cases hfit : stringCount data c ≠ 0 → c.off + 28 + 4 * stringCount data c ≤ data.length
  swap
  · rw [Classical.not_imp] at hfit
    exact Or.inr (Or.inr ⟨(readStringPool_escapes fun _ =>
      ⟨hcount, hfit.1, Nat.lt_of_not_le hfit.2⟩).map _,
        fun h => hfit.2 ((h.1 hc hnone).2 hcount hfit.1)⟩)
  obtain ⟨pool, hread, hlen⟩ := readStringPool_ok h24 hcount hfit
  have hempty : pool = [] ↔ stringCount data c = 0 := by
    rw [← length_eq_zero_iff, hlen]
    rfl
  refine Or.inl ⟨{ s with pool }, by rw [hread]; rfl, ⟨?_, ?_⟩, ⟨?_, ?_⟩, ?_⟩
  · rw [hstarts]
    exact hinv.nodes
  · rw [hempty, poolOf_append, hnone, Option.none_or]
    by_cases hzero : stringCount data c = 0
    · simp [hzero]
    · simp [hzero, hc]
  · rw [hstarts]
    exact hacc.1
  · intro p hp
    rw [poolOf_append, hnone, Option.none_or] at hp
    split_ifs at hp
    · cases hp
      exact hcount
    · cases hp
  · exact ⟨fun _ _ => ⟨h24, fun _ => hfit⟩, fun h => absurd h hstart⟩

theorem handled_start (hinv : Inv data before s) (hacc : Accepted data before)
    (hc : c.ctype = xmlStartElement) :
    Handled data before c (if maxNodes < s.nodes + 1 then .error .axmlError
      else ({ s with nodes := s.nodes + 1 }.push ·) <$> readStartElement data c.off s.pool) := by
  have hnot : c.ctype ≠ resStringPool := hc ▸ by decide
  have hpools : poolOf data (before ++ [c]) = poolOf data before :=
    poolOf_append_of_ne fun h => absurd h hnot
  have hstarts : starts (before ++ [c]) = starts before + 1 := by rw [starts_append, if_pos hc]
  have hnodes := hinv.nodes
  by_cases hmax : maxNodes < s.nodes + 1
  · rw [if_pos hmax]
    refine Or.inr (Or.inl ⟨rfl, fun hacc' => ?_, fun h => absurd h hnot, fun _ h => ?_⟩)
    · have := hacc'.1
      omega
    · omega
  rw [if_neg hmax]
  by_cases hfit : c.off + 30 ≤ data.length ∧
      (attrCount data c ≠ 0 → attrsAt data c + 20 * attrCount data c ≤ data.length)
  swap
  · refine Or.inr (Or.inr ⟨(escapes_readStartElement fun h30 => ?_).map _,
      fun h => hfit (h.2 hc (by omega))⟩)
    by_contra hattrs
    exact hfit ⟨h30, fun h0 => by_contra fun hlen => hattrs ⟨h0, Nat.lt_of_not_le hlen⟩⟩
  have hreturns : Returns (readStartElement data c.off s.pool) :=
    returns_readStartElement hfit.1 hfit.2
  obtain ⟨el, hel⟩ := hreturns
  refine Or.inl ⟨_, by rw [hel]; rfl, ⟨?_, ?_⟩, ⟨?_, ?_⟩, fun h => absurd h hnot,
    fun _ _ => hfit⟩
  · rw [hstarts, ← hnodes]
    rfl
  · rw [hpools]
    exact hinv.pool
  · omega
  · rw [hpools]
    exact hacc.2

theorem handled_other (hinv : Inv data before s) (hacc : Accepted data before)
    (hpool : c.ctype = resStringPool → s.pool ≠ []) (hc : c.ctype ≠ xmlStartElement) {s' : Walk}
    (hp : s'.pool = s.pool) (hn : s'.nodes = s.nodes) : Handled data before c (.ok s') := by
  have hskip : c.ctype = resStringPool → poolOf data before ≠ none := fun h hnone =>
    hpool h (hinv.pool.mpr hnone)
  have hpools := poolOf_append_of_ne hskip
  have hstarts : starts (before ++ [c]) = starts before := by
    rw [starts_append, if_neg hc, Nat.add_zero]
  refine Or.inl ⟨s', rfl, ⟨by rw [hn, hinv.nodes, hstarts], by rw [hp, hinv.pool, hpools]⟩, ?_,
    fun h hnone => absurd hnone (hskip h), fun h => absurd h hc⟩
  unfold Accepted
  rw [hstarts, hpools]
  exact hacc

/-- **A round of the loop.** -/
theorem handled_chunkStep (ht : total ≤ data.length) (hinv : Inv data before s)
    (hacc : Accepted data before) :
    Handled data before c (chunkStep data total c.ctype c.off s) := by
  unfold chunkStep
  by_cases hpool : c.ctype = resStringPool ∧ s.pool = []
  · rw [if_pos hpool]
    exact handled_pool hinv hacc hpool.1 hpool.2
  rw [if_neg hpool]
  have hskip : c.ctype = resStringPool → s.pool ≠ [] := fun h hnil => hpool ⟨h, hnil⟩
  by_cases hstart : c.ctype = xmlStartElement
  · rw [if_pos hstart]
    exact handled_start hinv hacc hstart
  rw [if_neg hstart]
  split_ifs with hend hcdata
  · refine handled_other hinv hacc hskip hstart ?_ ?_
    · unfold Walk.pop
      split <;> rfl
    · unfold Walk.pop
      split <;> rfl
  · rw [u32_of_le (by omega)]
    exact handled_other hinv hacc hskip hstart rfl rfl
  · exact handled_other hinv hacc hskip hstart rfl rfl

end Round

/-- **A run over chunks** lets something else than an `AxmlError` escape just when a chunk does not
fit and none before it is refused. -/
theorem escapes_foldlM_iff (ht : total ≤ data.length) : ∀ {cs before : List Chunk} {s : Walk},
    Inv data before s → Accepted data before →
    (Escapes (cs.foldlM (fun s c => chunkStep data total c.ctype c.off s) s) ↔
      ∃ taken c rest, cs = taken ++ c :: rest ∧ Accepted data (before ++ taken) ∧
        ¬ Fits data (before ++ taken) c)
  | [], before, s, _, _ => by
    refine iff_of_false (not_escapes_ok s) ?_
    rintro ⟨taken, c, rest, h, -⟩
    exact absurd h (by simp)
  | c :: cs, before, s, hinv, hacc => by
    rw [foldlM_cons]
    have hround : Handled data before c _ := handled_chunkStep ht hinv hacc
    obtain ⟨s', hs', hinv', hacc', hfit⟩ | ⟨herr, hacc', hfit⟩ | ⟨hescape, hfit⟩ := hround
    · rw [hs']
      refine (escapes_foldlM_iff ht hinv' hacc').trans ?_
      constructor
      · rintro ⟨taken, d, rest, rfl, h⟩
        exact ⟨c :: taken, d, rest, rfl, by simpa using h⟩
      · rintro ⟨taken, d, rest, hsplit, h1, h2⟩
        cases taken with
        | nil =>
          cases hsplit
          rw [append_nil] at h2
          exact absurd hfit h2
        | cons e taken =>
          cases hsplit
          exact ⟨taken, d, rest, rfl, by simpa using h1, by simpa using h2⟩
    · rw [herr]
      refine iff_of_false ?_ ?_
      · rintro ⟨r, h, hr⟩
        cases h
        exact hr rfl
      · rintro ⟨taken, d, rest, hsplit, h1, h2⟩
        cases taken with
        | nil =>
          cases hsplit
          rw [append_nil] at h2
          exact h2 hfit
        | cons e taken =>
          cases hsplit
          have h1' : Accepted data (before ++ [c] ++ taken) := by simpa using h1
          exact hacc' h1'.of_append
    · refine iff_of_true (hescape.bind _) ⟨[], c, cs, rfl, ?_, ?_⟩
      · rwa [append_nil]
      · rwa [append_nil]

/-- **The chunks of a document that are read fit**: each that no refused chunk precedes. -/
def Readable (data : Bytes) : Prop :=
  ∀ before c after, documentChunks data = before ++ c :: after → Accepted data before →
    Fits data before c

theorem not_escapes_axmlError {A : Type} : ¬ Escapes (.error .axmlError : Except Raised A) := by
  rintro ⟨r, h, hr⟩
  cases h
  exact hr rfl

theorem escapes_bind_pure_iff {A B : Type} {x : Except Raised A} {f : A → B} :
    (Escapes do let a ← x; pure (f a)) ↔ Escapes x := by
  refine ⟨fun h => ?_, fun h => h.bind _⟩
  rcases x with r | a
  · obtain ⟨r', h, hr⟩ := h
    cases h
    exact ⟨_, rfl, hr⟩
  · exact absurd h (not_escapes_ok (f a))

theorem escapes_parseAxml_iff : Escapes (parseAxml data) ↔ ¬ Readable data := by
  unfold parseAxml Readable documentChunks
  by_cases h8 : data.length < 8
  · rw [if_pos h8, if_pos (Or.inl h8)]
    exact iff_of_false not_escapes_axmlError
      (not_not.mpr fun before c after h => absurd h (by simp))
  rw [if_neg h8, u16_of_le (by omega)]
  show Escapes (if _ then _ else _) ↔ _
  by_cases hmagic : le16 data 0 = resXmlType
  swap
  · rw [if_pos hmagic, if_pos (Or.inr hmagic)]
    exact iff_of_false not_escapes_axmlError
      (not_not.mpr fun before c after h => absurd h (by simp))
  rw [if_neg (not_not.mpr hmagic), if_neg (by simp [h8, hmagic]), u32_of_le (by omega),
    u16_of_le (by omega)]
  have hmin : (if data.length < le32 data 4 then data.length else le32 data 4) =
      min (le32 data 4) data.length := by
    split_ifs <;> omega
  have hinv : Inv data [] {} := ⟨rfl, iff_of_true rfl rfl⟩
  have hacc : Accepted data [] := ⟨Nat.zero_le _, fun c hc => absurd hc (by simp [poolOf])⟩
  show Escapes (walk data (if _ then _ else _) {} (le16 data 2) >>= _) ↔ _
  rw [hmin, escapes_bind_pure_iff, walk_eq (Nat.min_le_right _ _),
    escapes_foldlM_iff (Nat.min_le_right _ _) hinv hacc]
  simp only [nil_append, not_forall, exists_prop]

/-- **When `parse_axml` returns a tree or raises an `AxmlError`**: just when each chunk that is read
before the first refused one fits into the bytes.  It always ends. -/
theorem parseAxml_decodes_iff (data : Bytes) :
    ((∃ root, parseAxml data = .ok root) ∨ parseAxml data = .error .axmlError) ↔
      Readable data := by
  rw [← not_iff_not, ← escapes_parseAxml_iff]
  rcases parseAxml data with r | root
  · constructor
    · exact fun h => ⟨r, rfl, fun hr => h (Or.inr (by rw [hr]))⟩
    · rintro ⟨r', h, hr⟩ (⟨root, h'⟩ | h')
      · cases h'
      · cases h
        cases h'
        exact hr rfl
  · exact iff_of_false (fun h => h (Or.inl ⟨root, rfl⟩)) (not_escapes_ok root)

/-- A document that ends with a string pool of which only the chunk header is there. -/
theorem truncated_pool_escapes :
    parseAxml [3, 0, 8, 0, 16, 0, 0, 0, 1, 0, 8, 0, 8, 0, 0, 0] = .error .structError := by
  show (walk _ 16 {} 8 >>= _) = _
  rw [walk]
  rfl

end Run

end Guardian.Mobile

import Guardian.Discovery.Ingestor
import Guardian.Python.Idna
import Guardian.Python.IpCase

/-!
# Canonical keys

`canonical_key` turns what was observed into the key of a node, one rule for each type of node.  It
is meant to be settled by one application.  The rule of hosts takes off what stands around a name
one after the other and once only, and what comes to light below is left to the next application.
`canonicalKey_once_iff` says when one application is enough.
-/

namespace Guardian.Discovery

open Python List

variable (R : Runtime) (I : Idna)

/-! ### The rules -/

/-- `_canon_host` -/
def canonHost (host : Str) : Str :=
  let h := lower R (rstripChar '.' (strip R host))
  let h := if "*." <+: h then h.drop 2 else h
  if h = [] then h else (I.encode h).getD h

/-- `_canon_ip` -/
def canonIp (raw : Str) : Str := (ipAddressText (strip R raw)).getD (lower R (strip R raw))

/-- `_canon_netblock` -/
def canonNetblock (raw : Str) : Str :=
  (ipNetworkText R (strip R raw)).getD (lower R (strip R raw))

/-- A bracket around an IPv6 address. -/
def isBracket (c : Char) : Bool := c == '[' || c == ']'

/-- `host.strip("[]")` -/
def stripBrackets (host : Str) : Str := (host.dropWhile isBracket).rdropWhile isBracket

/-- The host of a service: an address in its normal spelling, or a name. -/
def canonServiceHost (host : Str) : Str := (ipAddressText host).getD (canonHost R I host)

/-- `_canon_service` -/
def canonService (raw : Str) : Except Fault Str := do
  let s := strip R raw
  let (host, sep, port) := rpartition ':' s
  if !sep || !strIsdigit R port then return canonHost R I s
  else
    let n ← int R port
    let text ← strInt R n
    return canonServiceHost R I (stripBrackets host) ++ ':' :: text

/-- `NodeType.value` -/
def NodeType.value : NodeType → Str
  | .domain => "domain"
  | .subdomain => "subdomain"
  | .ipAddress => "ip_address"
  | .netblock => "netblock"
  | .service => "service"
  | .cloudResource => "cloud_resource"
  | .asset => "asset"
  | .finding => "finding"

/-- The type of a node as a text, which it may be given as. -/
def typeName : NodeType ⊕ Str → Str
  | .inl nodeType => nodeType.value
  | .inr text => text

/-- **`canonical_key`** -/
def canonicalKey (nodeType : NodeType ⊕ Str) (raw : Str) : Except Fault Str :=
  let nt := typeName nodeType
  if nt = NodeType.domain.value ∨ nt = NodeType.subdomain.value then .ok (canonHost R I raw)
  else if nt = NodeType.ipAddress.value then .ok (canonIp R raw)
  else if nt = NodeType.netblock.value then .ok (canonNetblock R raw)
  else if nt = NodeType.service.value then canonService R I raw
  else if nt = NodeType.cloudResource.value then .ok (strip R raw)
  else .ok (lower R (strip R raw))

/-- The key that `canonical_key` returns is left as it is by the next application. -/
def Settles (nodeType : NodeType ⊕ Str) (raw : Str) : Prop :=
  ∃ key, canonicalKey R I nodeType raw = .ok key ∧ canonicalKey R I nodeType key = .ok key

/-! ### When one application is enough -/

/-- The name in a host: without blanks around it, full stops behind it and one wildcard before it, in
lower case. -/
def trimmed (host : Str) : Str :=
  let h := lower R (rstripChar '.' (strip R host))
  if "*." <+: h then h.drop 2 else h

/-- **Nothing stands around a name**: no blanks, no full stop behind it, no wildcard before it. -/
structure Bare (name : Str) : Prop where
  first : ∀ c ∈ name.head?, R.isSpace c = false
  last : ∀ c ∈ name.getLast?, R.isSpace c = false ∧ c ≠ '.'
  wildcard : ¬"*." <+: name

/-- The codec leaves a name as it is, or refuses it. -/
def Unencoded (name : Str) : Prop := ∀ e, I.encode name = some e → e = name

/-- **What holds of the name in a host**: of the name as it stands there, or of what the codec makes
of it, if it makes anything else. -/
structure OnName (P : Str → Prop) (host : Str) : Prop where
  plain : Unencoded I (trimmed R host) → P (trimmed R host)
  encoded : ∀ e, I.encode (trimmed R host) = some e → e ≠ trimmed R host → P e

/-- The host and the port of a service. -/
def portOf (s : Str) : Option (Str × Str) :=
  let (host, sep, port) := rpartition ':' s
  if sep && strIsdigit R port then some (host, port) else none

/-- A host of a service that stays as it is: no brackets around it, and either an address in its
normal spelling, or a bare name that is no address. -/
structure HostDone (host : Str) : Prop where
  brackets : stripBrackets host = host
  spelling : ipAddressText host = some host ∨
    ipAddressText host = none ∧ Bare R host ∧ Unencoded I host

/-- A port that stays as it is: a number as it is written. -/
def PortDone (port : Str) : Prop := ∃ n, int R port = .ok n ∧ port = Nat.toDigits 10 n

/-- A service that stays as it is. -/
def ServiceDone (s : Str) : Prop :=
  match portOf R s with
  | some (host, port) => HostDone R I host ∧ PortDone R port
  | none => Bare R s

/-- When one application is enough for a service.  With a port, the port is a number, and its host is
an address, or a name with nothing around it. -/
def ServiceOnce (raw : Str) : Prop :=
  match portOf R (strip R raw) with
  | some (host, port) => (∃ n, int R port = .ok n) ∧
      (ipAddressText (stripBrackets host) = none → OnName R I (HostDone R I) (stripBrackets host))
  | none => OnName R I (ServiceDone R I) (strip R raw)

/-- **When one application is enough**: always, but for the names of hosts and for services. -/
def KeyOnce (nodeType : NodeType ⊕ Str) (raw : Str) : Prop :=
  let nt := typeName nodeType
  if nt = NodeType.domain.value ∨ nt = NodeType.subdomain.value then OnName R I (Bare R) raw
  else if nt = NodeType.service.value then ServiceOnce R I raw
  else True

/-- **What the interpreter is documented to do**, beyond the laws of a `Runtime` and of lower case:
decimal digits have values below ten, digits are no blanks, and numbers of 640 digits are read. -/
structure RuntimeLaws (R : Runtime) : Prop extends LowerLaws R where
  digitValue : ∀ c, R.isDecimal c = true → R.digitValue c < 10
  digit : ∀ c, R.isDigit c = true → R.isSpace c = false
  limit : R.maxStrDigits = 0 ∨ minStrDigits ≤ R.maxStrDigits

variable {R I}

/-! ### Hosts -/

section Hosts
variable {host name w : Str}

theorem canonHost_eq : canonHost R I host = (I.encode (trimmed R host)).getD (trimmed R host) := by
  have hnil : I.encode [] = some [] := if_pos rfl
  change (if trimmed R host = [] then trimmed R host
    else (I.encode (trimmed R host)).getD (trimmed R host)) = _
  by_cases h : trimmed R host = []
  · rw [if_pos h, h, hnil, Option.getD_some]
  · rw [if_neg h]

theorem unwild_sublist (h : Str) : (if "*." <+: h then h.drop 2 else h).Sublist h := by
  split_ifs
  · exact drop_sublist 2 h
  · exact Sublist.refl h

theorem fixed_trimmed : ∀ c ∈ trimmed R host, Fixed R c := fun _ hc =>
  fixed_of_mem_lower ((unwild_sublist _).subset hc)

theorem toLower_of_fixed {c : Char} (hc : Fixed R c) (hascii : IsAscii c) : c.toLower = c := by
  have hlow := R.toLower_ascii c hascii
  rw [hc.1, List.cons.injEq] at hlow
  exact hlow.1.symm

theorem isLowAscii_encoded (hI : I.Documented) {e : Str} (h : I.encode (trimmed R host) = some e) :
    ∀ c ∈ e, IsLowAscii c :=
  Idna.isLowAscii_encode hI (fun c hc => toLower_of_fixed (fixed_trimmed c hc)) h

theorem fixed_canonHost (hI : I.Documented) : ∀ c ∈ canonHost R I host, Fixed R c := by
  rw [canonHost_eq]
  rcases h : I.encode (trimmed R host) with _ | e
  · exact fixed_trimmed
  · intro c hc
    obtain ⟨hascii, hlow⟩ := isLowAscii_encoded hI h c hc
    exact fixed_of_ascii hascii hlow

theorem unencoded_canonHost (hI : I.Documented) : Unencoded I (canonHost R I host) := by
  intro e he
  rw [canonHost_eq] at he ⊢
  rcases h : I.encode (trimmed R host) with _ | e'
  · rw [h, Option.getD_none, h] at he
    cases he
  · rw [h, Option.getD_some] at he
    exact Idna.encode_ascii (fun c hc => (isLowAscii_encoded hI h c hc).1) he

/-- **What holds of the name in a host** is what holds of its key. -/
theorem onName_iff {P : Str → Prop} : OnName R I P host ↔ P (canonHost R I host) := by
  rw [canonHost_eq]
  rcases h : I.encode (trimmed R host) with _ | e
  · have hun : Unencoded I (trimmed R host) := fun e he => by rw [h] at he; cases he
    exact ⟨fun hP => hP.plain hun, fun hP => ⟨fun _ => hP, fun e he => by rw [h] at he; cases he⟩⟩
  · constructor
    · intro hP
      by_cases he : e = trimmed R host
      · rw [Option.getD_some, he]
        refine hP.plain fun e' he' => ?_
        rw [h, Option.some.injEq] at he'
        rw [← he', he]
      · exact hP.encoded e h he
    · intro hP
      refine ⟨fun hun => ?_, fun e' he' _ => ?_⟩
      · rw [← hun e h]
        exact hP
      · rw [h, Option.some.injEq] at he'
        rwa [← he']

theorem trimmed_of_fixed (h : ∀ c ∈ name, Fixed R c) : trimmed R name =
    if "*." <+: rstripChar '.' (strip R name) then (rstripChar '.' (strip R name)).drop 2
    else rstripChar '.' (strip R name) := by
  have hlow : lower R (rstripChar '.' (strip R name)) = rstripChar '.' (strip R name) :=
    lower_eq_self fun c hc => h c (strip_subset name (rstripChar_subset _ _ hc))
  unfold trimmed
  rw [hlow]

theorem trimmed_sublist (h : ∀ c ∈ name, Fixed R c) : (trimmed R name).Sublist name := by
  rw [trimmed_of_fixed h]
  refine (unwild_sublist _).trans ((List.rdropWhile_prefix _ _).sublist.trans ?_)
  exact dropBoth_sublist

/-- **Nothing is taken off a name** exactly if it is bare. -/
theorem trimmed_eq_self (h : ∀ c ∈ name, Fixed R c) : trimmed R name = name ↔ Bare R name := by
  have hstrip : strip R name = name ↔ _ := dropBoth_eq_self
  have hdots : rstripChar '.' name = name ↔ _ := rdropWhile_eq_self
  constructor
  · intro heq
    have hunwild := unwild_sublist (rstripChar '.' (strip R name))
    rw [← trimmed_of_fixed h, heq] at hunwild
    have hsub : (rstripChar '.' (strip R name)).Sublist (strip R name) :=
      (List.rdropWhile_prefix _ _).sublist
    have hstrip' : strip R name = name :=
      dropBoth_sublist.antisymm (hunwild.trans hsub)
    rw [hstrip'] at hsub hunwild
    have hdots' : rstripChar '.' name = name := hsub.antisymm hunwild
    obtain ⟨hfirst, hlast⟩ := hstrip.mp hstrip'
    refine ⟨hfirst, fun c hc => ⟨hlast c hc, ?_⟩, ?_⟩
    · simpa using hdots.mp hdots' c hc
    · intro hwild
      have hdrop := trimmed_of_fixed h
      rw [hstrip', hdots', if_pos hwild, heq] at hdrop
      have hlength := congrArg List.length hdrop
      have htwo := hwild.length_le
      rw [length_drop] at hlength
      have hchars : "*.".toList.length = 2 := rfl
      omega
  · intro hbare
    have hstrip' := hstrip.mpr ⟨hbare.first, fun c hc => (hbare.last c hc).1⟩
    have hdots' := hdots.mpr fun c hc => by simpa using (hbare.last c hc).2
    rw [trimmed_of_fixed h, hstrip', hdots', if_neg hbare.wildcard]

theorem eq_of_canonHost (hI : I.Documented) (hname : ∀ c ∈ name, Fixed R c) (hsub : name.Sublist w)
    (h : canonHost R I name = w) : name = w ∧ trimmed R name = name ∧ Unencoded I name := by
  have htrimmed := trimmed_sublist hname
  have hone : I.encode (trimmed R name) = none ∨ I.encode (trimmed R name) = some w := by
    rw [canonHost_eq] at h
    rcases he : I.encode (trimmed R name) with _ | e
    · exact Or.inl rfl
    · rw [he, Option.getD_some] at h
      exact Or.inr (congrArg some h)
  have hw : trimmed R name = w := by
    rcases hone with he | he
    · rwa [canonHost_eq, he, Option.getD_none] at h
    · -- the codec answers ASCII, so the name is ASCII, and it is left as it is
      refine (Idna.encode_ascii (fun c hc => ?_) he).symm
      exact (isLowAscii_encoded hI he c (hsub.subset (htrimmed.subset hc))).1
  have heq : name = w := hsub.antisymm (hw ▸ htrimmed)
  refine ⟨heq, by rw [hw, heq], fun e he => ?_⟩
  rw [heq, ← hw] at he
  rcases hone with h' | h'
  · rw [h'] at he
    cases he
  · rw [h', Option.some.injEq] at he
    rw [heq, he]

/-- **The hosts that are keys already**, among the texts without capital letters. -/
theorem canonHost_eq_self_iff (hI : I.Documented) (hname : ∀ c ∈ name, Fixed R c) :
    canonHost R I name = name ↔ Bare R name ∧ Unencoded I name := by
  constructor
  · intro h
    obtain ⟨-, htrimmed, hun⟩ := eq_of_canonHost hI hname (Sublist.refl name) h
    exact ⟨(trimmed_eq_self hname).mp htrimmed, hun⟩
  · rintro ⟨hbare, hun⟩
    rw [canonHost_eq, (trimmed_eq_self hname).mpr hbare]
    rcases he : I.encode name with _ | e
    · rfl
    · exact hun e he

theorem canonHost_canonHost_iff (hI : I.Documented) :
    canonHost R I (canonHost R I host) = canonHost R I host ↔ OnName R I (Bare R) host := by
  rw [onName_iff, canonHost_eq_self_iff hI (fixed_canonHost hI)]
  exact and_iff_left (unencoded_canonHost hI)

end Hosts

/-! ### Ports -/

section Ports
variable {host port s : Str} {n : ℕ}

theorem isDigit_toDigits : strIsdigit R (Nat.toDigits 10 n) = true := by
  unfold strIsdigit
  rw [Bool.and_eq_true, all_eq_true]
  refine ⟨by simp [Nat.toDigits_ne_nil], fun c hc => ?_⟩
  have hdigit := Nat.isDigit_of_mem_toDigits (by decide) (by decide) hc
  rwa [R.isDigit_ascii c (plain_of_digit (Or.inl hdigit)).1]

theorem colon_notMem (h : strIsdigit R port = true) : ':' ∉ port := by
  unfold strIsdigit at h
  rw [Bool.and_eq_true, all_eq_true] at h
  intro hc
  have hdigit := h.2 ':' hc
  rw [R.isDigit_ascii ':' (by decide)] at hdigit
  cases hdigit

theorem portOf_append (h : strIsdigit R port = true) :
    portOf R (host ++ ':' :: port) = some (host, port) := by
  unfold portOf
  rw [rpartition_append (colon_notMem h)]
  exact if_pos h

theorem portOf_some (h : portOf R s = some (host, port)) :
    s = host ++ ':' :: port ∧ strIsdigit R port = true := by
  unfold portOf at h
  by_cases hmem : ':' ∈ s
  · obtain ⟨u, v, rfl, -, hsplit⟩ := exists_rpartition hmem
    rw [hsplit] at h
    dsimp only at h
    split_ifs at h with hdigits
    cases h
    exact ⟨rfl, hdigits⟩
  · have hsep : (rpartition ':' s).2.1 = false := decide_eq_false hmem
    simp only [hsep, Bool.false_and, Bool.false_eq_true, if_false, reduceCtorEq] at h

/-- A number that is read is written, and read back from what is written. -/
theorem int_toDigits (hR : RuntimeLaws R) (h : int R port = .ok n) :
    strInt R n = .ok (Nat.toDigits 10 n) ∧ int R (Nat.toDigits 10 n) = .ok n := by
  unfold int at h
  split_ifs at h with hport
  obtain ⟨hne, hdecimal, hlimit⟩ := hport
  rw [all_eq_true] at hdecimal
  have hvalue : (port.map R.digitValue).foldl (fun m d => 10 * m + d) 0 = n := by
    rw [foldl_map]
    exact Except.ok.inj h
  have hlt : n < 10 ^ port.length := by
    have hds : ∀ d ∈ port.map R.digitValue, d < 10 := by
      intro d hd
      obtain ⟨c, hc, rfl⟩ := mem_map.mp hd
      exact hR.digitValue c (hdecimal c hc)
    have hbound := foldl_lt hds 0
    rwa [hvalue, length_map, zero_add, one_mul] at hbound
  have hlength : (Nat.toDigits 10 n).length ≤ port.length :=
    (Nat.length_toDigits_le_iff (by decide) (length_pos_iff.mpr hne)).mpr hlt
  have hlimit' := hlimit.imp_right hlength.trans
  refine ⟨if_pos hlimit', ?_⟩
  have hdigits : ∀ c ∈ Nat.toDigits 10 n, IsAscii c ∧ c.isDigit = true := fun c hc => by
    have hdigit := Nat.isDigit_of_mem_toDigits (by decide) (by decide) hc
    exact ⟨(plain_of_digit (Or.inl hdigit)).1, hdigit⟩
  have hall : (Nat.toDigits 10 n).all R.isDecimal = true := by
    rw [all_eq_true]
    intro c hc
    rw [R.isDecimal_ascii c (hdigits c hc).1, (hdigits c hc).2]
  unfold int
  rw [if_pos ⟨Nat.toDigits_ne_nil, hall, hlimit'⟩]
  refine congrArg _ (Eq.trans (foldl_ext _ _ _ fun m c hc => ?_) Nat.ofDigitChars_ten_toDigits)
  rw [R.digitValue_ascii c (hdigits c hc).1 (hdigits c hc).2]
  rfl

theorem strip_service (hR : RuntimeLaws R) (h : strIsdigit R port = true) :
    strip R (host ++ ':' :: port) = lstrip R host ++ ':' :: port := by
  have hleft : lstrip R (host ++ ':' :: port) = lstrip R host ++ ':' :: port := by
    have hcolon : R.isSpace ':' = false := by
      rw [R.isSpace_ascii ':' (by decide)]
      rfl
    unfold lstrip
    rw [dropWhile_append]
    split_ifs with hnil
    · rw [List.isEmpty_iff.mp hnil, dropWhile_cons_of_neg (by simp [hcolon]), nil_append]
    · rfl
  unfold strip
  rw [hleft]
  refine rdropWhile_eq_self.mpr fun c hc => ?_
  unfold strIsdigit at h
  rw [Bool.and_eq_true, all_eq_true] at h
  have hne : port ≠ [] := by simpa using h.1
  rw [getLast?_append_cons, getLast?_cons_of_ne_nil hne] at hc
  exact hR.digit c (h.2 c (mem_of_getLast? hc))

end Ports

/-! ### Services -/

section Services
variable {host port s q : Str}

theorem canonService_eq (raw : Str) : canonService R I raw = match portOf R (strip R raw) with
    | some (host, port) => do
      let n ← int R port
      let text ← strInt R n
      return canonServiceHost R I (stripBrackets host) ++ ':' :: text
    | none => .ok (canonHost R I (strip R raw)) := by
  unfold canonService portOf
  dsimp only
  generalize rpartition ':' (strip R raw) = parts
  obtain ⟨host, sep, port⟩ := parts
  dsimp only
  cases sep <;> cases strIsdigit R port <;> rfl

theorem isAscii_of_isIpChar {c : Char} (h : isIpChar c = true) : IsAscii c := by
  simp only [isIpChar, isHexText, Bool.or_eq_true, decide_eq_true_eq, beq_iff_eq] at h
  rcases h with ((h | h) | rfl) | rfl
  · exact (plain_of_digit (Or.inl h)).1
  · have hle : c.toNat ≤ 102 := h.2
    exact hle.trans_lt (by decide)
  · decide
  · decide

theorem isSpace_of_isIpChar {c : Char} (h : isIpChar c = true) : R.isSpace c = false := by
  rw [R.isSpace_ascii c (isAscii_of_isIpChar h)]
  exact forall_ascii (P := fun c => isIpChar c = true → asciiSpace c = false) (by decide)
    (isAscii_of_isIpChar h) h

theorem isBracket_of_isIpChar {c : Char} (h : isIpChar c = true) : isBracket c = false :=
  forall_ascii (P := fun c => isIpChar c = true → isBracket c = false) (by decide)
    (isAscii_of_isIpChar h) h

/-- **The ends of the text of an address**: a character of an address, or the end of the text that it
was read from. -/
theorem ends_of_ipAddressText {t : Str} (h : ipAddressText s = some t) :
    (∀ c ∈ t.head?, isIpChar c = true) ∧ ∀ c ∈ t.getLast?, isIpChar c = true ∨ c ∈ s.getLast? := by
  obtain ⟨-, body, z, rfl, hne, hbody, hz⟩ := ipAddressText_some h
  constructor
  · intro c hc
    rw [head?_append_of_ne_nil _ hne] at hc
    exact hbody c (mem_of_head? hc)
  · intro c hc
    rcases eq_or_ne z [] with rfl | hnez
    · rw [append_nil] at hc
      exact Or.inl (hbody c (mem_of_getLast? hc))
    · obtain ⟨front, rfl⟩ := hz
      rw [List.getLast?_append_of_ne_nil _ hnez] at hc ⊢
      exact Or.inr hc

theorem stripBrackets_address {t : Str} (h : ipAddressText (stripBrackets q) = some t) :
    stripBrackets t = t := by
  obtain ⟨hfirst, hlast⟩ := ends_of_ipAddressText h
  refine dropBoth_eq_self.mpr ⟨fun c hc => isBracket_of_isIpChar (hfirst c hc), fun c hc => ?_⟩
  rcases hlast c hc with hc | hc
  · exact isBracket_of_isIpChar hc
  · exact (dropBoth_eq_self.mp dropBoth_dropBoth).2 c hc

theorem lstrip_eq_self {host : Str} (h : ∀ c ∈ host.head?, R.isSpace c = false) :
    lstrip R host = host := dropWhile_eq_self.mpr h

theorem lstrip_address {t : Str} (h : ipAddressText s = some t) : lstrip R t = t :=
  lstrip_eq_self fun c hc => isSpace_of_isIpChar ((ends_of_ipAddressText h).1 c hc)

/-- **The host of a service stays as it is** exactly if nothing stands around it, and it is no address
in another spelling. -/
theorem canonServiceHost_eq_iff (hI : I.Documented) (hhost : ∀ c ∈ host, Fixed R c) :
    canonServiceHost R I (stripBrackets (lstrip R host)) = host ↔ HostDone R I host := by
  have hsub : (stripBrackets (lstrip R host)).Sublist host :=
    dropBoth_sublist.trans (dropWhile_sublist _)
  constructor
  · intro h
    unfold canonServiceHost at h
    rcases hip : ipAddressText (stripBrackets (lstrip R host)) with _ | t
    · rw [hip, Option.getD_none] at h
      obtain ⟨heq, htrimmed, hun⟩ := eq_of_canonHost hI (fun c hc => hhost c (hsub.subset hc)) hsub h
      rw [heq] at hip htrimmed hun
      have hlstrip : (stripBrackets (lstrip R host)).Sublist (lstrip R host) := dropBoth_sublist
      rw [heq] at hlstrip
      have hleft : lstrip R host = host := (dropWhile_sublist _).antisymm hlstrip
      rw [hleft] at heq
      exact ⟨heq, Or.inr ⟨hip, (trimmed_eq_self hhost).mp htrimmed, hun⟩⟩
    · rw [hip, Option.getD_some] at h
      subst h
      exact ⟨stripBrackets_address hip, Or.inl (ipAddressText_some hip).1⟩
  · rintro ⟨hbrackets, hip | ⟨hip, hbare, hun⟩⟩
    · rw [lstrip_address hip, hbrackets]
      unfold canonServiceHost
      rw [hip, Option.getD_some]
    · rw [lstrip_eq_self hbare.first, hbrackets]
      unfold canonServiceHost
      rw [hip, Option.getD_none]
      exact (canonHost_eq_self_iff hI hhost).mpr ⟨hbare, hun⟩

/-- **A service with a port stays as it is** exactly if its host and its port do. -/
theorem canonService_port_iff (hR : RuntimeLaws R) (hport : strIsdigit R port = true) :
    canonService R I (host ++ ':' :: port) = .ok (host ++ ':' :: port) ↔
      canonServiceHost R I (stripBrackets (lstrip R host)) = host ∧ PortDone R port := by
  rw [canonService_eq, strip_service hR hport, portOf_append hport]
  dsimp only
  constructor
  · intro h
    obtain ⟨n, hn, h⟩ := bind_eq_ok.mp h
    obtain ⟨hstr, -⟩ := int_toDigits hR hn
    rw [hstr] at h
    have heq := congrArg (rpartition ':') (Except.ok.inj h)
    rw [rpartition_append (colon_notMem (isDigit_toDigits (R := R))),
      rpartition_append (colon_notMem hport)] at heq
    simp only [Prod.mk.injEq, true_and] at heq
    exact ⟨heq.1, n, hn, heq.2.symm⟩
  · rintro ⟨hhost, n, hn, rfl⟩
    rw [hn]
    change (strInt R n >>= _) = _
    rw [(int_toDigits hR hn).1, hhost]
    rfl

/-- **The services that are keys already**, among the texts without capital letters that the codec
leaves as they are. -/
theorem canonService_eq_self_iff (hR : RuntimeLaws R) (hI : I.Documented)
    (hs : ∀ c ∈ s, Fixed R c) (hun : Unencoded I s) :
    canonService R I s = .ok s ↔ ServiceDone R I s := by
  unfold ServiceDone
  rcases hport : portOf R s with _ | ⟨host, port⟩
  · constructor
    · intro h
      rw [canonService_eq] at h
      rcases hstrip : portOf R (strip R s) with _ | ⟨host, port⟩
      · -- without a port, the service is a host
        rw [hstrip] at h
        have hhost : canonHost R I s = s := by
          have heq := Except.ok.inj h
          rw [canonHost_eq] at heq ⊢
          unfold trimmed at heq ⊢
          rwa [strip_strip] at heq
        exact ((canonHost_eq_self_iff hI hs).mp hhost).1
      · -- a port that stands before blanks is in the key
        rw [hstrip] at h
        obtain ⟨n, hn, h⟩ := bind_eq_ok.mp h
        rw [(int_toDigits hR hn).1] at h
        rw [← Except.ok.inj h, portOf_append isDigit_toDigits] at hport
        cases hport
    · intro hbare
      have hstrip : strip R s = s :=
        dropBoth_eq_self.mpr ⟨hbare.first, fun c hc => (hbare.last c hc).1⟩
      rw [canonService_eq, hstrip, hport]
      exact congrArg _ ((canonHost_eq_self_iff hI hs).mpr ⟨hbare, hun⟩)
  · obtain ⟨rfl, hdigits⟩ := portOf_some hport
    have hhost : ∀ c ∈ host, Fixed R c := fun c hc => hs c (mem_append_left _ hc)
    rw [canonService_port_iff hR hdigits, canonServiceHost_eq_iff hI hhost]

theorem canonServiceHost_once_iff (hI : I.Documented) (host : Str) :
    canonServiceHost R I (stripBrackets (lstrip R (canonServiceHost R I (stripBrackets host)))) =
        canonServiceHost R I (stripBrackets host) ↔
      (ipAddressText (stripBrackets host) = none →
        OnName R I (HostDone R I) (stripBrackets host)) := by
  rcases hip : ipAddressText (stripBrackets host) with _ | t
  · have hname : canonServiceHost R I (stripBrackets host) =
        canonHost R I (stripBrackets host) := by
      unfold canonServiceHost
      rw [hip, Option.getD_none]
    rw [hname, canonServiceHost_eq_iff hI (fixed_canonHost hI), onName_iff]
    exact ⟨fun h _ => h, fun h => h rfl⟩
  · have hname : canonServiceHost R I (stripBrackets host) = t := by
      unfold canonServiceHost
      rw [hip, Option.getD_some]
    rw [hname, lstrip_address hip, stripBrackets_address hip]
    refine iff_of_true ?_ fun h => by cases h
    unfold canonServiceHost
    rw [(ipAddressText_some hip).1, Option.getD_some]

/-- **A service is settled by one application** exactly if one is enough. -/
theorem canonService_once_iff (hR : RuntimeLaws R) (hI : I.Documented) (raw : Str) :
    (∃ key, canonService R I raw = .ok key ∧ canonService R I key = .ok key) ↔
      ServiceOnce R I raw := by
  unfold ServiceOnce
  rw [canonService_eq]
  rcases hport : portOf R (strip R raw) with _ | ⟨host, port⟩
  · dsimp only
    rw [onName_iff, ← canonService_eq_self_iff hR hI (fixed_canonHost hI) (unencoded_canonHost hI)]
    constructor
    · rintro ⟨key, hkey, h⟩
      rwa [← Except.ok.inj hkey] at h
    · exact fun h => ⟨_, rfl, h⟩
  · dsimp only
    rcases hint : int R port with f | n
    · refine iff_of_false ?_ ?_
      · rintro ⟨key, hkey, -⟩
        cases hkey
      · rintro ⟨⟨n, hn⟩, -⟩
        cases hn
    obtain ⟨hstr, hback⟩ := int_toDigits hR hint
    have hkey : ((Except.ok n : Except Fault ℕ) >>= fun n => strInt R n >>= fun text =>
        pure (canonServiceHost R I (stripBrackets host) ++ ':' :: text)) =
          .ok (canonServiceHost R I (stripBrackets host) ++ ':' :: Nat.toDigits 10 n) := by
      change (strInt R n >>= _) = _
      rw [hstr]
      rfl
    rw [hkey]
    constructor
    · rintro ⟨key, rfl', h⟩
      rw [← Except.ok.inj rfl', canonService_port_iff hR isDigit_toDigits] at h
      exact ⟨⟨n, rfl⟩, (canonServiceHost_once_iff hI host).mp h.1⟩
    · rintro ⟨-, h⟩
      exact ⟨_, rfl, (canonService_port_iff hR isDigit_toDigits).mpr
        ⟨(canonServiceHost_once_iff hI host).mpr h, n, hback, rfl⟩⟩

end Services

/-! ### Addresses, networks and the rest -/

section Rest
variable {s : Str}

theorem strip_lower (hR : LowerLaws R) (hs : strip R s = s) :
    strip R (lower R s) = lower R s := by
  obtain ⟨hfirst, hlast⟩ := dropBoth_eq_self.mp hs
  have hlow := lowers_lower (R := R) s
  refine dropBoth_eq_self.mpr ⟨fun d hd => ?_, fun d hd => ?_⟩
  · obtain ⟨c, hc, w, hw, hdw⟩ := hlow.head hR hd
    exact hw.space hR (hfirst c hc) hdw
  · obtain ⟨c, hc, w, hw, hdw⟩ := hlow.getLast hR hd
    exact hw.space hR (hlast c hc) hdw

theorem canonIp_canonIp (hR : LowerLaws R) (raw : Str) :
    canonIp R (canonIp R raw) = canonIp R raw := by
  have hraw : strip R (strip R raw) = strip R raw := strip_strip raw
  rcases h : ipAddressText (strip R raw) with _ | t
  · have hkey : canonIp R raw = lower R (strip R raw) := by
      unfold canonIp
      rw [h, Option.getD_none]
    unfold canonIp at hkey ⊢
    rw [hkey, strip_lower hR hraw, ipAddressText_lower hR h, lower_lower, Option.getD_none]
  · have hkey : canonIp R raw = t := by
      unfold canonIp
      rw [h, Option.getD_some]
    obtain ⟨hfirst, hlast⟩ := ends_of_ipAddressText h
    have hstrip : strip R t = t := by
      refine dropBoth_eq_self.mpr ⟨fun c hc => isSpace_of_isIpChar (hfirst c hc), fun c hc => ?_⟩
      rcases hlast c hc with hc | hc
      · exact isSpace_of_isIpChar hc
      · exact (dropBoth_eq_self.mp hraw).2 c hc
    rw [hkey]
    unfold canonIp
    rw [hstrip, (ipAddressText_some h).1, Option.getD_some]

theorem canonNetblock_canonNetblock (hR : RuntimeLaws R) (raw : Str) :
    canonNetblock R (canonNetblock R raw) = canonNetblock R raw := by
  have hraw : strip R (strip R raw) = strip R raw := strip_strip raw
  rcases h : ipNetworkText R (strip R raw) with _ | t
  · have hkey : canonNetblock R raw = lower R (strip R raw) := by
      unfold canonNetblock
      rw [h, Option.getD_none]
    unfold canonNetblock at hkey ⊢
    rw [hkey, strip_lower hR.toLowerLaws hraw, ipNetworkText_lower hR.toLowerLaws h, lower_lower,
      Option.getD_none]
  · have hkey : canonNetblock R raw = t := by
      unfold canonNetblock
      rw [h, Option.getD_some]
    obtain ⟨hself, body, rest, p, ht, hne, hbody⟩ :=
      ipNetworkText_some (hR.limit.imp_right (le_trans (by decide))) h
    have hstrip : strip R t = t := by
      refine dropBoth_eq_self.mpr ⟨fun c hc => ?_, fun c hc => ?_⟩
      · rw [ht, append_assoc, head?_append_of_ne_nil _ hne] at hc
        exact isSpace_of_isIpChar (hbody c (mem_of_head? hc))
      · rw [ht, List.getLast?_append_of_ne_nil _ Nat.toDigits_ne_nil] at hc
        have hdigit := Nat.isDigit_of_mem_toDigits (by decide) (by decide) (mem_of_getLast? hc)
        refine isSpace_of_isIpChar ?_
        unfold isIpChar isHexText
        rw [hdigit]
        rfl
    rw [hkey]
    unfold canonNetblock
    rw [hstrip, hself, Option.getD_some]

end Rest

/-! ### Canonical keys -/

theorem exists_ok_iff {f : Str → Str} {raw : Str} :
    (∃ key, (Except.ok (f raw) : Except Fault Str) = .ok key ∧
      (Except.ok (f key) : Except Fault Str) = .ok key) ↔ f (f raw) = f raw := by
  constructor
  · rintro ⟨key, hkey, h⟩
    rw [← Except.ok.inj hkey] at h
    exact Except.ok.inj h
  · exact fun h => ⟨f raw, rfl, congrArg _ h⟩

/-- **`canonical_key` returns a key, and leaves the key as it is**, exactly if one application is
enough: always, but for the names of hosts and for services. -/
theorem canonicalKey_once_iff (hR : RuntimeLaws R) (hI : I.Documented) (nodeType : NodeType ⊕ Str)
    (raw : Str) : Settles R I nodeType raw ↔ KeyOnce R I nodeType raw := by
  have hlow : strip R (lower R (strip R raw)) = lower R (strip R raw) :=
    strip_lower hR.toLowerLaws (strip_strip raw)
  unfold Settles KeyOnce canonicalKey
  dsimp only
  by_cases hhost : typeName nodeType = NodeType.domain.value ∨
      typeName nodeType = NodeType.subdomain.value
  · simp only [if_pos hhost]
    rw [exists_ok_iff (f := canonHost R I), canonHost_canonHost_iff hI]
  simp only [if_neg hhost]
  by_cases hip : typeName nodeType = NodeType.ipAddress.value
  · simp only [if_pos hip]
    rw [exists_ok_iff (f := canonIp R), hip, if_neg (by decide), iff_true]
    exact canonIp_canonIp hR.toLowerLaws raw
  simp only [if_neg hip]
  by_cases hnetblock : typeName nodeType = NodeType.netblock.value
  · simp only [if_pos hnetblock]
    rw [exists_ok_iff (f := canonNetblock R), hnetblock, if_neg (by decide), iff_true]
    exact canonNetblock_canonNetblock hR raw
  simp only [if_neg hnetblock]
  by_cases hservice : typeName nodeType = NodeType.service.value
  · simp only [if_pos hservice]
    exact canonService_once_iff hR hI raw
  simp only [if_neg hservice, iff_true]
  split_ifs
  · rw [exists_ok_iff (f := strip R), strip_strip]
  · rw [exists_ok_iff (f := fun s => lower R (strip R s)), hlow, lower_lower]

/-- A codec for ASCII names, which refuses every other. -/
def asciiCodec : Idna where
  nameprep _ := none
  punycode _ := []

theorem asciiCodec_documented : asciiCodec.Documented where
  nameprep _ _ h := by cases h
  punycode _ _ _ hc := by cases hc

theorem runtimeLaws_ascii : RuntimeLaws Runtime.ascii where
  ne_nil c := by
    change (if IsAscii c then _ else if c = 'Σ' then _ else _) ≠ []
    split_ifs <;> exact cons_ne_nil _ _
  hex c d hd hhex := by
    change d ∈ (if IsAscii c then _ else if c = 'Σ' then _ else _) at hd
    split_ifs at hd with hascii hsigma
    · exact hascii
    · rw [mem_singleton.mp hd] at hhex
      exact absurd hhex (by decide)
    · obtain rfl := mem_singleton.mp hd
      exact absurd (hexValue_of_not_ascii hascii) hhex
  space c hc d hd := by
    change d ∈ (if IsAscii c then _ else if c = 'Σ' then _ else _) at hd
    change (decide (IsAscii c) && asciiSpace c) = false at hc
    change (decide (IsAscii d) && asciiSpace d) = false
    split_ifs at hd with hascii hsigma
    · obtain rfl := mem_singleton.mp hd
      rw [decide_eq_true hascii, Bool.true_and] at hc
      rw [forall_ascii (P := fun c => asciiSpace c = false → asciiSpace c.toLower = false)
        (by decide) hascii hc, Bool.and_false]
    · obtain rfl := mem_singleton.mp hd
      decide
    · obtain rfl := mem_singleton.mp hd
      exact hc
  sigma := by decide
  digitValue c hc := by
    change (decide (IsAscii c) && c.isDigit) = true at hc
    rw [Bool.and_eq_true, decide_eq_true_eq] at hc
    exact forall_ascii (P := fun c => c.isDigit = true → c.toNat - 48 < 10) (by decide) hc.1 hc.2
  digit c hc := by
    change (decide (IsAscii c) && c.isDigit) = true at hc
    change (decide (IsAscii c) && asciiSpace c) = false
    rw [Bool.and_eq_true, decide_eq_true_eq] at hc
    rw [forall_ascii (P := fun c => c.isDigit = true → asciiSpace c = false) (by decide) hc.1 hc.2,
      Bool.and_false]
  limit := Or.inl rfl

/-- A subdomain in capital letters, with a full stop behind it, is settled. -/
theorem canonicalKey_subdomain : Settles Runtime.ascii asciiCodec (.inl .subdomain)
    "API.EXAMPLE.com." := by
  refine (canonicalKey_once_iff runtimeLaws_ascii asciiCodec_documented _ _).mpr ?_
  have hkey : canonHost Runtime.ascii asciiCodec "API.EXAMPLE.com." =
      "api.example.com" := by decide
  refine onName_iff.mpr ?_
  rw [hkey]
  refine ⟨fun c hc => ?_, fun c hc => ?_, by decide⟩
  · obtain rfl : 'a' = c := Option.some.inj hc
    decide
  · obtain rfl : 'm' = c := Option.some.inj hc
    decide

/-- **Two wildcards** before a domain are taken off one after the other. -/
theorem two_wildcards : ¬∀ (nodeType : NodeType ⊕ Str) (raw : Str),
    Settles Runtime.ascii asciiCodec nodeType raw := by
  intro h
  obtain ⟨key, hkey, hsettled⟩ := h (.inl .domain) "*.*.example.com"
  have hfirst : canonicalKey Runtime.ascii asciiCodec (.inl .domain) "*.*.example.com" =
      .ok "*.example.com" := by decide
  rw [hfirst] at hkey
  obtain rfl := Except.ok.inj hkey
  revert hsettled
  decide

end Guardian.Discovery

import Guardian.Python.IpText
import Guardian.RateLimit.Login

/-!
# The client behind the proxies

Each proxy appends the address of its peer to a header of the request; what stands before the
addresses of the trusted ones was sent by the client.  Failed logins are counted under a key that is
made from the address of the client.
-/

namespace Guardian.RateLimit

open Python List

section Resolve
variable (R : Runtime)

/-! ### The address of the client -/

/-- `_is_ip_literal`. -/
def isIpLiteral (value : Str) : Bool := (ipAddressText value).isSome

/-- The parts of `X-Forwarded-For`. -/
def forwarded (header : Option Str) : List Str :=
  (((header.getD []).splitOn ',').map (strip R)).filter (· ≠ [])

/-- **`resolve_client_ip`**: the address, and whether it can be trusted. -/
def resolveClientIp (trustedProxyCount : ℤ) (peer header : Option Str) : Option Str × Bool :=
  if trustedProxyCount ≤ 0 then (peer, true)
  else
    let parts := forwarded R header
    if trustedProxyCount ≤ parts.length then
      match parts[parts.length - trustedProxyCount.toNat]? with
      | some candidate => if isIpLiteral candidate then (some candidate, true) else (peer, false)
      | none => (peer, false)
    else (peer, false)

/-! ### The key of the client -/

/-- `ipv4_mapped`, `sixtofour`, or the client of `teredo`. -/
def embedded (n : ℕ) : Option ℕ :=
  if n / 2 ^ 32 = 0xFFFF then some (n % 2 ^ 32)
  else if n / 2 ^ 112 = 0x2002 then some (n / 2 ^ 80 % 2 ^ 32)
  else if n / 2 ^ 96 = 0x20010000 then some (2 ^ 32 - 1 - n % 2 ^ 32)
  else none

/-- **`client_bucket_key`.** -/
def clientBucketKey (ip : Option Str) : Option Str := do
  let s ← ip
  match ipv4OfString s with
  | some n => some (ipv4String n)
  | none =>
    let n ← ipv6Address s
    match embedded n with
    | some m => some (ipv4String m)
    | none => ipNetworkText R (ipv6String n ++ scopeSuffix s ++ "/64")

/-- `client_key`, as `login` makes it. -/
def loginClientKey (trustedProxyCount : ℤ) (isLocalOrDev : Bool) (peer header : Option Str) :
    Option Str :=
  if 0 < trustedProxyCount ∨ isLocalOrDev = true then
    let (ip, trusted) := resolveClientIp R trustedProxyCount peer header
    (if trusted then clientBucketKey R ip else none).map clientKey
  else none

end Resolve

/-! ### Through the proxies -/

/-- What a proxy makes of the header. -/
def appendPeer (header : Option Str) (peer : Str) : Option Str :=
  some (header.elim peer fun h => h ++ ',' :: ' ' :: peer)

/-- A request that a client sends through proxies, each of which appends its peer: the client first,
then the proxies before it. -/
structure Request where
  client : Str
  hops : List Str
  header : Option Str
  peer : Option Str

/-- The header that arrives. -/
def Request.arrived (r : Request) : Option Str := (r.client :: r.hops).foldl appendPeer r.header

section Proxies
variable {R : Runtime} {r r' : Request}

/-- The address of a socket has no commas and no blanks. -/
def IsPeer (R : Runtime) (p : Str) : Prop := p ≠ [] ∧ ∀ c ∈ p, c ≠ ',' ∧ R.isSpace c = false

/-- **The request comes through as many proxies as are trusted**, from an address. -/
structure Request.Through (R : Runtime) (r : Request) (trustedProxyCount : ℤ) : Prop where
  count : (r.hops.length : ℤ) + 1 = trustedProxyCount
  peers : ∀ p ∈ r.client :: r.hops, IsPeer R p
  literal : isIpLiteral r.client = true

theorem forwarded_appendPeer {p : Str} (hp : IsPeer R p) (header : Option Str) :
    forwarded R (appendPeer header p) = forwarded R header ++ [p] := by
  have hcomma : ',' ∉ p := fun hc => (hp.2 ',' hc).1 rfl
  have hstrip : strip R p = p := strip_of_clean fun c hc => (hp.2 c hc).2
  rcases header with _ | h
  · have hnil : strip R [] = [] := rfl
    simp [forwarded, appendPeer, splitOn_eq_singleton hcomma, hnil, hstrip, hp.1]
  · have hblank : ',' ∉ ' ' :: p := by simpa using hcomma
    have hspace : strip R (' ' :: p) = p := by
      refine (strip_blank_append (s := p) fun c (hc : c ∈ [' ']) => ?_).trans hstrip
      rw [mem_singleton.mp hc, R.isSpace_ascii ' ' (by decide)]
      rfl
    simp [forwarded, appendPeer, splitOn_append_cons_self, splitOn_eq_singleton hblank,
      hspace, hp.1]

theorem forwarded_foldl {ps : List Str} (hps : ∀ p ∈ ps, IsPeer R p) (header : Option Str) :
    forwarded R (ps.foldl appendPeer header) = forwarded R header ++ ps := by
  induction ps generalizing header with
  | nil => exact (append_nil _).symm
  | cons p ps ih =>
    rw [foldl_cons, ih fun q hq => hps q (mem_cons_of_mem p hq),
      forwarded_appendPeer (hps p mem_cons_self), append_assoc, singleton_append]

/-- **The address that is resolved** is that of the client, whatever header it sent. -/
theorem resolveClientIp_arrived {n : ℤ} (h : r.Through R n) :
    resolveClientIp R n r.peer r.arrived = (some r.client, true) := by
  have hparts : forwarded R r.arrived = forwarded R r.header ++ r.client :: r.hops :=
    forwarded_foldl h.peers r.header
  have hcount := h.count
  have hlength : (forwarded R r.arrived).length - n.toNat = (forwarded R r.header).length := by
    rw [hparts, length_append, length_cons]
    omega
  have hget : (forwarded R r.arrived)[(forwarded R r.arrived).length - n.toNat]? =
      some r.client := by
    rw [hlength, hparts, getElem?_append_right le_rfl, Nat.sub_self]
    rfl
  have hle : n ≤ (forwarded R r.arrived).length := by
    rw [hparts, length_append, length_cons]
    omega
  unfold resolveClientIp
  rw [if_neg (by omega)]
  dsimp only
  rw [if_pos hle, hget]
  exact if_pos h.literal

end Proxies

/-! ### Clients and their keys -/

/-- **A client**, as an address names it: an address of IPv4, also inside one of IPv6, or a network
with 64 bits, whose own address may have a zone. -/
inductive Client
  | v4 (n : ℕ)
  | v6 (network : ℕ) (zone : Str)

/-- The client that an address names. -/
def clientOf (s : Str) : Option Client :=
  match ipv4OfString s with
  | some n => some (.v4 n)
  | none => (ipv6Address s).map fun n =>
    match embedded n with
    | some m => .v4 m
    | none => .v6 (maskTo 128 64 n) (if maskTo 128 64 n = n then scopeSuffix s else [])

namespace Client

def key : Client → Str
  | v4 n => ipv4String n
  | v6 n z => ipv6String n ++ z ++ "/64"

/-- An address that there is. -/
def Valid : Client → Prop
  | v4 n => n < 2 ^ 32
  | v6 n z => n < 2 ^ 128 ∧ IsZone z ∧ '/' ∉ z

/-- **A key tells the client.** -/
theorem key_inj {c d : Client} (hc : c.Valid) (hd : d.Valid) (h : c.key = d.key) : c = d := by
  have hslash : ∀ (n m : ℕ) (z : Str), ipv4String n ≠ ipv6String m ++ z ++ "/64" := by
    intro n m z heq
    have hnone : '/' ∉ ipv4String n := notMem_of_isIpChar isIpChar_ipv4String rfl
    rw [heq] at hnone
    exact hnone (by simp)
  cases c with
  | v4 n =>
    cases d with
    | v4 m =>
      have hread := ipv4OfString_ipv4String hc
      rw [show ipv4String n = ipv4String m from h, ipv4OfString_ipv4String hd] at hread
      rw [Option.some.inj hread]
    | v6 m z => exact absurd h (hslash n m z)
  | v6 n z =>
    cases d with
    | v4 m => exact absurd h.symm (hslash m n z)
    | v6 m z' =>
      obtain ⟨hn, hz, hnone⟩ := hc
      obtain ⟨hm, hz', hnone'⟩ := hd
      have htext : ipv6String n ++ z = ipv6String m ++ z' := append_cancel_right h
      obtain ⟨hread, hzone⟩ := ipv6Address_append hn hz hnone
      obtain ⟨hread', hzone'⟩ := ipv6Address_append hm hz' hnone'
      rw [htext, hread'] at hread
      rw [htext, hzone'] at hzone
      rw [Option.some.inj hread, hzone]

end Client

theorem embedded_lt {n m : ℕ} (h : embedded n = some m) : m < 2 ^ 32 := by
  unfold embedded at h
  split_ifs at h <;> cases h <;> omega

section Keys
variable {R : Runtime} {s t : Str}

theorem valid_of_clientOf {c : Client} (h : clientOf s = some c) : c.Valid := by
  unfold clientOf at h
  rcases h4 : ipv4OfString s with _ | n
  · rw [h4] at h
    obtain ⟨n, hn, rfl⟩ := Option.map_eq_some_iff.mp h
    obtain ⟨hslash, addr, z, rfl, hpercent, hz, haddr⟩ := ipv6Address_some hn
    rw [(dropScopeId_append hpercent hz).2]
    rcases hm : embedded n with _ | m
    · refine ⟨(maskTo_le 128 64 n).trans_lt (ipv6OfString_lt haddr), ?_⟩
      split_ifs
      · exact ⟨hz, fun hc => hslash (mem_append_right addr hc)⟩
      · exact ⟨Or.inl rfl, not_mem_nil⟩
    · exact embedded_lt hm
  · rw [h4] at h
    cases h
    exact (ipv4OfString_some h4).1

/-- **The key of an address** is that of the client that it names. -/
theorem clientBucketKey_eq (hR : R.maxStrDigits = 0 ∨ 3 ≤ R.maxStrDigits) (s : Str) :
    clientBucketKey R (some s) = (clientOf s).map Client.key := by
  unfold clientBucketKey clientOf
  rw [Option.bind_eq_bind, Option.bind_some]
  rcases h4 : ipv4OfString s with _ | n
  · rcases hn : ipv6Address s with _ | n
    · rfl
    obtain ⟨hslash, addr, z, rfl, hpercent, hz, haddr⟩ := ipv6Address_some hn
    have hzone : '/' ∉ z := fun hc => hslash (mem_append_right addr hc)
    rcases hm : embedded n with _ | m
    · have htext : "/64" = '/' :: Nat.toDigits 10 64 := by decide
      simp only [Option.bind_eq_bind, Option.bind_some, Option.map_some, hm, Client.key, htext]
      rw [(dropScopeId_append hpercent hz).2]
      exact ipNetworkText_v6 hR (ipv6OfString_lt haddr) (by decide) hz hzone
    · simp only [Option.bind_eq_bind, Option.bind_some, Option.map_some, hm, Client.key]
  · rfl

theorem clientBucketKey_eq_iff (hR : R.maxStrDigits = 0 ∨ 3 ≤ R.maxStrDigits) :
    clientBucketKey R (some s) = clientBucketKey R (some t) ↔ clientOf s = clientOf t := by
  rw [clientBucketKey_eq hR, clientBucketKey_eq hR]
  refine ⟨fun h => ?_, fun h => by rw [h]⟩
  rcases hs : clientOf s with _ | c <;> rcases ht : clientOf t with _ | d
  · rfl
  · rw [hs, ht] at h; cases h
  · rw [hs, ht] at h; cases h
  · rw [hs, ht] at h
    rw [Client.key_inj (valid_of_clientOf hs) (valid_of_clientOf ht) (Option.some.inj h)]

/-- **Two requests are counted together** exactly if they come from one client: no header that a
client sends changes the key of its failed logins. -/
theorem loginClientKey_eq_iff (hR : R.maxStrDigits = 0 ∨ 3 ≤ R.maxStrDigits) {n : ℤ}
    {r r' : Request} (h : r.Through R n) (h' : r'.Through R n) (isLocalOrDev : Bool) :
    loginClientKey R n isLocalOrDev r.peer r.arrived =
        loginClientKey R n isLocalOrDev r'.peer r'.arrived ↔
      clientOf r.client = clientOf r'.client := by
  have hpos : 0 < n := by
    have hcount := h.count
    omega
  have hkey : ∀ {q : Request}, q.Through R n → loginClientKey R n isLocalOrDev q.peer q.arrived =
      (clientBucketKey R (some q.client)).map clientKey := by
    intro q hq
    unfold loginClientKey
    rw [if_pos (Or.inl hpos), resolveClientIp_arrived hq]
    rfl
  rw [hkey h, hkey h', ← clientBucketKey_eq_iff hR]
  exact (Option.map_injective (append_right_injective _)).eq_iff

end Keys


/-! ### A header that the client sends -/

def claiming (header : Option Str) : Request :=
  ⟨"203.0.113.9", ["10.0.0.1"], header, none⟩

theorem claiming_through (header : Option Str) : (claiming header).Through .ascii 2 := by
  have hpeers : ∀ p ∈ ["203.0.113.9".toList, "10.0.0.1".toList], IsPeer .ascii p := by
    unfold IsPeer
    decide
  have hliteral : isIpLiteral "203.0.113.9" = true := by decide
  exact ⟨rfl, hpeers, hliteral⟩

theorem loginClientKey_eq_iff_claiming :
    loginClientKey .ascii 2 false none (claiming (some "192.0.2.1")).arrived =
      loginClientKey .ascii 2 false none (claiming none).arrived :=
  (loginClientKey_eq_iff (Or.inl rfl) (claiming_through _) (claiming_through _) false).mpr rfl

end Guardian.RateLimit

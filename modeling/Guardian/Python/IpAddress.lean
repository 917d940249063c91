import Guardian.Python.Text
import Mathlib.Algebra.Group.Nat.Defs

/-!
# `ipaddress`

`ipAddress` and `ipNetwork` read an address and a network (`strict=False`).  A text that is
neither raises a `ValueError`, which every caller here catches, so it is `none`.
-/

namespace Guardian.Python

/-- The versions of the protocol. -/
inductive IpVersion
  | v4
  | v6
  deriving DecidableEq

/-- The bits of an address. -/
def IpVersion.bits : IpVersion → ℕ
  | .v4 => 32
  | .v6 => 128

/-- An address, its zone left out. -/
structure IpAddress where
  version : IpVersion
  ip : ℕ
  deriving DecidableEq

/-- A network: the address of the network and the length of the prefix. -/
structure IpNetwork where
  version : IpVersion
  networkAddress : ℕ
  prefixlen : ℕ

/-! ### Addresses -/

/-- `s.isascii() and s.isdigit()`. -/
def isAsciiDigits (s : Str) : Bool := !s.isEmpty && s.all Char.isDigit

/-- The number a text of digits stands for. -/
def ofDigits (base : ℕ) (value : Char → ℕ) (s : Str) : ℕ :=
  s.foldl (fun n c => base * n + value c) 0

def decimalValue (c : Char) : ℕ := c.toNat - 48

/-- `_parse_octet`. -/
def parseOctet (s : Str) : Option ℕ :=
  if isAsciiDigits s ∧ s.length ≤ 3 ∧ (s = ['0'] ∨ s.head? ≠ some '0') ∧
      ofDigits 10 decimalValue s ≤ 255 then
    some (ofDigits 10 decimalValue s)
  else none

/-- `IPv4Address._ip_int_from_string`. -/
def ipv4OfString (s : Str) : Option ℕ := do
  let octets := s.splitOn '.'
  if octets.length ≠ 4 then none
  else return (← octets.mapM parseOctet).foldl (fun n o => 256 * n + o) 0

/-- The value of a hexadecimal digit. -/
def hexValue (c : Char) : Option ℕ :=
  if c.isDigit then some (c.toNat - 48)
  else if 'a' ≤ c ∧ c ≤ 'f' then some (c.toNat - 87)
  else if 'A' ≤ c ∧ c ≤ 'F' then some (c.toNat - 55)
  else none

/-- `_parse_hextet`. -/
def parseHextet (s : Str) : Option ℕ := do
  let digits ← s.mapM hexValue
  if s = [] ∨ 4 < s.length then none
  else return digits.foldl (fun n d => 16 * n + d) 0

/-- The hexadecimal digit of a number below 16. -/
def hexDigit (n : ℕ) : Char := Char.ofNat (if n < 10 then 48 + n else 87 + n)

/-- `'%x' % n` for a number of 16 bits. -/
def hexString (n : ℕ) : Str :=
  let digits := [n / 4096 % 16, n / 256 % 16, n / 16 % 16, n % 16].dropWhile (· == 0)
  (if digits = [] then [0] else digits).map hexDigit

/-- The parts of an IPv6 address, an IPv4 suffix in them as two groups. -/
def ipv6Parts (s : Str) : Option (List Str) := do
  let parts := s.splitOn ':'
  if parts.length < 3 then none
  let last := parts.getLastD []
  if '.' ∈ last then
    let n ← ipv4OfString last
    return parts.dropLast ++ [hexString (n / 65536 % 65536), hexString (n % 65536)]
  else return parts

/-- The places of the empty parts between the first and the last one. -/
def skipIndices (parts : List Str) : List ℕ :=
  (List.range' 1 (parts.length - 2)).filter fun i => decide (parts[i]? = some [])

/-- How many groups stand before and after the `::`, and how many it stands for. -/
def ipv6Shape (parts : List Str) : Option (ℕ × ℕ × ℕ) :=
  match skipIndices parts with
  | [] =>
    if parts.length = 8 ∧ parts.head? ≠ some [] ∧ parts.getLast? ≠ some [] then some (8, 0, 0)
    else none
  | [skip] =>
    let hi := if parts.head? = some [] then skip - 1 else skip
    let low := parts.length - skip - 1
    let lo := if parts.getLast? = some [] then low - 1 else low
    if (parts.head? = some [] ∧ hi ≠ 0) ∨ (parts.getLast? = some [] ∧ lo ≠ 0) then none
    else if hi + lo < 8 then some (hi, lo, 8 - (hi + lo))
    else none
  | _ => none

/-- `IPv6Address._ip_int_from_string`. -/
def ipv6OfString (s : Str) : Option ℕ := do
  let parts ← ipv6Parts s
  if 9 < parts.length then none
  let (hi, lo, skipped) ← ipv6Shape parts
  let high ← (parts.take hi).mapM parseHextet
  let low ← (parts.drop (parts.length - lo)).mapM parseHextet
  return low.foldl (fun n h => 65536 * n + h)
    (high.foldl (fun n h => 65536 * n + h) 0 * 2 ^ (16 * skipped))

/-- `_split_scope_id`: the address without its zone, which may not be empty. -/
def dropScopeId (s : Str) : Option Str :=
  let (addr, found, scope) := partition '%' s
  if found && (scope.isEmpty || decide ('%' ∈ scope)) then none else some addr

/-- `IPv6Address(s)`. -/
def ipv6Address (s : Str) : Option ℕ := do
  if '/' ∈ s then none else ipv6OfString (← dropScopeId s)

/-- `ip_address(s)`. -/
def ipAddress (s : Str) : Option IpAddress :=
  IpAddress.mk .v4 <$> ipv4OfString s <|> IpAddress.mk .v6 <$> ipv6Address s

/-! ### Networks -/

/-- `_prefix_from_prefix_string`. -/
def prefixOfString (R : Runtime) (bits : ℕ) (s : Str) : Option ℕ :=
  if isAsciiDigits s ∧ (R.maxStrDigits = 0 ∨ s.length ≤ R.maxStrDigits) ∧
      ofDigits 10 decimalValue s ≤ bits then
    some (ofDigits 10 decimalValue s)
  else none

/-- `_prefix_from_ip_int`: the length of the prefix that a mask of 32 bits stands for. -/
def prefixOfMask (mask : ℕ) : Option ℕ :=
  (List.range 33).find? fun p => mask == 2 ^ 32 - 2 ^ (32 - p)

/-- `_prefix_from_ip_string`: a network mask or a host mask. -/
def prefixOfIp (s : Str) : Option ℕ := do
  let mask ← ipv4OfString s
  prefixOfMask mask <|> prefixOfMask (2 ^ 32 - 1 - mask)

/-- The address and the mask of a network as it is written. -/
def splitAddrPrefix (s : Str) : Option (Str × Option Str) :=
  match s.splitOn '/' with
  | [addr] => some (addr, none)
  | [addr, mask] => some (addr, some mask)
  | _ => none

def maskTo (bits p ip : ℕ) : ℕ := ip / 2 ^ (bits - p) * 2 ^ (bits - p)

/-- `ip_network(s, strict=False)`. -/
def ipNetwork (R : Runtime) (s : Str) : Option IpNetwork := do
  let (addr, mask) ← splitAddrPrefix s
  let v4 : Option IpNetwork := do
    let ip ← ipv4OfString addr
    let p ← match mask with
      | none => some 32
      | some m => prefixOfString R 32 m <|> prefixOfIp m
    return ⟨.v4, maskTo 32 p ip, p⟩
  let v6 : Option IpNetwork := do
    let ip ← ipv6Address addr
    let p ← match mask with
      | none => some 128
      | some m => prefixOfString R 128 m
    return ⟨.v6, maskTo 128 p ip, p⟩
  v4 <|> v6

/-- `address in network`. -/
def IpNetwork.contains (n : IpNetwork) (a : IpAddress) : Bool :=
  decide (a.version = n.version ∧ maskTo a.version.bits n.prefixlen a.ip = n.networkAddress)

example : ipAddress "2001:db8::a" = some ⟨.v6, 0x20010db800000000000000000000000a⟩ := by
  decide

end Guardian.Python

import MailserverUi.Core.Text

/-!
# IP addresses and networks (`ipaddress`)

What `ipaddress.ip_address(s)` and `ipaddress.ip_network(s, strict=False)`
accept, and `addr in net`. An address is its bits, with the scope id an IPv6
address may carry; a network is its first address and the length of its mask,
and the type says that the host bits of the former are clear.

Results:
* `ipAddress_ne_nil`: the empty text is no address.
-/
namespace MailserverUi.L1.IpAddress

open Py

/-! ## Numbers -/

/-- `s.isascii() and s.isdigit()`. -/
def isDecimal (s : Str) : Bool := s ≠ [] && s.all Char.isDigit

def ofDigits (base : Nat) (digit : Char → Nat) (s : Str) : Nat :=
  s.foldl (fun n c => n * base + digit c) 0

def decDigit (c : Char) : Nat := c.toNat - '0'.toNat

def isHexDigit (c : Char) : Bool :=
  c.isDigit || ('a' ≤ c && c ≤ 'f') || ('A' ≤ c && c ≤ 'F')

def hexDigit (c : Char) : Nat :=
  if c.isDigit then c.toNat - '0'.toNat
  else if c ≤ 'F' then c.toNat - 'A'.toNat + 10
  else c.toNat - 'a'.toNat + 10

/-- `int` refuses a text of more digits (`sys.int_info`). -/
def intMaxStrDigits : Nat := 4300

/-! ## Addresses -/

inductive Address where
  | v4 (ip : BitVec 32)
  | v6 (ip : BitVec 128) (scopeId : Option Str)
  deriving DecidableEq, Repr

/-- `_BaseV4._parse_octet`. -/
def parseOctet (s : Str) : Option Nat :=
  if !isDecimal s || 3 < s.length || (s ≠ ['0'] && s.head? = some '0') then none
  else if 255 < ofDigits 10 decDigit s then none
  else some (ofDigits 10 decDigit s)

/-- `_BaseV4._ip_int_from_string`. -/
def ipv4Int (s : Str) : Option Nat :=
  match (split '.' s).mapM parseOctet with
  | some [a, b, c, d] => some (((a * 256 + b) * 256 + c) * 256 + d)
  | _ => none

/-- `_BaseV6._parse_hextet`; `int("", 16)` raises. -/
def parseHextet (s : Str) : Option Nat :=
  if s = [] || !s.all isHexDigit || 4 < s.length then none else some (ofDigits 16 hexDigit s)

/-- The parts of an IPv6 text, an IPv4 suffix replaced by its two hextets. -/
def hextets (s : Str) : Option (List Str) :=
  let parts := split ':' s
  if parts.length < 3 then none
  else if '.' ∈ parts.getLastD [] then
    (ipv4Int (parts.getLastD [])).map fun n =>
      parts.dropLast ++ [Nat.toDigits 16 (n / 2 ^ 16 % 2 ^ 16), Nat.toDigits 16 (n % 2 ^ 16)]
  else some parts

/-- The hextets before and after the run of zeros that `::` stands for, and
the length of the run.
`_BaseV6._ip_int_from_string` up to the parsing of the hextets. -/
def expand (parts : List Str) : Option (List Str × Nat × List Str) :=
  if 9 < parts.length then none
  else
    match (List.range parts.length).filter fun i =>
        0 < i && i + 1 < parts.length && parts[i]? = some [] with
    | [] =>
      if parts.length = 8 && parts.head? ≠ some [] && parts.getLast? ≠ some [] then
        some (parts, 0, [])
      else none
    | [skip] =>
      let hi := parts.take skip
      let lo := parts.drop (skip + 1)
      -- an empty first or last part is allowed only as half of the `::`
      let hi' := if hi.head? = some [] then hi.tail else hi
      let lo' := if lo.getLast? = some [] then lo.dropLast else lo
      if (hi.head? = some [] && hi' ≠ []) || (lo.getLast? = some [] && lo' ≠ []) then none
      else if 8 ≤ hi'.length + lo'.length then none
      else some (hi', 8 - (hi'.length + lo'.length), lo')
    | _ => none

def ofHextets (ns : List Nat) : Nat := ns.foldl (fun n h => n * 2 ^ 16 + h) 0

/-- `_BaseV6._ip_int_from_string`. -/
def ipv6Int (s : Str) : Option Nat := do
  let (hi, skipped, lo) ← expand (← hextets s)
  let hi ← hi.mapM parseHextet
  let lo ← lo.mapM parseHextet
  return ofHextets (hi ++ List.replicate skipped 0 ++ lo)

/-- `_BaseV6._split_scope_id`. -/
def splitScopeId (s : Str) : Option (Str × Option Str) :=
  if '%' ∉ s then some (s, none)
  else if after '%' s = [] || '%' ∈ after '%' s then none
  else some (before '%' s, some (after '%' s))

def ipv4Address (s : Str) : Option (BitVec 32) :=
  if '/' ∈ s then none else (ipv4Int s).map (BitVec.ofNat 32)

def ipv6Address (s : Str) : Option (BitVec 128 × Option Str) :=
  if '/' ∈ s then none
  else do
    let (addr, scopeId) ← splitScopeId s
    return (BitVec.ofNat 128 (← ipv6Int addr), scopeId)

/-- `ipaddress.ip_address(s)`; `none` is its `ValueError`. -/
def ipAddress (s : Str) : Option Address :=
  match ipv4Address s with
  | some ip => some (.v4 ip)
  | none => (ipv6Address s).map fun p => .v6 p.1 p.2

theorem ipAddress_ne_nil {s : Str} {a : Address} (h : ipAddress s = some a) : s ≠ [] := by
  rintro rfl
  have : ipAddress [] = none := by decide
  rw [this] at h
  cases h

/-! ## Networks -/

/-- `_ip_int_from_prefix`: `len` ones, then zeros. -/
def netmask (w len : Nat) : BitVec w := BitVec.allOnes w ^^^ (BitVec.allOnes w >>> len)

/-- A network of `w`-bit addresses. -/
structure Net (w : Nat) where
  networkAddress : BitVec w
  prefixlen : Nat
  le : prefixlen ≤ w
  masked : networkAddress &&& netmask w prefixlen = networkAddress

/-- The network of an address; with `strict=False` its host bits are
cleared. -/
def Net.of {w : Nat} (ip : BitVec w) (len : Nat) (h : len ≤ w) : Net w where
  networkAddress := ip &&& netmask w len
  prefixlen := len
  le := h
  masked := by rw [BitVec.and_assoc, BitVec.and_self]

/-- `addr in net` for an address of the network's version. -/
def Net.contains {w : Nat} (net : Net w) (ip : BitVec w) : Bool :=
  ip &&& netmask w net.prefixlen == net.networkAddress

/-- The scope id that the address of an IPv6 network may have been written
with is left out: `in` does not look at it. -/
inductive Network where
  | v4 (net : Net 32)
  | v6 (net : Net 128)

/-- `addr in net`. -/
def Network.contains : Network → Address → Bool
  | .v4 net, .v4 ip => net.contains ip
  | .v6 net, .v6 ip _ => net.contains ip
  | _, _ => false

/-- `_prefix_from_prefix_string`. -/
def prefixFromPrefixString (w : Nat) (s : Str) : Option Nat :=
  if !isDecimal s || intMaxStrDigits < s.length then none
  else if w < ofDigits 10 decDigit s then none
  else some (ofDigits 10 decDigit s)

/-- `_prefix_from_ip_int`: the length of a mask of ones and then zeros. -/
def prefixFromIpInt (w n : Nat) : Option Nat :=
  let zeros := ((List.range w).find? n.testBit).getD w
  if n >>> zeros = 2 ^ (w - zeros) - 1 then some (w - zeros) else none

/-- `_prefix_from_ip_string`: a netmask, else a hostmask. -/
def prefixFromIpString (s : Str) : Option Nat := do
  let n ← ipv4Int s
  prefixFromIpInt 32 n <|> prefixFromIpInt 32 (n ^^^ (2 ^ 32 - 1))

def Net.ofPrefix {w : Nat} (ip : BitVec w) (len : Option Nat) : Option (Net w) :=
  match len with
  | none => none
  | some len => if h : len ≤ w then some (Net.of ip len h) else none

/-- `IPv4Network(s, strict=False)`. -/
def ipv4Network (s : Str) : Option (Net 32) :=
  match split '/' s with
  | [addr] => (ipv4Address addr).bind fun ip => Net.ofPrefix ip (some 32)
  | [addr, mask] => (ipv4Address addr).bind fun ip =>
      Net.ofPrefix ip (prefixFromPrefixString 32 mask <|> prefixFromIpString mask)
  | _ => none

/-- `IPv6Network(s, strict=False)`. -/
def ipv6Network (s : Str) : Option (Net 128) :=
  match split '/' s with
  | [addr] => (ipv6Address addr).bind fun p => Net.ofPrefix p.1 (some 128)
  | [addr, mask] => (ipv6Address addr).bind fun p =>
      Net.ofPrefix p.1 (prefixFromPrefixString 128 mask)
  | _ => none

/-- `ipaddress.ip_network(s, strict=False)`; `none` is its `ValueError`. -/
def ipNetwork (s : Str) : Option Network :=
  match ipv4Network s with
  | some net => some (.v4 net)
  | none => (ipv6Network s).map .v6

end MailserverUi.L1.IpAddress

import Mathlib
import Hopclaw.Text.GoStrings

/-! # Internet addresses

The part of Go's `net` and `net/netip` that a filter on addresses uses: the texts that are
addresses, networks in CIDR form, and membership. An address is kept in its form of sixteen bytes,
in which an IPv4 address `a.b.c.d` is the mapped `::ffff:a.b.c.d`. -/

namespace GoNet

/-- `net.IP`, always of sixteen bytes. -/
abbrev IP := BitVec 128

/-- `IP.To4`, as a number below `2 ^ 32`. -/
def to4 (ip : IP) : Option ℕ :=
  if ip.toNat / 2 ^ 32 = 0xffff then some (ip.toNat % 2 ^ 32) else none

/-- The sixteen-byte form of an IPv4 address. -/
def ofIPv4 (x : ℕ) : IP :=
  BitVec.ofNat 128 (0xffff * 2 ^ 32 + x)

def isLoopback (ip : IP) : Bool :=
  match to4 ip with
  | some x => x / 2 ^ 24 = 127
  | none => ip = 1#128

/-! ## Texts of addresses -/

/-- A number in the given base of at most `width` digits. -/
def parseDigits (base width : ℕ) (value : Char → Option ℕ) (cs : List Char) : Option ℕ :=
  if cs = [] || width < cs.length then none
  else cs.foldlM (fun acc c => (value c).map (base * acc + ·)) 0

def decimalValue (c : Char) : Option ℕ :=
  if c.isDigit then some (c.toNat - '0'.toNat) else none

def hexValue (c : Char) : Option ℕ :=
  if c.isDigit then some (c.toNat - '0'.toNat)
  else if 'a' ≤ c ∧ c ≤ 'f' then some (c.toNat - 'a'.toNat + 10)
  else if 'A' ≤ c ∧ c ≤ 'F' then some (c.toNat - 'A'.toNat + 10)
  else none

/-- One field of a dotted address: a number up to 255 without leading zeros. -/
def parseOctet (cs : List Char) : Option ℕ :=
  if cs.head? = some '0' ∧ 1 < cs.length then none
  else (parseDigits 10 3 decimalValue cs).filter (· ≤ 255)

/-- `parseIPv4Fields`. -/
def parseIPv4 (cs : List Char) : Option ℕ :=
  match (cs.splitOnP (· == '.')).mapM parseOctet with
  | some [a, b, c, d] => some (((a * 256 + b) * 256 + c) * 256 + d)
  | _ => none

/-- The fields between colons, of which the last may be a dotted address and then counts for
    two. -/
def parseFields (cs : List Char) : Option (List ℕ) := do
  let pieces := cs.splitOnP (· == ':')
  let fields ← pieces.dropLast.mapM (parseDigits 16 4 hexValue)
  let last := pieces.getLastD []
  if '.' ∈ last then
    let x ← parseIPv4 last
    return fields ++ [x / 2 ^ 16, x % 2 ^ 16]
  else
    let field ← parseDigits 16 4 hexValue last
    return fields ++ [field]

/-- The parts before and after the first `::`. -/
def splitEllipsis : List Char → Option (List Char × List Char)
  | ':' :: ':' :: rest => some ([], rest)
  | c :: rest => (splitEllipsis rest).map fun (before, after) => (c :: before, after)
  | [] => none

/-- The eight fields of an IPv6 address; `::` stands for at least one field of zeros. -/
def parseIPv6Fields (cs : List Char) : Option (List ℕ) :=
  match splitEllipsis cs with
  | none => (parseFields cs).filter fun fields => fields.length = 8
  | some (before, after) => do
    let front ← if before = [] then some []
      else (before.splitOnP (· == ':')).mapM (parseDigits 16 4 hexValue)
    let back ← if after = [] then some [] else parseFields after
    if 7 < front.length + back.length then none
    else return front ++ List.replicate (8 - front.length - back.length) 0 ++ back

/-- `netip.Addr`. -/
structure Addr where
  ip : IP
  /-- Written as an IPv4 address. -/
  is4 : Bool
  zone : String := ""
  deriving DecidableEq

def parseIPv6 (cs : List Char) : Option Addr := do
  let address := cs.takeWhile (· ≠ '%')
  let rest := cs.dropWhile (· ≠ '%')
  -- A zone that is written is not empty.
  if rest = ['%'] then none
  let fields ← parseIPv6Fields address
  return {
    ip := BitVec.ofNat 128 (fields.foldl (2 ^ 16 * · + ·) 0)
    is4 := false
    zone := String.ofList rest.tail
  }

/-- `netip.ParseAddr`: the first of `.`, `:` and `%` decides how a text is read. -/
def parseAddr (s : String) : Option Addr :=
  match s.toList.find? fun c => c = '.' ∨ c = ':' ∨ c = '%' with
  | some '.' => (parseIPv4 s.toList).map fun x => { ip := ofIPv4 x, is4 := true }
  | some ':' => parseIPv6 s.toList
  | _ => none

/-- `net.ParseIP`, which takes no zones. -/
def parseIP (s : String) : Option IP :=
  ((parseAddr s).filter fun a => a.zone = "").map Addr.ip

example : parseIP "192.168.1.10" = some (ofIPv4 0xc0a8010a) := by decide +kernel

example : parseIP "::ffff:10.0.0.1" = parseIP "10.0.0.1" := by decide +kernel

example : (parseAddr "fe80::1%eth0").map Addr.zone = some "eth0" := by decide +kernel

example : ["1.2.3", "1.2.3.04", "256.1.1.1", "1:2", ":::", "1::2::3", "12345::", "::1%", "a.b",
    "1.2.3.4::"].map parseAddr = List.replicate 10 none := by decide +kernel

/-! ## Networks -/

/-- `net.IPNet`: an address of four or sixteen bytes and the length of the mask. -/
structure IPNet where
  is4 : Bool
  addr : ℕ
  ones : ℕ
  deriving DecidableEq

/-- `IPNet.Contains`: addresses of the two lengths are never compared. -/
def IPNet.contains (n : IPNet) (ip : IP) : Bool :=
  match to4 ip with
  | some x => n.is4 && x / 2 ^ (32 - n.ones) = n.addr / 2 ^ (32 - n.ones)
  | none => !n.is4 && ip.toNat / 2 ^ (128 - n.ones) = n.addr / 2 ^ (128 - n.ones)

/-- `net.ParseCIDR`. -/
def parseCIDR (s : String) : Option IPNet := do
  let a ← parseAddr (String.ofList (s.toList.takeWhile (· ≠ '/')))
  let ones ← parseDigits 10 3 decimalValue (s.toList.dropWhile (· ≠ '/')).tail
  if a.zone ≠ "" ∨ (if a.is4 then 32 else 128) < ones then none
  else return { is4 := a.is4, addr := if a.is4 then a.ip.toNat % 2 ^ 32 else a.ip.toNat, ones }

end GoNet

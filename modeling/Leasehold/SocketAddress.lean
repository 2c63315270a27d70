import Leasehold.Text.Hex

/-!
# SocketAddress — the ends of a transport connection

An address is four octets or eight groups of sixteen bits, with the number of the
service behind it. In text the longest run of at least two zero groups is left
out (`::`), the first of the longest ones, and an address that carries four
octets behind `::ffff` shows them as such. Reading takes every standard form.
-/

namespace Leasehold

/-- An internet address of either version. -/
inductive IpAddress where
  | v4 (a b c d : UInt8)
  /-- The groups in two halves of four, and the zone that a link-local address belongs to. -/
  | v6 (high low : UInt64) (zone : UInt32)
  deriving Repr, DecidableEq

instance : Inhabited IpAddress := ⟨.v4 0 0 0 0⟩

/-- An internet address and the number of a service there. -/
structure SocketAddress where
  ip : IpAddress
  service : UInt16
  deriving Repr, DecidableEq, Inhabited

namespace IpAddress

/-! ## Writing -/

/-- Four octets with points between them. -/
def octetsText (octets : List Nat) : String := ".".intercalate (octets.map toString)

/-- The four groups of sixteen bits in a word. -/
def groupsOf (w : UInt64) : List Nat :=
  [w.toNat / 0x1_0000_0000_0000, w.toNat / 0x1_0000_0000 % 0x1_0000,
    w.toNat / 0x1_0000 % 0x1_0000, w.toNat % 0x1_0000]

/-- The length of the run of zeros at the head of a list. -/
def zeroRun (groups : List Nat) : Nat := (groups.takeWhile (· == 0)).length

/-- The place and length of the first longest run of zeros. -/
def longestZeroRun (groups : List Nat) : Nat × Nat :=
  (List.range groups.length).foldl
    (fun best at_ =>
      let n := zeroRun (groups.drop at_)
      if best.2 < n then (at_, n) else best)
    (0, 0)

/-- Groups with colons between them. -/
def groupsText (groups : List Nat) : String := ":".intercalate (groups.map Text.Hex.ofNat)

/-- Eight groups, the longest run of zeros left out if it is at least two long. -/
def compressedText (groups : List Nat) : String :=
  let (start, n) := longestZeroRun groups
  if n < 2 then groupsText groups
  else groupsText (groups.take start) ++ "::" ++ groupsText (groups.drop (start + n))

def toText : IpAddress → String
  | v4 a b c d => octetsText [a.toNat, b.toNat, c.toNat, d.toNat]
  | v6 high low zone =>
    let text :=
      if high = 0 ∧ low.toNat / 0x1_0000_0000 = 0xFFFF then
        "::ffff:" ++ octetsText [low.toNat / 0x100_0000 % 256, low.toNat / 0x1_0000 % 256,
          low.toNat / 256 % 256, low.toNat % 256]
      else compressedText (groupsOf high ++ groupsOf low)
    if zone = 0 then text else text ++ "%" ++ toString zone.toNat

/-! ## Reading -/

/-- A decimal number below a limit. -/
def decimal? (limit : Nat) (digits : List Char) : Option Nat :=
  if digits.isEmpty || !digits.all Char.isDigit then none
  else
    let n := digits.foldl (fun n c => 10 * n + (c.toNat - '0'.toNat)) 0
    if n < limit then some n else none

/-- An octet: up to three digits, the first not zero unless it stands alone. -/
def octet? (digits : List Char) : Option Nat :=
  if 3 < digits.length || (1 < digits.length && digits.head? == some '0') then none
  else decimal? 256 digits

/-- Four octets with points between them. -/
def octets? (text : String) : Option (List Nat) :=
  match (text.splitOn ".").mapM (octet? ·.toList) with
  | some octets => if octets.length = 4 then some octets else none
  | none => none

/-- A group: one to four hexadecimal digits. -/
def group? (digits : List Char) : Option Nat :=
  if 4 < digits.length then none else Text.Hex.toNat? digits

/-- Groups with colons between them; the last piece may be four octets, which make two groups. -/
def groups? : List String → Option (List Nat)
  | [] => some []
  | [last] =>
    match group? last.toList with
    | some g => some [g]
    | none => (octets? last).map fun o =>
        [o.getD 0 0 * 256 + o.getD 1 0, o.getD 2 0 * 256 + o.getD 3 0]
  | piece :: rest => do
    let g ← group? piece.toList
    let gs ← groups? rest
    return g :: gs

/-- One side of a `::`; an empty side has no group. -/
def side? (text : String) : Option (List Nat) :=
  if text = "" then some [] else groups? (text.splitOn ":")

/-- The groups of a whole address: eight of them, or fewer around a `::`. -/
def allGroups? (text : String) : Option (List Nat) :=
  match text.splitOn "::" with
  | [whole] => do
    let gs ← side? whole
    if gs.length = 8 then some gs else none
  | [front, back] => do
    let front ← side? front
    let back ← side? back
    if front.length + back.length < 8 then
      some (front ++ List.replicate (8 - front.length - back.length) 0 ++ back)
    else none
  | _ => none

/-- The word that four groups make. -/
def wordOf (groups : List Nat) : UInt64 :=
  UInt64.ofNat (groups.foldl (fun n g => n * 0x1_0000 + g) 0)

def v4? (text : String) : Option IpAddress :=
  (octets? text).map fun o =>
    .v4 (.ofNat (o.getD 0 0)) (.ofNat (o.getD 1 0)) (.ofNat (o.getD 2 0)) (.ofNat (o.getD 3 0))

/-- Eight groups and, behind a percent sign, the zone. -/
def v6? (text : String) : Option IpAddress :=
  let read (groups : String) (zone : Nat) : Option IpAddress :=
    (allGroups? groups).map fun gs => .v6 (wordOf (gs.take 4)) (wordOf (gs.drop 4)) (.ofNat zone)
  match text.splitOn "%" with
  | [groups] => read groups 0
  | [groups, zone] => (decimal? UInt32.size zone.toList).bind (read groups)
  | _ => none

end IpAddress

namespace SocketAddress

/-- The address, in brackets if it has groups, and the service behind a colon. -/
def toText (a : SocketAddress) : String :=
  let service := ":" ++ toString a.service.toNat
  match a.ip with
  | .v4 .. => a.ip.toText ++ service
  | .v6 .. => "[" ++ a.ip.toText ++ "]" ++ service

/-- The address that a text writes. -/
def parse? (text : String) : Option SocketAddress :=
  if text.startsWith "[" then
    match ((text.drop 1).toString).splitOn "]:" with
    | [ip, service] => do
      let ip ← IpAddress.v6? ip
      let service ← IpAddress.decimal? UInt16.size service.toList
      return ⟨ip, .ofNat service⟩
    | _ => none
  else
    match text.splitOn ":" with
    | [ip, service] => do
      let ip ← IpAddress.v4? ip
      let service ← IpAddress.decimal? UInt16.size service.toList
      return ⟨ip, .ofNat service⟩
    | _ => none

end SocketAddress

end Leasehold

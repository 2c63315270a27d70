/-!
# Text.Hex — hexadecimal text

Bytes are lists of octets. A byte is written as two lower-case digits, a number
either with as many digits as it needs or padded with zeros to a width.
`decode?` reads back exactly what `encode` writes, in either case of letter.
-/

namespace Leasehold

/-- A string of octets, such as a client's owner token. -/
abbrev Bytes := List UInt8

namespace Text.Hex

/-- The lower-case digits of a number, with no leading zero. -/
def ofNat (n : Nat) : String := String.ofList (Nat.toDigits 16 n)

/-- The lower-case digits of a number, padded with zeros to at least `width`. -/
def padded (width n : Nat) : String :=
  let digits := Nat.toDigits 16 n
  String.ofList (List.replicate (width - digits.length) '0' ++ digits)

/-- A number behind the marker `0x`. -/
def marked (n : Nat) : String := "0x" ++ ofNat n

/-- Two digits for each byte, in order. -/
def encode (bytes : Bytes) : String :=
  String.join (bytes.map fun b => padded 2 b.toNat)

/-- The value of a hexadecimal digit of either case. -/
def digit? (c : Char) : Option Nat :=
  if '0' ≤ c ∧ c ≤ '9' then some (c.toNat - '0'.toNat)
  else if 'a' ≤ c ∧ c ≤ 'f' then some (c.toNat - 'a'.toNat + 10)
  else if 'A' ≤ c ∧ c ≤ 'F' then some (c.toNat - 'A'.toNat + 10)
  else none

/-- The number that a run of digits writes; an empty run is no number. -/
def toNat? : List Char → Option Nat
  | [] => none
  | cs => cs.foldlM (fun n c => (digit? c).map (16 * n + ·)) 0

/-- The numbers that groups of digits of the given widths write, with nothing between or after
them. -/
def groups? : List Nat → List Char → Option (List Nat)
  | [], [] => some []
  | [], _ :: _ => none
  | width :: widths, cs => do
    if cs.length < width then none
    else return (← toNat? (cs.take width)) :: (← groups? widths (cs.drop width))

/-- The bytes that pairs of digits write. -/
def decodeChars? : List Char → Option Bytes
  | [] => some []
  | [_] => none
  | a :: b :: rest => do
    let high ← digit? a
    let low ← digit? b
    let bytes ← decodeChars? rest
    return UInt8.ofNat (16 * high + low) :: bytes

/-- The bytes that a text of digit pairs writes. -/
def decode? (text : String) : Option Bytes := decodeChars? text.toList

end Text.Hex

end Leasehold

import Leasehold.Text.Hex

/-!
# Yaml.Scalar — what plain text means

A plain scalar without a tag may be null, a truth value or a number; else it is
text. Integers are decimal, hexadecimal, octal or binary, and a decimal integer
has no zero in front of other digits. A decimal number is one only if it is less
than the largest binary64 number can round to.
-/

namespace Leasehold.Yaml.Scalar

/-- The number that digits write in a base up to sixteen. -/
def digits? (base : Nat) : List Char → Option Nat
  | [] => none
  | cs => cs.foldlM (fun n c => do
      let d ← Text.Hex.digit? c
      if d < base then some (base * n + d) else none) 0

/-- The marks of bases other than ten. -/
def bases : List (List Char × Nat) := [(['0', 'x'], 16), (['0', 'o'], 8), (['0', 'b'], 2)]

/-- The number behind the mark of a base. -/
def marked? (cs : List Char) : Option Nat :=
  bases.findSome? fun (mark, base) =>
    if mark.isPrefixOf cs then digits? base (cs.drop mark.length) else none

/-- Digits of which the first of several is zero: they are text. -/
def hasIdleZero (cs : List Char) : Bool :=
  match cs with
  | '0' :: c :: rest => (c :: rest).all Char.isDigit
  | _ => false

/-- A number without a sign. -/
def magnitude? (cs : List Char) : Option Nat :=
  match marked? cs with
  | some n => some n
  | none => if hasIdleZero cs then none else digits? 10 cs

/-- What is behind a plus sign, if one is there. -/
def withoutPlus : List Char → List Char
  | '+' :: cs => cs
  | cs => cs

/-- An integer that is not negative, with or without a plus sign. -/
def natural? (text : String) : Option Nat := magnitude? (withoutPlus text.toList)

/-- The magnitude of an integer behind a minus sign. -/
def negative? (text : String) : Option Nat :=
  match text.toList with
  | '-' :: cs => magnitude? cs
  | _ => none

def isNull (text : String) : Bool := ["null", "Null", "NULL", "~"].contains text

def isBool (text : String) : Bool :=
  ["true", "True", "TRUE", "false", "False", "FALSE"].contains text

/-! ## Decimal numbers -/

/-- A decimal number: its digits as one number, and the power of ten it is multiplied by. -/
structure DecimalNumber where
  digits : Nat
  exponent : Int

/-- The exponent that follows a number, if any. -/
def exponent? : List Char → Option Int
  | [] => some 0
  | 'e' :: cs | 'E' :: cs =>
    match cs with
    | '-' :: cs => (digits? 10 cs).map fun n => -(n : Int)
    | '+' :: cs => (digits? 10 cs).map Int.ofNat
    | cs => (digits? 10 cs).map Int.ofNat
  | _ => none

/-- A number without a sign: digits with a point before, among or behind them, and an exponent. -/
def decimal? (cs : List Char) : Option DecimalNumber := do
  let whole := cs.takeWhile Char.isDigit
  let rest := cs.dropWhile Char.isDigit
  let behindPoint := if rest.head? == some '.' then rest.drop 1 else []
  let fraction := behindPoint.takeWhile Char.isDigit
  let rest := if rest.head? == some '.' then behindPoint.dropWhile Char.isDigit else rest
  let digits ← digits? 10 (whole ++ fraction)
  let exponent ← exponent? rest
  return ⟨digits, exponent - fraction.length⟩

/-- The least number that is too large to round to a binary64 number. -/
def decimalLimit : Nat := Nat.pow 2 1024 - Nat.pow 2 970

/-- Whether a number is below the limit. The number of digits alone decides far from it. -/
def DecimalNumber.isFinite (d : DecimalNumber) : Bool :=
  let places := d.exponent + (Nat.toDigits 10 d.digits).length
  if d.digits = 0 || places ≤ 308 then true
  else if 309 < places then false
  else if 0 ≤ d.exponent then d.digits * Nat.pow 10 d.exponent.toNat < decimalLimit
  else d.digits < decimalLimit * Nat.pow 10 (-d.exponent).toNat

/-- Whether a text writes a number that is not an integer, an infinity or no number at all
(`.nan`). -/
def isFloat (text : String) : Bool :=
  let cs := text.toList
  let unsigned := withoutPlus cs
  let isNegative := unsigned.head? == some '-' && cs == unsigned
  let magnitude := if isNegative then unsigned.drop 1 else unsigned
  [".inf", ".Inf", ".INF"].contains (String.ofList unsigned)
    || ["-.inf", "-.Inf", "-.INF", ".nan", ".NaN", ".NAN"].contains text
    || (decimal? magnitude).any (·.isFinite)

/-! ## Meanings -/

/-- What a plain scalar means. -/
inductive Meaning where
  | null
  | bool
  | natural (n : Nat)
  | negative (magnitude : Nat)
  | float
  | text
  deriving Repr, DecidableEq

/-- The integer that a text writes, if it fits in 128 bits. -/
def integer? (text : String) : Option Meaning :=
  match natural? text, negative? text with
  | some n, _ => if n < Nat.pow 2 128 then some (.natural n) else none
  | none, some n => if n ≤ Nat.pow 2 127 then some (.negative n) else none
  | none, none => none

/-- Whether a text is digits, with a sign or without, of which the first is idle. -/
def isIdleNumber (text : String) : Bool :=
  match text.toList with
  | '-' :: cs | '+' :: cs => hasIdleZero cs
  | cs => hasIdleZero cs

/-- What a plain scalar without a tag means. -/
def meaning (text : String) : Meaning :=
  if text.isEmpty || isNull text then .null
  else if isBool text then .bool
  else match integer? text with
    | some m => m
    | none => if !isIdleNumber text && isFloat text then .float else .text

end Leasehold.Yaml.Scalar

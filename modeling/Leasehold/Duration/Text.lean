import Leasehold.Duration
import Leasehold.Text.Blank

/-!
# Duration.Text — spans of time as people write them

A written span is a row of amounts, each a number and a unit: `1h 30m`, `90sec`,
`1.5s`. `parse?` adds the amounts up; `render` writes a span as the fewest
amounts, the largest unit first; `describe` writes it as one decimal number of
the largest unit below it, seconds at most.
-/

namespace Leasehold.Duration

/-- A unit of time: its spellings and its length. -/
structure TimeUnit where
  spellings : List String
  nanos : Nat
  deriving Repr

/-- The units, the smallest first. A month is 30.44 days and a year 365.25 days. -/
def units : List TimeUnit :=
  [⟨["nanos", "nsec", "ns"], 1⟩,
   ⟨["usec", "us", "µs"], 1_000⟩,
   ⟨["millis", "msec", "ms"], 1_000_000⟩,
   ⟨["seconds", "second", "secs", "sec", "s"], 1_000_000_000⟩,
   ⟨["minutes", "minute", "min", "mins", "m"], 60 * 1_000_000_000⟩,
   ⟨["hours", "hour", "hrs", "hr", "h"], 3600 * 1_000_000_000⟩,
   ⟨["days", "day", "d"], 86400 * 1_000_000_000⟩,
   ⟨["weeks", "week", "wks", "wk", "w"], 604800 * 1_000_000_000⟩,
   ⟨["months", "month", "M"], 2630016 * 1_000_000_000⟩,
   ⟨["years", "year", "yrs", "yr", "y"], 31557600 * 1_000_000_000⟩]

/-- The unit with a spelling. -/
def unit? (name : String) : Option TimeUnit := units.find? (·.spellings.contains name)

/-! ## Reading -/

/-- A number below 2^64, as every step of reading an amount must stay. -/
def word? (n : Nat) : Option Nat := if n < UInt64.size then some n else none

/-- A letter that a unit may have in its spelling. -/
def isUnitLetter (c : Char) : Bool :=
  ('a' ≤ c && c ≤ 'z') || ('A' ≤ c && c ≤ 'Z') || c == 'µ'

/-- The digits after a decimal point, as a numerator over a power of ten. -/
structure Fraction where
  numerator : Nat
  denominator : Nat

/-- Adds to a total as many units as the whole part and the fraction say. Sub-second units are
counted in nanoseconds and the others in seconds, and each count stays below 2^64. A fraction has
to be a whole number of nanoseconds, and a nanosecond has none. -/
def addAmount (total whole : Nat) (fraction : Option Fraction) (u : TimeUnit) : Option Nat := do
  let part ← if u.nanos < 1_000_000_000 then word? (whole * u.nanos)
    else (word? (whole * (u.nanos / 1_000_000_000))).map (· * 1_000_000_000)
  let sum ← plus total part (u.nanos < 1_000_000_000)
  match fraction with
  | none => return sum
  | some f =>
    let scaled ← word? (f.numerator * u.nanos)
    if u.nanos = 1 || scaled % f.denominator != 0 then none
    else plus sum (scaled / f.denominator) true
where
  /-- The sum of a total and a part, which fits if the part does in its own count. -/
  plus (total part : Nat) (small : Bool) : Option Nat :=
    if small && !(total % 1_000_000_000 + part < UInt64.size) then none
    else if total + part < limit then some (total + part) else none

/-- Reads the digits after a decimal point, up to the unit; blanks between them do not count.
There is at least one. -/
def readFraction (numerator denominator : Nat) : List Char → Option (Fraction × List Char)
  | [] => if denominator = 1 then none else some (⟨numerator, denominator⟩, [])
  | c :: rest => do
    if c.isDigit then
      let numerator ← word? (10 * numerator + (c.toNat - '0'.toNat))
      let denominator ← word? (10 * denominator)
      readFraction numerator denominator rest
    else if Text.isBlank c then readFraction numerator denominator rest
    else if isUnitLetter c && denominator != 1 then return (⟨numerator, denominator⟩, c :: rest)
    else none

/-- Reads the rest of a number whose first digits are `n`, up to the unit; blanks between
digits do not count. -/
def readNumber (n : Nat) : List Char → Option ((Nat × Option Fraction) × List Char)
  | [] => some ((n, none), [])
  | c :: rest => do
    if c.isDigit then
      let n ← word? (10 * n + (c.toNat - '0'.toNat))
      readNumber n rest
    else if Text.isBlank c then readNumber n rest
    else if isUnitLetter c then return ((n, none), c :: rest)
    else if c == '.' then
      let (f, rest) ← readFraction 0 1 rest
      return ((n, some f), rest)
    else none

/-- Reads the spans that follow a total, after the blanks before the next number. A number
starts with a digit; its unit ends at a blank, at the next digit or with the text. -/
def readAmounts : Nat → Nat → List Char → Option Nat
  | 0, _, _ => none
  | _ + 1, total, [] => some total
  | fuel + 1, total, c :: rest =>
    if Text.isBlank c then readAmounts fuel total rest
    else if c.isDigit then do
      let ((n, f), rest) ← readNumber (c.toNat - '0'.toNat) rest
      let name := rest.takeWhile isUnitLetter
      let rest := rest.dropWhile isUnitLetter
      let u ← unit? (String.ofList name)
      let total ← addAmount total n f u
      match rest with
      | [] => return total
      | c :: _ => if c.isDigit || Text.isBlank c then readAmounts fuel total rest else none
    else none

/-- The span that a text writes: a lone `0`, or one amount or more. -/
def parse? (text : String) : Option Duration :=
  let cs := text.toList
  if cs = ['0'] then some zero
  else if cs.all Text.isBlank then none
  else (readAmounts (cs.length + 1) 0 cs).bind ofNanos?

/-! ## Writing -/

/-- An amount of a unit with a plural, or nothing for none of it. -/
def countNoun (name : String) (n : Nat) : List String :=
  if n = 0 then [] else [toString n ++ name ++ (if n = 1 then "" else "s")]

/-- An amount of a unit written by its symbol, or nothing for none of it. -/
def countSymbol (symbol : String) (n : Nat) : List String :=
  if n = 0 then [] else [toString n ++ symbol]

/-- A span as the fewest amounts, the largest unit first; the empty span is `0s`. -/
def render (d : Duration) : String :=
  let s := d.wholeSeconds
  let n := d.subsecNanos
  let parts := countNoun "year" (s / 31557600)
    ++ countNoun "month" (s % 31557600 / 2630016)
    ++ countNoun "day" (s % 31557600 % 2630016 / 86400)
    ++ countSymbol "h" (s % 31557600 % 2630016 % 86400 / 3600)
    ++ countSymbol "m" (s % 31557600 % 2630016 % 86400 % 3600 / 60)
    ++ countSymbol "s" (s % 31557600 % 2630016 % 86400 % 60)
    ++ countSymbol "ms" (n / 1_000_000)
    ++ countSymbol "us" (n / 1_000 % 1_000)
    ++ countSymbol "ns" (n % 1_000)
  if d.isZero then "0s" else " ".intercalate parts

/-- The digits of a fraction with `places` places, without the zeros at its end. -/
def fractionDigits (places part : Nat) : String :=
  let digits := Nat.toDigits 10 part
  let padded := List.replicate (places - digits.length) '0' ++ digits
  String.ofList (padded.reverse.dropWhile (· == '0')).reverse

/-- A whole number and a part of 10^`places`, as a decimal with a unit behind it. -/
def decimal (whole part places : Nat) (symbol : String) : String :=
  if part = 0 then toString whole ++ symbol
  else toString whole ++ "." ++ fractionDigits places part ++ symbol

/-- A span as one decimal number of seconds, milliseconds, microseconds or nanoseconds. -/
def describe (d : Duration) : String :=
  if 1_000_000_000 ≤ d.nanos then decimal d.wholeSeconds d.subsecNanos 9 "s"
  else if 1_000_000 ≤ d.nanos then decimal (d.nanos / 1_000_000) (d.nanos % 1_000_000) 6 "ms"
  else if 1_000 ≤ d.nanos then decimal (d.nanos / 1_000) (d.nanos % 1_000) 3 "µs"
  else decimal d.nanos 0 0 "ns"

end Leasehold.Duration

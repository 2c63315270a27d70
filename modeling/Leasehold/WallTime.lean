/-!
# WallTime — readings of the calendar clock

A reading counts nanoseconds since the first second of 1970, before it too. The
calendar reaches from the year -262143 to the year 262142.
-/

namespace Leasehold

/-- A reading of the calendar clock. -/
structure WallTime where
  nanos : Int
  deriving Repr, DecidableEq, Inhabited

namespace WallTime

/-- The first and the last millisecond of the calendar. -/
def firstMillis : Int := -8334601228800000
def lastMillis : Int := 8210266876799999

/-- The reading at a millisecond of the calendar. -/
def ofMillis? (ms : Int) : Option WallTime :=
  if firstMillis ≤ ms ∧ ms ≤ lastMillis then some ⟨ms * 1_000_000⟩ else none

/-- The milliseconds that have passed, rounded down. -/
def millis (t : WallTime) : Int := t.nanos / 1_000_000

/-- The seconds that have passed, rounded down. -/
def seconds (t : WallTime) : Int := t.nanos / 1_000_000_000

/-- The low 32 bits of the seconds. -/
def bootSeconds (t : WallTime) : UInt32 := UInt32.ofNat (t.seconds % 0x1_0000_0000).toNat

/-- The nanoseconds as a word, or zero where sixty-four signed bits do not hold them. -/
def stamp (t : WallTime) : UInt64 :=
  if -0x8000_0000_0000_0000 ≤ t.nanos ∧ t.nanos < 0x8000_0000_0000_0000 then
    UInt64.ofNat (t.nanos % 0x1_0000_0000_0000_0000).toNat
  else 0

/-- The reading some nanoseconds later. -/
def addNanos (t : WallTime) (n : Nat) : WallTime := ⟨t.nanos + n⟩

/-! ## The calendar -/

/-- The year, month and day of a day counted from the first of 1970. Years are counted from
March, so that the day that comes and goes is the last of its year. -/
def civilDate (day : Int) : Int × Nat × Nat :=
  let shifted := day + 719468
  let era := shifted / 146097
  let dayOfEra := (shifted % 146097).toNat
  let yearOfEra := (dayOfEra - dayOfEra / 1460 + dayOfEra / 36524 - dayOfEra / 146096) / 365
  let dayOfYear := dayOfEra - (365 * yearOfEra + yearOfEra / 4 - yearOfEra / 100)
  let shiftedMonth := (5 * dayOfYear + 2) / 153
  let dayOfMonth := dayOfYear - (153 * shiftedMonth + 2) / 5 + 1
  let month := if shiftedMonth < 10 then shiftedMonth + 3 else shiftedMonth - 9
  let year := (yearOfEra : Int) + era * 400
  (if month ≤ 2 then year + 1 else year, month, dayOfMonth)

/-- A number with zeros in front, up to a width. -/
def zeroPadded (width n : Nat) : String :=
  let digits := Nat.toDigits 10 n
  String.ofList (List.replicate (width - digits.length) '0' ++ digits)

/-- A year has four digits; one that needs more, or is before zero, bears its sign. -/
def yearText (year : Int) : String :=
  if year < 0 then "-" ++ zeroPadded 4 year.natAbs
  else if year ≤ 9999 then zeroPadded 4 year.natAbs
  else "+" ++ zeroPadded 4 year.natAbs

/-- The date and the time of day to the second. -/
def toText (t : WallTime) : String :=
  let (year, month, day) := civilDate (t.seconds / 86400)
  let second := (t.seconds % 86400).toNat
  yearText year ++ "-" ++ zeroPadded 2 month ++ "-" ++ zeroPadded 2 day ++ " "
    ++ zeroPadded 2 (second / 3600) ++ ":" ++ zeroPadded 2 (second / 60 % 60) ++ ":"
    ++ zeroPadded 2 (second % 60) ++ " UTC"

end WallTime

end Leasehold

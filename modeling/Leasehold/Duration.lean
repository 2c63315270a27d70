/-!
# Duration — spans of time

A span is a whole number of nanoseconds below 2^64 seconds. Sums and multiples
that leave that range are no span, so every operation that can leave it answers
an option.
-/

namespace Leasehold

/-- The least number of nanoseconds that is too many. -/
def Duration.limit : Nat := UInt64.size * 1_000_000_000

/-- A span of time. -/
structure Duration where
  nanos : Nat
  /-- The seconds fit in sixty-four bits. -/
  nanos_lt : nanos < Duration.limit := by decide
  deriving DecidableEq, Repr

namespace Duration

def zero : Duration := ⟨0, by decide⟩

instance : Inhabited Duration := ⟨zero⟩

/-- The span of so many nanoseconds, if it is in range. -/
def ofNanos? (n : Nat) : Option Duration :=
  if h : n < limit then some ⟨n, h⟩ else none

/-- The span of so many seconds. -/
def ofSeconds (s : UInt64) : Duration where
  nanos := s.toNat * 1_000_000_000
  nanos_lt := by
    have := s.toNat_lt
    unfold limit UInt64.size
    omega

/-- The span of so many milliseconds. -/
def ofMillis (ms : UInt64) : Duration where
  nanos := ms.toNat * 1_000_000
  nanos_lt := by
    have := ms.toNat_lt
    unfold limit UInt64.size
    omega

/-- The whole seconds of a span. -/
def wholeSeconds (d : Duration) : Nat := d.nanos / 1_000_000_000

/-- The whole milliseconds of a span. -/
def wholeMillis (d : Duration) : Nat := d.nanos / 1_000_000

/-- The nanoseconds left over from the whole seconds. -/
def subsecNanos (d : Duration) : Nat := d.nanos % 1_000_000_000

def isZero (d : Duration) : Bool := d.nanos == 0

/-- A multiple of a span, if it is in range. -/
def times? (d : Duration) (k : Nat) : Option Duration := ofNanos? (d.nanos * k)

theorem ofNanos?_eq_some_iff {n : Nat} {d : Duration} : ofNanos? n = some d ↔ d.nanos = n := by
  unfold ofNanos?
  split
  · constructor
    · intro h
      exact (congrArg Duration.nanos (Option.some.inj h)).symm
    · intro h
      cases d
      simp_all
  · rename_i h
    constructor
    · intro h'
      cases h'
    · intro h'
      exact absurd (h' ▸ d.nanos_lt) h

end Duration

end Leasehold

/-!
# Stripes — how many stripes a set of locks is divided into

Locks are striped over a power of two, so that a stripe is chosen by the low bits
of a hash. Counts that do not fit in sixty-four bits are none.
-/

namespace Leasehold.Stripes

/-- A count that fits in a word. -/
def word? (n : Nat) : Option Nat := if n < UInt64.size then some n else none

/-- The least power of two that is not below a positive number: the only one between the number and
its double. -/
def leastPower (n : Nat) : Nat := Nat.pow 2 (2 * n - 1).log2

/-- The stripes of a set that asks for at least `n`: the least power of two, from one up, that
is not below. -/
def count? (n : Nat) : Option Nat := word? (leastPower (max n 1))

/-- The stripes for so many workers: four for each, at least four. -/
def forWorkers? (workers : Nat) : Option Nat := do
  let wanted ← word? (4 * max workers 1)
  count? wanted

end Leasehold.Stripes

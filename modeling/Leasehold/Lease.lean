import Leasehold.Duration

/-!
# Lease — how long a client lives without being heard of

The server's clock counts nanoseconds, a lease whole milliseconds from its start,
wherever between two milliseconds of the clock that was. Renewing a lease moves its
end to one lease time from now, and never back.
-/

namespace Leasehold

/-- The lease of one client. -/
structure Lease where
  time : Duration
  /-- The reading of the server's clock, in nanoseconds, at the start. -/
  start : Nat
  /-- The end, in milliseconds since the start. -/
  expiry : UInt64
  deriving Repr, DecidableEq, Inhabited

namespace Lease

/-- The whole milliseconds since the start. -/
def elapsed (l : Lease) (now : Nat) : UInt64 := UInt64.ofNat ((now - l.start) / 1_000_000)

/-- Whether the end is still to come. -/
def isValid (l : Lease) (now : Nat) : Bool := l.elapsed now < l.expiry

/-- The end that a renewal would set. -/
def renewedExpiry (l : Lease) (now : Nat) : UInt64 :=
  l.elapsed now + UInt64.ofNat l.time.wholeMillis

/-- Moves the end to one lease time from now, unless it is later already. -/
def renew (l : Lease) (now : Nat) : Lease :=
  { l with expiry := if l.expiry < l.renewedExpiry now then l.renewedExpiry now else l.expiry }

/-- A lease that starts now. -/
def new (time : Duration) (now : Nat) : Lease :=
  ({ time, start := now, expiry := 0 } : Lease).renew now

end Lease

end Leasehold

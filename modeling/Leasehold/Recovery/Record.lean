import Leasehold.Error
import Leasehold.Text.Utf8
import Leasehold.WallTime

/-!
# Recovery.Record — what is remembered of a client

A record says when a client owner was first seen. On disk the time is a signed
number of milliseconds in eight octets, the highest first.
-/

namespace Leasehold.Recovery

/-- The record of one client owner. -/
structure Record where
  owner : Bytes
  firstSeen : WallTime
  /-- The client belongs to the server before this one and has not reclaimed. -/
  recovering : Bool
  deriving Repr, DecidableEq

/-- The order of the octets of owners. -/
def ownerLe : Bytes → Bytes → Bool
  | [], _ => true
  | _ :: _, [] => false
  | a :: as, b :: bs => if a = b then ownerLe as bs else a < b

/-- The eight octets of a time on disk. -/
def encodeTime (t : WallTime) : Bytes :=
  let word := (t.millis % 0x1_0000_0000_0000_0000).toNat
  (List.range 8).map fun i => UInt8.ofNat (word / Nat.pow 256 (7 - i))

/-- The signed number that octets write, the highest octet first. -/
def signedOfBytes (bytes : Bytes) : Int :=
  let n : Nat := bytes.foldl (fun n b => 256 * n + b.toNat) 0
  if n < 0x8000_0000_0000_0000 then (n : Int) else (n : Int) - 0x1_0000_0000_0000_0000

/-- The time that an owner's octets on disk write. -/
def decodeTime (owner value : Bytes) : Except RecoveryError WallTime :=
  if value.length = 8 then
    match WallTime.ofMillis? (signedOfBytes value) with
    | some t => .ok t
    | none => .error (.corrupted (Text.Utf8.decodeLossy owner) "timestamp out of range")
  else .error (.corrupted (Text.Utf8.decodeLossy owner) "timestamp is not 8 bytes")

end Leasehold.Recovery

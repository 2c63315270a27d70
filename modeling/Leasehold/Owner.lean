import Leasehold.Error

/-!
# Owner — open owners and lock owners

An owner is a name that a client gives. Clients without sessions number the
requests of each owner, and only the next number is accepted; for the others the
slots of their sessions see to that.
-/

namespace Leasehold

/-- An owner of opens or locks. -/
structure Owner where
  client : ClientId
  name : Bytes
  /-- The client has sessions, so its owners need no numbers. -/
  sessionBased : Bool
  /-- The number of the last request that was accepted. -/
  seqid : UInt32
  deriving Repr, DecidableEq, Inhabited

namespace Owner

/-- Owners are told apart by their names alone. -/
def sameName (a b : Owner) : Bool := a.name == b.name

/-- Accepts a request number if it follows the last one; the number after the largest is zero. -/
def accept (o : Owner) (seqid : UInt32) : Except Error Owner :=
  if o.sessionBased then .ok o
  else if seqid = o.seqid + 1 then .ok { o with seqid }
  else .error (.badSeqid (o.seqid + 1) seqid)

end Owner

end Leasehold

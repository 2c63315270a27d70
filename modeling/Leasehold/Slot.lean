import Leasehold.Error

/-!
# Slot — one place of a session's reply cache

A slot remembers the number of the last request it let through, and its reply
once there is one. The same number again is a retransmission and is answered from
the cache; the next number is a new request; any other is out of order.
-/

namespace Leasehold

/-- A slot of a session. -/
structure Slot where
  id : UInt32
  /-- The number of the last request that was let through. -/
  sequence : UInt32
  /-- The reply to that request, once there is one. -/
  reply : Option Bytes
  deriving Repr, DecidableEq, Inhabited

/-- What becomes of a request that a slot accepts. -/
inductive Admission where
  /-- It is new and is to be carried out. -/
  | execute
  /-- It was carried out before, with this reply. -/
  | replay (reply : Bytes)
  /-- It was let through before and has no reply yet. -/
  | replayUncached
  deriving Repr, DecidableEq

namespace Slot

/-- A slot that has let nothing through. -/
def new (id : UInt32) : Slot := ⟨id, 0, none⟩

/-- Presents a request number to a slot. -/
def acquire (s : Slot) (sequence : UInt32) : Except Error (Admission × Slot) :=
  if sequence = s.sequence then
    match s.reply with
    | some reply => .ok (.replay reply, s)
    | none => .ok (.replayUncached, s)
  else if sequence = s.sequence + 1 then .ok (.execute, { s with sequence, reply := none })
  else .error (.seqMisordered (s.sequence + 1) sequence)

/-- Remembers the reply to the last request. -/
def update (s : Slot) (reply : Bytes) : Slot := { s with reply := some reply }

end Slot

end Leasehold

import Leasehold.Slot
import Leasehold.SocketAddress
import Leasehold.Table

/-!
# Session — slots and connections of a client with sessions

The number of slots is fixed when a session is made; a slot comes into being when
it is first asked for. A session to which connections are bound may be destroyed
only through one of them.
-/

namespace Leasehold

/-- A transport connection, known by its two ends. -/
structure Connection where
  near : SocketAddress
  far : SocketAddress
  deriving Repr, DecidableEq, Inhabited

/-- The far end, then the near one. -/
def Connection.toText (c : Connection) : String := c.far.toText ++ " <-> " ++ c.near.toText

/-- The limits of a session's channels. -/
structure ChannelAttributes where
  /-- The slots of the reply cache. -/
  maxRequests : UInt32
  /-- The most operations in one request. -/
  maxOperations : UInt32
  /-- The most operations in one callback. -/
  maxCallbackOperations : UInt32
  /-- The program number of callbacks. -/
  callbackProgram : UInt32
  deriving Repr, DecidableEq, Inhabited

/-- A session. -/
structure Session where
  id : SessionId
  client : ClientId
  attributes : ChannelAttributes
  /-- The slots that were asked for. -/
  slots : Table UInt32 Slot
  /-- The largest number of a slot that was asked for. -/
  highestUsedSlot : UInt32
  /-- The connections bound to the session. -/
  bound : List Connection
  deriving Inhabited

namespace Session

/-- A session that nobody used yet. -/
def new (id : SessionId) (client : ClientId) (attributes : ChannelAttributes) : Session :=
  ⟨id, client, attributes, .empty, 0, []⟩

/-- The largest slot number; there is at least one slot. -/
def highestSlot (s : Session) : UInt32 :=
  if s.attributes.maxRequests = 0 then 0 else s.attributes.maxRequests - 1

/-- The slot with a number in range, fresh if it was never asked for. -/
def slotAt (s : Session) (id : UInt32) : Slot := (s.slots.get? id).getD (.new id)

/-- Puts a slot back under its number, which counts as asking for it. -/
def putSlot (s : Session) (id : UInt32) (slot : Slot) : Session :=
  { s with
    slots := s.slots.insert id slot
    highestUsedSlot := if s.highestUsedSlot < id then id else s.highestUsedSlot }

/-- Asks for a slot. -/
def slot (s : Session) (id : UInt32) : Except Error (Slot × Session) :=
  if s.highestSlot < id then .error (.badSlot id s.highestSlot)
  else .ok (s.slotAt id, s.putSlot id (s.slotAt id))

/-- Presents a request number to a slot. The slot counts as used even if it refuses. -/
def acquire (s : Session) (id sequence : UInt32) : Except Error Admission × Session :=
  match s.slot id with
  | .error e => (.error e, s)
  | .ok (slot, s) =>
    match slot.acquire sequence with
    | .error e => (.error e, s)
    | .ok (admission, slot) => (.ok admission, s.putSlot id slot)

/-- Remembers the reply to the last request on a slot. -/
def reply (s : Session) (id : UInt32) (data : Bytes) : Except Error Session :=
  (s.slot id).map fun (slot, s) => s.putSlot id (slot.update data)

/-- Refuses a request with more operations than were agreed on. -/
def checkCompound (s : Session) (operations : UInt32) : Except Error Unit :=
  if s.attributes.maxOperations < operations then
    .error (.tooManyOps operations s.attributes.maxOperations)
  else .ok ()

/-- Whether a connection is bound to the session. -/
def isBoundTo (s : Session) (c : Connection) : Bool := s.bound.contains c

/-- Binds a connection. -/
def bind (s : Session) (c : Connection) : Session :=
  if s.isBoundTo c then s else { s with bound := s.bound ++ [c] }

/-- Binds a connection if none is bound. -/
def bindIfNone (s : Session) (c : Connection) : Session :=
  if s.bound.isEmpty then s.bind c else s

/-- Unbinds a connection. -/
def unbind (s : Session) (c : Connection) : Session := { s with bound := s.bound.filter (· != c) }

/-- Whether the session may be destroyed through a connection. -/
def isReleasableBy (s : Session) (c : Connection) : Bool := s.bound.isEmpty || s.isBoundTo c

end Session

end Leasehold

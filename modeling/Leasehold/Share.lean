/-!
# Share — share reservations

Who opens a file says which access it takes (reading is bit 0, writing bit 1)
and which access it denies to others. Two reservations conflict when one takes
what the other denies.
-/

namespace Leasehold

/-- The access that a reservation takes and the access that it denies, as bits. -/
structure ShareMode where
  access : UInt32
  deny : UInt32
  deriving Repr, DecidableEq, Inhabited

namespace ShareMode

/-- The bit of reading. -/
def readBit : UInt32 := 1

/-- The bit of writing. -/
def writeBit : UInt32 := 2

/-- The mode that an OPEN asks for. Only the low eight bits of its access say what it takes; the
others say which delegation it would like. -/
def ofRequest (access deny : UInt32) : ShareMode := ⟨access &&& 0xFF, deny⟩

/-- Whether two reservations cannot stand beside one another. -/
def conflictsWith (a b : ShareMode) : Bool :=
  a.access &&& b.deny != 0 || a.deny &&& b.access != 0

/-- Whether a mode takes and denies nothing that another does not. -/
def isSubsetOf (a b : ShareMode) : Bool :=
  a.access &&& ~~~b.access == 0 && a.deny &&& ~~~b.deny == 0

/-- The mode that takes and denies what either does. -/
def union (a b : ShareMode) : ShareMode := ⟨a.access ||| b.access, a.deny ||| b.deny⟩

theorem conflictsWith_comm (a b : ShareMode) : a.conflictsWith b = b.conflictsWith a := by
  simp only [conflictsWith, UInt32.and_comm a.access, UInt32.and_comm a.deny]
  exact Bool.or_comm ..

end ShareMode

/-- The bit that records the value `mode` in a set of values below 32; a larger value leaves no
mark. -/
def seenBit (mode : UInt32) : UInt32 := if mode < 32 then 1 <<< mode else 0

/-- The access values and the deny values that a reservation was ever granted with. -/
structure SeenModes where
  access : UInt32
  deny : UInt32
  deriving Repr, DecidableEq, Inhabited

namespace SeenModes

/-- Only the values of one mode. -/
def ofMode (mode : ShareMode) : SeenModes := ⟨seenBit mode.access, seenBit mode.deny⟩

/-- The values of one mode more. -/
def add (seen : SeenModes) (mode : ShareMode) : SeenModes :=
  ⟨seen.access ||| seenBit mode.access, seen.deny ||| seenBit mode.deny⟩

/-- Whether an access value was granted before. -/
def hasAccess (seen : SeenModes) (access : UInt32) : Bool := seen.access &&& seenBit access != 0

/-- Whether a deny value was granted before. -/
def hasDeny (seen : SeenModes) (deny : UInt32) : Bool := seen.deny &&& seenBit deny != 0

end SeenModes

end Leasehold

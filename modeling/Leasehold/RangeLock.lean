import Leasehold.Ident

/-!
# RangeLock — one byte-range lock

A lock covers the bytes from its offset up to, and without, its stop. A length of
2^64 - 1 means "to the end of the file", and a stop never passes 2^64 - 1.
-/

namespace Leasehold

/-- Whether a lock shares its bytes with other readers. -/
inductive LockKind where
  | read | write
  deriving Repr, DecidableEq, Inhabited

def LockKind.toText : LockKind → String
  | read => "Read"
  | write => "Write"

/-- Who holds a lock: a client, and the name it gives to one of its lock owners. -/
structure LockOwner where
  client : ClientId
  name : Bytes
  deriving Repr, DecidableEq, Inhabited

/-- A lock that is asked for or held. -/
structure RangeLock where
  owner : LockOwner
  kind : LockKind
  offset : UInt64
  length : UInt64
  deriving Repr, DecidableEq, Inhabited

namespace RangeLock

/-- The length that means "to the end of the file". -/
def toEnd : UInt64 := 0xFFFFFFFFFFFFFFFF

/-- The lock on every byte of a file. -/
def everything (owner : LockOwner) : RangeLock := ⟨owner, .write, 0, toEnd⟩

/-- The first byte behind the range, at most 2^64 - 1. -/
def stop (l : RangeLock) : UInt64 :=
  if l.length = toEnd then toEnd
  else UInt64.ofNat (min (l.offset.toNat + l.length.toNat) (UInt64.size - 1))

/-- The byte lies in the range. -/
def Covers (l : RangeLock) (byte : Nat) : Prop := l.offset.toNat ≤ byte ∧ byte < l.stop.toNat

instance (l : RangeLock) (byte : Nat) : Decidable (l.Covers byte) :=
  inferInstanceAs (Decidable (_ ∧ _))

/-- Whether two ranges reach into one another. -/
def overlaps (a b : RangeLock) : Bool := a.offset < b.stop && b.offset < a.stop

/-- Whether one owner holds both. -/
def sameOwner (a b : RangeLock) : Bool := a.owner == b.owner

/-- Whether a lock held by someone else stands in the way: the ranges overlap and one of the two
is for writing. -/
def conflictsWith (a b : RangeLock) : Bool :=
  !a.sameOwner b && a.overlaps b && (a.kind == .write || b.kind == .write)

/-- The kind, the range and the client. -/
def toText (l : RangeLock) : String :=
  l.kind.toText ++ " lock [" ++ toString l.offset.toNat ++ ", " ++ toString l.stop.toNat
    ++ ") of client " ++ l.owner.client.toText

theorem toNat_stop (l : RangeLock) :
    l.stop.toNat = if l.length = toEnd then UInt64.size - 1
      else min (l.offset.toNat + l.length.toNat) (UInt64.size - 1) := by
  unfold stop
  split
  · rfl
  · rw [UInt64.toNat_ofNat_of_lt' (by simp only [UInt64.size]; omega)]

end RangeLock

end Leasehold

import Leasehold.Error
import Leasehold.Table

/-!
# LockTable — the byte-range locks held on every file

A file's locks are a list without overlap among the locks of one owner. A new
lock takes the place of whatever its owner held in the range and goes to the end
of the list; an unlock may leave a front and a back of a lock. A file without
locks has no entry.
-/

namespace Leasehold

namespace RangeLock

/-- The parts of a held lock that lie outside a range: what is before it and what is behind it. A
lock to the end of the file keeps that length behind the range. -/
def subtract (held range : RangeLock) : List RangeLock :=
  if held.overlaps range then
    (if held.offset < range.offset then
      [{ held with length := range.offset - held.offset }]
    else [])
    ++ (if range.stop < held.stop then
      [{ held with
          offset := range.stop
          length := if held.length = toEnd then toEnd else held.stop - range.stop }]
    else [])
  else [held]

/-- What is left of a list of locks once the owner of `range` holds nothing in it. -/
def carve (held : List RangeLock) (range : RangeLock) : List RangeLock :=
  held.flatMap fun l => if l.sameOwner range then l.subtract range else [l]

end RangeLock

/-- The locks on every file. -/
structure LockTable where
  files : Table FileId (List RangeLock)
  deriving Inhabited

namespace LockTable

def empty : LockTable := ⟨.empty⟩

/-- The locks on a file, in the order in which they came to stand. -/
def locks (t : LockTable) (file : FileId) : List RangeLock := (t.files.get? file).getD []

/-- The first lock on a file that stands in the way of another. -/
def conflict? (t : LockTable) (file : FileId) (l : RangeLock) : Option RangeLock :=
  (t.locks file).find? l.conflictsWith

/-- Sets the locks of a file; a file left without locks is forgotten. -/
def setLocks (t : LockTable) (file : FileId) (locks : List RangeLock) : LockTable :=
  ⟨if locks.isEmpty then t.files.erase file else t.files.insert file locks⟩

/-- Grants a lock if nothing stands in its way. -/
def lock (t : LockTable) (file : FileId) (l : RangeLock) : Except LockError LockTable :=
  match t.conflict? file l with
  | some conflicting => .error (.denied conflicting)
  | none => .ok (t.setLocks file (RangeLock.carve (t.locks file) l ++ [l]))

/-- Takes the range from its owner, who must hold some of it. -/
def unlock (t : LockTable) (file : FileId) (l : RangeLock) : Except LockError LockTable :=
  if (t.locks file).any (fun held => held.sameOwner l && held.overlaps l) then
    .ok (t.setLocks file (RangeLock.carve (t.locks file) l))
  else .error (.rangeUnavailable l)

/-- Says whether a lock would be granted. -/
def test (t : LockTable) (file : FileId) (l : RangeLock) : Except LockError Unit :=
  match t.conflict? file l with
  | some conflicting => .error (.denied conflicting)
  | none => .ok ()

/-- Takes the range from its owner, who need not hold any of it. -/
def unlockIfHeld (t : LockTable) (file : FileId) (l : RangeLock) : Except LockError LockTable :=
  match t.unlock file l with
  | .error (.rangeUnavailable _) => .ok t
  | answer => answer

theorem locks_setLocks (t : LockTable) (file : FileId) (ls : List RangeLock) (other : FileId) :
    (t.setLocks file ls).locks other = if file = other then ls else t.locks other := by
  unfold setLocks locks
  by_cases h : ls.isEmpty
  · simp only [h, if_true, Table.get?_erase]
    split
    · simp_all
    · rfl
  · simp only [h, Bool.false_eq_true, if_false, Table.get?_insert]
    split <;> rfl

end LockTable

end Leasehold

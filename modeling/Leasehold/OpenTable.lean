import Leasehold.Error
import Leasehold.Ledger
import Leasehold.Share
import Leasehold.Table

/-!
# OpenTable — who has which file open

Every open of a file is known by its client and its open owner, and holds a share
reservation. An open is let in unless it conflicts with one of somebody else
whose lease is still valid; the same owner's next open widens the one it has. A
downgrade goes back to access and deny values that were granted before. A file
without opens has no entry.
-/

namespace Leasehold

/-- One open of a file. -/
structure OpenRecord where
  client : ClientNo
  clientId : ClientId
  /-- The name of the open owner. -/
  owner : Bytes
  state : StateNo
  key : StateKey
  mode : ShareMode
  /-- The modes that the open was ever granted with. -/
  seen : SeenModes
  deriving Repr, DecidableEq, Inhabited

namespace OpenRecord

/-- Whether the open is the one of a client and an owner. -/
def isOf (r : OpenRecord) (client : ClientId) (owner : Bytes) : Bool :=
  r.clientId == client && r.owner == owner

/-- Whether the open is a state of a client. -/
def isState (r : OpenRecord) (client : ClientId) (key : StateKey) : Bool :=
  r.clientId == client && r.key == key

/-- The open widened by one more mode. -/
def widen (r : OpenRecord) (mode : ShareMode) : OpenRecord :=
  { r with mode := r.mode.union mode, seen := r.seen.add mode }

end OpenRecord

/-- Why an open cannot be downgraded. -/
inductive DowngradeFault where
  | unknownOpen
  | emptyAccess
  | notSubset (asked held : ShareMode)
  | accessNeverGranted (access : UInt32)
  | denyNeverGranted (deny : UInt32)
  deriving Repr, DecidableEq

/-- A set of bits as the messages write it. -/
private def bitsText (bits : UInt32) : String := Text.Hex.marked bits.toNat

/-- No access was asked for. -/
def Error.emptyAccess : Error := .invalid "share access must not be empty"

/-- The refusal of a downgrade of the open with an identifier. -/
def DowngradeFault.toError (id : StateId) : DowngradeFault → Error
  | unknownOpen => .badStateId id
  | emptyAccess => .emptyAccess
  | notSubset asked held =>
    .invalid ("downgrade to access " ++ bitsText asked.access ++ " deny " ++ bitsText asked.deny
      ++ " is not a subset of access " ++ bitsText held.access ++ " deny " ++ bitsText held.deny)
  | accessNeverGranted access =>
    .invalid ("share access " ++ bitsText access ++ " was never granted")
  | denyNeverGranted deny => .invalid ("share deny " ++ bitsText deny ++ " was never granted")

/-- The opens of every file. -/
structure OpenTable where
  files : Table FileId (List OpenRecord)
  deriving Inhabited

namespace OpenTable

def empty : OpenTable := ⟨.empty⟩

/-- The opens of a file, oldest first. -/
def opens (t : OpenTable) (file : FileId) : List OpenRecord := (t.files.get? file).getD []

/-- Whether a file is open. -/
def hasOpens (t : OpenTable) (file : FileId) : Bool := t.files.contains file

/-- How many files are open. -/
def size (t : OpenTable) : Nat := t.files.size

/-- Sets the opens of a file; a file left without opens is forgotten. -/
def setOpens (t : OpenTable) (file : FileId) (opens : List OpenRecord) : OpenTable :=
  ⟨if opens.isEmpty then t.files.erase file else t.files.insert file opens⟩

/-- The first open of somebody else, with a valid lease, that a mode conflicts with. -/
def conflict? (t : OpenTable) (file : FileId) (leaseValid : ClientNo → Bool) (client : ClientId)
    (owner : Bytes) (mode : ShareMode) : Option OpenRecord :=
  (t.opens file).find? fun r =>
    !r.isOf client owner && r.mode.conflictsWith mode && leaseValid r.client

/-- The open of a client and an owner. -/
def openOf? (t : OpenTable) (file : FileId) (client : ClientId) (owner : Bytes) :
    Option OpenRecord :=
  (t.opens file).find? (·.isOf client owner)

/-- The open that is a state of a client. -/
def openState? (t : OpenTable) (file : FileId) (client : ClientId) (key : StateKey) :
    Option OpenRecord :=
  (t.opens file).find? (·.isState client key)

/-- Changes the first open that passes a test. -/
def amendFirst (p : OpenRecord → Bool) (f : OpenRecord → OpenRecord) :
    List OpenRecord → List OpenRecord
  | [] => []
  | r :: rest => if p r then f r :: rest else r :: amendFirst p f rest

/-- Widens the open of a client and an owner. -/
def widen (t : OpenTable) (file : FileId) (client : ClientId) (owner : Bytes) (mode : ShareMode) :
    OpenTable :=
  t.setOpens file (amendFirst (·.isOf client owner) (·.widen mode) (t.opens file))

/-- Adds an open behind the others. -/
def add (t : OpenTable) (file : FileId) (r : OpenRecord) : OpenTable :=
  t.setOpens file (t.opens file ++ [r])

/-- Gives the open that is a state of a client a mode that it was granted before. -/
def downgrade (t : OpenTable) (file : FileId) (client : ClientId) (key : StateKey)
    (mode : ShareMode) : Except DowngradeFault (StateNo × OpenTable) :=
  match t.openState? file client key with
  | none => .error .unknownOpen
  | some r =>
    if mode.access = 0 then .error .emptyAccess
    else if !mode.isSubsetOf r.mode then .error (.notSubset mode r.mode)
    else if !r.seen.hasAccess mode.access then .error (.accessNeverGranted mode.access)
    else if !r.seen.hasDeny mode.deny then .error (.denyNeverGranted mode.deny)
    else .ok (r.state,
      t.setOpens file (amendFirst (·.isState client key) ({ · with mode }) (t.opens file)))

/-- Forgets the first open with a key, whoever's it is. -/
def remove? (t : OpenTable) (file : FileId) (key : StateKey) : Option OpenTable :=
  if (t.opens file).any (·.key == key) then
    some (t.setOpens file ((t.opens file).eraseP (·.key == key)))
  else none

theorem opens_setOpens (t : OpenTable) (file : FileId) (rs : List OpenRecord) (other : FileId) :
    (t.setOpens file rs).opens other = if file = other then rs else t.opens other := by
  unfold setOpens opens
  by_cases h : rs.isEmpty
  · simp only [h, if_true, Table.get?_erase]
    split
    · simp_all
    · rfl
  · simp only [h, Bool.false_eq_true, if_false, Table.get?_insert]
    split <;> rfl

end OpenTable

end Leasehold

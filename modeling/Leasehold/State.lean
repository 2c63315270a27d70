import Leasehold.Error
import Leasehold.Ledger

/-!
# State — what a client holds

A state is an open, a byte-range lock, a layout, a delegation or a copy. Work may
be owed when it ends: the open is to be forgotten, the locks of an owner are to
go, the lock states derived from an open are to end with it. The steps of that
work are run in the order in which they were added, and each until it succeeded
once.
-/

namespace Leasehold

/-- A step of the work that is owed when a state ends. -/
inductive ReleaseStep where
  /-- Forget the open of a file that the state stands for. -/
  | forgetOpen (file : FileId)
  /-- Take every lock on a file from an owner. -/
  | unlockAll (file : FileId) (holder : LockOwner)
  /-- End a state derived from this one and take it from its client. -/
  | endDerived (state : StateNo) (client : ClientNo)
  /-- Tell an observer, who refuses the next so many times. -/
  | notify (label : String) (refusals : Nat)
  deriving Repr, DecidableEq

/-- A state. -/
structure HeldState where
  id : StateId
  owner : OwnerNo
  /-- The open that the state is derived from. -/
  parent : Option StateNo
  confirmed : Bool
  /-- The state has ended; nothing more is owed. -/
  disposed : Bool
  /-- The work that is owed, in order. -/
  owed : List ReleaseStep
  deriving Repr, DecidableEq, Inhabited

namespace HeldState

/-- A state that nothing was done to. -/
def new (id : StateId) (owner : OwnerNo) (parent : Option StateNo) : HeldState :=
  ⟨id, owner, parent, false, false, []⟩

/-- Whether the state is derived from another. -/
def isDerived (s : HeldState) : Bool := s.parent.isSome

def confirm (s : HeldState) : HeldState := { s with confirmed := true }

/-- Counts one more change. -/
def bump (s : HeldState) : HeldState := { s with id := s.id.bump }

/-- Adds a step behind the others. -/
def owe (s : HeldState) (step : ReleaseStep) : HeldState := { s with owed := s.owed ++ [step] }

/-- Ends the state; whatever is still owed is dropped. -/
def finish (s : HeldState) : HeldState := { s with disposed := true, owed := [] }

end HeldState

/-- Refuses an identifier that was never issued or is superseded. -/
def StateId.check (current given : StateId) : Except Error Unit :=
  match current.standing given with
  | .current => .ok ()
  | .unissued => .error (.badStateId given)
  | .superseded => .error (.oldStateId given current.seqid)

end Leasehold

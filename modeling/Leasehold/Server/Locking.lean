import Leasehold.Server.Grace
import Leasehold.Server.Opening

/-!
# Server.Locking — byte-range locks of clients

The first lock of a lock owner on a file makes a lock state, derived from the
open that the owner uses; later ones name that state. The open's access decides
which locks may be had. Ending a lock state takes every lock its owner has on the
file; ending the open ends the lock states derived from it.
-/

namespace Leasehold

/-- Where the lock state of a request comes from. -/
inductive Locker where
  /-- A lock owner's first lock, through an open. -/
  | newOwner (openId : StateId) (openSeqid : UInt32) (owner : Bytes) (lockSeqid : UInt32)
  /-- A lock state that there is already. -/
  | existing (lockId : StateId) (lockSeqid : UInt32)
  deriving Repr, DecidableEq

/-- A range of bytes and how it is to be locked. -/
structure LockRequest where
  kind : LockKind
  offset : UInt64
  length : UInt64
  deriving Repr, DecidableEq

namespace LockRequest

/-- The lock that the request asks for, for an owner. -/
def toLock (r : LockRequest) (owner : LockOwner) : RangeLock := ⟨owner, r.kind, r.offset, r.length⟩

/-- The range is not empty and ends within 2^64 - 1, or reaches to the end of the file. -/
def checkRange (r : LockRequest) : Except Error Unit :=
  if r.length = 0 then .error (.invalid "lock length must not be zero")
  else if r.length ≠ RangeLock.toEnd ∧ UInt64.size ≤ r.offset.toNat + r.length.toNat then
    .error (.invalid ("lock range " ++ toString r.offset.toNat ++ "+" ++ toString r.length.toNat
      ++ " overflows"))
  else .ok ()

/-- The bit of access that an open needs for the request. -/
def neededAccess (r : LockRequest) : UInt32 :=
  match r.kind with
  | .read => ShareMode.readBit
  | .write => ShareMode.writeBit

end LockRequest

namespace Request

/-- Renews the lease of a client without sessions; the others renew theirs with every request. -/
def renewIfSessionless (client : ClientNo) : Request Unit := do
  if ((← get).client client).isSessionBased then pure () else renewLease client

/-- The open that the given state, or the state it is derived from, stands for has the access that
a lock needs. -/
def checkOpenMode (client : ClientNo) (file : FileId) (lockState : StateNo) (r : LockRequest) :
    Request Unit := do
  let s ← get
  let openState := (s.state lockState).parent.getD lockState
  let mode ← shareMode client file (s.state openState).id
  if mode.access &&& r.neededAccess = 0 then throw .openMode else pure ()

/-- Makes the lock state of a lock owner, derived from an open. -/
def makeLockState (client : ClientNo) (file : FileId) (openId : StateId) (openSeqid : UInt32)
    (name : Bytes) (lockSeqid : UInt32) : Request StateNo := do
  let openState ← currentStateOf client openId
  acceptSeqid ((← get).state openState).owner openSeqid
  let owner ← ownerNamed client name lockSeqid
  let lockState ← createState client owner .byteLock (some openState)
  owe lockState (.unlockAll file ⟨((← get).client client).id, name⟩)
  owe openState (.endDerived lockState client)
  pure lockState

/-- The lock state of a request, and whether it was made for it. -/
def lockStateFor (client : ClientNo) (file : FileId) : Locker → Request (StateNo × Bool)
  | .newOwner openId openSeqid owner lockSeqid => do
    let no ← makeLockState client file openId openSeqid owner lockSeqid
    pure (no, true)
  | .existing lockId lockSeqid => do
    let no ← currentStateOf client lockId
    acceptSeqid ((← get).state no).owner lockSeqid
    pure (no, false)

/-- The owner of locks that a lock state stands for. -/
def lockOwnerOf (client : ClientNo) (lockState : StateNo) : Request LockOwner := do
  let s ← get
  pure ⟨(s.client client).id, (s.owner (s.state lockState).owner).name⟩

/-- Locks a range, and answers the identifier of the lock state. If the lock is refused, a state
made for it is released again. -/
def lock (client : ClientNo) (file : FileId) (r : LockRequest) (reclaim : Bool)
    (locker : Locker) : Request StateId := do
  ofExcept r.checkRange
  checkGrace client reclaim
  renewIfSessionless client
  let (lockState, isNew) ← lockStateFor client file locker
  let owner ← lockOwnerOf client lockState
  tryCatch
    (do
      checkOpenMode client file lockState r
      updateLocks .lock (·.lock file (r.toLock owner)))
    (fun e => do
      if isNew then
        tryCatch (releaseState client ((← get).state lockState).id) (fun _ => pure ())
      throw e)
  bumpState lockState

/-- Unlocks a range, whether it is locked or not, and answers the identifier of the lock state. -/
def unlock (client : ClientNo) (file : FileId) (lockId : StateId) (seqid : UInt32)
    (r : LockRequest) : Request StateId := do
  ofExcept r.checkRange
  renewIfSessionless client
  let lockState ← currentStateOf client lockId
  acceptSeqid ((← get).state lockState).owner seqid
  let owner ← lockOwnerOf client lockState
  updateLocks .unlock (·.unlockIfHeld file (r.toLock owner))
  bumpState lockState

/-- Says whether a range could be locked for a lock owner. -/
def testLock (client : ClientNo) (file : FileId) (owner : Bytes) (r : LockRequest) :
    Request Unit := do
  ofExcept r.checkRange
  renewIfSessionless client
  let id := ((← get).client client).id
  askLocks .test (·.test file (r.toLock ⟨id, owner⟩))

end Request

end Leasehold

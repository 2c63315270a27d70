import Leasehold.RangeLock

/-!
# Error — why a request is refused

Every refusal has one cause. The cause decides its class, the status number that
goes on the wire and the message, so whoever answers a request never has to ask
what went wrong underneath.
-/

namespace Leasehold

/-- Why the backing file store refuses a call; each cause names what it concerns. -/
inductive FileStoreError where
  | notFound (what : String)
  | permissionDenied (what : String)
  | notPermitted (what : String)
  | alreadyExists (what : String)
  | notDirectory (what : String)
  | isDirectory (what : String)
  | io (what : String)
  deriving Repr, DecidableEq

def FileStoreError.message : FileStoreError → String
  | notFound what => "Not found: " ++ what
  | permissionDenied what => "Permission denied: " ++ what
  | notPermitted what => "Operation not permitted: " ++ what
  | alreadyExists what => "Already exists: " ++ what
  | notDirectory what => "Not a directory: " ++ what
  | isDirectory what => "Is a directory: " ++ what
  | io what => "I/O error: " ++ what

/-- The name of the cause. -/
def FileStoreError.name : FileStoreError → String
  | notFound _ => "NotFound"
  | permissionDenied _ => "PermissionDenied"
  | notPermitted _ => "NotPermitted"
  | alreadyExists _ => "Exists"
  | notDirectory _ => "NotDirectory"
  | isDirectory _ => "IsDirectory"
  | io _ => "Io"

/-- Why the store of client records refuses a call. -/
inductive RecoveryError where
  | database (what : String)
  /-- The record of an owner, given as text, does not hold a time. -/
  | corrupted (owner reason : String)
  | closed
  deriving Repr, DecidableEq

def RecoveryError.message : RecoveryError → String
  | database what => "Database error: " ++ what
  | corrupted owner reason => "Corrupted record for client owner " ++ owner ++ ": " ++ reason
  | closed => "Recovery store is closed"

/-- The name of the cause. -/
def RecoveryError.name : RecoveryError → String
  | database _ => "Database"
  | corrupted .. => "Corrupted"
  | closed => "Closed"

/-- Why the lock table refuses a call. -/
inductive LockError where
  /-- A lock of another owner stands in the way. -/
  | denied (conflicting : RangeLock)
  /-- The owner holds nothing in the range. -/
  | rangeUnavailable (asked : RangeLock)
  | backend (what : String)
  deriving Repr, DecidableEq

def LockError.message : LockError → String
  | denied conflicting => "Lock denied by " ++ conflicting.toText
  | rangeUnavailable asked => "Range not locked: " ++ asked.toText
  | backend what => "Lock manager failure: " ++ what

/-- The name of the cause. -/
def LockError.name : LockError → String
  | denied _ => "Denied"
  | rangeUnavailable _ => "RangeUnavailable"
  | backend _ => "Backend"

/-- Why a request is refused. -/
inductive Error where
  | staleClientId (id : ClientId)
  | expired (id : ClientId)
  | badSession
  | badStateId (id : StateId)
  | staleStateId (id : StateId)
  | oldStateId (given : StateId) (current : UInt32)
  | badSeqid (expected given : UInt32)
  | seqMisordered (expected given : UInt32)
  | retryUncachedReply (slot : UInt32)
  | badSlot (slot highest : UInt32)
  | shareDenied (holder : StateId) (access deny : UInt32)
  | lockDenied (conflicting : RangeLock)
  | lockRange (what : String)
  | openMode
  | tooManyOps (requested max : UInt32)
  | invalid (what : String)
  | grace
  | noGrace
  | reclaimBad
  | completeAlready
  | clientInUse
  | connNotBoundToSession
  | delay
  | fileStore (cause : FileStoreError)
  | recovery (cause : RecoveryError)
  | notRunning
  | serverFault (what : String)
  deriving Repr, DecidableEq

/-- The classes of causes. -/
inductive ErrorKind where
  | staleIdentity | sequence | conflict | resource | grace | invalid | storage | internal
  deriving Repr, DecidableEq

/-- The name of the class. -/
def ErrorKind.name : ErrorKind → String
  | staleIdentity => "StaleIdentity"
  | sequence => "Sequence"
  | conflict => "Conflict"
  | resource => "Resource"
  | grace => "Grace"
  | invalid => "Invalid"
  | storage => "Storage"
  | internal => "Internal"

namespace Error

/-- The name of the cause, short as the protocol has it. -/
def name : Error → String
  | staleClientId _ => "StaleClientId"
  | expired _ => "Expired"
  | badSession => "BadSession"
  | badStateId _ => "BadStateId"
  | staleStateId _ => "StaleStateId"
  | oldStateId .. => "OldStateId"
  | badSeqid .. => "BadSeqid"
  | seqMisordered .. => "SeqMisordered"
  | retryUncachedReply _ => "RetryUncachedReply"
  | badSlot .. => "BadSlot"
  | shareDenied .. => "ShareDenied"
  | lockDenied _ => "LockDenied"
  | lockRange _ => "LockRange"
  | openMode => "OpenMode"
  | tooManyOps .. => "TooManyOps"
  | invalid _ => "Inval"
  | grace => "Grace"
  | noGrace => "NoGrace"
  | reclaimBad => "ReclaimBad"
  | completeAlready => "CompleteAlready"
  | clientInUse => "ClidInUse"
  | connNotBoundToSession => "ConnNotBoundToSession"
  | delay => "Delay"
  | fileStore _ => "FileStore"
  | recovery _ => "Recovery"
  | notRunning => "NotRunning"
  | serverFault _ => "ServerFault"

def kind : Error → ErrorKind
  | staleClientId _ | expired _ | badSession | badStateId _ | staleStateId _ => .staleIdentity
  | oldStateId .. | badSeqid .. | seqMisordered .. | retryUncachedReply _ => .sequence
  | shareDenied .. | lockDenied _ | clientInUse => .conflict
  | badSlot .. | tooManyOps .. | delay => .resource
  | grace | noGrace | reclaimBad | completeAlready => .grace
  | lockRange _ | openMode | invalid _ | connNotBoundToSession => .invalid
  | fileStore _ => .storage
  | recovery _ | notRunning | serverFault _ => .internal

/-- The status number of the protocol. -/
def status : Error → Nat
  | staleClientId _ => 10022
  | expired _ => 10011
  | badSession => 10052
  | badStateId _ => 10025
  | staleStateId _ => 10023
  | oldStateId .. => 10024
  | badSeqid .. => 10026
  | seqMisordered .. => 10063
  | retryUncachedReply _ => 10068
  | badSlot .. => 10053
  | shareDenied .. => 10015
  | lockDenied _ => 10010
  | lockRange _ => 10028
  | openMode => 10038
  | tooManyOps .. => 10070
  | invalid _ => 22
  | grace => 10013
  | noGrace => 10033
  | reclaimBad => 10034
  | completeAlready => 10054
  | clientInUse => 10017
  | connNotBoundToSession => 10055
  | delay => 10008
  | fileStore (.notFound _) => 2
  | fileStore (.permissionDenied _) => 13
  | fileStore (.notPermitted _) => 1
  | fileStore (.alreadyExists _) => 17
  | fileStore (.notDirectory _) => 20
  | fileStore (.isDirectory _) => 21
  | fileStore (.io _) => 5
  | recovery _ | notRunning | serverFault _ => 10006

/-- A number as the messages write it. -/
private def num (n : UInt32) : String := toString n.toNat

/-- A set of bits as the messages write it. -/
private def bits (n : UInt32) : String := Text.Hex.marked n.toNat

def message : Error → String
  | staleClientId id => "Stale client id: " ++ id.toText
  | expired id => "Lease of client " ++ id.toText ++ " expired"
  | badSession => "Unknown session"
  | badStateId id => "Bad state id: " ++ id.toText
  | staleStateId id => "State id " ++ id.toText ++ " was issued by a previous server instance"
  | oldStateId given current =>
    "Old state id: " ++ given.toText ++ " (current seqid " ++ num current ++ ")"
  | badSeqid expected given =>
    "Bad owner seqid: expected " ++ num expected ++ ", got " ++ num given
  | seqMisordered expected given =>
    "Misordered sequence: expected " ++ num expected ++ ", got " ++ num given
  | retryUncachedReply slot => "Retransmission on slot " ++ num slot ++ " with no cached reply"
  | badSlot slot highest =>
    "Slot " ++ num slot ++ " out of range (highest slot " ++ num highest ++ ")"
  | shareDenied holder access deny =>
    "Share reservation conflict with open " ++ holder.toText ++ " (access " ++ bits access
      ++ ", deny " ++ bits deny ++ ")"
  | lockDenied conflicting =>
    "Byte-range lock denied, conflicting lock " ++ conflicting.toText
  | lockRange what => "Lock range not held: " ++ what
  | openMode => "Open mode does not permit requested operation"
  | tooManyOps requested max =>
    "Too many operations in compound: " ++ num requested ++ " (max " ++ num max ++ ")"
  | invalid what => "Invalid argument: " ++ what
  | grace => "Server is in grace period"
  | noGrace => "Reclaim outside of grace period"
  | reclaimBad => "Reclaim not expected from this client"
  | completeAlready => "Reclaim already completed"
  | clientInUse => "Client owner already in use by another principal"
  | connNotBoundToSession => "Connection not bound to session"
  | delay => "Resource temporarily unavailable"
  | fileStore cause => "File store error: " ++ cause.message
  | recovery cause => "Recovery store error: " ++ cause.message
  | notRunning => "State handler is not running"
  | serverFault what => "Server fault: " ++ what

/-- The refusal that a refusal of the lock table becomes. -/
def ofLock : LockError → Error
  | .denied conflicting => lockDenied conflicting
  | .rangeUnavailable asked => lockRange asked.toText
  | .backend what => serverFault what

end Error

end Leasehold

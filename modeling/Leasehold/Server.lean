import Leasehold.Client
import Leasehold.Config
import Leasehold.LockTable
import Leasehold.OpenTable
import Leasehold.Owner
import Leasehold.Recovery
import Leasehold.Session

/-!
# Server — everything that one server knows

A server has the records of all clients, owners, states and sessions it ever
made, and tables that say which of them count: the registered clients, the opens
and the locks of every file. A request either answers or is refused; a refused
request may have changed the server all the same, and what it changed is part of
its meaning.
-/

namespace Leasehold

/-- What a server tells those who watch it. -/
inductive Notice where
  /-- An observer was told that a state ends; the state may be a derived one. -/
  | released (label : String) (id : StateId) (derived : Bool)
  /-- A client was asked for a sign of life. -/
  | pinged
  /-- A client was asked to give a delegation back. -/
  | recalled (file : FileId) (id : StateId) (truncate : Bool)
  deriving Repr, DecidableEq

/-- A notice on one line. -/
def Notice.toText : Notice → String
  | released label id _ => label ++ " " ++ id.toText
  | pinged => "ping"
  | recalled file id truncate =>
    "recall " ++ file.toText ++ " " ++ id.toText ++ " " ++ toString truncate

/-- The calls of the lock table. -/
inductive LockCall where
  | lock | unlock | test
  deriving Repr, DecidableEq

/-- The name of a call. -/
def LockCall.name : LockCall → String
  | lock => "lock"
  | unlock => "unlock"
  | test => "test"

/-- Every call. -/
def LockCall.all : List LockCall := [lock, unlock, test]

/-- The calls of the server's collaborators that fail at present, with the error of each. A
failing call has no effect. -/
structure Faults where
  store : List (Recovery.Call × RecoveryError) := []
  locks : List (LockCall × LockError) := []
  deriving Inhabited

/-- A server. -/
structure Server where
  config : Config
  ids : ClientIds
  running : Bool
  /-- The grace period was closed for good. -/
  graceOver : Bool
  /-- The clock of leases and timers, in nanoseconds. -/
  now : Nat
  wall : WallTime
  /-- When the next sweep is due, and when the end of the grace period is, if a timer runs for it. -/
  sweepDue : Option Nat
  graceDue : Option Nat
  clients : Ledger .client Client
  owners : Ledger .owner Owner
  states : Ledger .state HeldState
  sessions : Ledger .session Session
  /-- The clients that count. -/
  registered : Table ClientId ClientNo
  opens : OpenTable
  locks : LockTable
  store : Recovery.Store
  faults : Faults
  /-- What was told to those who watch, oldest first. -/
  notices : List Notice
  deriving Inhabited

/-- A request to a server: an answer or a refusal, and the server after it. -/
abbrev Request := ExceptT Error (StateM Server)

namespace Server

/-- A server that knows no client, made at a reading of the clock. -/
def new (config : Config) (store : Recovery.Store) (wall : WallTime) (now : Nat := 0) : Server where
  config
  ids := { bootSeconds := wall.bootSeconds, instanceId := config.instanceId }
  running := true
  graceOver := false
  now
  wall
  sweepDue := none
  graceDue := none
  clients := .empty
  owners := .empty
  states := .empty
  sessions := .empty
  registered := .empty
  opens := .empty
  locks := .empty
  store
  faults := {}
  notices := []

/-! ## Reading records -/

def client (s : Server) (no : ClientNo) : Client := s.clients.get no
def owner (s : Server) (no : OwnerNo) : Owner := s.owners.get no
def state (s : Server) (no : StateNo) : HeldState := s.states.get no
def session (s : Server) (no : SessionNo) : Session := s.sessions.get no

/-- Whether a client's lease is valid now. -/
def leaseValid (s : Server) (no : ClientNo) : Bool := (s.client no).isLeaseValid s.now

/-- The record registered for an owner. -/
def registeredFor? (s : Server) (owner : Bytes) : Option ClientNo :=
  s.registered.values.find? fun no => (s.client no).owner == owner

/-! ## Amending records -/

def amendClient (no : ClientNo) (f : Client → Client) (s : Server) : Server :=
  { s with clients := s.clients.modify no f }

def amendOwner (no : OwnerNo) (f : Owner → Owner) (s : Server) : Server :=
  { s with owners := s.owners.modify no f }

def amendState (no : StateNo) (f : HeldState → HeldState) (s : Server) : Server :=
  { s with states := s.states.modify no f }

def amendSession (no : SessionNo) (f : Session → Session) (s : Server) : Server :=
  { s with sessions := s.sessions.modify no f }

/-! ## Collaborators -/

/-- The answer of the store of client records to a call, which may be failing. -/
def callStore {α : Type} (s : Server) (call : Recovery.Call)
    (ask : Recovery.Store → Except RecoveryError α) : Except RecoveryError α :=
  match s.faults.store.lookup call with
  | some e => .error e
  | none => ask s.store

/-- The answer of the lock table to a call, which may be failing. -/
def callLocks {α : Type} (s : Server) (call : LockCall) (ask : LockTable → Except LockError α) :
    Except LockError α :=
  match s.faults.locks.lookup call with
  | some e => .error e
  | none => ask s.locks

/-- Tells those who watch. -/
def tell (notice : Notice) (s : Server) : Server := { s with notices := s.notices ++ [notice] }

end Server

namespace Request

/-- An answer or a refusal that changes nothing. -/
def ofExcept {α : Type} (answer : Except Error α) : Request α := ExceptT.mk (pure answer)

/-- Refuses unless the server runs. -/
def ensureRunning : Request Unit := do
  if (← get).running then pure () else throw .notRunning

/-- Asks the store of client records something. -/
def askStore {α : Type} (call : Recovery.Call) (ask : Recovery.Store → Except RecoveryError α) :
    Request α := do
  match (← get).callStore call ask with
  | .error e => throw (.recovery e)
  | .ok a => pure a

/-- Has the store of client records do something. -/
def updateStore (call : Recovery.Call)
    (update : Recovery.Store → Except RecoveryError Recovery.Store) : Request Unit := do
  let store ← askStore call update
  modify fun s => { s with store }

/-- Asks the lock table something. -/
def askLocks {α : Type} (call : LockCall) (ask : LockTable → Except LockError α) : Request α := do
  match (← get).callLocks call ask with
  | .error e => throw (.ofLock e)
  | .ok a => pure a

/-- Has the lock table do something. -/
def updateLocks (call : LockCall) (update : LockTable → Except LockError LockTable) :
    Request Unit := do
  let locks ← askLocks call update
  modify fun s => { s with locks }

end Request

end Leasehold

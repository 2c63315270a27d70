import Leasehold.Lease
import Leasehold.Ledger
import Leasehold.SocketAddress
import Leasehold.State
import Leasehold.Table
import Leasehold.WallTime

/-!
# Client — the record of one client

A client's record holds who it is, its lease, and the numbers of its sessions,
owners and states. Being confirmed and having reclaimed are never taken back, and
the counters that go into identifiers only go up.
-/

namespace Leasehold

/-- What a client presents when it registers. -/
structure Registration where
  /-- The name that the client keeps for life. -/
  owner : Bytes
  /-- Differs whenever the client has started anew. -/
  verifier : Verifier
  /-- Who the request is authenticated as. -/
  principal : String
  clientAddress : SocketAddress
  serverAddress : SocketAddress
  minorVersion : UInt32
  deriving Repr, DecidableEq, Inhabited

/-- The record of a client. -/
structure Client where
  id : ClientId
  registration : Registration
  /-- What the client has to present when it confirms. -/
  serverVerifier : Verifier
  lease : Lease
  confirmed : Bool
  /-- The client held state before this server started and has not finished reclaiming it. -/
  needReclaim : Bool
  reclaimCompleted : Bool
  /-- The client has ended. -/
  disposed : Bool
  /-- How many states and how many sessions were made, modulo 2^32. -/
  stateCounter : UInt32
  sessionCounter : UInt32
  /-- The client can be called back. -/
  hasCallback : Bool
  sessions : Table SessionId SessionNo
  owners : Table Bytes OwnerNo
  states : Table StateKey StateNo
  /-- The number that the next request for a session must bear. -/
  sessionSequence : UInt32
  deriving Inhabited

namespace Client

/-- The record of a client that registers now. -/
def new (id : ClientId) (registration : Registration) (leaseTime : Duration)
    (needReclaim : Bool) (now : Nat) (wall : WallTime) : Client where
  id
  registration
  serverVerifier := ⟨wall.stamp ^^^ id.value⟩
  lease := .new leaseTime now
  confirmed := false
  needReclaim
  reclaimCompleted := false
  disposed := false
  stateCounter := 0
  sessionCounter := 0
  hasCallback := false
  sessions := .empty
  owners := .empty
  states := .empty
  sessionSequence := 1

def owner (c : Client) : Bytes := c.registration.owner

/-- Clients of a minor version above zero have sessions. -/
def isSessionBased (c : Client) : Bool := 0 < c.registration.minorVersion

def confirm (c : Client) : Client := { c with confirmed := true }

def isLeaseValid (c : Client) (now : Nat) : Bool := c.lease.isValid now

/-- Renews the lease, even one that has ended. -/
def refreshLease (c : Client) (now : Nat) : Client := { c with lease := c.lease.renew now }

def hasState (c : Client) : Bool := !c.states.isEmpty

/-- Notes that the client has reclaimed what it held, which it may say once. -/
def completeReclaim (c : Client) : Except Error Client :=
  if c.reclaimCompleted then .error .completeAlready
  else .ok { c with reclaimCompleted := true, needReclaim := false }

/-- The identifier of the next state, and the record after it is taken. -/
def nextStateId (c : Client) (kind : StateKind) : StateId × Client :=
  let c := { c with stateCounter := c.stateCounter + 1 }
  (.ofParts c.id c.stateCounter kind, c)

/-- The identifier of the next session, and the record after it is taken. -/
def nextSessionId (c : Client) : SessionId × Client :=
  let c := { c with sessionCounter := c.sessionCounter + 1 }
  (.ofParts c.id c.sessionCounter, c)

/-- Attaches a state under its key, in the place of any that had it. -/
def attach (c : Client) (key : StateKey) (state : StateNo) : Client :=
  { c with states := c.states.insert key state }

/-- Detaches the state under a key. -/
def detach (c : Client) (key : StateKey) : Client := { c with states := c.states.erase key }

/-- The end of a client: its sessions, owners and callback go. -/
def finish (c : Client) : Client :=
  { c with sessions := .empty, owners := .empty, hasCallback := false, disposed := true }

end Client

end Leasehold

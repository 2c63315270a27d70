import Leasehold.Recovery.Record
import Leasehold.Table

/-!
# Recovery.Volatile — records that end with the server

A volatile store keeps the current clients only so that they can be looked at.
Nothing outlives the server, so no client ever has anything to reclaim.
-/

namespace Leasehold.Recovery

/-- The store: when each owner was first seen, and whether it was closed. -/
structure Volatile where
  clients : Table Bytes WallTime
  closed : Bool
  deriving Inhabited

namespace Volatile

def empty : Volatile := ⟨.empty, false⟩

/-- Answers only while the store is open. -/
def whileOpen {α : Type} (v : Volatile) (answer : α) : Except RecoveryError α :=
  if v.closed then .error .closed else .ok answer

def addClient (v : Volatile) (now : WallTime) (owner : Bytes) : Except RecoveryError Volatile :=
  v.whileOpen { v with clients := v.clients.insertNew owner now }

def removeClient (v : Volatile) (owner : Bytes) : Except RecoveryError Volatile :=
  v.whileOpen { v with clients := v.clients.erase owner }

def reclaimClient (v : Volatile) (_owner : Bytes) : Except RecoveryError Volatile := v.whileOpen v

def wantReclaim (v : Volatile) (_owner : Bytes) : Except RecoveryError Bool := v.whileOpen false

def waitingForReclaim (v : Volatile) : Except RecoveryError Bool := v.whileOpen false

def reclaimComplete (v : Volatile) : Except RecoveryError Volatile := v.whileOpen v

/-- The records, by owner. -/
def records (v : Volatile) : Except RecoveryError (List Record) :=
  v.whileOpen ((v.clients.entries.map fun (owner, firstSeen) => ⟨owner, firstSeen, false⟩).mergeSort
    fun a b => ownerLe a.owner b.owner)

def close (v : Volatile) : Volatile := { v with closed := true }

end Volatile

end Leasehold.Recovery

import Leasehold.Recovery.Durable
import Leasehold.Recovery.Volatile

/-!
# Recovery — the store of client records

A server keeps its records in a volatile store or in a durable one, and calls
both in the same way. `Call` names the calls that can be made to fail.
-/

namespace Leasehold.Recovery

/-- A store of one kind or the other. -/
inductive Store where
  | volatile (store : Volatile)
  | durable (store : Durable)

instance : Inhabited Store := ⟨.volatile default⟩

/-- The calls of a store. -/
inductive Call where
  | addClient | removeClient | reclaimClient | wantReclaim | waitingForReclaim | reclaimComplete
  | close
  deriving Repr, DecidableEq

/-- The name of a call. -/
def Call.name : Call → String
  | addClient => "add_client"
  | removeClient => "remove_client"
  | reclaimClient => "reclaim_client"
  | wantReclaim => "want_reclaim"
  | waitingForReclaim => "waiting_for_reclaim"
  | reclaimComplete => "reclaim_complete"
  | close => "close"

/-- Every call. -/
def Call.all : List Call :=
  [addClient, removeClient, reclaimClient, wantReclaim, waitingForReclaim, reclaimComplete, close]

namespace Store

/-- Records an owner as a client of this server; an earlier record of it stays. -/
def addClient (s : Store) (now : WallTime) (owner : Bytes) : Except RecoveryError Store :=
  match s with
  | volatile v => (v.addClient now owner).map volatile
  | durable d => (d.addClient now owner).map durable

/-- Forgets an owner. -/
def removeClient (s : Store) (owner : Bytes) : Except RecoveryError Store :=
  match s with
  | volatile v => (v.removeClient owner).map volatile
  | durable d => (d.removeClient owner).map durable

/-- Notes that an owner has reclaimed what it held. -/
def reclaimClient (s : Store) (owner : Bytes) : Except RecoveryError Store :=
  match s with
  | volatile v => (v.reclaimClient owner).map volatile
  | durable d => (d.reclaimClient owner).map durable

/-- Whether an owner held state before this server started and has not reclaimed it. -/
def wantReclaim (s : Store) (owner : Bytes) : Except RecoveryError Bool :=
  match s with
  | volatile v => v.wantReclaim owner
  | durable d => d.wantReclaim owner

/-- Whether some owner is still to reclaim. -/
def waitingForReclaim (s : Store) : Except RecoveryError Bool :=
  match s with
  | volatile v => v.waitingForReclaim
  | durable d => d.waitingForReclaim

/-- Gives up waiting for the owners that are still to reclaim. -/
def reclaimComplete (s : Store) : Except RecoveryError Store :=
  match s with
  | volatile v => v.reclaimComplete.map volatile
  | durable d => d.reclaimComplete.map durable

/-- All records: those of this server's clients, then those still to reclaim. -/
def records (s : Store) : Except RecoveryError (List Record) :=
  match s with
  | volatile v => v.records
  | durable d => d.records

/-- Closes the store; every later call but this one fails. -/
def close (s : Store) : Store :=
  match s with
  | volatile v => .volatile v.close
  | durable d => .durable d.close

/-- The store that the next server finds: a volatile one is empty, a durable one has staged its
records for reclaim. -/
def reopen (s : Store) : Store :=
  match s with
  | volatile _ => .volatile .empty
  | durable d => .durable (.openOn d.database)

end Store

end Leasehold.Recovery

import Leasehold.Server.Registry

/-!
# Server.Grace — reclaiming, expiry and the end of a server

After a restart the clients of the server before may reclaim what they held until
all have done so or the grace period is closed. A sweep ends every client whose
lease has ended. Shutting down ends all clients and keeps their records for
recovery.
-/

namespace Leasehold.Request

/-! ## The grace period -/

/-- Whether clients of the server before may still reclaim. -/
def inGrace : Request Bool := do
  ensureRunning
  if (← get).graceOver then pure false
  else askStore .waitingForReclaim (·.waitingForReclaim)

/-- Lets a request for new state or for reclaimed state through, or refuses it. Reclaiming is for
clients that the server before knew, during grace; new state has to wait for the end of grace or
until its client has reclaimed. -/
def checkGrace (client : ClientNo) (reclaim : Bool) : Request Unit := do
  let grace ← inGrace
  let c := (← get).client client
  if reclaim then
    if !grace || c.reclaimCompleted then throw .noGrace
    else if !c.needReclaim then throw .reclaimBad
    else pure ()
  else if grace && !c.reclaimCompleted then throw .grace
  else pure ()

/-- Whether the owner of a client held state before this server and has not reclaimed it. -/
def wantReclaim (client : ClientNo) : Request Bool := do
  ensureRunning
  let owner := ((← get).client client).owner
  askStore .wantReclaim (·.wantReclaim owner)

/-- Notes that a client has reclaimed what it held. -/
def reclaimComplete (client : ClientNo) : Request Unit := do
  ensureRunning
  completeReclaim client
  let owner := ((← get).client client).owner
  updateStore .reclaimClient (·.reclaimClient owner)
  let _ ← askStore .waitingForReclaim (·.waitingForReclaim)

/-- Closes the grace period for good. -/
def endGrace : Request Unit := do
  ensureRunning
  if (← get).graceOver then pure ()
  else do
    modify ({ · with graceOver := true })
    updateStore .reclaimComplete (·.reclaimComplete)

/-! ## Expiry -/

/-- Ends and unregisters clients, and forgets their records for recovery, whatever fails. Answers
how many left the table. -/
def evict : List ClientNo → Request Nat
  | [] => pure 0
  | client :: rest => do
    endClientLeniently client
    if ← unregister client then do
      let owner := ((← get).client client).owner
      tryCatch (updateStore .removeClient (·.removeClient owner)) (fun _ => pure ())
      let more ← evict rest
      pure (more + 1)
    else evict rest

/-- Ends every registered client whose lease has ended, and answers how many. -/
def sweep : Request Nat := do
  let s ← get
  if s.running then evict (s.registered.values.filter fun no => !s.leaseValid no)
  else pure 0

/-! ## Shutting down -/

/-- Ends clients one after the other whatever fails. -/
def endClients : List ClientNo → Request Unit
  | [] => pure ()
  | client :: rest => do
    endClientLeniently client
    endClients rest

/-- Stops the timers, ends every client and closes the store of client records. -/
def shutdown : Request Unit := do
  let s ← get
  if s.running then do
    set { s with running := false, sweepDue := none, graceDue := none, registered := .empty }
    endClients s.registered.values
    updateStore .close fun store => .ok store.close
  else pure ()

end Leasehold.Request

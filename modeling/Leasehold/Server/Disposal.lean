import Leasehold.Server

/-!
# Server.Disposal — how states and clients end

What is owed when a state ends is done step by step. A strict disposal stops at
the first step that fails, which then is the first one owed; a lenient one goes
on and drops what failed. Ending a state may end the states derived from it,
always strictly. A client ends after all its states, the derived ones first, and
among equals in the order of their keys.

A state is derived only from an older one, so a chain of derivation is never
longer than the ledger of states; that bounds the recursion.
-/

namespace Leasehold

namespace Server

/-- Forgets the open of a file with a key; it may have been forgotten before. -/
def forgetOpen (file : FileId) (key : StateKey) (s : Server) : Server :=
  match s.opens.remove? file key with
  | some opens => { s with opens }
  | none => s

end Server

namespace Request

/-- Does one step of what is owed for a state, where `endState` ends a derived one. -/
def releaseStep (endState : StateNo → Request Unit) (state : HeldState) : ReleaseStep → Request Unit
  | .forgetOpen file => modify (Server.forgetOpen file state.id.key)
  | .unlockAll file holder => updateLocks .unlock (·.unlockIfHeld file (.everything holder))
  | .endDerived derived client => do
    endState derived
    modify fun s => s.amendClient client (·.detach (s.state derived).id.key)
  | .notify label refusals => do
    modify (Server.tell (.released label state.id state.isDerived))
    if refusals = 0 then pure () else throw (.serverFault label)

end Request

/-- A step that failed has refused once more. -/
def ReleaseStep.afterFailure : ReleaseStep → ReleaseStep
  | .notify label refusals => .notify label (refusals - 1)
  | step => step

namespace Request

/-- Does the steps in order up to the first that fails, and leaves on the state what is owed from
then on: that step and the ones behind it. -/
def releaseStrictly (endState : StateNo → Request Unit) (no : StateNo) (state : HeldState) :
    List ReleaseStep → Request Unit
  | [] => modify (Server.amendState no .finish)
  | step :: rest =>
    tryCatch
      (do releaseStep endState state step)
      (fun e => do
        modify (Server.amendState no ({ · with owed := step.afterFailure :: rest }))
        throw e)
    >>= fun _ => releaseStrictly endState no state rest

/-- Does the steps in order, whether they fail or not. -/
def releaseLeniently (endState : StateNo → Request Unit) (no : StateNo) (state : HeldState) :
    List ReleaseStep → Request Unit
  | [] => modify (Server.amendState no .finish)
  | step :: rest => do
    tryCatch (releaseStep endState state step) (fun _ => pure ())
    releaseLeniently endState no state rest

/-- Ends a state, stopping at the first failure; chains of derived states are followed to a
depth. -/
def endStateWithin : Nat → StateNo → Request Unit
  | 0, _ => pure ()
  | depth + 1, no => do
    let state := (← get).state no
    if state.disposed then pure ()
    else releaseStrictly (endStateWithin depth) no state state.owed

/-- Ends a state, stopping at the first failure. A state that has ended stays as it is. -/
def endState (no : StateNo) : Request Unit := do
  endStateWithin (← get).states.size no

/-- Ends a state whatever fails. -/
def endStateLeniently (no : StateNo) : Request Unit := do
  let s ← get
  let state := s.state no
  if state.disposed then pure ()
  else releaseLeniently (endStateWithin s.states.size) no state state.owed

end Request

namespace Server

/-- The states of a client in the order in which they are to end: derived ones first. -/
def endingOrder (s : Server) (client : ClientNo) : List StateNo :=
  let held := ((s.client client).states.entries.mergeSort fun a b => a.1.le b.1).map Prod.snd
  held.filter (fun no => (s.state no).isDerived) ++ held.filter (fun no => !(s.state no).isDerived)

end Server

namespace Request

/-- Takes a state from its client. -/
def detachState (client : ClientNo) (state : StateNo) : Request Unit :=
  modify fun s => s.amendClient client (·.detach (s.state state).id.key)

/-- Ends states one after the other, each taken from the client once it has ended, up to the first
failure. -/
def endStatesOf (client : ClientNo) : List StateNo → Request Unit
  | [] => pure ()
  | state :: rest => do
    endState state
    detachState client state
    endStatesOf client rest

/-- Ends states one after the other whatever fails. -/
def endStatesLenientlyOf (client : ClientNo) : List StateNo → Request Unit
  | [] => pure ()
  | state :: rest => do
    endStateLeniently state
    detachState client state
    endStatesLenientlyOf client rest

/-- Ends a client and all it holds, stopping at the first failure. -/
def endClient (client : ClientNo) : Request Unit := do
  let s ← get
  if (s.client client).disposed then pure ()
  else do
    endStatesOf client (s.endingOrder client)
    modify (Server.amendClient client .finish)

/-- Ends a client and all it holds whatever fails. -/
def endClientLeniently (client : ClientNo) : Request Unit := do
  let s ← get
  if (s.client client).disposed then pure ()
  else do
    endStatesLenientlyOf client (s.endingOrder client)
    modify (Server.amendClient client .finish)

end Request

end Leasehold

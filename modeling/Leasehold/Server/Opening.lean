import Leasehold.Server.Holding

/-!
# Server.Opening — opens and their share reservations

Opening a file makes an open state, or widens the one that the same client and
owner have there. Ending an open state forgets the open.
-/

namespace Leasehold

/-- The identifiers of the opens of a file, oldest first. -/
def Server.openIds (s : Server) (file : FileId) : List StateId :=
  (s.opens.opens file).map fun r => (s.state r.state).id

namespace Request

/-- Opens a file for an owner of a client, and answers the identifier of the open. -/
def openFile (client : ClientNo) (owner : OwnerNo) (file : FileId) (access deny : UInt32) :
    Request StateId := do
  let mode := ShareMode.ofRequest access deny
  if mode.access = 0 then throw .emptyAccess
  else do
    let s ← get
    let id := (s.client client).id
    let name := (s.owner owner).name
    match s.opens.conflict? file s.leaseValid id name mode with
    | some r => throw (.shareDenied (s.state r.state).id r.mode.access r.mode.deny)
    | none =>
      match s.opens.openOf? file id name with
      | some r => do
        set { s with opens := s.opens.widen file id name mode }
        bumpState r.state
      | none => do
        let state ← createState client owner .share none
        owe state (.forgetOpen file)
        let stateId := ((← get).state state).id
        modify fun s => { s with
          opens := s.opens.add file ⟨client, id, name, state, stateId.key, mode, .ofMode mode⟩ }
        pure stateId

/-- Gives an open a mode that it was granted before. -/
def downgrade (client : ClientNo) (id : StateId) (file : FileId) (access deny : UInt32) :
    Request StateId := do
  let s ← get
  match s.opens.downgrade file (s.client client).id id.key (.ofRequest access deny) with
  | .error fault => throw (fault.toError id)
  | .ok (state, opens) => do
    set { s with opens }
    bumpState state

/-- Forgets an open. -/
def removeOpen (file : FileId) (id : StateId) : Request Unit := do
  let s ← get
  match s.opens.remove? file id.key with
  | some opens => set { s with opens }
  | none => throw (.badStateId id)

/-- The mode of an open of a client. -/
def shareMode (client : ClientNo) (file : FileId) (id : StateId) : Request ShareMode := do
  let s ← get
  match s.opens.openState? file (s.client client).id id.key with
  | some r => pure r.mode
  | none => throw (.badStateId id)

end Request

end Leasehold

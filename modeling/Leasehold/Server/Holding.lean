import Leasehold.Server.Disposal

/-!
# Server.Holding — owners, states and sessions of a client

These requests act on one client's record, whether it is registered or not.
-/

namespace Leasehold.Request

/-! ## Leases -/

/-- Renews a client's lease, even one that has ended. -/
def refreshLease (client : ClientNo) : Request Unit :=
  modify fun s => s.amendClient client (·.refreshLease s.now)

/-- Renews a client's lease if it has not ended. -/
def renewLease (client : ClientNo) : Request Unit := do
  let s ← get
  if s.leaseValid client then refreshLease client
  else throw (.expired (s.client client).id)

/-! ## Owners -/

/-- The owner of a client with a name; a new one starts with the given request number. -/
def ownerNamed (client : ClientNo) (name : Bytes) (seqid : UInt32) : Request OwnerNo := do
  let s ← get
  match (s.client client).owners.get? name with
  | some no => pure no
  | none => do
    let c := s.client client
    let no := s.owners.nextNo
    set { s with owners := s.owners.add ⟨c.id, name, c.isSessionBased, seqid⟩ }
    modify (Server.amendClient client fun c => { c with owners := c.owners.insert name no })
    pure no

/-- Forgets the name of an owner; states that have the owner keep it. -/
def releaseOwner (client : ClientNo) (name : Bytes) : Request Unit :=
  modify (Server.amendClient client fun c => { c with owners := c.owners.erase name })

/-- Has an owner accept a request number. -/
def acceptSeqid (owner : OwnerNo) (seqid : UInt32) : Request Unit := do
  let accepted ← ofExcept (((← get).owner owner).accept seqid)
  modify (Server.amendOwner owner fun _ => accepted)

/-! ## States -/

/-- Takes the identifier of a client's next state. -/
def takeStateId (client : ClientNo) (kind : StateKind) : Request StateId := do
  let s ← get
  let (id, c) := (s.client client).nextStateId kind
  set (s.amendClient client fun _ => c)
  pure id

/-- Writes a state into the ledger. -/
def recordState (state : HeldState) : Request StateNo := do
  let s ← get
  set { s with states := s.states.add state }
  pure s.states.nextNo

/-- Makes an unconfirmed state with a given identifier and attaches it to a client. -/
def attachState (client : ClientNo) (id : StateId) (owner : OwnerNo) (parent : Option StateNo) :
    Request StateNo := do
  let no ← recordState (.new id owner parent)
  modify (Server.amendClient client (·.attach id.key no))
  pure no

/-- Makes a state and attaches it to a client; a client with sessions need not confirm it. -/
def createState (client : ClientNo) (owner : OwnerNo) (kind : StateKind)
    (parent : Option StateNo) : Request StateNo := do
  let id ← takeStateId client kind
  let sessionBased := ((← get).client client).isSessionBased
  let no ← recordState { HeldState.new id owner parent with confirmed := sessionBased }
  modify (Server.amendClient client (·.attach id.key no))
  pure no

/-- The state of a client that an identifier names, whatever its sequence number. -/
def stateOf (client : ClientNo) (id : StateId) : Request StateNo := do
  match ((← get).client client).states.get? id.key with
  | some no => pure no
  | none => throw (.badStateId id)

/-- The state of a client that an identifier names, which must be current. -/
def currentStateOf (client : ClientNo) (id : StateId) : Request StateNo := do
  let no ← stateOf client id
  ofExcept (((← get).state no).id.check id)
  pure no

/-- Counts one more change of a state. -/
def bumpState (state : StateNo) : Request StateId := do
  modify (Server.amendState state .bump)
  pure ((← get).state state).id

/-- Adds a step to what is owed when a state ends. -/
def owe (state : StateNo) (step : ReleaseStep) : Request Unit :=
  modify (Server.amendState state (·.owe step))

/-- Ends a state of a client and forgets it; it stays if a step of its end fails. -/
def releaseState (client : ClientNo) (id : StateId) : Request Unit := do
  let no ← stateOf client id
  endState no
  modify (Server.amendClient client (·.detach id.key))

/-! ## Sessions -/

/-- Makes a session for a client if the request bears the expected number; the first one confirms
the client. -/
def makeSession (client : ClientNo) (sequence : UInt32) (attributes : ChannelAttributes) :
    Request SessionNo := do
  let s ← get
  let c := s.client client
  if sequence ≠ c.sessionSequence then throw (.seqMisordered c.sessionSequence sequence)
  else do
    let (id, c) := c.nextSessionId
    let no := s.sessions.nextNo
    set { s with sessions := s.sessions.add (.new id c.id attributes) }
    modify (Server.amendClient client fun _ =>
      { c.confirm with
        sessionSequence := c.sessionSequence + 1
        sessions := c.sessions.insert id no })
    pure no

/-- The session of a client with an identifier. -/
def sessionOf (client : ClientNo) (id : SessionId) : Request SessionNo := do
  match ((← get).client client).sessions.get? id with
  | some no => pure no
  | none => throw .badSession

/-- Takes a session from its client. -/
def removeSession (client : ClientNo) (id : SessionId) : Request SessionNo := do
  let no ← sessionOf client id
  modify (Server.amendClient client fun c => { c with sessions := c.sessions.erase id })
  pure no

/-- Remembers the reply to the last request on a slot. -/
def replyOn (session : SessionNo) (slot : UInt32) (data : Bytes) : Request Unit := do
  let answered ← ofExcept (((← get).session session).reply slot data)
  modify (Server.amendSession session fun _ => answered)

/-- Presents a request number to a slot; the slot counts as used even if it refuses. -/
def acquireSlot (session : SessionNo) (slot sequence : UInt32) : Request Admission := do
  let (answer, after) := ((← get).session session).acquire slot sequence
  modify (Server.amendSession session fun _ => after)
  ofExcept answer

/-! ## Reclaiming and callbacks -/

/-- Notes on a client's record that it has reclaimed what it held. -/
def completeReclaim (client : ClientNo) : Request Unit := do
  let c ← ofExcept ((← get).client client).completeReclaim
  modify (Server.amendClient client fun _ => c)

/-- Asks a client for a sign of life; it can be asked if it has a callback. -/
def ping (client : ClientNo) : Request Bool := do
  if ((← get).client client).hasCallback then do
    modify (Server.tell .pinged)
    pure true
  else pure false

/-- Asks a client to give a delegation back. -/
def takeBack (client : ClientNo) (file : FileId) (id : StateId) (truncate : Bool) :
    Request Bool := do
  if ((← get).client client).hasCallback then do
    modify (Server.tell (.recalled file id truncate))
    pure true
  else pure false

end Leasehold.Request

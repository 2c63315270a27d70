import Leasehold.Server.Holding

/-!
# Server.Registry — which clients count

A client registers under an owner token that it keeps for life. The same client
that asks again keeps its record; after a restart of the client, or when the old
record protects nothing, a new record takes the place of the old one. Every
registered owner is recorded for recovery.
-/

namespace Leasehold

/-- How a registration was resolved. -/
inductive Enrolment where
  /-- The owner had no record. -/
  | created
  /-- The owner keeps its record. -/
  | existing
  /-- A new record took the place of the owner's old one. -/
  | replaced
  deriving Repr, DecidableEq

/-- The name of an outcome. -/
def Enrolment.name : Enrolment → String
  | created => "Created"
  | existing => "Existing"
  | replaced => "Replaced"

/-- Whether the record of an owner serves a new registration of it. A record with state and a valid
lease is safe from other principals; one whose lease has ended never comes back to life. -/
def Client.serves (c : Client) (r : Registration) (now : Nat) : Except Error Bool :=
  let samePrincipal := c.registration.principal == r.principal
  if !samePrincipal && c.hasState && c.isLeaseValid now then .error .clientInUse
  else .ok (samePrincipal && c.isLeaseValid now && c.registration.verifier == r.verifier
    && !c.disposed)

namespace Request

/-- Takes a client out of the table if it is the one that stands there; says whether it was. -/
def unregister (client : ClientNo) : Request Bool := do
  let s ← get
  let id := (s.client client).id
  if s.registered.get? id = some client then do
    set { s with registered := s.registered.erase id }
    pure true
  else pure false

/-- Makes a record for a registration and puts it into the table. -/
def recordClient (r : Registration) (needReclaim : Bool) : Request ClientNo := do
  let s ← get
  let (id, ids) := s.ids.next
  let no := s.clients.nextNo
  set { s with
    ids
    clients := s.clients.add (.new id r s.config.leaseTime needReclaim s.now s.wall)
    registered := s.registered.insert id no }
  pure no

/-- Makes a new client, in the place of an old one if there is one, and records its owner for
recovery; without that record the new client does not count. -/
def enrolNew (r : Registration) (needReclaim : Bool) (old : Option ClientNo) :
    Request (Enrolment × ClientNo) := do
  let client ← recordClient r needReclaim
  match old with
  | some old => endClientLeniently old
  | none => pure ()
  let now := (← get).wall
  tryCatch (updateStore .addClient (·.addClient now r.owner)) fun e => do
    let _ ← unregister client
    throw e
  pure (if old.isSome then .replaced else .created, client)

/-- Resolves a registration; `reuse` allows the owner to keep its record. -/
def enrol (r : Registration) (reuse : Bool) : Request (Enrolment × ClientNo) := do
  ensureRunning
  let needReclaim ← askStore .wantReclaim (·.wantReclaim r.owner)
  let s ← get
  match s.registeredFor? r.owner with
  | none => enrolNew r needReclaim none
  | some old => do
    let serves ← ofExcept (if reuse then (s.client old).serves r s.now else .ok false)
    if serves then do
      refreshLease old
      pure (.existing, old)
    else do
      modify fun s => { s with registered := s.registered.erase (s.client old).id }
      enrolNew r needReclaim (some old)

/-- Registers a client. -/
def register (r : Registration) : Request (Enrolment × ClientNo) := enrol r true

/-- Makes a client; a record of its owner is replaced in any case. -/
def createClient (r : Registration) : Request ClientNo := do
  let (_, client) ← enrol r false
  pure client

/-! ## Looking up -/

/-- The registered client with an identifier. -/
def clientById (id : ClientId) : Request ClientNo := do
  ensureRunning
  match (← get).registered.get? id with
  | some no => pure no
  | none => throw (.staleClientId id)

/-- The registered client with an identifier, which must be confirmed. -/
def confirmedClient (id : ClientId) : Request ClientNo := do
  let no ← clientById id
  if ((← get).client no).confirmed then pure no else throw (.staleClientId id)

/-- The registered client with a session. -/
def clientBySession (id : SessionId) : Request ClientNo := do
  ensureRunning
  match (← get).registered.get? id.client with
  | some no => do
    let _ ← sessionOf no id
    pure no
  | none => throw .badSession

/-- The registered client that a state identifier names. An identifier of another server instance
is stale; one of this instance whose client is gone is bad. -/
def clientByStateId (id : StateId) : Request ClientNo := do
  ensureRunning
  let s ← get
  if s.ids.hasIssued id.key.client then
    match s.registered.get? id.key.client with
    | some no => pure no
    | none => throw (.badStateId id)
  else throw (.staleStateId id)

/-- The client registered for an owner. -/
def clientByOwner (owner : Bytes) : Request (Option ClientNo) := do
  ensureRunning
  pure ((← get).registeredFor? owner)

/-- The registered clients, oldest first. -/
def registeredClients : Request (List ClientNo) := do
  ensureRunning
  pure (← get).registered.values

/-! ## Confirming, renewing, removing -/

/-- Confirms a client that presents the verifier it was given. -/
def confirmClient (id : ClientId) (verifier : Verifier) : Request ClientNo := do
  let no ← clientById id
  if ((← get).client no).serverVerifier = verifier then do
    renewLease no
    modify (Server.amendClient no .confirm)
    pure no
  else throw (.staleClientId id)

/-- Renews the lease of the client whose confirmed and current state is named. -/
def renewByState (id : StateId) : Request ClientNo := do
  let client ← clientByStateId id
  let state ← stateOf client id
  if ((← get).state state).confirmed then do
    ofExcept (((← get).state state).id.check id)
    renewLease client
    pure client
  else throw (.badStateId id)

/-- Ends a registered client, takes it out of the table and forgets its record for recovery. If
something it holds cannot be released it stays; an unknown client is no error. -/
def removeClient (id : ClientId) : Request Unit := do
  ensureRunning
  match (← get).registered.get? id with
  | none => pure ()
  | some client => do
    endClient client
    let _ ← unregister client
    let owner := ((← get).client client).owner
    updateStore .removeClient (·.removeClient owner)

/-! ## Sessions -/

/-- The limits that a server grants: none above its own, and at least one slot. -/
def grantedAttributes (config : Config) (asked : ChannelAttributes) : ChannelAttributes where
  maxRequests := max (min asked.maxRequests config.maxSlots) 1
  maxOperations := min asked.maxOperations config.maxOperations
  maxCallbackOperations := min asked.maxCallbackOperations config.maxCallbackOperations
  callbackProgram := asked.callbackProgram

/-- Makes a session for a registered client, within the limits of the server. -/
def createSession (id : ClientId) (sequence : UInt32) (asked : ChannelAttributes) :
    Request (ClientNo × SessionNo) := do
  let client ← clientById id
  let attributes := grantedAttributes (← get).config asked
  let session ← makeSession client sequence attributes
  refreshLease client
  pure (client, session)

/-- Destroys a session through a connection that may do so. -/
def destroySession (id : SessionId) (connection : Connection) : Request Unit := do
  let client ← clientBySession id
  let session ← sessionOf client id
  if ((← get).session session).isReleasableBy connection then do
    let _ ← removeSession client id
    pure ()
  else throw .connNotBoundToSession

/-- A request bound to its session and slot. -/
structure BoundRequest where
  client : ClientNo
  session : SessionNo
  slot : UInt32
  highestSlot : UInt32
  admission : Admission

/-- Binds a request to its session and slot: finds out whether it is to be carried out, renews the
lease, and binds the first connection of the session. -/
def sequence (id : SessionId) (slot sequence operations : UInt32) (connection : Connection) :
    Request BoundRequest := do
  let client ← clientBySession id
  let session ← sessionOf client id
  let s ← get
  ofExcept ((s.session session).checkCompound operations)
  if s.leaseValid client then do
    let admission ← acquireSlot session slot sequence
    refreshLease client
    modify (Server.amendSession session (·.bindIfNone connection))
    pure ⟨client, session, slot, (s.session session).highestSlot, admission⟩
  else throw (.expired (s.client client).id)

end Request

end Leasehold

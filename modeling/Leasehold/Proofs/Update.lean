import Mathlib.Logic.Relation
import Leasehold.Proofs.Execution

/-!
# Proofs.Update — what a server changes, one thing at a time

Whatever a request does to a server, it does in elementary updates: an open is
forgotten, a state is made, a valid lease is renewed. Each update is of one kind
(`Effect`), and `Update` says what an update of a kind may change. A request
`Does` a list of effects if it takes every server to the server after it by
updates of these kinds; the rules of this module follow the way in which requests
are put together. What holds along every update of some kinds then holds along
every request that does no others (`Chain.lift`).
-/

namespace Leasehold

/-- The kinds of elementary updates. -/
inductive Effect where
  /-- Those who watch are told something. -/
  | told
  /-- The store of client records changes. -/
  | recorded
  /-- The lock table changes. -/
  | locked
  /-- An open is forgotten. -/
  | openForgotten
  /-- An open is widened, having been checked against the others. -/
  | openWidened
  /-- An open is added, having been checked against the others. -/
  | openAdded
  /-- An open goes back to a mode that it was granted before. -/
  | openLowered
  /-- A state is written into the ledger. -/
  | stateMade
  /-- A state is amended; its key, its owner and its parent stay. -/
  | stateAmended
  /-- A client's next state identifier is taken. -/
  | counted
  /-- A state is attached to its client. -/
  | attached
  /-- A state is taken from its client. -/
  | detached
  /-- An owner is written into the ledger. -/
  | ownerMade
  /-- An owner is amended; its name stays. -/
  | ownerAmended
  /-- The owners that a client has names for change. -/
  | ownersNamed
  /-- A client is confirmed. -/
  | confirmed
  /-- A client has reclaimed what it held. -/
  | reclaimed
  /-- A client ends. -/
  | ended
  /-- A client leaves the table of registered clients. -/
  | unregistered
  /-- A client registers under a new identifier. -/
  | enrolled
  /-- A record is made outside the table of registered clients. -/
  | entered
  /-- A valid lease is renewed. -/
  | renewed
  /-- A lease is renewed, valid or not. -/
  | revived
  /-- A session is made. -/
  | sessionMade
  /-- A session is taken from its client. -/
  | sessionDropped
  /-- The slots of a session change. -/
  | slotUsed
  /-- The connections bound to a session change. -/
  | connected
  /-- The grace period is closed. -/
  | graceClosed
  /-- The server stops. -/
  | stopped
  /-- Time passes. -/
  | passed
  /-- A timer is set. -/
  | timerSet
  /-- The calls that fail at present change. -/
  | faultsSet
  deriving Repr, DecidableEq

/-! ## Elementary updates -/

/-- What an update of a kind may change on the record of a client, at a reading of the clock. -/
inductive Client.Update (now : Nat) : Effect → Client → Client → Prop where
  | counted (c : Client) : Update now .counted c { c with stateCounter := c.stateCounter + 1 }
  | attached (c : Client) (key : StateKey) (no : StateNo) : Update now .attached c (c.attach key no)
  | detached (c : Client) (key : StateKey) : Update now .detached c (c.detach key)
  | ownersNamed (c : Client) (owners : Table Bytes OwnerNo) :
      Update now .ownersNamed c { c with owners }
  | confirmed (c : Client) : Update now .confirmed c c.confirm
  | reclaimed (c : Client) :
      Update now .reclaimed c { c with reclaimCompleted := true, needReclaim := false }
  | ended (c : Client) : Update now .ended c c.finish
  | renewed (c : Client) (h : c.isLeaseValid now = true) :
      Update now .renewed c (c.refreshLease now)
  | revived (c : Client) : Update now .revived c (c.refreshLease now)
  | sessionDropped (c : Client) (id : SessionId) :
      Update now .sessionDropped c { c with sessions := c.sessions.erase id }

/-- What an update of a kind may change on the record of a session. -/
inductive Session.Update : Effect → Session → Session → Prop where
  | slotUsed (s : Session) (slots : Table UInt32 Slot) (highestUsedSlot : UInt32) :
      Update .slotUsed s { s with slots, highestUsedSlot }
  | connected (s : Session) (bound : List Connection) : Update .connected s { s with bound }

/-- The record of a client with one more session, which confirms the client. -/
def Client.withSession (c : Client) (no : SessionNo) : Client :=
  { c.nextSessionId.2.confirm with
    sessionSequence := c.sessionSequence + 1
    sessions := c.sessions.insert c.nextSessionId.1 no }

namespace Server

/-- The server with one more registered client, under the next identifier. -/
def withClient (s : Server) (r : Registration) (needReclaim : Bool) : Server :=
  { s with
    ids := s.ids.next.2
    clients := s.clients.add
      (.new s.ids.next.1 r s.config.leaseTime needReclaim s.now s.wall)
    registered := s.registered.insert s.ids.next.1 s.clients.nextNo }

/-- The server with one more session of a client. -/
def withSession (s : Server) (client : ClientNo) (attributes : ChannelAttributes) : Server :=
  let c := s.client client
  ({ s with sessions := s.sessions.add (.new c.nextSessionId.1 c.id attributes) }).amendClient
    client fun _ => c.withSession s.sessions.nextNo

/-- What an update of a kind may change on a server. -/
inductive Update : Effect → Server → Server → Prop where
  | told (s : Server) (notice : Notice) : Update .told s (s.tell notice)
  | recorded (s : Server) (store : Recovery.Store) : Update .recorded s { s with store }
  | locked (s : Server) (locks : LockTable) : Update .locked s { s with locks }
  | openForgotten (s : Server) (file : FileId) (key : StateKey) (opens : OpenTable)
      (h : s.opens.remove? file key = some opens) : Update .openForgotten s { s with opens }
  | openWidened (s : Server) (file : FileId) (client : ClientId) (owner : Bytes) (mode : ShareMode)
      (h : s.opens.conflict? file s.leaseValid client owner mode = none) :
      Update .openWidened s { s with opens := s.opens.widen file client owner mode }
  | openAdded (s : Server) (file : FileId) (r : OpenRecord) (hclient : r.client.value < s.clients.size)
      (hcheck : s.opens.conflict? file s.leaseValid r.clientId r.owner r.mode = none)
      (hnew : s.opens.openOf? file r.clientId r.owner = none) :
      Update .openAdded s { s with opens := s.opens.add file r }
  | openLowered (s : Server) (file : FileId) (client : ClientId) (key : StateKey) (mode : ShareMode)
      (state : StateNo) (opens : OpenTable)
      (h : s.opens.downgrade file client key mode = .ok (state, opens)) :
      Update .openLowered s { s with opens }
  | stateMade (s : Server) (state : HeldState) :
      Update .stateMade s { s with states := s.states.add state }
  | stateAmended (s : Server) (no : StateNo) (f : HeldState → HeldState)
      (h : ∀ st, (f st).id.key = st.id.key ∧ (f st).owner = st.owner ∧ (f st).parent = st.parent) :
      Update .stateAmended s (s.amendState no f)
  | ownerMade (s : Server) (owner : Owner) :
      Update .ownerMade s { s with owners := s.owners.add owner }
  | ownerAmended (s : Server) (no : OwnerNo) (f : Owner → Owner)
      (h : (f (s.owner no)).name = (s.owner no).name) : Update .ownerAmended s (s.amendOwner no f)
  | client {e : Effect} (s : Server) (no : ClientNo) (f : Client → Client)
      (h : Client.Update s.now e (s.client no) (f (s.client no))) : Update e s (s.amendClient no f)
  | unregistered (s : Server) (id : ClientId) :
      Update .unregistered s { s with registered := s.registered.erase id }
  | enrolled (s : Server) (r : Registration) (needReclaim : Bool) :
      Update .enrolled s (s.withClient r needReclaim)
  | entered (s : Server) (id : ClientId) (r : Registration) (leaseTime : Duration)
      (needReclaim : Bool) : Update .entered s
        { s with clients := s.clients.add (.new id r leaseTime needReclaim s.now s.wall) }
  | sessionMade (s : Server) (id : ClientId) (client : ClientNo) (attributes : ChannelAttributes)
      (h : s.registered.get? id = some client) :
      Update .sessionMade s (s.withSession client attributes)
  | session {e : Effect} (s : Server) (no : SessionNo) (f : Session → Session)
      (h : Session.Update e (s.session no) (f (s.session no))) : Update e s (s.amendSession no f)
  | graceClosed (s : Server) : Update .graceClosed s { s with graceOver := true }
  | stopped (s : Server) : Update .stopped s
      { s with running := false, sweepDue := none, graceDue := none, registered := .empty }
  | passed (s : Server) (later : Nat) (h : s.now ≤ later) : Update .passed s (s.passTo later)
  | timerSet (s : Server) (sweepDue graceDue : Option Nat) :
      Update .timerSet s { s with sweepDue, graceDue }
  | faultsSet (s : Server) (faults : Faults) : Update .faultsSet s { s with faults }

end Server

/-! ## Chains of updates -/

/-- One server becomes another by updates of the given kinds. -/
def Chain (E : List Effect) : Server → Server → Prop :=
  Relation.ReflTransGen fun s s' => ∃ e ∈ E, Server.Update e s s'

namespace Chain

variable {E F : List Effect} {s s' s'' : Server}

theorem refl : Chain E s s := Relation.ReflTransGen.refl

theorem trans (h : Chain E s s') (h' : Chain E s' s'') : Chain E s s'' :=
  Relation.ReflTransGen.trans h h'

theorem single {e : Effect} (he : e ∈ E) (h : Server.Update e s s') : Chain E s s' :=
  Relation.ReflTransGen.single ⟨e, he, h⟩

/-- What is reflexive and transitive and holds along every update holds along a chain. -/
theorem lift {R : Server → Server → Prop} (hrefl : ∀ s, R s s)
    (htrans : ∀ {a b c}, R a b → R b c → R a c)
    (hupdate : ∀ {e a b}, e ∈ E → Server.Update e a b → R a b) (h : Chain E s s') : R s s' := by
  -- on the updates from the first one on, each as the last of a shorter chain
  induction h with
  | refl => exact hrefl s
  | tail _ hstep ih =>
    obtain ⟨e, he, hu⟩ := hstep
    exact htrans ih (hupdate he hu)

/-- Updates of some kinds are updates of more kinds. -/
theorem mono (h : Chain E s s') (hE : E ⊆ F) : Chain F s s' :=
  h.lift (fun _ => refl) trans fun he hupdate => single (hE he) hupdate

/-- What every update of a kind keeps, a chain keeps. -/
theorem preserve {I : Server → Prop} (hupdate : ∀ {e a b}, e ∈ E → Server.Update e a b → I a → I b)
    (h : Chain E s s') (hs : I s) : I s' := by
  induction h with
  | refl => exact hs
  | tail _ hstep ih =>
    obtain ⟨e, he, hu⟩ := hstep
    exact hupdate he hu ih

end Chain

/-! ## What updates keep -/

namespace Client.Update

variable {now : Nat} {e : Effect} {c c' : Client}

/-- No update changes the identifier of a client. -/
theorem id_eq (h : Update now e c c') : c'.id = c.id := by
  cases h <;> rfl

/-- No update changes what a client registered with. -/
theorem registration_eq (h : Update now e c c') : c'.registration = c.registration := by
  cases h <;> rfl

/-- A lease changes only when it is renewed. -/
theorem lease_eq (h : Update now e c c') (hrenewed : e ≠ .renewed) (hrevived : e ≠ .revived) :
    c'.lease = c.lease := by
  cases h with
  | renewed => exact absurd rfl hrenewed
  | revived => exact absurd rfl hrevived
  | _ => rfl

end Client.Update

/-! ## What requests do -/

namespace Request

variable {α β : Type} {E F : List Effect} {s s' : Server}

/-- Carried out on this server, the request does nothing but updates of the given kinds. -/
def DoesFrom (E : List Effect) (s : Server) (r : Request α) : Prop := Chain E s (r.exec s).2

/-- Whatever the server, the request does nothing but updates of the given kinds. -/
def Does (E : List Effect) (r : Request α) : Prop := ∀ s, DoesFrom E s r

theorem does_pure (a : α) : Does E (pure a : Request α) := fun _ => .refl

theorem does_throw (e : Error) : Does E (throw e : Request α) := fun _ => .refl

theorem does_ofExcept (answer : Except Error α) : Does E (ofExcept answer) := fun _ => .refl

theorem doesFrom_set (h : Chain E s s') : DoesFrom E s (set s' : Request Unit) := h

/-- A request that changes the server at a stroke does what that change is a chain of. -/
theorem does_modify {f : Server → Server} (h : ∀ s, Chain E s (f s)) :
    Does E (modify f : Request Unit) := h

/-- What a request does leads from the server before it to the one after it. -/
theorem chain_of_exec {r : Request α} {answer : Except Error α} (h : DoesFrom E s r)
    (hexec : r.exec s = (answer, s')) : Chain E s s' := by
  unfold DoesFrom at h
  rw [hexec] at h
  exact h

/-- What comes after a request starts from the server that the request leaves. -/
theorem doesFrom_bind_exec {r : Request α} {f : α → Request β} (hr : DoesFrom E s r)
    (hf : ∀ a s', r.exec s = (.ok a, s') → DoesFrom E s' (f a)) : DoesFrom E s (r >>= f) := by
  unfold DoesFrom at *
  rw [exec_bind]
  generalize r.exec s = outcome at *
  obtain ⟨answer, s'⟩ := outcome
  -- on the answer: after a refusal the second part is not reached
  cases answer with
  | ok a => exact hr.trans (hf a s' rfl)
  | error e => exact hr

/-- If it makes no difference which server comes next, the request is known by its parts. -/
theorem doesFrom_bind {r : Request α} {f : α → Request β} (hr : DoesFrom E s r)
    (hf : ∀ a, Does E (f a)) : DoesFrom E s (r >>= f) :=
  doesFrom_bind_exec hr fun a s' _ => hf a s'

/-- What two parts do, one after the other, is done by the whole. -/
theorem does_bind {r : Request α} {f : α → Request β} (hr : Does E r) (hf : ∀ a, Does E (f a)) :
    Does E (r >>= f) :=
  fun s => doesFrom_bind (hr s) hf

/-- A request in two parts ends with the first one, or goes on from the server that this leaves. -/
theorem bind_cases {r : Request α} (h : Does E r) (f : α → Request β) (s : Server) :
    ∃ t, Chain E s t ∧ ((∃ e, (r >>= f).exec s = (.error e, t)) ∨
      ∃ a, (r >>= f).exec s = (f a).exec t) := by
  rw [exec_bind]
  rcases hexec : r.exec s with ⟨answer, t⟩
  refine ⟨t, chain_of_exec (h s) hexec, ?_⟩
  -- the same two cases, told from the answer
  cases answer with
  | error e => exact .inl ⟨e, rfl⟩
  | ok a => exact .inr ⟨a, rfl⟩

/-- What comes after a look at the server starts from the server that was looked at. -/
theorem doesFrom_get_bind {f : Server → Request β} (hf : DoesFrom E s (f s)) :
    DoesFrom E s (get >>= f) := hf

/-- After a look at the server, a request is known by what it does to the server it saw. -/
theorem does_get_bind {f : Server → Request β} (hf : ∀ s, DoesFrom E s (f s)) :
    Does E (get >>= f) := hf

/-- A question that the records answer leaves the server to what comes after it. -/
theorem doesFrom_ofExcept_bind {answer : Except Error α} {f : α → Request β}
    (hf : ∀ a, answer = .ok a → DoesFrom E s (f a)) : DoesFrom E s (ofExcept answer >>= f) := by
  apply doesFrom_bind_exec (does_ofExcept answer s)
  intro a s' hexec
  rw [exec_ofExcept, Prod.mk.injEq] at hexec
  exact hexec.2 ▸ hf a hexec.1

/-- A request that handles its refusals does what it and its handler do. -/
theorem does_tryCatch {r : Request α} {f : Error → Request α} (hr : Does E r)
    (hf : ∀ e, Does E (f e)) : Does E (tryCatch r f) := by
  intro s
  have hrs := hr s
  unfold DoesFrom at *
  rw [exec_tryCatch]
  generalize r.exec s = outcome at *
  obtain ⟨answer, s'⟩ := outcome
  -- on the answer: the handler starts from what a refusal left
  cases answer with
  | ok a => exact hrs
  | error e => exact hrs.trans (hf e s')

end Request

end Leasehold

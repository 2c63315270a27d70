import Leasehold.Proofs.Frame

/-!
# Proofs.RequestEffects — which updates each request does

One statement for each request: it does no updates but those of the listed kinds.
The lists grow from the inside out: what the end of a state does, the end of a
client does, and whatever ends clients does.
-/

namespace Leasehold

namespace Effect

/-- What is done when a state ends and is taken from its client. -/
def releasing : List Effect := [told, locked, openForgotten, stateAmended, detached]

/-- What is done when clients end. -/
def ending : List Effect := ended :: releasing

/-- What is done when a state is made. -/
def making : List Effect := [counted, stateMade, attached, stateAmended]

/-- What is done when an open is asked for. -/
def opening : List Effect := [openWidened, openAdded] ++ making

/-- What is done when a lock is asked for. -/
def locking : List Effect :=
  [renewed, ownerMade, ownerAmended, ownersNamed] ++ making ++ releasing

/-- What is done when a lock is given back. -/
def unlocking : List Effect := [renewed, ownerAmended, locked, stateAmended]

/-- What is done when clients are evicted. -/
def evicting : List Effect := [unregistered, recorded] ++ ending

/-- What is done when a client registers. -/
def registering : List Effect := [enrolled, renewed] ++ evicting

end Effect

namespace Request

open Effect

variable {α : Type} {E : List Effect}

/-! ## Collaborators -/

/-- Finding out whether the server runs changes nothing. -/
theorem does_ensureRunning : Does E ensureRunning := by
  apply does_get_bind
  intro s
  split
  · exact does_pure _ s
  · exact does_throw _ s

/-- What is asked of the store leaves it as it is, whether or not the call fails. -/
theorem does_askStore (call : Recovery.Call) (ask : Recovery.Store → Except RecoveryError α) :
    Does E (askStore call ask) := by
  apply does_get_bind
  intro s
  split
  · exact does_throw _ s
  · exact does_pure _ s

/-- A call that fails leaves the store as it was. -/
theorem does_updateStore (h : recorded ∈ E) (call : Recovery.Call)
    (update : Recovery.Store → Except RecoveryError Recovery.Store) :
    Does E (updateStore call update) := by
  apply does_bind (does_askStore call update)
  intro store
  exact does_modify fun s => .single h (.recorded s store)

/-- What is asked of the locks leaves them as they are. -/
theorem does_askLocks (call : LockCall) (ask : LockTable → Except LockError α) :
    Does E (askLocks call ask) := by
  apply does_get_bind
  intro s
  split
  · exact does_throw _ s
  · exact does_pure _ s

/-- A call that is refused leaves the locks as they were. -/
theorem does_updateLocks (h : locked ∈ E) (call : LockCall)
    (update : LockTable → Except LockError LockTable) : Does E (updateLocks call update) := by
  apply does_bind (does_askLocks call update)
  intro locks
  exact does_modify fun s => .single h (.locked s locks)

/-! ## The end of states and clients -/

/-- A state may change in all but its key, its owner and the state it is derived from. -/
theorem does_amendState (h : stateAmended ∈ E) (no : StateNo) (f : HeldState → HeldState)
    (hf : ∀ st, (f st).id.key = st.id.key ∧ (f st).owner = st.owner ∧ (f st).parent = st.parent) :
    Does E (modify (Server.amendState no f)) :=
  does_modify fun s => .single h (.stateAmended s no f hf)

theorem does_detachState (h : detached ∈ E) (client : ClientNo) (state : StateNo) :
    Does E (detachState client state) :=
  does_modify fun s => .single h (.client s client _ (.detached _ _))

/-- An open that is not in the table is forgotten without a change. -/
theorem does_forgetOpen (h : openForgotten ∈ E) (file : FileId) (key : StateKey) :
    Does E (modify (Server.forgetOpen file key)) := by
  apply does_modify
  intro s
  unfold Server.forgetOpen
  split
  · rename_i opens hopens
    exact .single h (.openForgotten s file key opens hopens)
  · exact .refl

/-- Whatever the end of a state owes, given what the end of a derived one does. -/
theorem does_releaseStep (h : releasing ⊆ E) {endState : StateNo → Request Unit}
    (hend : ∀ no, Does E (endState no)) (state : HeldState) (step : ReleaseStep) :
    Does E (releaseStep endState state step) := by
  cases step with
  | forgetOpen file => exact does_forgetOpen (h (by decide)) file state.id.key
  | unlockAll file holder => exact does_updateLocks (h (by decide)) .unlock _
  | endDerived derived client =>
    -- a derived state that does not end stays attached
    apply does_bind (hend derived)
    intro _
    exact does_detachState (h (by decide)) client derived
  | notify label refusals =>
    apply does_bind (does_modify fun s => .single (h (by decide)) (.told s _))
    intro _
    split
    · exact does_pure _
    · exact does_throw _

/-- A state that ends strictly stops at the first failure, and writes on its record what it still
owes. -/
theorem does_releaseStrictly (h : releasing ⊆ E) {endState : StateNo → Request Unit}
    (hend : ∀ no, Does E (endState no)) (no : StateNo) (state : HeldState)
    (steps : List ReleaseStep) : Does E (releaseStrictly endState no state steps) := by
  induction steps with
  | nil => exact does_amendState (h (by decide)) no _ fun _ => ⟨rfl, rfl, rfl⟩
  | cons step rest ih =>
    refine does_bind (does_tryCatch (does_releaseStep h hend state step) fun e => ?_) fun _ => ih
    -- what is still owed is written on the state before the failure is handed on
    refine does_bind (does_amendState (h (by decide)) no _ ?_) fun _ => does_throw e
    exact fun _ => ⟨rfl, rfl, rfl⟩

/-- A state that ends leniently passes over its failures. -/
theorem does_releaseLeniently (h : releasing ⊆ E) {endState : StateNo → Request Unit}
    (hend : ∀ no, Does E (endState no)) (no : StateNo) (state : HeldState)
    (steps : List ReleaseStep) : Does E (releaseLeniently endState no state steps) := by
  induction steps with
  | nil => exact does_amendState (h (by decide)) no _ fun _ => ⟨rfl, rfl, rfl⟩
  | cons step rest ih =>
    refine does_bind (does_tryCatch (does_releaseStep h hend state step) fun e => ?_) fun _ => ih
    exact does_pure _

/-- States end in the same way however many derivations deep they are. -/
theorem does_endStateWithin (h : releasing ⊆ E) (depth : Nat) (no : StateNo) :
    Does E (endStateWithin depth no) := by
  -- on the depth: what ends the derived states follows one derivation less
  induction depth generalizing no with
  | zero => exact does_pure _
  | succ depth ih =>
    apply does_get_bind
    intro s
    dsimp only
    split
    · exact does_pure _ s
    · exact does_releaseStrictly h ih no _ _ s

/-- The end of a state, with that of all states derived from it. -/
theorem does_endState (h : releasing ⊆ E) (no : StateNo) : Does E (endState no) :=
  does_get_bind fun s => does_endStateWithin h _ no s

theorem does_endStateLeniently (h : releasing ⊆ E) (no : StateNo) :
    Does E (endStateLeniently no) := by
  apply does_get_bind
  intro s
  dsimp only
  split
  · exact does_pure _ s
  · exact does_releaseLeniently h (does_endStateWithin h _) no _ _ s

/-- The states of a client end one by one, until one of them fails to. -/
theorem does_endStatesOf (h : releasing ⊆ E) (client : ClientNo) (states : List StateNo) :
    Does E (endStatesOf client states) := by
  induction states with
  | nil => exact does_pure _
  | cons state rest ih =>
    apply does_bind (does_endState h state)
    intro _
    apply does_bind (does_detachState (h (by decide)) client state)
    intro _
    exact ih

/-- All states of a client end, whatever fails. -/
theorem does_endStatesLenientlyOf (h : releasing ⊆ E) (client : ClientNo)
    (states : List StateNo) : Does E (endStatesLenientlyOf client states) := by
  induction states with
  | nil => exact does_pure _
  | cons state rest ih =>
    apply does_bind (does_endStateLeniently h state)
    intro _
    apply does_bind (does_detachState (h (by decide)) client state)
    intro _
    exact ih

theorem does_finish (h : ended ∈ E) (client : ClientNo) :
    Does E (modify (Server.amendClient client .finish)) :=
  does_modify fun s => .single h (.client s client _ (.ended _))

/-- Only a client whose states have all ended is finished. -/
theorem does_endClient (h : ending ⊆ E) (client : ClientNo) : Does E (endClient client) := by
  apply does_get_bind
  intro s
  split
  · exact does_pure _ s
  -- only when all states have ended the client is marked
  · apply doesFrom_bind (does_endStatesOf (List.Subset.trans (by decide) h) client _ s)
    intro _
    exact does_finish (h (by decide)) client

/-- A client that ends leniently is finished in any case. -/
theorem does_endClientLeniently (h : ending ⊆ E) (client : ClientNo) :
    Does E (endClientLeniently client) := by
  apply does_get_bind
  intro s
  split
  · exact does_pure _ s
  · apply doesFrom_bind (does_endStatesLenientlyOf (List.Subset.trans (by decide) h) client _ s)
    intro _
    exact does_finish (h (by decide)) client

/-! ## What a client holds -/

/-- A lease is renewed only while it is valid. -/
theorem does_renewLease (h : renewed ∈ E) (client : ClientNo) : Does E (renewLease client) := by
  apply does_get_bind
  intro s
  split
  · rename_i hvalid
    exact .single h (.client s client _ (.renewed _ hvalid))
  · exact does_throw _ s

/-- An owner is made and named unless the client has a name for one. -/
theorem does_ownerNamed (hmade : ownerMade ∈ E) (hnamed : ownersNamed ∈ E) (client : ClientNo)
    (name : Bytes) (seqid : UInt32) : Does E (ownerNamed client name seqid) := by
  apply does_get_bind
  intro s
  split
  · exact does_pure _ s
  -- the record is made before the client has a name for it
  · apply doesFrom_bind (doesFrom_set (.single hmade (.ownerMade s _)))
    intro _
    apply does_bind (does_modify fun s => .single hnamed (.client s client _ (.ownersNamed _ _)))
    intro _
    exact does_pure _

theorem does_releaseOwner (h : ownersNamed ∈ E) (client : ClientNo) (name : Bytes) :
    Does E (releaseOwner client name) :=
  does_modify fun s => .single h (.client s client _ (.ownersNamed _ _))

/-- An owner that accepts a request number keeps its name. -/
theorem name_of_accept {o o' : Owner} {seqid : UInt32} (h : o.accept seqid = .ok o') :
    o'.name = o.name := by
  unfold Owner.accept at h
  split at h
  · injection h with h
    rw [h]
  · split at h
    · injection h with h
      rw [← h]
    · cases h

/-- A number that is not accepted leaves the owner as it was. -/
theorem does_acceptSeqid (h : ownerAmended ∈ E) (owner : OwnerNo) (seqid : UInt32) :
    Does E (acceptSeqid owner seqid) := by
  apply does_get_bind
  intro s
  apply doesFrom_ofExcept_bind
  intro accepted haccepted
  exact .single h (.ownerAmended s owner _ (name_of_accept haccepted))

/-- A new identifier counts on the client's counter, whether or not it is used. -/
theorem does_takeStateId (h : counted ∈ E) (client : ClientNo) (kind : StateKind) :
    Does E (takeStateId client kind) := by
  apply does_get_bind
  intro s
  apply doesFrom_bind (doesFrom_set (.single h (.client s client _ (.counted _))))
  intro _
  exact does_pure _

theorem does_recordState (h : stateMade ∈ E) (state : HeldState) : Does E (recordState state) := by
  apply does_get_bind
  intro s
  apply doesFrom_bind (doesFrom_set (.single h (.stateMade s state)))
  intro _
  exact does_pure _

theorem does_attach (h : attached ∈ E) (client : ClientNo) (key : StateKey) (no : StateNo) :
    Does E (modify (Server.amendClient client (·.attach key no))) :=
  does_modify fun s => .single h (.client s client _ (.attached _ key no))

/-- A state that is made is counted, recorded and attached. -/
theorem does_createState (h : making ⊆ E) (client : ClientNo) (owner : OwnerNo)
    (kind : StateKind) (parent : Option StateNo) :
    Does E (createState client owner kind parent) := by
  apply does_bind (does_takeStateId (h (by decide)) client kind)
  intro id
  apply does_get_bind
  intro s
  refine doesFrom_bind (does_recordState (h (by decide)) _ s) fun no => ?_
  apply does_bind (does_attach (h (by decide)) client id.key no)
  intro _
  exact does_pure _

/-- Looking a state up changes nothing. -/
theorem does_stateOf (client : ClientNo) (id : StateId) : Does E (stateOf client id) := by
  apply does_get_bind
  intro s
  split
  · exact does_pure _ s
  · exact does_throw _ s

/-- Looking a state up and comparing the identifiers changes nothing. -/
theorem does_currentStateOf (client : ClientNo) (id : StateId) :
    Does E (currentStateOf client id) := by
  apply does_bind (does_stateOf client id)
  intro no
  apply does_get_bind
  intro s
  apply doesFrom_bind (does_ofExcept _ s)
  intro _
  exact does_pure _

/-- The number of a state goes up; its key stays. -/
theorem does_bumpState (h : stateAmended ∈ E) (state : StateNo) : Does E (bumpState state) := by
  apply does_bind (does_amendState h state .bump fun _ => ⟨rfl, rfl, rfl⟩)
  intro _
  exact does_get_bind fun s => does_pure _ s

/-- What a state owes when it ends is written on its record. -/
theorem does_owe (h : stateAmended ∈ E) (state : StateNo) (step : ReleaseStep) :
    Does E (owe state step) :=
  does_amendState h state _ fun _ => ⟨rfl, rfl, rfl⟩

/-- A state is detached only once it has ended. -/
theorem does_releaseState (h : releasing ⊆ E) (client : ClientNo) (id : StateId) :
    Does E (releaseState client id) := by
  apply does_bind (does_stateOf client id)
  intro no
  apply does_bind (does_endState h no)
  intro _
  exact does_modify fun s => .single (h (by decide)) (.client s client _ (.detached _ _))

/-! ## Sessions -/

theorem does_sessionOf (client : ClientNo) (id : SessionId) : Does E (sessionOf client id) := by
  apply does_get_bind
  intro s
  split
  · exact does_pure _ s
  · exact does_throw _ s

/-- A session that is unknown to the client is not dropped. -/
theorem does_removeSession (h : sessionDropped ∈ E) (client : ClientNo) (id : SessionId) :
    Does E (removeSession client id) := by
  apply does_bind (does_sessionOf client id)
  intro no
  apply does_bind (does_modify fun s => .single h (.client s client _ (.sessionDropped _ id)))
  intro _
  exact does_pure _

/-- Asking for a slot changes nothing but the slots. -/
theorem slotUsed_acquire (s : Session) (id sequence : UInt32) :
    Session.Update .slotUsed s (s.acquire id sequence).2 := by
  unfold Session.acquire Session.slot
  by_cases hrange : s.highestSlot < id
  · simp only [if_pos hrange]
    exact .slotUsed s s.slots s.highestUsedSlot
  · simp only [if_neg hrange]
    split
    · exact .slotUsed s _ _
    · exact .slotUsed s _ _

/-- A reply changes nothing but the slots. -/
theorem slotUsed_reply {s s' : Session} {id : UInt32} {data : Bytes}
    (h : s.reply id data = .ok s') : Session.Update .slotUsed s s' := by
  unfold Session.reply Session.slot at h
  split at h
  · cases h
  · injection h with hs'
    exact hs' ▸ .slotUsed s _ _

theorem exec_acquireSlot (session : SessionNo) (slot sequence : UInt32) (s : Server) :
    (acquireSlot session slot sequence).exec s = (((s.session session).acquire slot sequence).1,
      s.amendSession session fun _ => ((s.session session).acquire slot sequence).2) := rfl

/-- A slot is asked for, and whatever the answer is, the session remembers it. -/
theorem does_acquireSlot (h : slotUsed ∈ E) (session : SessionNo) (slot sequence : UInt32) :
    Does E (acquireSlot session slot sequence) := by
  apply does_get_bind
  intro s
  dsimp only
  refine doesFrom_bind (.single h (.session s session _ (slotUsed_acquire _ _ _))) fun _ => ?_
  exact does_ofExcept _

/-- A reply to a slot that the session does not have changes nothing. -/
theorem does_replyOn (h : slotUsed ∈ E) (session : SessionNo) (slot : UInt32) (data : Bytes) :
    Does E (replyOn session slot data) := by
  apply does_get_bind
  intro s
  apply doesFrom_ofExcept_bind
  intro answered hanswered
  exact .single h (.session s session _ (slotUsed_reply hanswered))

/-- A client that completes its reclaim is marked, and nothing else of it changes. -/
theorem reclaimed_of_completeReclaim {c c' : Client} {now : Nat} (h : c.completeReclaim = .ok c') :
    Client.Update now .reclaimed c c' := by
  unfold Client.completeReclaim at h
  split at h
  · cases h
  · injection h with h
    exact h ▸ .reclaimed c

theorem does_completeReclaim (h : reclaimed ∈ E) (client : ClientNo) :
    Does E (completeReclaim client) := by
  apply does_get_bind
  intro s
  apply doesFrom_ofExcept_bind
  intro c hc
  exact .single h (.client s client _ (reclaimed_of_completeReclaim hc))

/-! ## Registration -/

/-- A client is taken from the table only under its own identifier. -/
theorem does_unregister (h : unregistered ∈ E) (client : ClientNo) :
    Does E (unregister client) := by
  apply does_get_bind
  intro s
  dsimp only
  split
  · apply doesFrom_bind (doesFrom_set (.single h (.unregistered s _)))
    intro _
    exact does_pure _
  · exact does_pure _ s

/-- A record is made and entered in the table at once. -/
theorem does_recordClient (h : enrolled ∈ E) (r : Registration) (needReclaim : Bool) :
    Does E (recordClient r needReclaim) :=
  does_get_bind fun s => .single h (.enrolled s r needReclaim)

/-- A new client is entered, then the one that it replaces ends, and then the store is told; if it
cannot be told, the new client leaves the table again. -/
theorem does_enrolNew (h : registering ⊆ E) (r : Registration) (needReclaim : Bool)
    (old : Option ClientNo) : Does E (enrolNew r needReclaim old) := by
  apply does_bind (does_recordClient (h (by decide)) r needReclaim)
  intro client
  have hrest : Does E (do
      let now := (← get).wall
      tryCatch (updateStore .addClient (·.addClient now r.owner)) fun e => do
        let _ ← unregister client
        throw e
      pure (if old.isSome then Enrolment.replaced else .created, client)) := by
    apply does_get_bind
    intro s
    refine doesFrom_bind (does_tryCatch (does_updateStore (h (by decide)) _ _) (fun e => ?_) s)
      fun _ => does_pure _
    exact does_bind (does_unregister (h (by decide)) client) fun _ => does_throw e
  dsimp only
  split
  · rename_i old
    exact does_bind (does_endClientLeniently (List.Subset.trans (by decide) h) old) fun _ => hrest
  · exact hrest

/-- A record serves its owner again only while its lease is valid. -/
theorem isLeaseValid_of_serves {c : Client} {r : Registration} {now : Nat}
    (h : c.serves r now = .ok true) : c.isLeaseValid now = true := by
  unfold Client.serves at h
  dsimp only at h
  split at h
  · cases h
  · injection h with h
    simp only [Bool.and_eq_true] at h
    exact h.1.1.2

/-- A registration finds its record, makes one, or replaces one that does not serve it. -/
theorem does_enrol (h : registering ⊆ E) (r : Registration) (reuse : Bool) :
    Does E (enrol r reuse) := by
  apply does_bind does_ensureRunning
  intro _
  apply does_bind (does_askStore _ _)
  intro needReclaim
  apply does_get_bind
  intro s
  split
  -- nobody is registered for the owner
  · exact does_enrolNew h r needReclaim none s
  · rename_i old _
    apply doesFrom_ofExcept_bind
    intro serves hserves
    split
    · rename_i hyes
      -- the renewal here does not look at the lease, but a record serves only with a valid one
      have hvalid : s.leaseValid old = true := by
        rw [hyes] at hserves
        split at hserves
        · exact isLeaseValid_of_serves hserves
        · cases hserves
      exact doesFrom_bind (.single (h (by decide)) (.client s old _ (.renewed _ hvalid))) fun _ => does_pure _
    -- the record does not serve, and leaves the table before the new one comes
    · apply doesFrom_bind (.single (h (by decide)) (.unregistered s _))
      intro _
      exact does_enrolNew h r needReclaim (some old)

theorem does_register (h : registering ⊆ E) (r : Registration) : Does E (register r) :=
  does_enrol h r true

/-- A client that is asked for anew never gets a record that is there. -/
theorem does_createClient (h : registering ⊆ E) (r : Registration) : Does E (createClient r) := by
  apply does_bind (does_enrol h r false)
  intro outcome
  exact does_pure _

/-- A client leaves the table once it has ended, and is forgotten by the store after that. -/
theorem does_removeClient (h : evicting ⊆ E) (id : ClientId) : Does E (removeClient id) := by
  apply does_bind does_ensureRunning
  intro _
  apply does_get_bind
  intro s
  split
  · exact does_pure _ s
  · rename_i client _
    apply doesFrom_bind (does_endClient (List.Subset.trans (by decide) h) client s)
    intro _
    apply does_bind (does_unregister (h (by decide)) client)
    intro _
    exact does_get_bind fun s => does_updateStore (h (by decide)) _ _ s

/-! ## Looking up -/

/-- Looking a client up by its identifier changes nothing. -/
theorem does_clientById (id : ClientId) : Does E (clientById id) := by
  apply does_bind does_ensureRunning
  intro _
  apply does_get_bind
  intro s
  split
  · exact does_pure _ s
  · exact does_throw _ s

theorem does_clientBySession (id : SessionId) : Does E (clientBySession id) := by
  apply does_bind does_ensureRunning
  intro _
  apply does_get_bind
  intro s
  split
  · exact does_bind (does_sessionOf _ id) (fun _ => does_pure _) s
  · exact does_throw _ s

theorem does_clientByStateId (id : StateId) : Does E (clientByStateId id) := by
  apply does_bind does_ensureRunning
  intro _
  apply does_get_bind
  intro s
  split
  · split
    · exact does_pure _ s
    · exact does_throw _ s
  · exact does_throw _ s

/-! ## Requests of registered clients -/

/-- A client is confirmed after its lease was renewed. -/
theorem does_confirmClient (hrenewed : renewed ∈ E) (hconfirmed : confirmed ∈ E) (id : ClientId)
    (verifier : Verifier) : Does E (confirmClient id verifier) := by
  apply does_bind (does_clientById id)
  intro no
  apply does_get_bind
  intro s
  split
  · apply doesFrom_bind (does_renewLease hrenewed no s)
    intro _
    apply does_bind (does_modify fun s => .single hconfirmed (.client s no _ (.confirmed _)))
    intro _
    exact does_pure _
  · exact does_throw _ s

/-- A lease is renewed by a state only if the state is confirmed and current. -/
theorem does_renewByState (h : renewed ∈ E) (id : StateId) : Does E (renewByState id) := by
  apply does_bind (does_clientByStateId id)
  intro client
  apply does_bind (does_stateOf client id)
  intro state
  apply does_get_bind
  intro s
  split
  -- the identifier is compared with the state as it is now
  · apply doesFrom_get_bind
    apply doesFrom_bind (does_ofExcept _ s)
    intro _
    apply does_bind (does_renewLease h client)
    intro _
    exact does_pure _
  · exact does_throw _ s

/-- A session is made for a registered client that asks for it in turn; whether its lease is valid
makes no difference. -/
theorem exec_createSession (id : ClientId) (sequence : UInt32) (asked : ChannelAttributes)
    (s : Server) :
    (createSession id sequence asked).exec s =
      if s.running then
        match s.registered.get? id with
        | none => (.error (.staleClientId id), s)
        | some no =>
          if sequence ≠ (s.client no).sessionSequence then
            (.error (.seqMisordered (s.client no).sessionSequence sequence), s)
          else (.ok (no, s.sessions.nextNo),
            (s.withSession no (grantedAttributes s.config asked)).amendClient no
              (·.refreshLease s.now))
      else (.error .notRunning, s) := by
  unfold createSession clientById ensureRunning
  simp only [exec_bind, exec_get]
  cases s.running with
  | false => rfl
  | true =>
    cases hno : s.registered.get? id with
    | none => simp [hno]
    | some no =>
      simp only [exec_pure, hno, if_true]
      unfold makeSession
      -- the number has to be the next one; nothing else is asked about the client
      by_cases hsequence : sequence = (s.client no).sessionSequence
      · simp [hsequence]
        rfl
      · simp [hsequence]

/-- Making a session extends the lease without a look at it, which is an effect of its own kind. -/
theorem does_createSession (hmade : sessionMade ∈ E) (hrevived : revived ∈ E) (id : ClientId)
    (sequence : UInt32) (asked : ChannelAttributes) :
    Does E (createSession id sequence asked) := by
  intro s
  unfold DoesFrom
  rw [exec_createSession]
  split
  · split
    · exact .refl
    · rename_i client hclient
      split
      · exact .refl
      · have hsession := Server.Update.sessionMade s id client
          (grantedAttributes s.config asked) hclient
        -- the session is made first, on the lease as it stands
        exact (Chain.single hmade hsession).trans (.single hrevived (.client _ client _ (.revived _)))
  · exact .refl

/-- A session is dropped only by a connection that may do so. -/
theorem does_destroySession (h : sessionDropped ∈ E) (id : SessionId) (connection : Connection) :
    Does E (destroySession id connection) := by
  apply does_bind (does_clientBySession id)
  intro client
  apply does_bind (does_sessionOf client id)
  intro session
  apply does_get_bind
  intro s
  split
  · exact doesFrom_bind (does_removeSession h client id s) fun _ => does_pure _
  · exact does_throw _ s

/-- A session that is bound to some connection keeps the ones it is bound to. -/
theorem bindIfNone_eq (s : Session) (c : Connection) :
    s.bindIfNone c = { s with bound := if s.bound.isEmpty then [c] else s.bound } := by
  unfold Session.bindIfNone Session.bind Session.isBoundTo
  split
  · rename_i hempty
    rw [List.isEmpty_iff] at hempty
    simp [hempty]
  · rfl

/-- A request in a session takes its slot before it renews the lease and binds the connection. -/
theorem does_sequence (hslot : slotUsed ∈ E) (hrenewed : renewed ∈ E) (hbound : connected ∈ E)
    (id : SessionId) (slot seq operations : UInt32) (connection : Connection) :
    Does E (sequence id slot seq operations connection) := by
  apply does_bind (does_clientBySession id)
  intro client
  apply does_bind (does_sessionOf client id)
  intro session
  apply does_get_bind
  intro s
  apply doesFrom_ofExcept_bind
  intro _ _
  split
  · rename_i hvalid
    apply doesFrom_bind_exec (does_acquireSlot hslot session slot seq s)
    intro admission s' hexec
    -- the slots have no say in whether the lease is valid
    have hvalid' : s'.leaseValid client = true := by
      rw [exec_acquireSlot, Prod.mk.injEq] at hexec
      rw [← hexec.2]
      exact hvalid
    apply doesFrom_bind (.single hrenewed (.client s' client _ (.renewed _ hvalid')))
    intro _
    refine does_bind (does_modify fun s => .single hbound (.session s session _ ?_))
      fun _ => does_pure _
    rw [bindIfNone_eq]
    exact .connected _ _
  · exact does_throw _ s

/-! ## Grace and expiry -/

/-- Finding out whether the grace period lasts changes nothing. -/
theorem does_inGrace : Does E inGrace := by
  apply does_bind does_ensureRunning
  intro _
  apply does_get_bind
  intro s
  split
  · exact does_pure _ s
  · exact does_askStore _ _ s

/-- The grace period is checked without a change. -/
theorem does_checkGrace (client : ClientNo) (reclaim : Bool) : Does E (checkGrace client reclaim) := by
  apply does_bind does_inGrace
  intro grace
  apply does_get_bind
  intro s
  dsimp only
  -- inside the window, and then outside it
  split
  · split
    · exact does_throw _ s
    · split
      · exact does_throw _ s
      · exact does_pure _ s
  · split
    · exact does_throw _ s
    · exact does_pure _ s

/-- The client is marked before the store is told, so that a store that fails finds it marked. -/
theorem does_reclaimComplete (hreclaimed : reclaimed ∈ E) (hrecorded : recorded ∈ E)
    (client : ClientNo) : Does E (reclaimComplete client) := by
  apply does_bind does_ensureRunning
  intro _
  apply does_bind (does_completeReclaim hreclaimed client)
  intro _
  apply does_get_bind
  intro s
  apply doesFrom_bind (does_updateStore hrecorded _ _ s)
  intro _
  exact does_bind (does_askStore _ _) fun _ => does_pure _

/-- The window is closed before the store is told. -/
theorem does_endGrace (hclosed : graceClosed ∈ E) (hrecorded : recorded ∈ E) : Does E endGrace := by
  apply does_bind does_ensureRunning
  intro _
  apply does_get_bind
  intro s
  split
  · exact does_pure _ s
  · apply doesFrom_bind (.single hclosed (.graceClosed s))
    intro _
    exact does_updateStore hrecorded _ _

/-- Those who are evicted end leniently, leave the table and are forgotten by the store, one by one;
a failing store holds nobody up. -/
theorem does_evict (h : evicting ⊆ E) (clients : List ClientNo) : Does E (evict clients) := by
  induction clients with
  | nil => exact does_pure _
  | cons client rest ih =>
    apply does_bind (does_endClientLeniently (List.Subset.trans (by decide) h) client)
    intro _
    -- a client that has left the table meanwhile has no record to be forgotten
    apply does_bind (does_unregister (h (by decide)) client)
    intro gone
    split
    · apply does_get_bind
      intro s
      refine doesFrom_bind (does_tryCatch (does_updateStore (h (by decide)) _ _) (fun e => ?_) s)
        fun _ => does_bind ih fun _ => does_pure _
      exact does_pure _
    · exact ih

/-- A sweep evicts, and does nothing else. -/
theorem does_sweep (h : evicting ⊆ E) : Does E sweep := by
  apply does_get_bind
  intro s
  split
  · exact does_evict h _ s
  · exact does_pure _ s

theorem does_endClients (h : ending ⊆ E) (clients : List ClientNo) : Does E (endClients clients) := by
  induction clients with
  | nil => exact does_pure _
  | cons client rest ih =>
    apply does_bind (does_endClientLeniently h client)
    intro _
    exact ih

/-- The server has stopped before its clients end. -/
theorem does_shutdown (hstopped : stopped ∈ E) (h : evicting ⊆ E) : Does E shutdown := by
  apply does_get_bind
  intro s
  split
  -- from now on the server answers nobody
  · apply doesFrom_bind (doesFrom_set (.single hstopped (.stopped s)))
    intro _
    apply does_bind (does_endClients (List.Subset.trans (by decide) h) _)
    intro _
    exact does_updateStore (h (by decide)) _ _
  · exact does_pure _ s

/-! ## Opens -/

/-- What a check found stays so while a state is made. -/
theorem conflict?_eq_of_making {s s' : Server} (h : Chain making s s') (file : FileId)
    (client : ClientId) (owner : Bytes) (mode : ShareMode) :
    s'.opens.conflict? file s'.leaseValid client owner mode =
      s.opens.conflict? file s.leaseValid client owner mode := by
  have hvalid : s'.leaseValid = s.leaseValid := funext (h.leaseValid_eq (by decide))
  rw [hvalid, h.opens_eq (by decide)]

/-- An open widens the one that the owner has of the file, or is added together with its state;
either happens only if no other open is in the way. -/
theorem doesFrom_openFile (h : opening ⊆ E) {s : Server} {client : ClientNo}
    (hclient : client.value < s.clients.size) (owner : OwnerNo) (file : FileId)
    (access deny : UInt32) : DoesFrom E s (openFile client owner file access deny) := by
  have hmaking : making ⊆ E := List.Subset.trans (by decide) h
  unfold openFile
  dsimp only
  split
  · exact does_throw _ s
  · apply doesFrom_get_bind
    split
    · exact does_throw _ s
    · rename_i hcheck
      split
      -- the owner has the file open already
      · apply doesFrom_bind (doesFrom_set (.single (h (by decide)) (.openWidened s file _ _ _ hcheck)))
        intro _
        exact does_bumpState (h (by decide)) _
      · rename_i hnew
        refine doesFrom_bind_exec (does_createState hmaking client owner _ _ s)
          fun state s₁ hexec₁ => ?_
        refine doesFrom_bind_exec (does_owe (h (by decide)) state _ s₁) fun _ s₂ hexec₂ => ?_
        -- the open was checked for before its state was made
        have hmade : Chain making s s₂ :=
          (chain_of_exec (does_createState (List.Subset.refl _) client owner _ _ s) hexec₁).trans
            (chain_of_exec (does_owe (by decide) state _ s₁) hexec₂)
        apply doesFrom_get_bind
        apply doesFrom_bind
        · refine .single (h (by decide)) (.openAdded s₂ file _ ?_ ?_ ?_)
          · exact Nat.lt_of_lt_of_le hclient hmade.clients_size_le
          · rw [conflict?_eq_of_making hmade]
            exact hcheck
          · rw [hmade.opens_eq (by decide)]
            exact hnew
        · intro _
          exact does_pure _

/-- A downgrade lowers the open and counts on its state. -/
theorem does_downgrade (hlowered : openLowered ∈ E) (hamended : stateAmended ∈ E)
    (client : ClientNo) (id : StateId) (file : FileId) (access deny : UInt32) :
    Does E (downgrade client id file access deny) := by
  apply does_get_bind
  intro s
  split
  · exact does_throw _ s
  · rename_i lowered
    apply doesFrom_bind (doesFrom_set (.single hlowered (.openLowered s file _ _ _ _ _ lowered)))
    intro _
    exact does_bumpState hamended _

/-- An open may be forgotten by itself, without the end of its state. -/
theorem does_removeOpen (h : openForgotten ∈ E) (file : FileId) (id : StateId) :
    Does E (removeOpen file id) := by
  apply does_get_bind
  intro s
  split
  · rename_i opens hopens
    exact .single h (.openForgotten s file id.key opens hopens)
  · exact does_throw _ s

/-- Looking up the mode of an open changes nothing. -/
theorem does_shareMode (client : ClientNo) (file : FileId) (id : StateId) :
    Does E (shareMode client file id) := by
  apply does_get_bind
  intro s
  split
  · exact does_pure _ s
  · exact does_throw _ s

/-! ## Locks -/

/-- The lease of a client that has sessions is left to them. -/
theorem does_renewIfSessionless (h : renewed ∈ E) (client : ClientNo) :
    Does E (renewIfSessionless client) := by
  apply does_get_bind
  intro s
  split
  · exact does_pure _ s
  · exact does_renewLease h client s

/-- Comparing a lock with the mode of the open changes nothing. -/
theorem does_checkOpenMode (client : ClientNo) (file : FileId) (lockState : StateNo)
    (r : LockRequest) : Does E (checkOpenMode client file lockState r) := by
  apply does_get_bind
  intro s
  dsimp only
  apply doesFrom_bind (does_shareMode client file _ s)
  intro mode
  split
  · exact does_throw _
  · exact does_pure _

/-- A first lock takes a number of the owner of the open, names the lock owner, and makes a lock
state that is to end with the open. -/
theorem does_makeLockState (h : locking ⊆ E) (client : ClientNo) (file : FileId)
    (openId : StateId) (openSeqid : UInt32) (name : Bytes) (lockSeqid : UInt32) :
    Does E (makeLockState client file openId openSeqid name lockSeqid) := by
  apply does_bind (does_currentStateOf client openId)
  intro openState
  apply does_get_bind
  intro s
  apply doesFrom_bind (does_acceptSeqid (h (by decide)) _ openSeqid s)
  intro _
  apply does_bind (does_ownerNamed (h (by decide)) (h (by decide)) client name lockSeqid)
  intro owner
  apply does_bind (does_createState (List.Subset.trans (by decide) h) client owner .byteLock _)
  intro lockState
  apply does_get_bind
  intro s
  apply doesFrom_bind (does_owe (h (by decide)) lockState _ s)
  intro _
  apply does_bind (does_owe (h (by decide)) openState _)
  intro _
  exact does_pure _

/-- The lock state that a lock goes by is made or found. -/
theorem does_lockStateFor (h : locking ⊆ E) (client : ClientNo) (file : FileId) (locker : Locker) :
    Does E (lockStateFor client file locker) := by
  cases locker with
  | newOwner openId openSeqid owner lockSeqid =>
    apply does_bind (does_makeLockState h client file openId openSeqid owner lockSeqid)
    intro no
    exact does_pure _
  | existing lockId lockSeqid =>
    apply does_bind (does_currentStateOf client lockId)
    intro no
    apply does_get_bind
    intro s
    apply doesFrom_bind (does_acceptSeqid (h (by decide)) _ lockSeqid s)
    intro _
    exact does_pure _

theorem does_lockOwnerOf (client : ClientNo) (lockState : StateNo) :
    Does E (lockOwnerOf client lockState) :=
  does_get_bind fun s => does_pure _ s

/-- A lock may make a lock state, and one that is refused takes back the state that was made for it.
-/
theorem does_lock (h : locking ⊆ E) (client : ClientNo) (file : FileId) (r : LockRequest)
    (reclaim : Bool) (locker : Locker) : Does E (lock client file r reclaim locker) := by
  apply does_bind (does_ofExcept _)
  intro _
  apply does_bind (does_checkGrace client reclaim)
  intro _
  apply does_bind (does_renewIfSessionless (h (by decide)) client)
  intro _
  apply does_bind (does_lockStateFor h client file locker)
  intro outcome
  apply does_bind (does_lockOwnerOf client outcome.1)
  intro owner
  -- what fails from here on may take the lock state back
  refine does_bind (does_tryCatch ?_ fun e => ?_) fun _ => does_bumpState (h (by decide)) _
  · exact does_bind (does_checkOpenMode client file _ r)
      fun _ => does_updateLocks (h (by decide)) _ _
  · cases outcome.2
    · exact does_throw e
    · apply does_get_bind
      intro s
      -- whether or not it ends, the first failure is what the client hears
      refine doesFrom_bind (does_tryCatch (does_releaseState (List.Subset.trans (by decide) h) _ _)
        (fun _ => does_pure _) s) fun _ => does_throw e

/-- Giving a range back makes no state and ends none. -/
theorem does_unlock (h : unlocking ⊆ E) (client : ClientNo) (file : FileId) (lockId : StateId)
    (seqid : UInt32) (r : LockRequest) : Does E (unlock client file lockId seqid r) := by
  apply does_bind (does_ofExcept _)
  intro _
  apply does_bind (does_renewIfSessionless (h (by decide)) client)
  intro _
  apply does_bind (does_currentStateOf client lockId)
  intro lockState
  apply does_get_bind
  intro s
  apply doesFrom_bind (does_acceptSeqid (h (by decide)) _ seqid s)
  intro _
  apply does_bind (does_lockOwnerOf client lockState)
  intro owner
  apply does_bind (does_updateLocks (h (by decide)) _ _)
  intro _
  exact does_bumpState (h (by decide)) lockState

/-- A test renews the lease of a client without sessions, and changes nothing else. -/
theorem does_testLock (h : renewed ∈ E) (client : ClientNo) (file : FileId) (owner : Bytes)
    (r : LockRequest) : Does E (testLock client file owner r) := by
  apply does_bind (does_ofExcept _)
  intro _
  apply does_bind (does_renewIfSessionless h client)
  intro _
  exact does_get_bind fun s => does_askLocks _ _ s

end Request

end Leasehold

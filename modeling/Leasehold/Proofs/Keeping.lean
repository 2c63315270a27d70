import Leasehold.Proofs.Run

/-!
# Proofs.Keeping — what a request keeps

A list of kinds of updates says nothing about the order in which a request does
them, nor about what a new store or a new record holds. Where that matters, a
statement about the server is carried through a request as it is put together:
`Keeps I r` says that whatever the request answers, `I` holds after it if it held
before.

* `keeps_of_does` — what every update of the kinds that a request does keeps, the
  request keeps;
* `KeepsEviction`, `KeepsParts` — what has to be known of the parts that evictions
  and registrations share; `keeps_removeClient`, `keeps_sweep` and `keeps_enrol` put
  them together, and `keeps_reclaimComplete`, `keeps_endGrace` and `keeps_shutdown`
  do so for the rest of the registry;
* `Server.elapse_keeps` — so it is while time passes, whichever timers fire;
* `KeepsRegistry.keeps_perform` — the same for every action of the registry.
-/

namespace Leasehold

namespace Request

variable {α β : Type} {I J : Server → Prop} {E : List Effect}

/-- Whatever the request answers, it keeps what holds of the server. -/
def Keeps (I : Server → Prop) (r : Request α) : Prop := ∀ s, I s → I (r.exec s).2

/-! ## How requests are put together -/

/-- An answer alone keeps everything, and so does a refusal. -/
theorem keeps_pure (a : α) : Keeps I (pure a : Request α) := fun _ hs => hs

theorem keeps_throw (e : Error) : Keeps I (throw e : Request α) := fun _ hs => hs

theorem keeps_ofExcept (answer : Except Error α) : Keeps I (ofExcept answer) := fun _ hs => hs

/-- What a request does after a look at the server is shown for the server that it saw. -/
theorem keeps_get_bind {f : Server → Request β} (h : ∀ s, I s → I ((f s).exec s).2) :
    Keeps I (get >>= f) := h

/-- A request that goes on keeps what both its parts keep; after a refusal there is only the first
one. -/
theorem keeps_bind {r : Request α} {f : α → Request β} (hr : Keeps I r) (hf : ∀ a, Keeps I (f a)) :
    Keeps I (r >>= f) := by
  intro s hs
  have hrs := hr s hs
  rw [exec_bind]
  rcases hexec : r.exec s with ⟨answer, s'⟩
  rw [hexec] at hrs
  -- on the answer of the first part
  cases answer with
  | ok a => exact hf a s' hrs
  | error e => exact hrs

/-- A request whose refusals are handled keeps what it and its handler keep. -/
theorem keeps_tryCatch {r : Request α} {f : Error → Request α} (hr : Keeps I r)
    (hf : ∀ e, Keeps I (f e)) : Keeps I (tryCatch r f) := by
  intro s hs
  have hrs := hr s hs
  rw [exec_tryCatch]
  rcases hexec : r.exec s with ⟨answer, s'⟩
  rw [hexec] at hrs
  -- on the answer of what is tried
  cases answer with
  | ok a => exact hrs
  | error e => exact hf e s' hrs

/-- What every update of the kinds that a request does keeps, the request keeps. -/
theorem keeps_of_does {r : Request α} (h : Does E r)
    (hI : ∀ e ∈ E, ∀ {s s'}, Server.Update e s s' → I s → I s') : Keeps I r :=
  fun s hs => (h s).preserve (fun he hupdate => hI _ he hupdate) hs

theorem keeps_ensureRunning : Keeps I ensureRunning :=
  keeps_of_does (E := []) does_ensureRunning fun _ he => absurd he List.not_mem_nil

theorem keeps_askStore (call : Recovery.Call) (ask : Recovery.Store → Except RecoveryError α) :
    Keeps I (askStore call ask) :=
  keeps_of_does (E := []) (does_askStore call ask) fun _ he => absurd he List.not_mem_nil

/-- A call of the store keeps what the stores it may lead to keep. -/
theorem keeps_updateStore {call : Recovery.Call}
    {update : Recovery.Store → Except RecoveryError Recovery.Store}
    (h : ∀ s store, s.callStore call update = .ok store → I s → I { s with store }) :
    Keeps I (updateStore call update) := by
  intro s hs
  unfold updateStore askStore
  rw [exec_bind, exec_get_bind]
  rcases hcall : s.callStore call update with e | store
  · exact hs
  · exact h s store hcall hs

/-! ## Requests of the registry -/

/-- What has to be known of the parts of an eviction. -/
structure KeepsEviction (I : Server → Prop) : Prop where
  unregistered : ∀ {s s'}, Server.Update .unregistered s s' → I s → I s'
  endClient : ∀ client, Keeps I (endClient client)
  endClientLeniently : ∀ client, Keeps I (endClientLeniently client)
  removeClient : ∀ owner, Keeps I (updateStore .removeClient (·.removeClient owner))

/-- What has to be known of the parts that registrations and evictions share. -/
structure KeepsParts (I : Server → Prop) : Prop extends KeepsEviction I where
  enrolled : ∀ {s s'}, Server.Update .enrolled s s' → I s → I s'
  renewed : ∀ {s s'}, Server.Update .renewed s s' → I s → I s'
  addClient : ∀ now owner, Keeps I (updateStore .addClient (·.addClient now owner))

/-- A client that leaves the table does so in one update, if it is there. -/
theorem keeps_unregister (h : ∀ {s s'}, Server.Update .unregistered s s' → I s → I s')
    (client : ClientNo) : Keeps I (unregister client) := by
  refine keeps_of_does (does_unregister List.mem_cons_self client) (E := [.unregistered]) ?_
  intro e he
  rcases List.mem_singleton.1 he with rfl
  exact h

section Eviction

variable (h : KeepsEviction I)

include h

/-- A removal keeps what its parts keep, however far it gets. -/
theorem keeps_removeClient (id : ClientId) : Keeps I (removeClient id) := by
  refine keeps_bind keeps_ensureRunning fun _ => ?_
  apply keeps_get_bind
  intro s hs
  split
  · exact hs
  · rename_i client _
    refine keeps_bind (h.endClient client) (fun _ => ?_) s hs
    refine keeps_bind (keeps_unregister h.unregistered client) fun _ => ?_
    exact keeps_get_bind fun s hs => h.removeClient _ s hs

/-- Evictions keep what the parts of a single one keep. -/
theorem keeps_evict (clients : List ClientNo) : Keeps I (evict clients) := by
  induction clients with
  | nil => exact keeps_pure _
  | cons client rest ih =>
    refine keeps_bind (h.endClientLeniently client) fun _ => ?_
    refine keeps_bind (keeps_unregister h.unregistered client) fun gone => ?_
    split
    · apply keeps_get_bind
      intro s hs
      -- a store that cannot forget the client holds up nobody
      refine keeps_bind (keeps_tryCatch (h.removeClient _) fun _ => keeps_pure _) (fun _ => ?_) s hs
      exact keeps_bind ih fun _ => keeps_pure _
    · exact ih

/-- A sweep keeps what evictions keep, since it evicts those whose lease has ended. -/
theorem keeps_sweep : Keeps I sweep := by
  apply keeps_get_bind
  intro s hs
  split
  · exact keeps_evict h _ s hs
  · exact hs

end Eviction

section Enrolment

variable (h : KeepsParts I)

include h

/-- The record of a new client comes in one update. -/
theorem keeps_recordClient (r : Registration) (needReclaim : Bool) :
    Keeps I (recordClient r needReclaim) := by
  refine keeps_of_does (does_recordClient List.mem_cons_self r needReclaim) (E := [.enrolled]) ?_
  intro e he
  rcases List.mem_singleton.1 he with rfl
  exact h.enrolled

/-- A new client comes, the one it replaces ends, and the store is told of the new one. -/
theorem keeps_enrolNew (r : Registration) (needReclaim : Bool) (old : Option ClientNo) :
    Keeps I (enrolNew r needReclaim old) := by
  refine keeps_bind (keeps_recordClient h r needReclaim) fun client => ?_
  have hrecorded : Keeps I (do
      let now := (← get).wall
      tryCatch (updateStore .addClient (·.addClient now r.owner)) fun e => do
        let _ ← unregister client
        throw e
      pure (if old.isSome then Enrolment.replaced else .created, client)) := by
    apply keeps_get_bind
    intro s hs
    refine keeps_bind (keeps_tryCatch (h.addClient s.wall r.owner) fun e => ?_) (fun _ => ?_) s hs
    -- the store knows nothing of the new client, and so it leaves again
    · exact keeps_bind (keeps_unregister h.unregistered client) fun _ => keeps_throw e
    · exact keeps_pure _
  dsimp only
  split
  · rename_i old
    exact keeps_bind (h.endClientLeniently old) fun _ => hrecorded
  · exact hrecorded

/-- A registration that finds its record renews a lease; any other one brings a new client. -/
theorem keeps_enrol (r : Registration) (reuse : Bool) : Keeps I (enrol r reuse) := by
  refine keeps_bind keeps_ensureRunning fun _ => ?_
  refine keeps_bind (keeps_askStore _ _) fun needReclaim => ?_
  apply keeps_get_bind
  intro s hs
  split
  · exact keeps_enrolNew h r needReclaim none s hs
  · rename_i old _
    rw [exec_bind, exec_ofExcept]
    rcases hserves : (if reuse then (s.client old).serves r s.now else .ok false) with e | serves
    · exact hs
    · cases serves with
      | true =>
        -- a record that serves its owner again has a valid lease
        have hvalid : s.leaseValid old = true := by
          split at hserves
          · exact isLeaseValid_of_serves hserves
          · cases hserves
        exact h.renewed (.client s old _ (.renewed _ hvalid)) hs
      | false =>
        -- any other record leaves the table before its successor comes
        have hleft := h.unregistered (.unregistered s (s.client old).id) hs
        exact keeps_enrolNew h r needReclaim (some old) _ hleft

/-- A registration keeps what its parts keep, whether or not it finds its record. -/
theorem keeps_register (r : Registration) : Keeps I (register r) := keeps_enrol h r true

theorem keeps_createClient (r : Registration) : Keeps I (createClient r) :=
  keeps_bind (keeps_enrol h r false) fun _ => keeps_pure _

end Enrolment

/-! ## Grace and the end of the server -/

/-- The client is marked, and the store is told after that. -/
theorem keeps_reclaimComplete (hreclaimed : ∀ {s s'}, Server.Update .reclaimed s s' → I s → I s')
    (hcall : ∀ owner, Keeps I (updateStore .reclaimClient (·.reclaimClient owner)))
    (client : ClientNo) : Keeps I (reclaimComplete client) := by
  refine keeps_bind keeps_ensureRunning fun _ => ?_
  refine keeps_bind (keeps_of_does (does_completeReclaim List.mem_cons_self client)
    (E := [.reclaimed]) ?_) fun _ => ?_
  · intro e he
    rcases List.mem_singleton.1 he with rfl
    exact hreclaimed
  · apply keeps_get_bind
    intro s hs
    refine keeps_bind (hcall _) (fun _ => ?_) s hs
    exact keeps_bind (keeps_askStore _ _) fun _ => keeps_pure _

/-- The store gives up waiting once the grace period is closed. -/
theorem keeps_endGrace (hclosed : ∀ {s s'}, Server.Update .graceClosed s s' → I s → I s')
    (hcall : ∀ s store, s.graceOver = true →
      s.callStore .reclaimComplete (·.reclaimComplete) = .ok store → I s → I { s with store }) :
    Keeps I endGrace := by
  refine keeps_bind keeps_ensureRunning fun _ => ?_
  apply keeps_get_bind
  intro s hs
  split
  · exact hs
  · rw [exec_bind, exec_modify]
    -- the call is made with the window closed, which the hypothesis on it may use
    refine (keeps_updateStore (I := fun t => I t ∧ t.graceOver = true) ?_ _
      ⟨hclosed (.graceClosed s) hs, rfl⟩).1
    exact fun t store hanswer ht => ⟨hcall t store ht.2 hanswer ht.1, ht.2⟩

theorem keeps_endClients (h : ∀ client, Keeps I (endClientLeniently client))
    (clients : List ClientNo) : Keeps I (endClients clients) := by
  induction clients with
  | nil => exact keeps_pure _
  | cons client rest ih => exact keeps_bind (h client) fun _ => ih

/-- The store is closed once the server has stopped. -/
theorem keeps_shutdown (hstopped : ∀ {s s'}, Server.Update .stopped s s' → I s → I s')
    (hend : ∀ client, Keeps I (endClientLeniently client))
    (hclose : ∀ s store, s.running = false → s.callStore .close (fun store => .ok store.close) =
      .ok store → I s → I { s with store }) : Keeps I shutdown := by
  apply keeps_get_bind
  intro s hs
  split
  · rw [exec_bind, exec_set]
    -- nothing that ends clients starts the server again
    have hended : Keeps (fun t => I t ∧ t.running = false) (endClients s.registered.values) := by
      refine fun t ht => ⟨keeps_endClients hend _ t ht.1, ?_⟩
      rw [(does_endClients (List.Subset.refl _) _ t).running_eq (by decide)]
      exact ht.2
    refine (keeps_bind hended (fun _ => keeps_updateStore ?_) _ ⟨hstopped (.stopped s) hs, rfl⟩).1
    exact fun t store hcall ht => ⟨hclose t store ht.2 hcall ht.1, ht.2⟩
  · exact hs

end Request

/-! ## The passing of time -/

namespace Server

variable {I : Server → Prop} {s : Server} {limit : Nat}

/-- What sweeps, the end of grace and the clock keep is kept while time passes. -/
theorem fireUntil_keeps (hpassed : ∀ {s s'}, Update .passed s s' → I s → I s')
    (htimer : ∀ {s s'}, Update .timerSet s s' → I s → I s') (hsweep : Request.Keeps I Request.sweep)
    (hgrace : Request.Keeps I Request.endGrace) (fuel : Nat) (hs : I s) :
    I (fireUntil fuel s limit) := by
  -- on the number of timers that may still fire, each of them on a server of its own
  induction fuel generalizing s with
  | zero => exact hs
  | succ fuel ih =>
    -- a timer that is due in the past fires at once
    have hpass (reading : Nat) : I (s.passTo (max s.now reading)) :=
      hpassed (.passed s _ (Nat.le_max_left s.now reading)) hs
    unfold fireUntil
    split
    · exact hs
    · rename_i due _
      exact ih (htimer (.timerSet _ _ _) (hsweep _ (hpass (tick due))))
    · rename_i due _
      exact ih (htimer (.timerSet _ _ _) (hgrace _ (hpass (tick due))))

/-- The clock is put to its last reading once all timers have fired. -/
theorem elapse_keeps (hpassed : ∀ {s s'}, Update .passed s s' → I s → I s')
    (htimer : ∀ {s s'}, Update .timerSet s s' → I s → I s') (hsweep : Request.Keeps I Request.sweep)
    (hgrace : Request.Keeps I Request.endGrace) (nanos : Nat) (hs : I s) : I (s.elapse nanos) := by
  have hfired : I (fireUntil (s.now + nanos + 2) s (s.now + nanos)) :=
    fireUntil_keeps hpassed htimer hsweep hgrace (s.now + nanos + 2) hs
  have hnow := (chain_fireUntil (s.now + nanos + 2) s (Nat.le_add_right s.now nanos)).2
  exact hpassed (.passed _ _ hnow) hfired

end Server

/-! ## Actions of the registry -/

/-- One store becomes another by a call that it answers. -/
inductive Recovery.Store.Step (s : Store) : Store → Prop where
  | addClient {now : WallTime} {owner : Bytes} {s' : Store} (h : s.addClient now owner = .ok s') :
      Step s s'
  | removeClient {owner : Bytes} {s' : Store} (h : s.removeClient owner = .ok s') : Step s s'
  | reclaimClient {owner : Bytes} {s' : Store} (h : s.reclaimClient owner = .ok s') : Step s s'
  | reclaimComplete {s' : Store} (h : s.reclaimComplete = .ok s') : Step s s'
  | close : Step s s.close

namespace Effect

/-- What actions of the registry do besides ending clients and calling the store. -/
def administering : List Effect :=
  [enrolled, unregistered, renewed, revived, confirmed, reclaimed, sessionMade, sessionDropped,
    slotUsed, connected, graceClosed, stopped, passed, timerSet]

end Effect

/-- Whether an action is one of the registry, its sessions and its clock, and not one on the
owners, states, opens and locks of a client. -/
def Action.ofRegistry : Action → Bool
  | .enter .. | .nameOwner .. | .releaseOwner .. | .releaseState .. | .openFile .. | .downgrade ..
  | .removeOpen .. | .lock .. | .unlock .. | .setFaults _ => false
  | _ => true

/-- What has to be known of the parts of the registry's actions. -/
structure KeepsRegistry (I : Server → Prop) : Prop where
  update : ∀ e ∈ Effect.administering, ∀ {s s'}, Server.Update e s s' → I s → I s'
  endClient : ∀ client, Request.Keeps I (Request.endClient client)
  endClientLeniently : ∀ client, Request.Keeps I (Request.endClientLeniently client)
  store : ∀ (s : Server) (store : Recovery.Store), s.store.Step store → I s → I { s with store }

namespace KeepsRegistry

open Request

variable {I : Server → Prop}

/-- A call that the store answers is a step of the store. -/
theorem keeps_call (h : KeepsRegistry I) {call : Recovery.Call}
    {update : Recovery.Store → Except RecoveryError Recovery.Store}
    (hstep : ∀ {s s' : Recovery.Store}, update s = .ok s' → s.Step s') :
    Keeps I (updateStore call update) :=
  keeps_updateStore fun s store hcall => h.store s store (hstep (Server.callStore_eq_ok hcall))

/-- Whatever keeps the parts of the registry's actions keeps those of registrations, too. -/
theorem parts (h : KeepsRegistry I) : KeepsParts I where
  unregistered := h.update _ (by decide)
  endClient := h.endClient
  endClientLeniently := h.endClientLeniently
  removeClient _ := h.keeps_call .removeClient
  enrolled := h.update _ (by decide)
  renewed := h.update _ (by decide)
  addClient _ _ := h.keeps_call .addClient

/-- What the parts of the registry's actions keep, every action of the registry keeps; an action
that names a record which was never handed out does nothing. -/
theorem keeps_perform (h : KeepsRegistry I) {a : Action} (ha : a.ofRegistry = true) {s : Server}
    (hs : I s) : I (s.perform a) := by
  have hgrace : Keeps I endGrace :=
    keeps_endGrace (h.update _ (by decide)) fun t store _ hcall =>
      h.store t store (.reclaimComplete (Server.callStore_eq_ok hcall))
  unfold Server.perform
  split
  · rename_i hknown
    -- all other actions do updates of which each is known to keep it
    have hrest (hE : ∀ e ∈ a.effects, e ∈ Effect.administering) : I (s.carryOut a) :=
      (Server.chain_carryOut s a hknown).preserve (fun he hupdate => h.update _ (hE _ he) hupdate) hs
    cases a with
    | register r => exact keeps_register h.parts r s hs
    | createClient r => exact keeps_createClient h.parts r s hs
    | removeClient id => exact keeps_removeClient h.parts.toKeepsEviction id s hs
    | reclaimComplete client =>
      exact keeps_reclaimComplete (h.update _ (by decide)) (fun _ => h.keeps_call .reclaimClient)
        client s hs
    | endGrace => exact hgrace s hs
    | sweep => exact keeps_sweep h.parts.toKeepsEviction s hs
    | shutdown =>
      refine keeps_shutdown (h.update _ (by decide)) h.endClientLeniently ?_ s hs
      -- a store that is closed always answers
      intro t store _ hcall ht
      have hstore : Except.ok t.store.close = .ok store := Server.callStore_eq_ok hcall
      injection hstore with hstore
      exact h.store t store (hstore ▸ .close) ht
    | endClient client => exact h.endClient client s hs
    | endClientLeniently client => exact h.endClientLeniently client s hs
    | elapse nanos =>
      exact Server.elapse_keeps (h.update _ (by decide)) (h.update _ (by decide))
        (keeps_sweep h.parts.toKeepsEviction) hgrace nanos hs
    | enter => cases ha
    | nameOwner => cases ha
    | releaseOwner => cases ha
    | releaseState => cases ha
    | openFile => cases ha
    | downgrade => cases ha
    | removeOpen => cases ha
    | lock => cases ha
    | unlock => cases ha
    | setFaults => cases ha
    | _ => exact hrest (by dsimp only [Action.effects]; decide)
  · exact hs

end KeepsRegistry

end Leasehold

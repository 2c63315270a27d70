import Leasehold.Proofs.Keeping
import Leasehold.Proofs.Registration

/-!
# Proofs.Deeds — runs in which calls of the store fail one by one

The calls that fail are set before an operation begins. A sweep evicts many clients,
and the store may forget one of them and not the next; so a run is a list of `Deed`s,
each an operation or a sweep whose failing calls change from client to client.

* `Server.after_evict` — clients are evicted one by one;
* `Server.chain_carry` — a deed does no updates but those of its kinds;
* `KeepsOperations.keeps_carry` — what the operations of a registry keep, a deed
  keeps.
-/

namespace Leasehold

open Request

namespace Server

variable {s : Server}

/-! ## Evictions one by one -/

/-- The server after its store was told to forget an owner; a store that fails keeps it. -/
def unrecord (s : Server) (owner : Bytes) : Server :=
  match s.callStore .removeClient (·.removeClient owner) with
  | .ok store => { s with store }
  | .error _ => s

/-- Only the store changes. -/
theorem unrecord_eq (s : Server) (owner : Bytes) : ∃ store, s.unrecord owner = { s with store } := by
  unfold unrecord
  split
  · exact ⟨_, rfl⟩
  · exact ⟨s.store, rfl⟩

/-- The server after a client was evicted. -/
def evicted (s : Server) (client : ClientNo) : Server :=
  let ended := s.after (endClientLeniently client)
  if ended.registered.get? (ended.client client).id = some client then
    (ended.unlist client).unrecord (ended.client client).owner
  else ended

theorem after_updateStore_removeClient (s : Server) (owner : Bytes) :
    s.after (updateStore .removeClient (·.removeClient owner)) = s.unrecord owner := by
  rw [after_eq_exec, exec_updateStore]
  unfold unrecord
  rcases s.callStore .removeClient (·.removeClient owner) with e | store
  · rfl
  · rfl

/-- A failure to forget the record of an evicted client is dropped. -/
theorem exec_tryCatch_removeClient (s : Server) (owner : Bytes) :
    (tryCatch (updateStore .removeClient (·.removeClient owner)) fun _ => pure () :
      Request Unit).exec s = (.ok (), s.unrecord owner) := by
  rw [exec_tryCatch, exec_updateStore]
  unfold unrecord
  rcases s.callStore .removeClient (·.removeClient owner) with e | store
  · rfl
  · rfl

/-- An eviction is never refused: whoever is to go goes. -/
theorem exec_evict (clients : List ClientNo) (s : Server) :
    ∃ left, (evict clients).exec s = (.ok left, clients.foldl evicted s) := by
  -- on those who are still to go
  induction clients generalizing s with
  | nil => exact ⟨0, rfl⟩
  | cons client rest ih =>
    unfold evict
    rw [exec_answers_bind (answers_endClientLeniently client), exec_bind, exec_unregister]
    rw [List.foldl_cons, evicted]
    generalize s.after (endClientLeniently client) = ended
    by_cases hget : ended.registered.get? (ended.client client).id = some client
    · rw [if_pos hget, if_pos hget]
      dsimp only
      rw [if_pos rfl, exec_get_bind, exec_bind, exec_tryCatch_removeClient]
      obtain ⟨more, hmore⟩ := ih ((ended.unlist client).unrecord (ended.client client).owner)
      dsimp only
      rw [exec_bind]
      refine ⟨more + 1, ?_⟩
      rw [show ((ended.unlist client).client client).owner = (ended.client client).owner from rfl,
        hmore]
      rfl
    · rw [if_neg hget, if_neg hget]
      exact ih ended

/-- Evictions are one after the other, each on the server that the last one left. -/
theorem after_evict (clients : List ClientNo) (s : Server) :
    s.after (evict clients) = clients.foldl evicted s := by
  obtain ⟨left, hexec⟩ := exec_evict clients s
  exact after_of_exec hexec

/-- The end of a client leaves it in the table. -/
theorem Enlisted.listed_ending {t : Server} (hs : s.Enlisted) (h : Chain Effect.ending s t)
    {id : ClientId} {client : ClientNo} (hget : s.registered.get? id = some client) :
    t.registered.get? (t.client client).id = some client := by
  obtain ⟨hno, hid⟩ := hs.listed id client hget
  rw [h.registered_eq (by decide), h.client_id_eq hno, hid]
  exact hget

/-- A client that can be ended leaves the table before the store is told to forget its owner. -/
theorem exec_removeClient (hs : s.Enlisted) (id : ClientId) :
    (removeClient id).exec s =
      if s.running then
        match s.registered.get? id with
        | none => (.ok (), s)
        | some client =>
          match (endClient client).exec s with
          | (.error e, ended) => (.error e, ended)
          | (.ok _, ended) => (updateStore .removeClient
              (·.removeClient (ended.client client).owner)).exec (ended.unlist client)
      else (.error .notRunning, s) := by
  unfold removeClient
  rw [exec_bind, exec_ensureRunning]
  by_cases hrunning : s.running = true
  · rw [if_pos hrunning, if_pos hrunning]
    dsimp only
    rw [exec_get_bind]
    cases hclient : s.registered.get? id with
    | none => rfl
    | some client =>
      dsimp only
      rw [exec_bind]
      rcases hexec : (endClient client).exec s with ⟨_ | _, ended⟩
      · rfl
      -- the client stays in the table while it ends, so the entry is still there to be taken out
      · have hended := chain_of_exec (does_endClient (List.Subset.refl _) client s) hexec
        dsimp only
        rw [exec_bind, exec_unregister, if_pos (hs.listed_ending hended hclient)]
        rfl
  · rw [if_neg hrunning, if_neg hrunning]

/-- What the end of a client keeps, and its leaving the table with its record in the store, is kept
by every removal. -/
theorem removeClient_keeps {I : Server → Prop} (henlisted : ∀ {s : Server}, I s → s.Enlisted)
    (hending : ∀ {s t : Server}, Chain Effect.ending s t → I s → I t)
    (hforget : ∀ {s : Server} {client : ClientNo},
      s.registered.get? (s.client client).id = some client → I s →
        I ((s.unlist client).unrecord (s.client client).owner)) (id : ClientId) :
    Keeps I (removeClient id) := by
  intro s hs
  rw [exec_removeClient (henlisted hs)]
  split
  · split
    · exact hs
    · rename_i client hclient
      rcases hexec : (endClient client).exec s with ⟨_ | _, ended⟩
      -- a failing end stops the removal before the store is told
      · exact hending (chain_of_exec (does_endClient (List.Subset.refl _) client s) hexec) hs
      · have hended := chain_of_exec (does_endClient (List.Subset.refl _) client s) hexec
        dsimp only
        rw [← after_eq_exec, after_updateStore_removeClient]
        exact hforget ((henlisted hs).listed_ending hended hclient) (hending hended hs)
  · exact hs

/-- The same of an eviction. -/
theorem evicted_keeps_of_forget {I : Server → Prop}
    (hending : ∀ {s t : Server}, Chain Effect.ending s t → I s → I t) {client : ClientNo}
    (hforget : ∀ {s : Server}, s.registered.get? (s.client client).id = some client → I s →
      I ((s.unlist client).unrecord (s.client client).owner)) (hs : I s) : I (s.evicted client) := by
  have hended := hending (does_endClientLeniently (List.Subset.refl _) client s) hs
  unfold evicted
  dsimp only
  split
  · rename_i hget
    exact hforget hget hended
  · exact hended

/-- An eviction does no updates but those of its kinds. -/
theorem chain_evicted (s : Server) (client : ClientNo) :
    Chain Effect.evicting s (s.evicted client) := by
  have hevict := does_evict (List.Subset.refl _) [client] s
  unfold DoesFrom at hevict
  rw [← after_eq_exec, after_evict] at hevict
  exact hevict

/-- What the parts of an eviction keep, the eviction keeps. -/
theorem evicted_keeps {I : Server → Prop} (h : KeepsEviction I) (client : ClientNo) (hs : I s) :
    I (s.evicted client) := by
  have hevict := keeps_evict h [client] s hs
  rw [← after_eq_exec, after_evict] at hevict
  exact hevict

end Server

/-! ## Deeds -/

/-- An operation, or a sweep during which the failing calls change from client to client. -/
inductive Deed where
  | act (a : Action)
  /-- A sweep; the failing calls are set anew before each client is evicted. -/
  | sweepFailing (failing : ClientNo → Faults)

/-- The registration that an action asks for. -/
def Action.registration? : Action → Option Registration
  | .register r | .createClient r => some r
  | _ => none

/-- The registration that a deed asks for. -/
def Deed.registration? : Deed → Option Registration
  | .act a => a.registration?
  | .sweepFailing _ => none

/-- The kinds of updates that a deed may do. -/
def Deed.effects : Deed → List Effect
  | .act a => a.effects
  | .sweepFailing _ => .faultsSet :: Effect.evicting

/-- Only an operation makes a record outside the table. -/
theorem Deed.not_entered {deeds : List Deed} (h : ∀ a, .act a ∈ deeds → .entered ∉ a.effects) :
    ∀ d ∈ deeds, .entered ∉ d.effects := by
  intro d hd
  cases d with
  | act a => exact h a hd
  | sweepFailing failing =>
    show .entered ∉ .faultsSet :: Effect.evicting
    decide

namespace Server

variable {s : Server}

/-- Evicts clients; the failing calls are set anew before each. -/
def evictFailing (failing : ClientNo → Faults) (s : Server) (clients : List ClientNo) : Server :=
  clients.foldl (fun s no => { s with faults := failing no }.evicted no) s

/-- The server after an operation. -/
def carry (s : Server) : Deed → Server
  | .act a => s.perform a
  | .sweepFailing failing =>
    if s.running then s.evictFailing failing (s.registered.values.filter fun no => !s.leaseValid no)
    else s

/-- The server after a run. -/
def carryAll (s : Server) (deeds : List Deed) : Server := deeds.foldl carry s

/-- What an eviction keeps once the failing calls are set for it, a sweep keeps during which they
change. -/
theorem sweepFailing_keeps {I : Server → Prop} {failing : ClientNo → Faults}
    (hevicted : ∀ {s : Server} client, I s → I ({ s with faults := failing client }.evicted client))
    (hs : I s) : I (s.carry (.sweepFailing failing)) := by
  have hevict (clients : List ClientNo) {t : Server} (ht : I t) : I (t.evictFailing failing clients) := by
    -- the calls that fail are set anew for each client
    induction clients generalizing t with
    | nil => exact ht
    | cons client rest ih => exact ih (hevicted client ht)
  unfold carry
  dsimp only
  split
  · exact hevict _ hs
  · exact hs

/-- A deed does no updates but those of its kinds. -/
theorem chain_carry (s : Server) (d : Deed) : Chain d.effects s (s.carry d) := by
  cases d with
  | act a => exact chain_perform s a
  | sweepFailing failing =>
    refine sweepFailing_keeps (I := Chain (Deed.sweepFailing failing).effects s)
      (fun {t} client ht => ht.trans ?_) .refl
    have hset : Chain (Deed.sweepFailing failing).effects t { t with faults := failing client } :=
      .single List.mem_cons_self (.faultsSet t _)
    exact hset.trans ((chain_evicted _ client).mono (List.subset_cons_self _ _))

/-- An action that asks for a registration is one. -/
theorem perform_of_registration {a : Action} {r : Registration} (h : a.registration? = some r)
    (s : Server) : ∃ reuse, s.perform a = s.after (enrol r reuse) := by
  cases a with
  | register r' =>
    cases h
    exact ⟨true, rfl⟩
  | createClient r' =>
    cases h
    exact ⟨false, after_createClient s r⟩
  | _ => cases h

/-- What every deed of a run keeps, the run keeps. -/
theorem carryAll_keeps {I : Server → Prop} {deeds : List Deed}
    (hstep : ∀ d ∈ deeds, ∀ {s : Server}, I s → I (s.carry d)) (hs : I s) : I (s.carryAll deeds) := by
  -- on the deeds that are still to come
  induction deeds generalizing s with
  | nil => exact hs
  | cons d rest ih =>
    exact ih (fun b hb => hstep b (List.mem_cons_of_mem _ hb)) (hstep d List.mem_cons_self hs)

/-- Nobody who is evicted changes what is set to fail. -/
theorem faults_evicted (s : Server) (client : ClientNo) : (s.evicted client).faults = s.faults :=
  (chain_evicted s client).faults_eq (by decide)

end Server

/-! ## The operations of a registry -/

/-- What is done to the table of clients, the store, the window and the server as a whole. -/
def Effect.governing : List Effect :=
  [unregistered, enrolled, entered, recorded, graceClosed, stopped, faultsSet]

/-- What has to be known of what a registry does besides registering clients. -/
structure KeepsUpkeep (I : Server → Prop) : Prop where
  update : ∀ {e s s'}, Server.Update e s s' → e ∉ Effect.governing → I s → I s'
  removeClient : ∀ id, Keeps I (removeClient id)
  evicted : ∀ {s} client, I s → I (Server.evicted s client)
  reclaimComplete : ∀ {s client}, client.value < s.clients.size → I s →
    I (s.after (reclaimComplete client))
  endGrace : Keeps I endGrace
  shutdown : Keeps I shutdown

/-- What has to be known of the operations of a registry. -/
structure KeepsOperations (I : Server → Prop) : Prop extends KeepsUpkeep I where
  enrol : ∀ r reuse, Keeps I (enrol r reuse)

variable {I : Server → Prop} {s : Server}

namespace KeepsUpkeep

theorem keeps_sweep (h : KeepsUpkeep I) : Keeps I sweep := by
  have hevict (clients : List ClientNo) : Keeps I (evict clients) := by
    intro s hs
    rw [← after_eq_exec, Server.after_evict]
    induction clients generalizing s with
    | nil => exact hs
    | cons client rest ih => exact ih _ (h.evicted client hs)
  apply keeps_get_bind
  intro s hs
  split
  · exact hevict _ s hs
  · exact hs

/-- An action that registers nobody. -/
theorem keeps_perform (h : KeepsUpkeep I) {a : Action} (hregisters : a.registration? = none)
    (hentered : .entered ∉ a.effects)
    (hset : ∀ faults, a = .setFaults faults → I s → I { s with faults }) (hs : I s) :
    I (s.perform a) := by
  unfold Server.perform
  split
  · rename_i hknown
    -- whatever is not governed by the store is made of updates
    have hrest (hE : ∀ e ∈ a.effects, e ∉ Effect.governing) : I (s.carryOut a) :=
      (Server.chain_carryOut s a hknown).preserve (fun he hupdate => h.update hupdate (hE _ he)) hs
    cases a with
    | register r => cases hregisters
    | createClient r => cases hregisters
    | removeClient id => exact h.removeClient id s hs
    | reclaimComplete client => exact h.reclaimComplete (of_decide_eq_true hknown) hs
    | endGrace => exact h.endGrace s hs
    | sweep => exact h.keeps_sweep s hs
    | shutdown => exact h.shutdown s hs
    | setFaults faults => exact hset faults rfl hs
    | elapse nanos =>
      exact Server.elapse_keeps (fun hupdate => h.update hupdate (by decide))
        (fun hupdate => h.update hupdate (by decide)) h.keeps_sweep h.endGrace nanos hs
    | enter => exact absurd (List.mem_singleton.2 rfl) hentered
    | _ => exact hrest (by dsimp only [Action.effects]; decide)
  · exact hs

end KeepsUpkeep

namespace KeepsOperations

theorem keeps_perform (h : KeepsOperations I) {a : Action} (hentered : .entered ∉ a.effects)
    (hset : ∀ faults, a = .setFaults faults → I s → I { s with faults }) (hs : I s) :
    I (s.perform a) := by
  cases hregisters : a.registration? with
  | none => exact h.toKeepsUpkeep.keeps_perform hregisters hentered hset hs
  | some r =>
    obtain ⟨reuse, hsame⟩ := Server.perform_of_registration hregisters s
    rw [hsame]
    exact h.enrol r reuse s hs

/-- What does not depend on the calls that fail is kept by every deed. -/
theorem keeps_carry (h : KeepsOperations I) (hset : ∀ {s : Server} faults, I s → I { s with faults })
    {d : Deed} (hentered : .entered ∉ d.effects) (hs : I s) : I (s.carry d) := by
  cases d with
  | act a => exact h.keeps_perform hentered (fun faults _ => hset faults) hs
  | sweepFailing failing =>
    exact Server.sweepFailing_keeps (fun client hs => h.evicted client (hset _ hs)) hs

/-- What the operations of a registry keep, every run of deeds keeps. -/
theorem keeps_carryAll (h : KeepsOperations I)
    (hset : ∀ {s : Server} faults, I s → I { s with faults }) {deeds : List Deed}
    (hentered : ∀ d ∈ deeds, .entered ∉ d.effects) (hs : I s) : I (s.carryAll deeds) :=
  Server.carryAll_keeps (fun d hd => h.keeps_carry hset (hentered d hd)) hs

end KeepsOperations

end Leasehold

import Leasehold.Proofs.Deeds
import Leasehold.Proofs.RecoveryTables
import Leasehold.Proofs.SessionIdentity

/-!
# Proofs.DurableRecords — registered clients are on record

Calls of the store may fail at any moment. A registration, a replacement, a
removal and a sweep change the table of registered clients and the store one after
the other, and each order leaves the owner of every registered client on record
(`Server.Balanced`). While no call fails the store lists nobody else.

* `Server.balanced_carry` — what every operation keeps;
* `Server.registered_on_record` — so it is after every run.
-/

namespace Leasehold

open Request

namespace Server

variable {s s' : Server} {e : Effect} {exact : Prop} {pending : Option Bytes}

/-! ## The table and the store -/

/-- Nothing failed so far: the store lists none but the registered owners, and perhaps the one whose
registration or removal is under way. -/
structure Settled (pending : Option Bytes) (s : Server) : Prop where
  spared : s.Spared
  numbered : s.Numbered
  opened : s.running = true → s.store.tables.closed = false
  listed : s.running = true → s.clients.size < 0x100_0000 → ∀ owner,
    s.store.tables.current owner = true → s.Lists owner ∨ pending = some owner

/-- The owner of every registered client is on record; if no call fails, nobody else is. -/
structure Balanced (exact : Prop) (pending : Option Bytes) (s : Server) : Prop where
  enlisted : s.Enlisted
  recorded : ∀ owner, s.Lists owner → s.store.tables.current owner = true
  settled : exact → s.Settled pending

/-- An open store refuses only the calls that are set to fail. -/
theorem fails_of_opened {call : Recovery.Call}
    {update : Recovery.Store → Except RecoveryError Recovery.Store} {t : Recovery.Tables}
    {err : RecoveryError} (hcall : s.callStore call update = .error err)
    (htables : (update s.store).map (·.tables) = s.store.tables.whileOpen t)
    (hopen : s.store.tables.closed = false) : s.faults.fails call = true := by
  refine (fails_of_callStore_eq_error hcall).resolve_right fun hrefused => ?_
  obtain ⟨store, hok, _⟩ := Recovery.Store.exists_ok htables hopen
  rw [hok] at hrefused
  cases hrefused

/-- While nothing failed, a call that the store refuses shows that the server has stopped. -/
theorem Settled.not_running_of_error (hs : s.Settled pending) {call : Recovery.Call}
    {update : Recovery.Store → Except RecoveryError Recovery.Store} {t : Recovery.Tables}
    {err : RecoveryError} (hcall : s.callStore call update = .error err)
    (htables : (update s.store).map (·.tables) = s.store.tables.whileOpen t) :
    s.running ≠ true := by
  intro hrunning
  have hfails := fails_of_opened hcall htables (hs.opened hrunning)
  rw [Faults.fails, show s.faults.store = [] from hs.spared] at hfails
  cases hfails

/-- A stopped server has nothing to list. -/
theorem Settled.of_not_running (hs : s.Settled pending) (hrunning : s.running ≠ true)
    (other : Option Bytes) : s.Settled other :=
  ⟨hs.spared, hs.numbered, hs.opened, fun h => absurd h hrunning⟩

theorem Update.not_running_of_stopped (h : Update .stopped s s') : s'.running = false := by
  cases h with
  | stopped => rfl
  | client _ _ _ hf => cases hf
  | session _ _ _ hf => cases hf

/-- Updates that leave the registered clients and the store to others. -/
theorem balanced_update (h : Update e s s')
    (he : e ∉ [.unregistered, .enrolled, .entered, .recorded, .faultsSet])
    (hs : s.Balanced exact pending) : s'.Balanced exact pending := by
  simp only [List.mem_cons, List.not_mem_nil, or_false, not_or] at he
  obtain ⟨hunregistered, henrolled, hentered, hrecorded, hfaults⟩ := he
  have hstore := h.store_eq hrecorded
  constructor
  · exact enlisted_update h henrolled hs.enlisted
  · intro owner hlists
    rw [hstore]
    exact hs.recorded owner (lists_of_update h henrolled hs.enlisted hlists)
  · intro hexact
    have hsettled := hs.settled hexact
    constructor
    · unfold Spared
      rw [h.faults_eq hfaults]
      exact hsettled.spared
    · exact numbered_update h hentered hsettled.numbered
    · intro hrunning
      rw [hstore]
      exact hsettled.opened (h.running_of_running hrunning)
    · intro hrunning hsize owner hcurrent
      -- the update does not stop the server, so nobody leaves the table
      have hstopped : e ≠ .stopped := by
        rintro rfl
        rw [h.not_running_of_stopped] at hrunning
        cases hrunning
      rw [h.clients_size_eq henrolled hentered] at hsize
      rw [hstore] at hcurrent
      rcases hsettled.listed (h.running_of_running hrunning) hsize owner hcurrent with hlists | hpending
      · refine .inl (lists_update h ?_ hs.enlisted hlists)
        simp [hunregistered, henrolled, hstopped]
      · exact .inr hpending

theorem balanced_chain {E : List Effect} (h : Chain E s s')
    (hE : ∀ e ∈ E, e ∉ [Effect.unregistered, .enrolled, .entered, .recorded, .faultsSet])
    (hs : s.Balanced exact pending) : s'.Balanced exact pending :=
  h.preserve (fun he hupdate => balanced_update hupdate (hE _ he)) hs

/-- The current records stay, whatever becomes of those still to reclaim. -/
theorem balanced_store (hs : s.Balanced exact pending) {store : Recovery.Store}
    (hcurrent : store.tables.current = s.store.tables.current)
    (hclosed : s.running = true → s.store.tables.closed = false → store.tables.closed = false) :
    { s with store }.Balanced exact pending := by
  constructor
  · exact enlisted_update (.recorded s store) (by decide) hs.enlisted
  · intro owner hlists
    rw [hcurrent]
    exact hs.recorded owner hlists
  · intro hexact
    have hsettled := hs.settled hexact
    refine ⟨hsettled.spared, numbered_update (.recorded s store) (by decide) hsettled.numbered,
      fun hrunning => hclosed hrunning (hsettled.opened hrunning), ?_⟩
    intro hrunning hsize owner hlisted
    rw [hcurrent] at hlisted
    exact hsettled.listed hrunning hsize owner hlisted

/-! ## Clients that leave -/

/-- Whoever leaves the table is still on record, and for the moment one owner too many is. -/
theorem balanced_unlist (hs : s.Balanced exact none) {no : ClientNo}
    (hget : s.registered.get? (s.client no).id = some no) :
    (s.unlist no).Balanced exact (some (s.client no).owner) := by
  have hlists := hs.enlisted.lists_unlist_iff hget
  have hupdate : Update .unregistered s (s.unlist no) := .unregistered s _
  constructor
  · exact enlisted_update hupdate (by decide) hs.enlisted
  · exact fun owner h => hs.recorded owner ((hlists owner).1 h).1
  · intro hexact
    have hsettled := hs.settled hexact
    refine ⟨hsettled.spared, numbered_update hupdate (by decide) hsettled.numbered,
      hsettled.opened, ?_⟩
    intro hrunning hsize owner hcurrent
    -- the owner of the client is on record without being listed, which is what is pending
    rcases hsettled.listed hrunning hsize owner hcurrent with hlisted | hpending
    · by_cases hsame : (s.client no).owner = owner
      · exact .inr (congrArg some hsame)
      · exact .inl ((hlists owner).2 ⟨hlisted, hsame⟩)
    · cases hpending

/-- The store forgets an owner for whom nobody is registered; if it fails, one owner too many is on
record. -/
theorem balanced_unrecord {owner : Bytes} (hs : s.Balanced exact (some owner))
    (hgone : ¬ s.Lists owner) : (s.unrecord owner).Balanced exact none := by
  have htables := s.store.map_tables_removeClient owner
  unfold unrecord
  split
  · rename_i store hcall
    obtain ⟨hopen, hstore⟩ := Recovery.Store.tables_of_ok htables (callStore_eq_ok hcall)
    -- the store has lost this owner and no other
    have hcurrent (o : Bytes) : store.tables.current o =
        (!decide (owner = o) && s.store.tables.current o) := by
      rw [hstore]
      rfl
    constructor
    · exact enlisted_update (.recorded s store) (by decide) hs.enlisted
    · intro o hlists
      have hne : owner ≠ o := fun hsame => hgone (hsame ▸ hlists)
      simpa [hcurrent, hne] using hs.recorded o hlists
    · intro hexact
      have hsettled := hs.settled hexact
      refine ⟨hsettled.spared, numbered_update (.recorded s store) (by decide) hsettled.numbered,
        fun _ => by rw [hstore]; exact hopen, ?_⟩
      intro hrunning hsize o hlisted
      simp only [hcurrent, Bool.and_eq_true, Bool.not_eq_true', decide_eq_false_iff_not] at hlisted
      rcases hsettled.listed hrunning hsize o hlisted.2 with hlists | hpending
      · exact .inl hlists
      · injection hpending with hsame
        exact absurd hsame hlisted.1
  · rename_i err hcall
    -- the call failed, which calls of a server that runs undisturbed do not
    refine ⟨hs.enlisted, hs.recorded, fun hexact => ?_⟩
    have hsettled := hs.settled hexact
    exact hsettled.of_not_running (hsettled.not_running_of_error hcall htables) none

/-- Once the store was told as well, the records agree with the table again. -/
theorem balanced_forget (hs : s.Balanced exact none) {no : ClientNo}
    (hget : s.registered.get? (s.client no).id = some no) :
    ((s.unlist no).unrecord (s.client no).owner).Balanced exact none := by
  refine balanced_unrecord (balanced_unlist hs hget) fun hlists => ?_
  exact ((hs.enlisted.lists_unlist_iff hget _).1 hlists).2 rfl

/-- An eviction leaves the table and the records in agreement. -/
theorem balanced_evicted (hs : s.Balanced exact none) (client : ClientNo) :
    (s.evicted client).Balanced exact none :=
  evicted_keeps_of_forget (fun h hs => balanced_chain h (by decide) hs)
    (fun hget hs => balanced_forget hs hget) hs

/-- A removal leaves the table and the records in agreement, however far it gets. -/
theorem balanced_removeClient (id : ClientId) : Keeps (Balanced exact none) (removeClient id) :=
  removeClient_keeps (fun hs => hs.enlisted) (fun h hs => balanced_chain h (by decide) hs)
    (fun hget hs => balanced_forget hs hget) id

/-! ## Clients that come -/

/-- The next identifier stands in no table as long as the counter has not wrapped. -/
theorem registered_get?_next (hs : s.Enlisted) (hnumbered : s.Numbered)
    (hsize : s.clients.size + 1 < 0x100_0000) : s.registered.get? s.ids.next.1 = none := by
  rw [Option.eq_none_iff_forall_ne_some]
  intro no hget
  obtain ⟨hno, hid⟩ := hs.listed _ no hget
  -- after one more registration two clients would bear one identifier
  have hafter : (s.withClient default false).Numbered :=
    numbered_update (.enrolled s default false) (by decide) hnumbered
  have hsize' := clients_size_withClient s default false
  have hne : no ≠ s.clients.nextNo := by
    rintro rfl
    exact Nat.lt_irrefl _ hno
  refine hne (hafter.client_ext (by omega) (by omega) (nextNo_lt_withClient s _ _) ?_)
  rw [client_withClient, client_withClient, if_neg hne, if_pos rfl, hid]
  rfl

/-- Numbers stay apart, whether the new client comes to stay or takes the place of another. -/
theorem numbered_withClientFor (hs : s.Numbered) (r : Registration) (needReclaim : Bool)
    (old : Option ClientNo) : (s.withClientFor r needReclaim old).Numbered := by
  refine (chain_withClientFor s r needReclaim old).preserve
    (fun {e a b} he hupdate => numbered_update hupdate ?_)
    (numbered_update (.enrolled s r needReclaim) (by decide) hs)
  rintro rfl
  exact absurd he (by decide)

/-- The new client is on record once the store has taken its owner, and has left the table again if
the store did not take it. -/
theorem balanced_enrolNew {r : Registration} (hs : s.Balanced exact (some r.owner))
    (hnew : ¬ s.Lists r.owner) (needReclaim : Bool) (old : Option ClientNo) :
    (s.after (enrolNew r needReclaim old)).Balanced exact none := by
  have htables := s.store.map_tables_addClient (s.withClientFor r needReclaim old).wall r.owner
  have hchain := chain_withClientFor s r needReclaim old
  have henlisted := enlisted_withClient hs.enlisted r needReclaim hnew
  have hmade := enlisted_chain hchain (by decide) henlisted
  -- nobody is listed after a registration but its owner and those listed before
  have hback (o : Bytes) (h : (s.withClientFor r needReclaim old).Lists o) :
      r.owner = o ∨ s.Lists o :=
    lists_of_lists_withClient hs.enlisted (lists_of_chain hchain (by decide) henlisted h)
  have hrunning : (s.withClientFor r needReclaim old).running = s.running :=
    hchain.running_eq (by decide)
  have hspared (h : s.Spared) : (s.withClientFor r needReclaim old).Spared := by
    unfold Spared
    rw [hchain.faults_eq (by decide)]
    exact h
  rw [after_eq_exec, exec_enrolNew]
  dsimp only
  split
  · rename_i store hcall
    obtain ⟨hopen, hadded⟩ := Recovery.Store.tables_of_ok htables (callStore_eq_ok hcall)
    have hcurrent (o : Bytes) : store.tables.current o =
        (decide (r.owner = o) || s.store.tables.current o) := by
      rw [hadded]
      rfl
    constructor
    · exact enlisted_update (.recorded _ store) (by decide) hmade
    · intro o hlists
      rw [hcurrent, Bool.or_eq_true, decide_eq_true_eq]
      exact (hback o hlists).imp_right (hs.recorded o)
    · intro hexact
      have hsettled := hs.settled hexact
      refine ⟨hspared hsettled.spared, numbered_update (.recorded _ store) (by decide)
        (numbered_withClientFor hsettled.numbered r needReclaim old), fun _ => by rw [hadded]; exact hopen, ?_⟩
      intro hrun hbound o hlisted
      -- below the bound the new client displaces nobody
      have hbound : s.clients.size + 1 < 0x100_0000 :=
        clients_size_withClientFor s r needReclaim old ▸ hbound
      have hfresh := registered_get?_next hs.enlisted hsettled.numbered hbound
      have hbefore : r.owner = o ∨ s.Lists o := by
        rw [hcurrent, Bool.or_eq_true, decide_eq_true_eq] at hlisted
        rcases hlisted with hsame | hlisted
        · exact .inl hsame
        · rcases hsettled.listed (hrunning ▸ hrun) (by omega) o hlisted with hlists | hpending
          · exact .inr hlists
          · injection hpending with hsame
            exact .inl hsame
      exact .inl (lists_chain hchain (by decide) henlisted (lists_withClient hs.enlisted hfresh hbefore))
  · rename_i err hcall
    -- a failed registration is taken back, and the owner is not on record for it
    have hunlisted := hmade.lists_unlist_iff (registered_get?_withClientFor s r needReclaim old)
    constructor
    · exact enlisted_update (.unregistered _ _) (by decide) hmade
    · intro o hlists
      obtain ⟨hlists, hne⟩ := (hunlisted o).1 hlists
      show (s.withClientFor r needReclaim old).store.tables.current o = true
      rw [owner_withClientFor] at hne
      rw [hchain.store_eq (by decide)]
      exact hs.recorded o ((hback o hlists).resolve_left hne)
    · intro hexact
      have hsettled := hs.settled hexact
      have hstopped := hsettled.not_running_of_error hcall htables
      refine ⟨hspared hsettled.spared, numbered_update (.unregistered _ _) (by decide)
        (numbered_withClientFor hsettled.numbered r needReclaim old), fun hrun => absurd (hrunning ▸ hrun) hstopped,
        fun hrun => absurd (hrunning ▸ hrun) hstopped⟩

/-- A registration leaves the table and the records in agreement, or a call has failed. -/
theorem balanced_enrol (r : Registration) (reuse : Bool) :
    Keeps (Balanced exact none) (enrol r reuse) := by
  intro s hs
  rw [exec_enrol]
  split
  · split
    · exact hs
    · split
      · rename_i hnone
        -- nothing was replaced, so nothing is pending yet
        have hpending : s.Balanced exact (some r.owner) := by
          refine ⟨hs.enlisted, hs.recorded, fun hexact => ?_⟩
          have hsettled := hs.settled hexact
          refine ⟨hsettled.spared, hsettled.numbered, hsettled.opened, ?_⟩
          exact fun hrunning hsize o h => (hsettled.listed hrunning hsize o h).imp_right nofun
        exact balanced_enrolNew hpending (registeredFor?_eq_none_iff.1 hnone) _ none
      · rename_i old hold
        split
        · exact hs
        · exact balanced_update (.client s old _ (.revived _)) (by decide) hs
        · obtain ⟨⟨id, hget⟩, howner⟩ := registeredFor?_eq_some hold
          -- the old record leaves the table first, and its owner is pending until the new one is on
          -- record
          rw [← (hs.enlisted.listed id old hget).2] at hget
          have hpending := balanced_unlist hs hget
          rw [howner] at hpending
          exact balanced_enrolNew hpending (hs.enlisted.not_lists_vacated hold) _ (some old)
  · exact hs

/-! ## Grace and the end of the server -/

/-- A reclaim moves the record of an owner, and loses none. -/
theorem balanced_reclaimComplete (client : ClientNo) :
    Keeps (Balanced exact none) (reclaimComplete client) := by
  refine keeps_reclaimComplete (fun h => balanced_update h (by decide)) (fun owner => ?_) client
  apply keeps_updateStore
  intro s store hcall hs
  obtain ⟨hopen, hstore⟩ := Recovery.Store.tables_of_ok (s.store.map_tables_reclaimClient owner)
    (callStore_eq_ok hcall)
  exact balanced_store hs (by rw [hstore]; rfl) fun _ _ => by rw [hstore]; exact hopen

/-- At the end of grace the records of those who were waited for go, and nobody else's. -/
theorem balanced_endGrace : Keeps (Balanced exact none) endGrace := by
  refine keeps_endGrace (fun h => balanced_update h (by decide)) ?_
  intro s store _ hcall hs
  obtain ⟨hopen, hstore⟩ := Recovery.Store.tables_of_ok s.store.map_tables_reclaimComplete
    (callStore_eq_ok hcall)
  exact balanced_store hs (by rw [hstore]; rfl) fun _ _ => by rw [hstore]; exact hopen

/-- A stopped server has no registered clients, and its store keeps what it has. -/
theorem balanced_shutdown : Keeps (Balanced exact none) shutdown := by
  refine keeps_shutdown (fun h => balanced_update h (by decide)) (fun client s hs => ?_) ?_
  · exact balanced_chain (does_endClientLeniently (List.Subset.refl _) client s) (by decide) hs
  · intro s store hrunning hcall hs
    have hstore : Except.ok s.store.close = .ok store := callStore_eq_ok hcall
    injection hstore with hstore
    refine balanced_store hs ?_ fun h => ?_
    · rw [← hstore, Recovery.Store.tables_close]
      rfl
    · rw [hrunning] at h
      cases h

/-! ## Every operation -/

theorem balanced_setFaults (hs : s.Balanced exact none) {faults : Faults}
    (hfaults : exact → faults.store = []) : { s with faults }.Balanced exact none := by
  refine ⟨enlisted_update (.faultsSet s faults) (by decide) hs.enlisted, hs.recorded,
    fun hexact => ?_⟩
  have hsettled := hs.settled hexact
  exact ⟨hfaults hexact, numbered_update (.faultsSet s faults) (by decide) hsettled.numbered,
    hsettled.opened, hsettled.listed⟩

/-- No operation breaks the agreement. -/
theorem keepsOperations_balanced : KeepsOperations (Balanced exact none) where
  update h he := balanced_update h fun hmem => he ((by decide :
    [Effect.unregistered, .enrolled, .entered, .recorded, .faultsSet] ⊆ Effect.governing) hmem)
  enrol := balanced_enrol
  removeClient := balanced_removeClient
  evicted client hs := balanced_evicted hs client
  reclaimComplete {s client} _ hs := balanced_reclaimComplete client s hs
  endGrace := balanced_endGrace
  shutdown := balanced_shutdown

end Server

/-! ## Runs in which calls fail one by one -/

/-- The same failing calls but for those of the store. -/
def Faults.spare (f : Faults) : Faults := { f with store := [] }

/-- The same operation with no call of the store set to fail. -/
def Deed.spare : Deed → Deed
  | .act (.setFaults faults) => .act (.setFaults faults.spare)
  | .act a => .act a
  | .sweepFailing failing => .sweepFailing fun no => (failing no).spare

theorem Deed.spare_spare (d : Deed) : d.spare.spare = d.spare := by
  cases d with
  | act a =>
    cases a with
    | setFaults faults => rfl
    | _ => rfl
  | sweepFailing failing => rfl

/-- A deed does what it did, whichever calls are set to fail. -/
theorem Deed.effects_spare (d : Deed) : d.spare.effects = d.effects := by
  cases d with
  | act a =>
    cases a with
    | setFaults faults => rfl
    | _ => rfl
  | sweepFailing failing => rfl

namespace Server

variable {s : Server} {exact : Prop}

/-- The same server with no call of the store set to fail. -/
def spare (s : Server) : Server := { s with faults := s.faults.spare }

/-- No call of the store has failed: every operation left the server as it would have with no call
of the store set to fail. -/
def Undisturbed (s : Server) : List Deed → Prop
  | [] => True
  | d :: rest => (s.spare.carry d.spare).spare = (s.carry d).spare ∧ (s.carry d).Undisturbed rest

/-- No deed does, if it enters no record from outside. -/
theorem balanced_carry (hs : s.Balanced exact none) {d : Deed} (hentered : .entered ∉ d.effects)
    (hspare : exact → d.spare = d) : (s.carry d).Balanced exact none := by
  cases d with
  | act a =>
    refine keepsOperations_balanced.keeps_perform hentered (fun faults ha hs => ?_) hs
    -- in a run that is to be exact, calls are never set to fail
    refine balanced_setFaults hs fun hexact => ?_
    subst ha
    have hfaults := hspare hexact
    injection hfaults with hfaults
    injection hfaults with hfaults
    rw [← hfaults]
    rfl
  | sweepFailing failing =>
    have hfailing (no : ClientNo) (hexact : exact) : (failing no).store = [] := by
      have hfaults := hspare hexact
      injection hfaults with hfaults
      rw [← hfaults]
      rfl
    exact sweepFailing_keeps (fun client hs =>
      balanced_evicted (balanced_setFaults hs (hfailing client)) client) hs

/-- After every run of deeds, whatever fails, the owner of every registered client is on record. -/
theorem balanced_carryAll (hs : s.Balanced False none) {deeds : List Deed}
    (hentered : ∀ d ∈ deeds, .entered ∉ d.effects) : (s.carryAll deeds).Balanced False none :=
  carryAll_keeps (fun d hd => fun hs => balanced_carry hs (hentered d hd) False.elim) hs

/-- A deed that lets no call fail lets none fail later. -/
theorem spared_carry (hs : s.Spared) {d : Deed} (hd : d.spare = d) : (s.carry d).Spared := by
  cases d with
  | act a =>
    by_cases hset : .faultsSet ∈ a.effects
    · cases a with
      | setFaults faults =>
        injection hd with hd
        injection hd with hd
        exact (congrArg Faults.store hd).symm
      | _ => exact absurd hset (by dsimp only [Action.effects]; decide)
    · exact (congrArg Faults.store ((chain_perform s a).faults_eq hset)).trans hs
  | sweepFailing failing =>
    injection hd with hd
    have hfailing (no : ClientNo) : (failing no).store = [] :=
      (congrArg Faults.store (congrFun hd no)).symm
    refine sweepFailing_keeps (I := Spared) (fun client _ => ?_) hs
    unfold Spared
    rw [faults_evicted]
    exact hfailing client

/-- A run in which no call of the store is set to fail is undisturbed. -/
theorem undisturbed_of_spared (hs : s.Spared) {deeds : List Deed} (h : ∀ d ∈ deeds, d.spare = d) :
    s.Undisturbed deeds := by
  induction deeds generalizing s with
  | nil => trivial
  | cons d rest ih =>
    have hd := h d List.mem_cons_self
    have hsame : s.spare = s := by
      unfold spare Faults.spare
      rw [← show s.faults.store = [] from hs]
    refine ⟨by rw [hsame, hd], ?_⟩
    exact ih (spared_carry hs hd) fun d hd => h d (List.mem_cons_of_mem _ hd)

/-- As long as no call has failed, the server is one on which none could fail. -/
theorem balanced_spare_carryAll (hs : s.spare.Balanced True none) {deeds : List Deed}
    (hentered : ∀ d ∈ deeds, .entered ∉ d.effects) (hundisturbed : s.Undisturbed deeds) :
    (s.carryAll deeds).spare.Balanced True none := by
  induction deeds generalizing s with
  | nil => exact hs
  | cons d rest ih =>
    obtain ⟨hsame, hrest⟩ := hundisturbed
    refine ih ?_ (fun d hd => hentered d (List.mem_cons_of_mem _ hd)) hrest
    have hspared : (s.spare.carry d.spare).Balanced True none := by
      refine balanced_carry hs ?_ fun _ => d.spare_spare
      rw [d.effects_spare]
      exact hentered d List.mem_cons_self
    rw [← hsame]
    exact balanced_setFaults hspared fun _ => rfl

/-- A server starts with nobody registered and nobody on record. -/
theorem balanced_start (timers : Bool) (config : Config) (store : Recovery.Store)
    (wall : WallTime) (now : Nat) :
    (start timers config store.reopen wall now).Balanced exact none := by
  have henlisted := enlisted_start timers config store.reopen wall now
  have hnumbered := (identified_start timers config store.reopen wall now).numbered
  obtain ⟨sweepDue, graceDue, hstart⟩ := start_eq timers config store.reopen wall now
  rw [hstart] at henlisted hnumbered ⊢
  refine ⟨henlisted, fun owner h => ?_, fun _ => ⟨rfl, hnumbered, fun _ => ?_, ?_⟩⟩
  · obtain ⟨id, no, hget, _⟩ := h
    cases hget
  · exact store.closed_reopen
  · intro _ _ owner hcurrent
    have hnone := store.current_reopen owner
    exact absurd (hnone.symm.trans hcurrent) Bool.false_ne_true

/-- After every run on a freshly opened store, however its calls failed, the owner of every
registered client is on record; and if no call has failed, nobody else is. -/
theorem registered_on_record (timers : Bool) (config : Config) (store : Recovery.Store)
    (wall : WallTime) (now : Nat) (deeds : List Deed)
    (h : ∀ a, .act a ∈ deeds → .entered ∉ a.effects)
    (hrunning : ((start timers config store.reopen wall now).carryAll deeds).running = true)
    (hsize : ((start timers config store.reopen wall now).carryAll deeds).clients.size < 0x100_0000) :
    let s := (start timers config store.reopen wall now).carryAll deeds
    (∀ owner, s.Lists owner → s.store.tables.current owner = true) ∧
    ((start timers config store.reopen wall now).Undisturbed deeds →
      ∀ owner, s.store.tables.current owner = true ↔ s.Lists owner) := by
  intro s
  have hentered := Deed.not_entered h
  have hrecorded := (balanced_carryAll (balanced_start timers config store wall now) hentered).recorded
  refine ⟨hrecorded, fun hundisturbed owner => ⟨fun hcurrent => ?_, hrecorded owner⟩⟩
  -- the converse is told of the same deeds without faults, which is what the server undergoes
  -- undisturbed
  have hstart : (start timers config store.reopen wall now).Balanced True none :=
    balanced_start timers config store wall now
  have hsettled := (balanced_spare_carryAll (balanced_setFaults hstart fun _ => rfl) hentered
    hundisturbed).settled trivial
  exact (hsettled.listed hrunning hsize owner hcurrent).resolve_right nofun

/-- Two clients are removed, and the store fails to forget one of them. -/
theorem registered_on_record_failing_once :
    let before : List Deed := [.act (.register (.ofOwner [1])), .act (.register (.ofOwner [2])),
      .act (.register (.ofOwner [3]))]
    let deeds : List Deed := before ++ [.act (.setFaults { store := [(.removeClient, .closed)] }),
      .act (.removeClient ⟨1⟩), .act (.setFaults {}), .act (.removeClient ⟨2⟩)]
    let s := (start false {} (Recovery.Store.reopen default) ⟨0⟩).carryAll before
    let left := (start false {} (Recovery.Store.reopen default) ⟨0⟩).carryAll deeds
    (∀ owner, s.store.tables.current owner = true ↔ s.Lists owner) ∧
      left.registered.values = [⟨2⟩] ∧
      [[1], [2], [3]].map left.store.tables.current = [true, false, true] ∧
      ∀ owner, left.Lists owner → left.store.tables.current owner = true := by
  intro before deeds s left
  have hentered : ∀ a, Deed.act a ∈ deeds → .entered ∉ a.effects := by
    have hall : ∀ d ∈ deeds, ∀ a, d = .act a → .entered ∉ a.effects := by
      simp [deeds, before]
      decide
    exact fun a ha => hall _ ha a rfl
  have hbefore := registered_on_record false {} default ⟨0⟩ 0 before
    (fun a ha => hentered a (List.mem_append_left _ ha)) (by decide +kernel) (by decide +kernel)
  have hleft := registered_on_record false {} default ⟨0⟩ 0 deeds hentered
    (by decide +kernel) (by decide +kernel)
  have hspared : (start false {} (Recovery.Store.reopen default) ⟨0⟩).Spared := rfl
  have hundisturbed := undisturbed_of_spared hspared (show ∀ d ∈ before, d.spare = d by
    simp [before, Deed.spare])
  exact ⟨hbefore.2 hundisturbed, by decide +kernel, by decide +kernel, hleft.1⟩

end Server

end Leasehold

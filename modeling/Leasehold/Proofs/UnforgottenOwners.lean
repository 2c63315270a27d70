import Mathlib.Control.Monad.Basic
import Leasehold.Proofs.WindowClosing

/-!
# Proofs.UnforgottenOwners — a removal that is confirmed and not done

A client leaves the table before the store is told to forget its owner. If the store
fails then, the owner stays on record, and nobody is left in the table for whom the
record could be removed: the next removal finds nobody, and answers that all is done.

* `Server.onRecord_carryAll` — an owner whose client has left is on record exactly if
  it was left there;
* `Server.removed_on_record_iff` — so it is once a removal was confirmed, whatever
  failed before;
* `Server.awaited_after_removal` — and so the next server waits for a client that was
  told that it is gone.
-/

namespace Leasehold

open Request

/-- The calls that are set to fail when a deed comes to a client. -/
def Deed.faultsFor (d : Deed) (s : Server) (no : ClientNo) : Faults :=
  match d with
  | .act _ => s.faults
  | .sweepFailing failing => failing no

namespace Server

variable {s t : Server} {e : Effect} {f : Faults} {id : ClientId} {no : ClientNo} {owner : Bytes}
  {stood cause left : Prop}

/-! ## Who is left on record -/

/-- A client leaves its place in the table and stays on record: the store fails to forget its owner,
or somebody else is registered in its place. -/
def LeavesOnRecord (id : ClientId) (no : ClientNo) (s : Server) (d : Deed) : Prop :=
  s.registered.get? id = some no ∧ (s.carry d).registered.get? id ≠ some no ∧
    (d.registration?.isSome = true ∨ (d.faultsFor s no).fails .removeClient = true)

/-- In the course of a run the client was left on record. -/
def LeftOnRecord (id : ClientId) (no : ClientNo) : Server → List Deed → Prop
  | _, [] => False
  | s, d :: rest => s.LeavesOnRecord id no d ∨ LeftOnRecord id no (s.carry d) rest

instance (id : ClientId) (no : ClientNo) (s : Server) (d : Deed) :
    Decidable (s.LeavesOnRecord id no d) :=
  inferInstanceAs (Decidable (_ ∧ _ ∧ (_ ∨ _)))

instance decidableLeftOnRecord (id : ClientId) (no : ClientNo) : (s : Server) →
    (deeds : List Deed) → Decidable (s.LeftOnRecord id no deeds)
  | _, [] => .isFalse nofun
  | s, d :: rest =>
    have := decidableLeftOnRecord id no (s.carry d) rest
    inferInstanceAs (Decidable (_ ∨ _))

/-- A client stands in its place and its owner is on record; or it has left, nobody else is
registered for the owner, and the owner is on record exactly if there is a cause. -/
structure OnRecord (id : ClientId) (no : ClientNo) (owner : Bytes) (stood cause : Prop)
    (s : Server) : Prop where
  opened : s.running = true → s.store.tables.closed = false
  enlisted : s.Enlisted
  made : no.value < s.clients.size
  bears : (s.client no).id = id
  owned : (s.client no).owner = owner
  standing : s.registered.get? id = some no → stood ∧ s.store.tables.current owner = true
  gone : s.running = true → s.registered.get? id ≠ some no →
    ¬ s.Lists owner ∧ (s.store.tables.current owner = true ↔ cause)

/-- Only the table and the calls of the store bear on who is on record. -/
theorem onRecord_update (h : Update e s t) (he : e ∉ [.unregistered, .enrolled, .recorded])
    (hs : s.OnRecord id no owner stood cause) : t.OnRecord id no owner stood cause := by
  simp only [List.mem_cons, List.not_mem_nil, or_false, not_or] at he
  obtain ⟨hunregistered, henrolled, hrecorded⟩ := he
  have hstore := h.store_eq hrecorded
  constructor
  · intro hrunning
    rw [hstore]
    exact hs.opened (h.running_of_running hrunning)
  · exact enlisted_update h henrolled hs.enlisted
  · exact Nat.lt_of_lt_of_le hs.made h.clients_size_le
  · rw [h.client_id_eq hs.made]
    exact hs.bears
  · exact (congrArg Registration.owner (h.registration_eq hs.made)).trans hs.owned
  · intro hget
    rw [hstore]
    exact hs.standing (registered_get?_of_ne_enrolled h henrolled hget)
  · intro hrunning hget
    -- the update does not stop the server, so nobody leaves the table
    have hstopped : e ≠ .stopped := by
      rintro rfl
      rw [h.not_running_of_stopped] at hrunning
      cases hrunning
    rw [h.registered_eq (by simp [hunregistered, henrolled, hstopped])] at hget
    rw [hstore]
    obtain ⟨hnobody, hiff⟩ := hs.gone (h.running_of_running hrunning) hget
    exact ⟨fun hlists => hnobody (lists_of_update h henrolled hs.enlisted hlists), hiff⟩

theorem onRecord_chain {E : List Effect} (h : Chain E s t)
    (hE : ∀ e ∈ E, e ∉ [Effect.unregistered, .enrolled, .recorded])
    (hs : s.OnRecord id no owner stood cause) : t.OnRecord id no owner stood cause :=
  h.preserve (fun he hupdate => onRecord_update hupdate (hE _ he)) hs

/-- A store in which the owner is on record as it was. -/
theorem onRecord_store (hs : s.OnRecord id no owner stood cause) {store : Recovery.Store}
    (hcurrent : store.tables.current owner = s.store.tables.current owner)
    (hopen : s.running = true → store.tables.closed = false) :
    { s with store }.OnRecord id no owner stood cause := by
  refine ⟨hopen, enlisted_update (.recorded s store) (by decide) hs.enlisted, hs.made, hs.bears,
    hs.owned, fun hget => ?_, fun hrunning hget => ?_⟩
  · rw [hcurrent]
    exact hs.standing hget
  · rw [hcurrent]
    exact hs.gone hrunning hget

/-! ## Clients that leave -/

/-- A client of another owner leaves the table. -/
theorem onRecord_unlist (hs : s.OnRecord id no owner stood cause) {other : ClientNo}
    (hget : s.registered.get? (s.client other).id = some other)
    (hne : (s.client other).owner ≠ owner) : (s.unlist other).OnRecord id no owner stood cause := by
  -- the client keeps its place, since it is another one that leaves
  have hplace : (s.unlist other).registered.get? id = some no ↔ s.registered.get? id = some no := by
    rw [unlist, Table.get?_erase]
    split
    · rename_i hid
      refine iff_of_false (Option.some_ne_none no).symm fun hno => hne ?_
      rw [← hid, hget] at hno
      rw [Option.some.inj hno]
      exact hs.owned
    · rfl
  refine ⟨hs.opened, enlisted_update (.unregistered s _) (by decide) hs.enlisted, hs.made, hs.bears,
    hs.owned, fun hstands => hs.standing (hplace.1 hstands), fun hrunning hgone => ?_⟩
  obtain ⟨hnobody, hiff⟩ := hs.gone hrunning (mt hplace.2 hgone)
  exact ⟨fun hlists => hnobody ((hs.enlisted.lists_unlist_iff hget _).1 hlists).1, hiff⟩

/-- The client itself leaves the table; the store forgets its owner, or fails. -/
theorem onRecord_forget_self (hs : s.OnRecord id no owner stood cause)
    (hget : s.registered.get? id = some no)
    (hcause : cause ↔ s.faults.fails .removeClient = true) :
    ((s.unlist no).unrecord owner).OnRecord id no owner stood cause := by
  have hlisted : s.registered.get? (s.client no).id = some no := hs.bears ▸ hget
  have henlisted := enlisted_update (.unregistered s (s.client no).id) (by decide) hs.enlisted
  have hnobody : ¬ (s.unlist no).Lists owner := fun hlists =>
    ((hs.enlisted.lists_unlist_iff hlisted owner).1 hlists).2 hs.owned
  have hleft : (s.unlist no).registered.get? id = none := by
    rw [unlist, Table.get?_erase, if_pos hs.bears]
  -- the client has left; what the store was told of it is the question
  have hgone : (s.unlist no).registered.get? id ≠ some no := by
    rw [hleft]
    exact (Option.some_ne_none no).symm
  unfold unrecord
  split
  · rename_i store hcall
    obtain ⟨hopen, hstore⟩ := Recovery.Store.tables_of_ok
      (s.store.map_tables_removeClient owner) (callStore_eq_ok hcall)
    have hspared : s.faults.fails .removeClient = false :=
      show (s.unlist no).faults.fails .removeClient = false from not_fails_of_callStore_eq_ok hcall
    have hforgotten : store.tables.current owner = false := by
      rw [hstore]
      simp [Recovery.Tables.remove]
    refine ⟨fun _ => by rw [hstore]; exact hopen,
      enlisted_update (.recorded _ store) (by decide) henlisted, hs.made, hs.bears, hs.owned,
      fun hstands => absurd hstands hgone, fun _ _ => ⟨hnobody, iff_of_false ?_ ?_⟩⟩
    · rw [hforgotten]
      exact Bool.false_ne_true
    · rw [hcause, hspared]
      exact Bool.false_ne_true
  · rename_i err hcall
    refine ⟨hs.opened, henlisted, hs.made, hs.bears, hs.owned,
      fun hstands => absurd hstands hgone, fun hrunning _ => ⟨hnobody, ?_⟩⟩
    have hfails : (s.unlist no).faults.fails .removeClient = true :=
      fails_of_opened hcall (s.store.map_tables_removeClient owner) (hs.opened hrunning)
    exact iff_of_true (hs.standing hget).2 (hcause.2 hfails)

/-- The store forgets another owner, or fails. -/
theorem onRecord_unrecord (hs : s.OnRecord id no owner stood cause) {other : Bytes}
    (hne : other ≠ owner) : (s.unrecord other).OnRecord id no owner stood cause := by
  unfold unrecord
  split
  · rename_i store hcall
    obtain ⟨hopen, hstore⟩ := Recovery.Store.tables_of_ok (s.store.map_tables_removeClient other)
      (callStore_eq_ok hcall)
    refine onRecord_store hs ?_ fun _ => ?_
    · simp [hstore, Recovery.Tables.remove, hne]
    · rw [hstore]
      exact hopen
  · exact hs

/-- Whoever leaves the table, the owner stays on record if its own client leaves and the store
fails. -/
theorem onRecord_forget (hs : s.OnRecord id no owner stood cause) {client : ClientNo}
    (hget : s.registered.get? (s.client client).id = some client)
    (hcause : client = no → stood → (cause ↔ s.faults.fails .removeClient = true)) :
    ((s.unlist client).unrecord (s.client client).owner).OnRecord id no owner stood cause := by
  by_cases hself : client = no
  · subst hself
    have hstands : s.registered.get? id = some client := hs.bears ▸ hget
    rw [hs.owned]
    exact onRecord_forget_self hs hstands (hcause rfl (hs.standing hstands).1)
  · by_cases hsame : (s.client client).owner = owner
    · -- the owner has another client only if its own has left, and then only on a stopped server
      have hmissing : s.registered.get? id ≠ some no := fun hstands =>
        hself (hs.enlisted.oneEach _ _ _ _ hget hstands (hsame.trans hs.owned.symm))
      have hstopped : s.running ≠ true := fun hrunning =>
        (hs.gone hrunning hmissing).1 ⟨_, client, hget, hsame⟩
      have hunlisted : Update .unregistered s (s.unlist client) := .unregistered s _
      obtain ⟨store, hstore⟩ := (s.unlist client).unrecord_eq (s.client client).owner
      rw [hstore]
      refine ⟨fun hrunning => absurd hrunning hstopped, ?_, hs.made, hs.bears, hs.owned,
        fun hstands => ?_, fun hrunning => absurd hrunning hstopped⟩
      · exact enlisted_update (.recorded _ store) (by decide)
          (enlisted_update hunlisted (by decide) hs.enlisted)
      · exact absurd (registered_get?_of_ne_enrolled hunlisted (by decide) hstands) hmissing
    · exact onRecord_unrecord (onRecord_unlist hs hget hsame) hsame

/-! ## Clients that come -/

/-- A client of another owner comes, and may take the place of the client that stands there. -/
theorem onRecord_withClient (hs : s.OnRecord id no owner stood cause) {r : Registration}
    (hne : r.owner ≠ owner) (hnew : ¬ s.Lists r.owner) (hcause : stood → cause)
    (needReclaim : Bool) : (s.withClient r needReclaim).OnRecord id no owner stood cause := by
  have hold : no ≠ s.clients.nextNo := by
    rintro rfl
    exact Nat.lt_irrefl _ hs.made
  have henlisted := enlisted_withClient hs.enlisted r needReclaim hnew
  have hbears : ((s.withClient r needReclaim).client no).id = id := by
    rw [client_withClient, if_neg hold]
    exact hs.bears
  have howned : ((s.withClient r needReclaim).client no).owner = owner := by
    rw [client_withClient, if_neg hold]
    exact hs.owned
  refine ⟨hs.opened, henlisted, ?_, hbears, howned, fun hget => ?_, fun hrunning hget => ?_⟩
  · rw [clients_size_withClient]
    exact Nat.lt_succ_of_lt hs.made
  · rcases registered_get?_withClient hs.enlisted hget with ⟨hno, _⟩ | ⟨hstands, _⟩
    · exact absurd hno hold
    · exact hs.standing hstands
  · by_cases hstands : s.registered.get? id = some no
    · obtain ⟨hstood, hcurrent⟩ := hs.standing hstands
      refine ⟨fun ⟨other, no', hother, howner⟩ => hget ?_, iff_of_true hcurrent (hcause hstood)⟩
      -- whoever else has the owner would have been registered beside the client before
      rcases registered_get?_withClient hs.enlisted hother with ⟨rfl, _⟩ | ⟨hbefore, hne'⟩
      · rw [owner_withClient] at howner
        exact absurd howner hne
      · rw [client_withClient, if_neg hne'] at howner
        obtain rfl := hs.enlisted.oneEach _ _ _ _ hbefore hstands (howner.trans hs.owned.symm)
        rw [← hbears, (henlisted.listed _ _ hother).2]
        exact hother
    · obtain ⟨hnobody, hiff⟩ := hs.gone hrunning hstands
      exact ⟨fun hlists => hnobody ((lists_of_lists_withClient hs.enlisted hlists).resolve_left hne),
        hiff⟩

/-- The registration of another owner makes no difference. -/
theorem onRecord_enrolNew (hs : s.OnRecord id no owner stood cause) {r : Registration}
    (hne : r.owner ≠ owner) (hnew : ¬ s.Lists r.owner) (hcause : stood → cause)
    (needReclaim : Bool) (old : Option ClientNo) :
    (s.after (enrolNew r needReclaim old)).OnRecord id no owner stood cause := by
  have hmade := onRecord_chain (chain_withClientFor s r needReclaim old) (by decide)
    (onRecord_withClient hs hne hnew hcause needReclaim)
  rw [after_eq_exec, exec_enrolNew]
  dsimp only
  split
  · rename_i store hcall
    obtain ⟨hopen, hstore⟩ := Recovery.Store.tables_of_ok
      (s.store.map_tables_addClient _ r.owner) (callStore_eq_ok hcall)
    -- the store has one owner more, which is not this one
    refine onRecord_store hmade ?_ fun _ => ?_
    · rw [(chain_withClientFor s r needReclaim old).store_eq (by decide)]
      simp [hstore, Recovery.Tables.add, hne, withClient]
    · rw [hstore]
      exact hopen
  -- the refused client leaves again, and it is of another owner
  · refine onRecord_unlist hmade (registered_get?_withClientFor s r needReclaim old) ?_
    rw [owner_withClientFor]
    exact hne

/-- A registration of another owner makes no difference, whatever comes of it. -/
theorem onRecord_enrol {r : Registration} (hne : r.owner ≠ owner) (hcause : stood → cause)
    (reuse : Bool) : Keeps (OnRecord id no owner stood cause) (enrol r reuse) := by
  intro s hs
  rw [exec_enrol]
  split
  · split
    · exact hs
    · split
      · rename_i hnone
        exact onRecord_enrolNew hs hne (registeredFor?_eq_none_iff.1 hnone) hcause _ none
      · rename_i old hold
        split
        · exact hs
        · exact onRecord_update (.client s old _ (.revived _)) (by decide) hs
        · obtain ⟨⟨id', hget⟩, howner⟩ := registeredFor?_eq_some hold
          rw [← (hs.enlisted.listed id' old hget).2] at hget
          have hvacated := onRecord_unlist hs hget (howner ▸ hne)
          exact onRecord_enrolNew hvacated hne (hs.enlisted.not_lists_vacated hold) hcause _ (some old)
  · exact hs

/-! ## What a deed leaves on record -/

/-- The same while certain calls fail. -/
structure OnRecordWhile (f : Faults) (id : ClientId) (no : ClientNo) (owner : Bytes)
    (stood cause : Prop) (s : Server) : Prop extends OnRecord id no owner stood cause s where
  faults_eq : s.faults = f

theorem onRecordWhile_update (h : Update e s t)
    (he : e ∉ [.unregistered, .enrolled, .recorded, .faultsSet])
    (hs : s.OnRecordWhile f id no owner stood cause) :
    t.OnRecordWhile f id no owner stood cause := by
  simp only [List.mem_cons, List.not_mem_nil, or_false, not_or] at he
  refine ⟨onRecord_update h ?_ hs.toOnRecord, (h.faults_eq he.2.2.2).trans hs.faults_eq⟩
  simp [he]

/-- Nobody is forgotten by the store while clients end. -/
theorem onRecordWhile_ending (h : Chain Effect.ending s t)
    (hs : s.OnRecordWhile f id no owner stood cause) :
    t.OnRecordWhile f id no owner stood cause := by
  have hending : ∀ e ∈ Effect.ending,
      e ∉ [Effect.unregistered, .enrolled, .recorded, .faultsSet] := by decide
  exact h.preserve (fun he hupdate => onRecordWhile_update hupdate (hending _ he)) hs

/-- A client that leaves the table stays on record exactly if the call fails. -/
theorem onRecordWhile_forget {client : ClientNo}
    (hcause : client = no → stood → (cause ↔ f.fails .removeClient = true))
    (hget : s.registered.get? (s.client client).id = some client)
    (hs : s.OnRecordWhile f id no owner stood cause) :
    ((s.unlist client).unrecord (s.client client).owner).OnRecordWhile f id no owner stood cause := by
  refine ⟨onRecord_forget hs.toOnRecord hget (hs.faults_eq ▸ hcause), ?_⟩
  obtain ⟨store, hstore⟩ := (s.unlist client).unrecord_eq (s.client client).owner
  rw [hstore]
  exact hs.faults_eq

/-- Whoever is evicted, the client or another one, it is on record exactly if there is a cause. -/
theorem onRecordWhile_evicted {client : ClientNo}
    (hcause : client = no → stood → (cause ↔ f.fails .removeClient = true))
    (hs : s.OnRecordWhile f id no owner stood cause) :
    (s.evicted client).OnRecordWhile f id no owner stood cause :=
  evicted_keeps_of_forget onRecordWhile_ending (onRecordWhile_forget hcause) hs

/-- A call that does not change who is on record. -/
theorem onRecordWhile_call {call : Recovery.Call}
    {update : Recovery.Store → Except RecoveryError Recovery.Store} {store : Recovery.Store}
    {after : Recovery.Tables}
    (htables : (update s.store).map Recovery.Store.tables = s.store.tables.whileOpen after)
    (hcurrent : after.current = s.store.tables.current) (hclosed : after.closed = s.store.tables.closed)
    (hcall : s.callStore call update = .ok store) (hs : s.OnRecordWhile f id no owner stood cause) :
    { s with store }.OnRecordWhile f id no owner stood cause := by
  obtain ⟨hopen, hafter⟩ := Recovery.Store.tables_of_ok htables (callStore_eq_ok hcall)
  refine ⟨onRecord_store hs.toOnRecord ?_ fun _ => ?_, hs.faults_eq⟩
  · rw [hafter, hcurrent]
  · rw [hafter, hclosed]
    exact hopen

/-- A server that is shut down tells the store nothing of its clients. -/
theorem onRecordWhile_shutdown : Keeps (OnRecordWhile f id no owner stood cause) shutdown := by
  refine keeps_shutdown (fun h => onRecordWhile_update h (by decide)) (fun client s hs => ?_) ?_
  · exact onRecordWhile_ending (does_endClientLeniently (List.Subset.refl _) client s) hs
  · intro s store hstopped hcall hs
    have hstore : Except.ok s.store.close = .ok store := callStore_eq_ok hcall
    injection hstore with hstore
    refine ⟨onRecord_store hs.toOnRecord ?_ fun hrunning => ?_, hs.faults_eq⟩
    · rw [← hstore, Recovery.Store.tables_close]
      rfl
    · rw [hstopped] at hrunning
      cases hrunning

/-- Whatever is done besides registering clients, there is a cause exactly if the call to forget
fails. -/
theorem keepsUpkeep_onRecord (hcause : stood → (cause ↔ f.fails .removeClient = true)) :
    KeepsUpkeep (OnRecordWhile f id no owner stood cause) where
  update h he := onRecordWhile_update h fun hmem => he ((by decide :
    [Effect.unregistered, .enrolled, .recorded, .faultsSet] ⊆ Effect.governing) hmem)
  removeClient id' := removeClient_keeps (fun hs => hs.enlisted) onRecordWhile_ending
    (onRecordWhile_forget fun _ => hcause) id'
  evicted client hs := onRecordWhile_evicted (fun _ => hcause) hs
  reclaimComplete {s client} _ hs := by
    refine keeps_reclaimComplete (fun h => onRecordWhile_update h (by decide))
      (fun owner' => keeps_updateStore fun t store hcall ht => ?_) client s hs
    have htables := t.store.map_tables_reclaimClient owner'
    exact onRecordWhile_call htables (by rfl) (by rfl) hcall ht
  endGrace := keeps_endGrace (fun h => onRecordWhile_update h (by decide))
    fun t _ _ hcall ht => onRecordWhile_call t.store.map_tables_reclaimComplete rfl rfl hcall ht
  shutdown := onRecordWhile_shutdown

/-- Where a deed does not register anybody for the owner, the owner stays on record if its client
leaves and the store fails, or if its client is displaced. -/
theorem onRecord_of_cause {d : Deed} (hentered : .entered ∉ d.effects)
    (hregisters : ∀ r, d.registration? = some r → r.owner ≠ owner)
    (hcause : stood → (cause ↔
      d.registration?.isSome = true ∨ (d.faultsFor s no).fails .removeClient = true))
    (hs : s.OnRecord id no owner stood cause) : (s.carry d).OnRecord id no owner stood cause := by
  cases d with
  | act a =>
    cases hregistration : a.registration? with
    | some r =>
      have hne := hregisters r hregistration
      -- the client can only have lost its place to the one who registers
      have hlost (hstood : stood) : cause :=
        (hcause hstood).2 (.inl (Option.isSome_iff_exists.2 ⟨r, hregistration⟩))
      obtain ⟨reuse, hsame⟩ := perform_of_registration hregistration s
      show (s.perform a).OnRecord id no owner stood cause
      rw [hsame]
      exact onRecord_enrol hne hlost reuse s hs
    | none =>
      by_cases hset : ∃ faults, a = .setFaults faults
      · obtain ⟨faults, rfl⟩ := hset
        exact onRecord_update (.faultsSet s faults) (by decide) hs
      -- without a registration the failing call is the one cause
      · have hfails (hstood : stood) : cause ↔ s.faults.fails .removeClient = true := by
          refine (hcause hstood).trans (or_iff_right fun h => ?_)
          rw [show (Deed.act a).registration? = none from hregistration] at h
          cases h
        have hwhile : s.OnRecordWhile s.faults id no owner stood cause := ⟨hs, rfl⟩
        exact ((keepsUpkeep_onRecord hfails).keeps_perform hregistration hentered
          (fun faults ha _ => absurd ⟨faults, ha⟩ hset) hwhile).toOnRecord
  | sweepFailing failing =>
    refine sweepFailing_keeps (fun {t} client ht => ?_) hs
    have hwhile : { t with faults := failing client }.OnRecordWhile (failing client) id no owner
        stood cause := ⟨onRecord_update (.faultsSet t _) (by decide) ht, rfl⟩
    refine (onRecordWhile_evicted (fun hclient hstood => ?_) hwhile).toOnRecord
    -- in a sweep, each client comes with the calls that fail for it
    subst hclient
    exact (hcause hstood).trans (or_iff_right nofun)

/-- What is on record after a deed: an owner whose client has not left, and one whose client was left
on record, by then or now. -/
theorem onRecord_carry (hs : s.OnRecord id no owner (¬ left) left) {d : Deed}
    (hentered : .entered ∉ d.effects) (hregisters : ∀ r, d.registration? = some r → r.owner ≠ owner) :
    (s.carry d).OnRecord id no owner (¬ (left ∨ s.LeavesOnRecord id no d))
      (left ∨ s.LeavesOnRecord id no d) := by
  let stood := s.registered.get? id = some no
  let lost := d.registration?.isSome = true ∨ (d.faultsFor s no).fails .removeClient = true
  -- the question is asked anew for this deed: was the client in its place, and is it lost by it
  have hstart : s.OnRecord id no owner stood (left ∨ stood ∧ lost) := by
    refine { hs with standing := fun hget => ⟨hget, (hs.standing hget).2⟩, gone := ?_ }
    intro hrunning hget
    obtain ⟨hnobody, hiff⟩ := hs.gone hrunning hget
    exact ⟨hnobody, hiff.trans (or_iff_left fun h => hget h.1).symm⟩
  have hcarried := onRecord_of_cause hentered hregisters (fun hstood =>
    (or_iff_right (hs.standing hstood).1).trans (and_iff_right hstood)) hstart
  refine { hcarried with standing := fun hget => ?_, gone := fun hrunning hget => ?_ }
  · obtain ⟨hstood, hcurrent⟩ := hcarried.standing hget
    exact ⟨not_or.2 ⟨(hs.standing hstood).1, fun hleaves => hleaves.2.1 hget⟩, hcurrent⟩
  · obtain ⟨hnobody, hiff⟩ := hcarried.gone hrunning hget
    refine ⟨hnobody, hiff.trans (or_congr_right (and_congr_right fun _ => ?_))⟩
    exact (and_iff_right hget).symm

/-- After a run the owner of a client that has left is on record exactly if the client was left on
record. -/
theorem onRecord_carryAll (hs : s.OnRecord id no owner (¬ left) left) {deeds : List Deed}
    (hentered : ∀ d ∈ deeds, .entered ∉ d.effects)
    (hregisters : ∀ d ∈ deeds, ∀ r, d.registration? = some r → r.owner ≠ owner) :
    (s.carryAll deeds).OnRecord id no owner (¬ (left ∨ s.LeftOnRecord id no deeds))
      (left ∨ s.LeftOnRecord id no deeds) := by
  induction deeds generalizing s left with
  | nil =>
    rw [show (left ∨ s.LeftOnRecord id no []) = left from propext (or_iff_left nofun)]
    exact hs
  | cons d rest ih =>
    have hcarried := onRecord_carry hs (hentered d List.mem_cons_self)
      (hregisters d List.mem_cons_self)
    have hrest := ih hcarried (fun d hd => hentered d (List.mem_cons_of_mem _ hd))
      fun d hd => hregisters d (List.mem_cons_of_mem _ hd)
    rw [or_assoc] at hrest
    exact hrest

/-! ## Removals that are confirmed -/

/-- A removal that is confirmed leaves nobody under the identifier; if somebody stood there, the store
did not fail. -/
theorem removed_of_ok (hs : s.Enlisted) (h : (removeClient id).exec s = (.ok (), t)) :
    t.running = true ∧ t.registered.get? id = none ∧
      (s.registered.get? id ≠ none → s.faults.fails .removeClient = false) := by
  rw [exec_removeClient hs] at h
  split at h
  · rename_i hrunning
    split at h
    · rename_i hnobody
      rw [← (Prod.mk.inj h).2]
      exact ⟨hrunning, hnobody, fun hstood => absurd hnobody hstood⟩
    · rename_i client hget
      rcases hexec : (endClient client).exec s with ⟨_ | _, ended⟩
      · rw [hexec] at h
        cases (Prod.mk.inj h).1
      · have hended := chain_of_exec (does_endClient (List.Subset.refl _) client s) hexec
        rw [hexec] at h
        dsimp only at h
        rw [exec_updateStore] at h
        split at h
        · rename_i store hcall
          -- the removal was answered, so the store was told
          have hspared : (ended.unlist client).faults.fails .removeClient = false :=
            not_fails_of_callStore_eq_ok hcall
          rw [← (Prod.mk.inj h).2]
          refine ⟨(hended.running_eq (by decide)).trans hrunning, ?_, fun _ => ?_⟩
          · obtain ⟨hclient, hid⟩ := hs.listed id client hget
            show (ended.unlist client).registered.get? id = none
            rw [unlist, Table.get?_erase, if_pos ((hended.client_id_eq hclient).trans hid)]
          · rw [← hended.faults_eq (by decide)]
            exact hspared
        · cases (Prod.mk.inj h).1
  · cases (Prod.mk.inj h).1

/-- Whoever is on record after a confirmed removal was left there before it. -/
theorem current_removed_iff (hs : s.OnRecord id no owner (¬ left) left)
    (hremoved : (removeClient id).exec s = (.ok (), t)) :
    t.store.tables.current owner = true ↔ left := by
  obtain ⟨hrunning, hnobody, hspared⟩ := removed_of_ok hs.enlisted hremoved
  have hentered : .entered ∉ (Deed.act (.removeClient id)).effects := by
    show .entered ∉ Effect.evicting
    decide
  have hperformed : s.carry (.act (.removeClient id)) = t := after_of_exec hremoved
  have hafter := onRecord_carry hs hentered nofun
  rw [hperformed] at hafter
  have hgone : t.registered.get? id ≠ some no := by
    rw [hnobody]
    exact (Option.some_ne_none no).symm
  refine (hafter.gone hrunning hgone).2.trans (or_iff_left ?_)
  -- the store has just answered, so it is not this removal that leaves the client on record
  rintro ⟨hstood, _, hregistered | hfails⟩
  · cases hregistered
  · have hanswered := hspared (hstood ▸ Option.some_ne_none no)
    rw [show s.faults.fails .removeClient = true from hfails] at hanswered
    cases hanswered

/-- The owner of a registered client is on record. -/
theorem onRecord_of_registered (hbalanced : s.Balanced False none)
    (hopened : s.running = true → s.store.tables.closed = false)
    (hget : s.registered.get? id = some no) :
    s.OnRecord id no (s.client no).owner (¬ False) False where
  opened := hopened
  enlisted := hbalanced.enlisted
  made := (hbalanced.enlisted.listed id no hget).1
  bears := (hbalanced.enlisted.listed id no hget).2
  owned := rfl
  standing _ := ⟨not_false, hbalanced.recorded _ ⟨id, no, hget, rfl⟩⟩
  gone _ hgone := absurd hget hgone

/-- Once the removal of a client is confirmed, and nobody registered for its owner since the client
stood in the table, the owner is on record exactly if the client was left on record before. The next
server waits for the owner in that case, and if the owner was still waited for. -/
theorem removed_on_record_iff (timers : Bool) (config : Config) (store : Recovery.Store)
    (wall : WallTime) (now : Nat) {before between : List Deed}
    (hbefore : ∀ d ∈ before, .entered ∉ d.effects)
    (hbetween : ∀ d ∈ between, .entered ∉ d.effects)
    (hget : ((start timers config store.reopen wall now).carryAll before).registered.get? id = some no)
    (hregisters : ∀ d ∈ between, ∀ r, d.registration? = some r →
      r.owner ≠ (((start timers config store.reopen wall now).carryAll before).client no).owner)
    (hremoved : (removeClient id).exec
      (((start timers config store.reopen wall now).carryAll before).carryAll between) = (.ok (), t)) :
    let s := (start timers config store.reopen wall now).carryAll before
    let owner := (s.client no).owner
    (t.store.tables.current owner = true ↔ s.LeftOnRecord id no between) ∧
    (store.tables.lasting = true → ∀ inOrder config' timers',
      ((t.stop inOrder).successor config' timers').store.tables.recovering owner = true ↔
        s.LeftOnRecord id no between ∨ t.store.tables.recovering owner = true) := by
  intro s owner
  have hbalanced : s.Balanced False none :=
    balanced_carryAll (balanced_start timers config store wall now) hbefore
  have hopened := (closing_carryAll (closing_start timers config wall now store.closed_reopen)
    hbefore).opened
  have hcourse := onRecord_carryAll (onRecord_of_registered hbalanced hopened hget) hbetween
    hregisters
  have hcurrent : t.store.tables.current owner = true ↔ s.LeftOnRecord id no between :=
    (current_removed_iff hcourse hremoved).trans (or_iff_right not_false)
  refine ⟨hcurrent, fun hlasting inOrder config' timers' => ?_⟩
  -- a store that lasts was not lost on the way, so the next server finds it
  have hlasts : t.store.tables.lasting = true := by
    obtain ⟨sweepDue, graceDue, hfirst⟩ := start_eq timers config store.reopen wall now
    have hperformed : (s.carryAll between).perform (.removeClient id) = t := after_of_exec hremoved
    rw [← hperformed, lasting_perform, lasting_carryAll, lasting_carryAll, hfirst]
    show store.reopen.tables.lasting = true
    rw [store.tables_reopen hlasting]
    exact hlasting
  rw [recovering_successor ((lasting_stop t inOrder).trans hlasts), knows_stop,
    Recovery.Tables.knows, Bool.or_eq_true, hcurrent]

/-- The store fails to forget one client, and forgets another once it has recovered. -/
theorem removed_on_record_after_recovery :
    let before : List Deed := [.act (.register (.ofOwner [1])), .act (.register (.ofOwner [2]))]
    let s := (start false {} (Recovery.Store.reopen (.durable (.openOn default))) ⟨0⟩).carryAll before
    let between : List Deed := [.act (.setFaults { store := [(.removeClient, .database "down")] }),
      .act (.removeClient ⟨2⟩), .act (.setFaults {})]
    let removed := (removeClient ⟨1⟩).exec (s.carryAll between)
    s.registered.get? ⟨1⟩ = some ⟨0⟩ ∧ removed.1 = .ok () ∧
      removed.2.store.tables.current [1] = false ∧ removed.2.store.tables.current [2] = true ∧
      ((removed.2.stop true).successor {} false).store.tables.recovering [1] = false := by
  intro before s between removed
  have hbefore : ∀ d ∈ before, .entered ∉ d.effects := by decide +kernel
  have hbetween : ∀ d ∈ between, .entered ∉ d.effects := by decide +kernel
  have hget : s.registered.get? ⟨1⟩ = some ⟨0⟩ := by decide +kernel
  have howner : (s.client ⟨0⟩).owner = [1] := by decide +kernel
  have hregisters : ∀ d ∈ between, ∀ r, d.registration? = some r → r.owner ≠ (s.client ⟨0⟩).owner := by
    simp [between, Deed.registration?, Action.registration?]
  have hanswer : removed.1 = .ok () := by decide +kernel
  have hnever : ¬ s.LeftOnRecord ⟨1⟩ ⟨0⟩ between := by decide +kernel
  have hother : removed.2.store.tables.current [2] = true := by decide +kernel
  have hwaits : removed.2.store.tables.recovering [1] = false := by decide +kernel
  have hexec : (removeClient ⟨1⟩).exec (s.carryAll between) = removed := rfl
  clear_value removed
  obtain ⟨hcurrent, hnext⟩ := removed_on_record_iff false {} (.durable (.openOn default)) ⟨0⟩ 0 hbefore
    hbetween hget hregisters (hexec.trans (Prod.ext hanswer rfl))
  rw [howner] at hcurrent hnext
  refine ⟨hget, hanswer, Bool.eq_false_iff.2 fun h => hnever (hcurrent.1 h), hother,
    Bool.eq_false_iff.2 fun h => ?_⟩
  rcases (hnext rfl true {} false).1 h with hleft | hawaited
  · exact hnever hleft
  · rw [hwaits] at hawaited
    cases hawaited

/-- The store failed when the client was removed. The client is removed again, and that is confirmed;
but its owner stays on record, and the next server waits for it. -/
theorem awaited_after_removal :
    let first := start false {} (Recovery.Store.reopen (.durable (.openOn default))) ⟨0⟩
    let registered := first.perform (.register (.ofOwner [1]))
    let failed := registered.carryAll [
      .act (.setFaults { store := [(.removeClient, .database "down")] }), .act (.removeClient ⟨1⟩),
      .act (.setFaults {})]
    let removed := (removeClient ⟨1⟩).exec failed
    registered.registered.get? ⟨1⟩ = some ⟨0⟩ ∧ (registered.client ⟨0⟩).owner = [1] ∧
      removed.1 = .ok () ∧ removed.2.store.tables.current [1] = true ∧
      ((removed.2.stop true).successor {} false).store.tables.recovering [1] = true := by
  decide +kernel

end Server

end Leasehold

import Leasehold.Proofs.DurableRecords
import Leasehold.Proofs.GraceWindow

/-!
# Proofs.ReclaimRights — who may reclaim after a restart

A durable store stages every owner that it knows when a server starts on it. From
then on the server gives the right to reclaim to clients of these owners only, and
an owner loses its place on the list only after it has come back
(`Server.Rights`).

* `Server.knows_of_lists` — a server that stops, in order or not, leaves the owners
  of its clients on record;
* `Server.Awaits` — only known owners are waited for, however calls fail;
* `Server.rights_performAll` — what the next server keeps while none fails;
* `Server.reclaim_after_restart` — so the owners on record, and no others, may
  reclaim.
-/

namespace Leasehold

open Request

/-- What a client has to say about reclaiming changes only when it has reclaimed, and then it has
nothing more to reclaim. -/
theorem Client.Update.reclaiming {now : Nat} {e : Effect} {c c' : Client} (h : Update now e c c') :
    c'.needReclaim = c.needReclaim ∧ c'.reclaimCompleted = c.reclaimCompleted ∨
      e = .reclaimed ∧ c'.needReclaim = false ∧ c'.reclaimCompleted = true := by
  cases h with
  | reclaimed => exact .inr ⟨rfl, rfl, rfl⟩
  | _ => exact .inl ⟨rfl, rfl⟩

namespace Server

variable {s t : Server} {e : Effect} {known : Bytes → Bool} {since : Nat} {no : ClientNo}

/-! ## The store lasts -/

/-- No call makes a store forget at the end of the server what it was to keep. -/
theorem lasting_of_step {store store' : Recovery.Store} (h : store.Step store') :
    store'.tables.lasting = store.tables.lasting := by
  cases h with
  | addClient h =>
    rw [(Recovery.Store.tables_of_ok (store.map_tables_addClient _ _) h).2]
    rfl
  | removeClient h =>
    rw [(Recovery.Store.tables_of_ok (store.map_tables_removeClient _) h).2]
    rfl
  | reclaimClient h =>
    rw [(Recovery.Store.tables_of_ok (store.map_tables_reclaimClient _) h).2]
    rfl
  | reclaimComplete h =>
    rw [(Recovery.Store.tables_of_ok store.map_tables_reclaimComplete h).2]
    rfl
  | close =>
    rw [Recovery.Store.tables_close]
    rfl

/-- No call makes a store last that does not, or the other way round. -/
theorem keepsRegistry_lasting (lasting : Bool) :
    KeepsRegistry fun s => s.store.tables.lasting = lasting := by
  have hupdate {e : Effect} (he : e ≠ .recorded) {s s' : Server} (h : Update e s s')
      (hs : s.store.tables.lasting = lasting) : s'.store.tables.lasting = lasting := by
    rw [h.store_eq he]
    exact hs
  constructor
  · intro e he
    refine hupdate ?_
    rintro rfl
    exact absurd he (by decide)
  · intro client
    refine keeps_of_does (does_endClient (List.Subset.refl _) client) fun e he => hupdate ?_
    rintro rfl
    exact absurd he (by decide)
  · intro client
    refine keeps_of_does (does_endClientLeniently (List.Subset.refl _) client) fun e he => hupdate ?_
    rintro rfl
    exact absurd he (by decide)
  · exact fun s store hstep hs => (lasting_of_step hstep).trans hs

theorem lasting_perform (s : Server) (a : Action) :
    (s.perform a).store.tables.lasting = s.store.tables.lasting := by
  by_cases hregistry : a.ofRegistry = true
  · exact (keepsRegistry_lasting _).keeps_perform hregistry rfl
  · have hrecorded : .recorded ∉ a.effects := by
      cases a <;> first | exact absurd rfl hregistry | (dsimp only [Action.effects]; decide)
    rw [(chain_perform s a).store_eq hrecorded]

theorem lasting_carry (s : Server) (d : Deed) :
    (s.carry d).store.tables.lasting = s.store.tables.lasting := by
  cases d with
  | act a => exact lasting_perform s a
  | sweepFailing failing =>
    exact sweepFailing_keeps (I := fun t => t.store.tables.lasting = s.store.tables.lasting)
      (fun client ht => evicted_keeps (keepsRegistry_lasting _).parts.toKeepsEviction client ht) rfl

/-- After a run of deeds the store lasts if it did before. -/
theorem lasting_carryAll (s : Server) (deeds : List Deed) :
    (s.carryAll deeds).store.tables.lasting = s.store.tables.lasting :=
  carryAll_keeps (fun d _ {t} ht => (lasting_carry t d).trans ht) rfl

/-! ## What a server leaves behind -/

/-- A server that stops in order leaves the tables as they are. -/
theorem knows_shutdown (s : Server) : (s.after shutdown).store.tables.knows = s.store.tables.knows := by
  refine keeps_shutdown (I := fun t => t.store.tables.knows = s.store.tables.knows)
    (fun h ht => ?_) (fun client t ht => ?_) (fun t store _ hcall ht => ?_) s rfl
  · rw [h.store_eq (by decide)]
    exact ht
  · have hstore := (does_endClientLeniently (List.Subset.refl _) client t).store_eq (by decide)
    exact (congrArg (·.tables.knows) hstore).trans ht
  · have hstore : Except.ok t.store.close = .ok store := callStore_eq_ok hcall
    injection hstore with hstore
    rw [← hstore, Recovery.Store.tables_close]
    exact ht

/-- The server as it stops, in order or by being dropped. -/
def stop (s : Server) (inOrder : Bool) : Server := if inOrder then s.after shutdown else s

/-- However the server stops, the store knows whom it knew. -/
theorem knows_stop (s : Server) (inOrder : Bool) :
    (s.stop inOrder).store.tables.knows = s.store.tables.knows := by
  cases inOrder with
  | true => exact knows_shutdown s
  | false => rfl

theorem lasting_stop (s : Server) (inOrder : Bool) :
    (s.stop inOrder).store.tables.lasting = s.store.tables.lasting := by
  cases inOrder with
  | true => exact (keepsRegistry_lasting _).keeps_perform (a := .shutdown) rfl rfl
  | false => rfl

/-- The owner of a registered client is on record when the server stops. -/
theorem knows_of_lists (hs : s.Balanced False none) {owner : Bytes} (hlists : s.Lists owner)
    (inOrder : Bool) : (s.stop inOrder).store.tables.knows owner = true := by
  rw [knows_stop, Recovery.Tables.knows, hs.recorded owner hlists]
  rfl

/-! ## Who is waited for -/

/-- No call makes a store wait for somebody for whom it did not wait. -/
theorem recovering_of_step {store store' : Recovery.Store} (h : store.Step store') {owner : Bytes}
    (hawaited : store'.tables.recovering owner = true) : store.tables.recovering owner = true := by
  cases h with
  | addClient h =>
    rw [(Recovery.Store.tables_of_ok (store.map_tables_addClient _ _) h).2] at hawaited
    exact hawaited
  | removeClient h =>
    rw [(Recovery.Store.tables_of_ok (store.map_tables_removeClient _) h).2] at hawaited
    exact hawaited
  | reclaimClient h =>
    rw [(Recovery.Store.tables_of_ok (store.map_tables_reclaimClient _) h).2] at hawaited
    exact (Bool.and_eq_true_iff.1 hawaited).2
  | reclaimComplete h =>
    rw [(Recovery.Store.tables_of_ok store.map_tables_reclaimComplete h).2] at hawaited
    -- after this call nobody is waited for
    cases hawaited
  | close =>
    rw [Recovery.Store.tables_close] at hawaited
    exact hawaited

/-- The store waits for known owners only, and of the clients made since a time only those of known
owners may reclaim. -/
structure Awaits (known : Bytes → Bool) (since : Nat) (s : Server) : Prop where
  awaited : ∀ owner, s.store.tables.recovering owner = true → known owner = true
  entitled : ∀ no : ClientNo, since ≤ no.value → no.value < s.clients.size →
    (s.client no).needReclaim = true → known (s.client no).owner = true

/-- The marks of a reclaim change only when it is completed. -/
theorem Update.reclaiming (h : Update e s t) (hno : no.value < s.clients.size) :
    (t.client no).needReclaim = (s.client no).needReclaim ∧
        (t.client no).reclaimCompleted = (s.client no).reclaimCompleted ∨
      e = .reclaimed ∧ (t.client no).needReclaim = false ∧
        (t.client no).reclaimCompleted = true := by
  rcases h.client_update hno with hsame | hupdate | ⟨_, attributes, rfl⟩
  · exact .inl (by rw [hsame]; exact ⟨rfl, rfl⟩)
  · exact hupdate.reclaiming
  · rw [client_withSession, if_pos ⟨rfl, hno⟩]
    exact .inl ⟨rfl, rfl⟩

/-- Only new records and calls of the store bear on who may reclaim. -/
theorem awaits_update (h : Update e s t) (he : e ∉ [.enrolled, .entered, .recorded])
    (hs : s.Awaits known since) : t.Awaits known since := by
  simp only [List.mem_cons, List.not_mem_nil, or_false, not_or] at he
  obtain ⟨henrolled, hentered, hrecorded⟩ := he
  constructor
  · rw [h.store_eq hrecorded]
    exact hs.awaited
  · intro no hsince hno hneed
    rw [h.clients_size_eq henrolled hentered] at hno
    have howner : (t.client no).owner = (s.client no).owner :=
      congrArg Registration.owner (h.registration_eq hno)
    rw [howner]
    -- the mark stays, or is taken off as the client reclaims
    rcases h.reclaiming hno with ⟨hsame, _⟩ | ⟨_, hnone, _⟩
    · exact hs.entitled no hsince hno (hsame ▸ hneed)
    · rw [hnone] at hneed
      cases hneed

theorem awaits_chain {E : List Effect} (h : Chain E s t)
    (hE : ∀ e ∈ E, e ∉ [Effect.enrolled, .entered, .recorded]) (hs : s.Awaits known since) :
    t.Awaits known since :=
  h.preserve (fun he hupdate => awaits_update hupdate (hE _ he)) hs

/-- A call adds nobody to those who are waited for. -/
theorem awaits_store (hs : s.Awaits known since) {store : Recovery.Store}
    (hstep : s.store.Step store) : { s with store }.Awaits known since :=
  ⟨fun owner h => hs.awaited owner (recovering_of_step hstep h), hs.entitled⟩

/-- A call of the store that changes it makes it wait for nobody. -/
theorem awaits_call {call : Recovery.Call}
    {update : Recovery.Store → Except RecoveryError Recovery.Store}
    (hstep : ∀ {store store' : Recovery.Store}, update store = .ok store' → store.Step store') :
    Keeps (Awaits known since) (updateStore call update) :=
  keeps_updateStore fun _ _ hcall hs => awaits_store hs (hstep (callStore_eq_ok hcall))

theorem keepsEviction_awaits : KeepsEviction (Awaits known since) where
  unregistered h := awaits_update h (by decide)
  endClient client s hs :=
    awaits_chain (does_endClient (List.Subset.refl _) client s) (by decide) hs
  endClientLeniently client s hs :=
    awaits_chain (does_endClientLeniently (List.Subset.refl _) client s) (by decide) hs
  removeClient _ := awaits_call .removeClient

/-- A new client may reclaim only if its owner was known. -/
theorem awaits_withClient (hs : s.Awaits known since) (r : Registration) {needReclaim : Bool}
    (hneed : needReclaim = true → known r.owner = true) :
    (s.withClient r needReclaim).Awaits known since := by
  refine ⟨hs.awaited, fun no hsince hno hneeds => ?_⟩
  by_cases hnew : no = s.clients.nextNo
  · subst hnew
    rw [owner_withClient]
    rw [client_withClient, if_pos rfl] at hneeds
    exact hneed hneeds
  · rw [clients_size_withClient] at hno
    -- whoever is not the new client was there before
    have hlt : no.value < s.clients.size := by
      refine Nat.lt_of_le_of_ne (Nat.lt_succ_iff.1 hno) fun hsize => hnew ?_
      obtain ⟨n⟩ := no
      exact congrArg Serial.mk hsize
    rw [client_withClient, if_neg hnew] at hneeds ⊢
    exact hs.entitled no hsince hlt hneeds

/-- A new client may reclaim only if the store said so of its owner. -/
theorem awaits_enrolNew (hs : s.Awaits known since) (r : Registration) {needReclaim : Bool}
    (hneed : needReclaim = true → known r.owner = true) (old : Option ClientNo) :
    (s.after (enrolNew r needReclaim old)).Awaits known since := by
  have hmade := awaits_chain (chain_withClientFor s r needReclaim old) (by decide)
    (awaits_withClient hs r hneed)
  rw [after_eq_exec, exec_enrolNew]
  dsimp only
  split
  · rename_i store hcall
    refine awaits_store hmade ?_
    rw [(chain_withClientFor s r needReclaim old).store_eq (by decide)]
    exact .addClient (callStore_eq_ok hcall)
  · exact awaits_update (.unregistered _ _) (by decide) hmade

/-- The store says who has something to reclaim, and it waits for known owners only. -/
theorem known_of_wantReclaim (hs : s.Awaits known since) {owner : Bytes}
    (h : s.callStore .wantReclaim (·.wantReclaim owner) = .ok true) : known owner = true := by
  have hanswer := callStore_eq_ok h
  rw [s.store.wantReclaim_eq] at hanswer
  exact hs.awaited owner (Recovery.Tables.whileOpen_eq_ok_iff.1 hanswer).2

/-- A registration asks the store first, and the store names known owners only. -/
theorem awaits_enrol (r : Registration) (reuse : Bool) :
    Keeps (Awaits known since) (enrol r reuse) := by
  intro s hs
  rw [exec_enrol]
  -- the answer of the store decides what the new client may do
  split
  · split
    · exact hs
    · rename_i needReclaim hasked
      have hneed : needReclaim = true → known r.owner = true := by
        rintro rfl
        exact known_of_wantReclaim hs hasked
      split
      · exact awaits_enrolNew hs r hneed none
      · rename_i old _
        split
        · exact hs
        · exact awaits_update (.client s old _ (.revived _)) (by decide) hs
        · exact awaits_enrolNew (awaits_update (.unregistered s _) (by decide) hs) r hneed (some old)
  · exact hs

/-- No operation lets an unknown owner reclaim. -/
theorem keepsOperations_awaits : KeepsOperations (Awaits known since) where
  update h he := awaits_update h fun hmem =>
    he ((by decide : [Effect.enrolled, .entered, .recorded] ⊆ Effect.governing) hmem)
  enrol := awaits_enrol
  removeClient := keeps_removeClient keepsEviction_awaits
  evicted client hs := evicted_keeps keepsEviction_awaits client hs
  reclaimComplete {s client} _ hs :=
    keeps_reclaimComplete (fun h => awaits_update h (by decide)) (fun _ => awaits_call .reclaimClient)
      client s hs
  endGrace := keeps_endGrace (fun h => awaits_update h (by decide)) fun _ _ _ hcall hs =>
    awaits_store hs (.reclaimComplete (callStore_eq_ok hcall))
  shutdown := by
    refine keeps_shutdown (fun h => awaits_update h (by decide))
      keepsEviction_awaits.endClientLeniently fun s store _ hcall hs => ?_
    -- to close the store is never refused, whatever is set to fail
    have hstore : Except.ok s.store.close = .ok store := callStore_eq_ok hcall
    injection hstore with hstore
    exact awaits_store hs (hstore ▸ .close)

/-! ## Rights -/

/-- While no call fails and the window is open, each known owner is waited for or has come back. -/
structure Expects (known : Bytes → Bool) (s : Server) : Prop where
  spared : s.Spared
  opened : s.running = true → s.store.tables.closed = false
  expected : s.running = true → s.graceOver = false → ∀ owner, known owner = true →
    s.store.tables.recovering owner = true ∨
      ∃ no : ClientNo, no.value < s.clients.size ∧ (s.client no).owner = owner

/-- Only owners that were known may reclaim, and while the window is open each of them is waited
for or has come back. -/
structure Rights (known : Bytes → Bool) (s : Server) : Prop extends Awaits known 0 s,
  Expects known s

/-- A closed window stays closed. -/
theorem Update.graceOver_eq_false (h : Update e s t) (ht : t.graceOver = false) :
    s.graceOver = false := by
  cases h with
  | graceClosed => cases ht
  | _ => exact ht

/-- Only calls of the store, and what makes them fail, bear on who has come back. -/
theorem expects_update (h : Update e s t) (he : e ∉ [.recorded, .faultsSet])
    (hs : s.Expects known) : t.Expects known := by
  simp only [List.mem_cons, List.not_mem_nil, or_false, not_or] at he
  obtain ⟨hrecorded, hfaults⟩ := he
  have hstore := h.store_eq hrecorded
  constructor
  · unfold Spared
    rw [h.faults_eq hfaults]
    exact hs.spared
  · intro hrunning
    rw [hstore]
    exact hs.opened (h.running_of_running hrunning)
  · intro hrunning hover owner hknown
    rw [hstore]
    refine (hs.expected (h.running_of_running hrunning) (h.graceOver_eq_false hover) owner
      hknown).imp_right ?_
    rintro ⟨no, hno, hsame⟩
    have howner : (t.client no).owner = (s.client no).owner :=
      congrArg Registration.owner (h.registration_eq hno)
    exact ⟨no, Nat.lt_of_lt_of_le hno h.clients_size_le, howner.trans hsame⟩

/-- Calls of the store that are not about reclaiming leave who is expected alone. -/
theorem expects_store (hs : s.Expects known) {store : Recovery.Store}
    (hclosed : s.running = true → store.tables.closed = s.store.tables.closed)
    (hrecovering : store.tables.recovering = s.store.tables.recovering) :
    { s with store }.Expects known where
  spared := hs.spared
  opened hrunning := (hclosed hrunning).trans (hs.opened hrunning)
  expected hrunning hover owner hknown := by
    rw [hrecovering]
    exact hs.expected hrunning hover owner hknown

/-- The end of clients tells the store nothing. -/
theorem expects_ending {r : Request Unit} (h : Does Effect.ending r) : Keeps (Expects known) r := by
  have hending : ∀ e ∈ Effect.ending, e ∉ [Effect.recorded, .faultsSet] := by decide
  exact keeps_of_does h fun e he {_ _} hupdate => expects_update hupdate (hending e he)

/-- Whoever is recorded or forgotten, those who are waited for still are. -/
theorem keepsParts_expects : KeepsParts (Expects known) where
  unregistered h := expects_update h (by decide)
  endClient client := expects_ending (does_endClient (List.Subset.refl _) client)
  endClientLeniently client := expects_ending (does_endClientLeniently (List.Subset.refl _) client)
  removeClient owner := by
    apply keeps_updateStore
    intro s store hcall hs
    obtain ⟨_, hstore⟩ := Recovery.Store.tables_of_ok (s.store.map_tables_removeClient owner)
      (callStore_eq_ok hcall)
    exact expects_store hs (fun _ => by rw [hstore]; rfl) (by rw [hstore]; rfl)
  enrolled h := expects_update h (by decide)
  renewed h := expects_update h (by decide)
  addClient now owner := by
    apply keeps_updateStore
    intro s store hcall hs
    obtain ⟨_, hstore⟩ := Recovery.Store.tables_of_ok (s.store.map_tables_addClient now owner)
      (callStore_eq_ok hcall)
    exact expects_store hs (fun _ => by rw [hstore]; rfl) (by rw [hstore]; rfl)

/-- Once the window is closed there is nobody to expect. -/
theorem expects_endGrace : Keeps (Expects known) endGrace := by
  refine keeps_endGrace (fun h => expects_update h (by decide)) fun s store hover hcall hs => ?_
  obtain ⟨hopen, hstore⟩ := Recovery.Store.tables_of_ok s.store.map_tables_reclaimComplete
    (callStore_eq_ok hcall)
  refine ⟨hs.spared, fun _ => by rw [hstore]; exact hopen, fun _ hopen => ?_⟩
  rw [hover] at hopen
  cases hopen

/-- An owner is taken off the list by a client of its own. -/
theorem expects_reclaimComplete (hs : s.Expects known) {client : ClientNo}
    (hclient : client.value < s.clients.size) : (s.after (reclaimComplete client)).Expects known := by
  rw [after_eq_exec]
  by_cases hrunning : s.running = true
  · rcases reclaimComplete_cases hrunning hs.spared (hs.opened hrunning) client with
      ⟨e, hexec⟩ | ⟨c, store, hcomplete, hstore, hexec⟩
    · rw [hexec]
      exact hs
    · have hupdate : Update .reclaimed s (s.amendClient client fun _ => c) :=
        .client s client _ (reclaimed_of_completeReclaim hcomplete)
      have hamended := expects_update hupdate (by decide) hs
      have howner : ((s.amendClient client fun _ => c).client client).owner =
          (s.client client).owner :=
        congrArg Registration.owner (hupdate.registration_eq hclient)
      -- the store stops waiting for this owner only, and the client is the one who came back
      have hrecovering (owner : Bytes) : store.tables.recovering owner =
          (!decide ((s.client client).owner = owner) && s.store.tables.recovering owner) := by
        rw [hstore]
        rfl
      rw [hexec]
      refine ⟨hs.spared, fun _ => by rw [hstore]; exact hs.opened hrunning,
        fun _ hover owner hknown => ?_⟩
      show store.tables.recovering owner = true ∨ _
      by_cases hsame : (s.client client).owner = owner
      · exact .inr ⟨client, Nat.lt_of_lt_of_le hclient hupdate.clients_size_le,
          howner.trans hsame⟩
      · rw [hrecovering, decide_eq_false hsame]
        exact hamended.expected hrunning hover owner hknown
  · rw [exec_reclaimComplete, if_neg hrunning]
    exact hs

theorem expects_shutdown : Keeps (Expects known) shutdown := by
  refine keeps_shutdown (fun h => expects_update h (by decide))
    keepsParts_expects.endClientLeniently fun s store hrunning hcall hs => ?_
  have hstore : Except.ok s.store.close = .ok store := callStore_eq_ok hcall
  injection hstore with hstore
  refine expects_store hs (fun h => ?_) ?_
  · rw [hrunning] at h
    cases h
  · rw [← hstore, Recovery.Store.tables_close]
    rfl

/-- No operation loses an owner who is waited for, unless he comes back. -/
theorem keepsOperations_expects : KeepsOperations (Expects known) where
  update h he := expects_update h fun hmem =>
    he ((by decide : [Effect.recorded, .faultsSet] ⊆ Effect.governing) hmem)
  enrol := keeps_enrol keepsParts_expects
  removeClient := keeps_removeClient keepsParts_expects.toKeepsEviction
  evicted client hs := evicted_keeps keepsParts_expects.toKeepsEviction client hs
  reclaimComplete hclient hs := expects_reclaimComplete hs hclient
  endGrace := expects_endGrace
  shutdown := expects_shutdown

/-- A registration gives rights to known owners only. -/
theorem rights_enrol (hs : s.Rights known) (r : Registration) (reuse : Bool) :
    (s.after (enrol r reuse)).Rights known :=
  ⟨awaits_enrol r reuse s hs.toAwaits, keeps_enrol keepsParts_expects r reuse s hs.toExpects⟩

/-! ## Every run -/

/-- Every action leaves rights where they were, or takes them. -/
theorem rights_perform (hs : s.Rights known) {a : Action} (hspares : a.Spares)
    (hentered : .entered ∉ a.effects) : (s.perform a).Rights known := by
  refine ⟨keepsOperations_awaits.keeps_perform hentered
    (fun faults _ hs => ⟨hs.awaited, hs.entitled⟩) hs.toAwaits,
    keepsOperations_expects.keeps_perform hentered (fun faults ha hs => ?_) hs.toExpects⟩
  subst ha
  exact ⟨hspares, hs.opened, hs.expected⟩

/-- Every run leaves rights where they were, or takes them. -/
theorem rights_performAll (hs : s.Rights known) {actions : List Action}
    (hspares : ∀ a ∈ actions, a.Spares) (hentered : ∀ a ∈ actions, .entered ∉ a.effects) :
    (s.performAll actions).Rights known := by
  induction actions generalizing s with
  | nil => exact hs
  | cons a rest ih =>
    have hstep := rights_perform hs (hspares a List.mem_cons_self) (hentered a List.mem_cons_self)
    exact ih hstep (fun b hb => hspares b (List.mem_cons_of_mem _ hb))
      fun b hb => hentered b (List.mem_cons_of_mem _ hb)

/-- The next server starts on the store as it was left, with the clock and the calendar going on. -/
theorem successor_eq_start (s : Server) (config : Config) (timers : Bool) :
    s.successor config timers = start timers config s.store.reopen s.wall s.now := by
  cases timers <;> rfl

/-- A server that starts on a store that lasts waits for every owner that the store knows. -/
theorem rights_successor (hlasting : s.store.tables.lasting = true) (config : Config)
    (timers : Bool) : (s.successor config timers).Rights s.store.tables.knows := by
  obtain ⟨sweepDue, graceDue, hstart⟩ := start_eq timers config s.store.reopen s.wall s.now
  rw [successor_eq_start, hstart]
  have htables := s.store.tables_reopen hlasting
  refine ⟨⟨fun owner h => ?_, fun no _ hno => absurd hno (Nat.not_lt_zero _)⟩,
    rfl, fun _ => s.store.closed_reopen, fun _ _ owner hknown => ?_⟩
  · dsimp only [new] at h
    rw [htables] at h
    exact h
  · dsimp only [new]
    rw [htables]
    exact .inl hknown

/-! ## Asking to reclaim -/

/-- While the window is open, an owner that has not come back is waited for exactly if it was
known. -/
theorem Rights.recovering_eq (hs : s.Rights known) (hrunning : s.running = true)
    (hover : s.graceOver = false) {owner : Bytes}
    (hmissing : ∀ no : ClientNo, no.value < s.clients.size → (s.client no).owner ≠ owner) :
    s.store.tables.recovering owner = known owner := by
  rw [Bool.eq_iff_iff]
  refine ⟨hs.awaited owner, fun hknown => ?_⟩
  rcases hs.expected hrunning hover owner hknown with hawaited | ⟨no, hno, howner⟩
  · exact hawaited
  · exact absurd howner (hmissing no hno)

/-- The grace period lasts while a known owner has not come back. -/
theorem Rights.inGrace (hs : s.Rights known) (hrunning : s.running = true)
    (hover : s.graceOver = false) {owner : Bytes} (hknown : known owner = true)
    (hmissing : ∀ no : ClientNo, no.value < s.clients.size → (s.client no).owner ≠ owner) :
    (inGrace.exec s).1 = .ok true := by
  have hawaited := (hs.recovering_eq hrunning hover hmissing).trans hknown
  obtain ⟨waits, hwaits, hiff⟩ := s.store.waitingForReclaim_iff
  have hanswer : s.callStore .waitingForReclaim (·.waitingForReclaim) = .ok true := by
    rw [hs.spared.callStore_eq, hwaits]
    exact Recovery.Tables.whileOpen_eq_ok_iff.2 ⟨hs.opened hrunning, hiff.2 ⟨owner, hawaited⟩⟩
  rw [exec_inGrace, if_pos hrunning, hover, hanswer]
  rfl

/-- A client passes with reclaimed state during grace, if it needs to reclaim and has not yet. -/
theorem checkGrace_reclaim_iff (client : ClientNo) (s : Server) :
    ((checkGrace client true).exec s).1 = .ok () ↔ (inGrace.exec s).1 = .ok true ∧
      (s.client client).reclaimCompleted = false ∧ (s.client client).needReclaim = true := by
  unfold checkGrace
  rw [exec_bind, exec_inGrace]
  -- how the answer came about plays no part from here on
  generalize (if s.running then _ else _ : Except Error Bool) = answer
  rcases answer with e | grace
  · exact ⟨nofun, fun h => by cases h.1⟩
  · dsimp only
    rw [exec_get_bind]
    cases grace with
    | false => exact ⟨nofun, fun h => by cases h.1⟩
    | true =>
      cases (s.client client).reclaimCompleted with
      | true => exact ⟨nofun, fun h => by cases h.2.1⟩
      | false =>
        cases (s.client client).needReclaim with
        | true => exact ⟨fun _ => ⟨rfl, rfl, rfl⟩, fun _ => rfl⟩
        | false => exact ⟨nofun, fun h => by cases h.2.2⟩

/-- A client has something to reclaim, and has not said that it did. -/
structure Claims (no : ClientNo) (s : Server) : Prop where
  made : no.value < s.clients.size
  needs : (s.client no).needReclaim = true
  completed : (s.client no).reclaimCompleted = false

/-- A client may reclaim until it says that it has. -/
theorem claims_chain {E : List Effect} (h : Chain E s t) (hE : .reclaimed ∉ E) (hs : s.Claims no) :
    t.Claims no := by
  refine h.preserve (fun {e a b} he hupdate hs => ?_) hs
  rcases hupdate.reclaiming hs.made with ⟨hneeds, hcompleted⟩ | ⟨hreclaimed, _⟩
  · exact ⟨Nat.lt_of_lt_of_le hs.made hupdate.clients_size_le, hneeds.trans hs.needs,
      hcompleted.trans hs.completed⟩
  · exact absurd (hreclaimed ▸ he) hE

/-- Only its own reclaim takes from a client what it may claim. -/
theorem claims_perform (hrights : s.Rights known) (hs : s.Claims no) {a : Action}
    (ha : a ≠ .reclaimComplete no) : (s.perform a).Claims no := by
  by_cases hreclaimed : .reclaimed ∈ a.effects
  · cases a with
    | reclaimComplete client =>
      -- somebody else reclaims
      have hne : no ≠ client := by
        rintro rfl
        exact ha rfl
      unfold perform
      split
      · rw [carryOut, after_eq_exec]
        by_cases hrunning : s.running = true
        · rcases reclaimComplete_cases hrunning hrights.spared (hrights.opened hrunning) client with
            ⟨e, hexec⟩ | ⟨c, store, _, _, hexec⟩
          · rw [hexec]
            exact hs
          · have hsame : (s.amendClient client fun _ => c).client no = s.client no := by
              rw [client_amendClient, if_neg fun h => hne h.1]
            rw [hexec]
            refine ⟨Nat.lt_of_lt_of_eq hs.made (Ledger.size_modify ..).symm, ?_, ?_⟩
            · exact (congrArg Client.needReclaim hsame).trans hs.needs
            · exact (congrArg Client.reclaimCompleted hsame).trans hs.completed
        · unfold reclaimComplete
          rw [exec_bind, exec_ensureRunning, if_neg hrunning]
          exact hs
      · exact hs
    | _ => exact absurd hreclaimed (by dsimp only [Action.effects]; decide)
  · exact claims_chain (chain_perform s a) hreclaimed hs

/-- It may still do so after a run in which it did not say so. -/
theorem claims_performAll (hrights : s.Rights known) (hs : s.Claims no) {more : List Action}
    (hspares : ∀ a ∈ more, a.Spares) (hentered : ∀ a ∈ more, .entered ∉ a.effects)
    (hmore : .reclaimComplete no ∉ more) : (s.performAll more).Claims no := by
  induction more generalizing s with
  | nil => exact hs
  | cons a rest ih =>
    have ha : a ≠ .reclaimComplete no := fun h => hmore (h ▸ List.mem_cons_self)
    refine ih ?_ (claims_perform hrights hs ha) (fun b hb => hspares b (List.mem_cons_of_mem _ hb))
      (fun b hb => hentered b (List.mem_cons_of_mem _ hb)) fun h => hmore (List.mem_cons_of_mem _ h)
    exact rights_perform hrights (hspares a List.mem_cons_self) (hentered a List.mem_cons_self)

/-! ## The first registration -/

/-- While the window is open, the first client of an owner needs to reclaim exactly if the owner was
known. -/
theorem enrol_first (hrights : s.Rights known) (henlisted : s.Enlisted) {r : Registration}
    (hgrace : (inGrace.exec s).1 = .ok true)
    (hfirst : ∀ no : ClientNo, no.value < s.clients.size → (s.client no).owner ≠ r.owner)
    (reuse : Bool) :
    ∃ t, (enrol r reuse).exec s = (.ok (.created, s.clients.nextNo), t) ∧
      (t.client s.clients.nextNo).needReclaim = known r.owner ∧
      (t.client s.clients.nextNo).reclaimCompleted = false ∧
      s.clients.nextNo.value < t.clients.size := by
  rw [exec_inGrace] at hgrace
  dsimp only at hgrace
  split at hgrace
  · rename_i hrunning
    split at hgrace
    · cases hgrace
    · rename_i hover
      have hopen := hrights.opened hrunning
      -- nobody of this owner was ever made, so nobody is replaced
      have hnone : s.registeredFor? r.owner = none := by
        rw [registeredFor?_eq_none_iff]
        rintro ⟨id, no, hget, howner⟩
        exact hfirst no (henlisted.listed id no hget).1 howner
      -- the store answers as the first life of the server left it
      have hknown := hrights.recovering_eq hrunning (Bool.eq_false_iff.2 hover) hfirst
      have hwant : s.callStore .wantReclaim (·.wantReclaim r.owner) = .ok (known r.owner) := by
        rw [hrights.spared.callStore_eq, s.store.wantReclaim_eq, hknown]
        exact Recovery.Tables.whileOpen_eq_ok_iff.2 ⟨hopen, rfl⟩
      obtain ⟨store, hadded, _⟩ := Recovery.Store.exists_ok
        (s.store.map_tables_addClient s.wall r.owner) hopen
      have hcall : s.callStore .addClient (·.addClient s.wall r.owner) = .ok store := by
        rw [hrights.spared.callStore_eq, hadded]
      have hclient : (s.withClient r (known r.owner)).client s.clients.nextNo = .new s.ids.next.1 r
          s.config.leaseTime (known r.owner) s.now s.wall := by
        rw [client_withClient, if_pos rfl]
      refine ⟨{ s.withClient r (known r.owner) with store }, ?_, ?_, ?_, ?_⟩
      · rw [exec_enrol, if_pos hrunning, hwant, hnone]
        dsimp only
        rw [exec_enrolNew]
        dsimp only [withClientFor]
        rw [show (s.withClient r (known r.owner)).wall = s.wall from rfl, hcall]
        rfl
      · exact congrArg Client.needReclaim hclient
      · exact congrArg Client.reclaimCompleted hclient
      · exact nextNo_lt_withClient s r (known r.owner)
  · cases hgrace

/-- A server stopped after any run, in order or not, and another one was started on what its store
keeps. The owners on record at the stop, among them those of all registered clients, and no others
may reclaim: while the grace period lasts, the first client of an owner needs to reclaim exactly if
the owner was on record, and passes until it has reclaimed; and no client of another owner ever
passes. -/
theorem reclaim_after_restart (timers : Bool) (config : Config) (db : Recovery.Database)
    (wall : WallTime) (now : Nat) (before : List Deed)
    (hbefore : ∀ a, .act a ∈ before → .entered ∉ a.effects)
    (inOrder timers' : Bool) (config' : Config) (later : List Action)
    (hspares : ∀ a ∈ later, a.Spares) (hentered : ∀ a ∈ later, .entered ∉ a.effects) :
    let s := (start timers config (.durable (.openOn db)) wall now).carryAll before
    let known := (s.stop inOrder).store.tables.knows
    let t := ((s.stop inOrder).successor config' timers').performAll later
    (∀ owner, s.Lists owner → known owner = true) ∧
    (∀ r reuse, (inGrace.exec t).1 = .ok true →
      (∀ no : ClientNo, no.value < t.clients.size → (t.client no).owner ≠ r.owner) →
      ∃ t', (enrol r reuse).exec t = (.ok (.created, t.clients.nextNo), t') ∧
        (t'.client t.clients.nextNo).needReclaim = known r.owner ∧
        (known r.owner = true → ∀ more, (∀ a ∈ more, a.Spares) → (∀ a ∈ more, .entered ∉ a.effects) →
          .reclaimComplete t.clients.nextNo ∉ more →
          (inGrace.exec (t'.performAll more)).1 = .ok true →
            ((checkGrace t.clients.nextNo true).exec (t'.performAll more)).1 = .ok ())) ∧
    (∀ no : ClientNo, no.value < t.clients.size → known (t.client no).owner = false →
      ((checkGrace no true).exec t).1 ≠ .ok ()) := by
  intro s known t
  have hbalanced : s.Balanced False none :=
    balanced_carryAll (balanced_start timers config (.durable ⟨db, false⟩) wall now)
      (Deed.not_entered hbefore)
  -- what was on disk at the stop is what the next server finds
  have hlasting : (s.stop inOrder).store.tables.lasting = true := by
    rw [lasting_stop, lasting_carryAll]
    cases timers <;> rfl
  have hrights : t.Rights known :=
    rights_performAll (rights_successor hlasting config' timers') hspares hentered
  have henlisted : t.Enlisted := by
    refine enlisted_performAll ?_ later
    rw [successor_eq_start]
    exact enlisted_start ..
  refine ⟨fun owner h => knows_of_lists hbalanced h inOrder, fun r reuse hgrace hfirst => ?_,
    fun no hno hunknown hpasses => ?_⟩
  · obtain ⟨t', hexec, hneeds, hcompleted, hmade⟩ := enrol_first hrights henlisted hgrace hfirst reuse
    refine ⟨t', hexec, hneeds, fun hknown more hspares' hentered' hmore hgrace' => ?_⟩
    -- the registration gives the right; nothing but the client's own reclaim takes it
    have hrights' : t'.Rights known := by
      have hafter := rights_enrol hrights r reuse
      rw [after_eq_exec] at hafter
      rw [hexec] at hafter
      exact hafter
    have hclaims := claims_performAll hrights' ⟨hmade, hneeds.trans hknown, hcompleted⟩
      hspares' hentered' hmore
    exact (checkGrace_reclaim_iff _ _).2 ⟨hgrace', hclaims.completed, hclaims.needs⟩
  · have hentitled := hrights.entitled no (Nat.zero_le _) hno ((checkGrace_reclaim_iff _ _).1 hpasses).2.2
    rw [hunknown] at hentitled
    cases hentitled

/-- Two clients were registered; one of them and a third one have come, and the other one comes. -/
theorem reclaim_after_restart_of_three :
    let before : List Deed := [.act (.register (.ofOwner [1])), .act (.register (.ofOwner [2]))]
    let s := (start false {} (.durable (.openOn .empty)) ⟨0⟩).carryAll before
    let known := (s.stop true).store.tables.knows
    let later : List Action := [.register (.ofOwner [1]), .register (.ofOwner [3])]
    let t := ((s.stop true).successor {} false).performAll later
    [[1], [2], [3]].map known = [true, true, false] ∧
      (∃ t', (enrol (.ofOwner [2]) true).exec t = (.ok (.created, t.clients.nextNo), t') ∧
        (t'.client t.clients.nextNo).needReclaim = known [2]) ∧
      ((checkGrace ⟨1⟩ true).exec t).1 ≠ .ok () := by
  intro before s known later t
  have hbefore : ∀ a, Deed.act a ∈ before → .entered ∉ a.effects := by
    have hall : ∀ d ∈ before, ∀ a, d = .act a → .entered ∉ a.effects := by
      simp [before]
      decide
    exact fun a ha => hall _ ha a rfl
  have hspares : ∀ a ∈ later, a.Spares := by simp [later, Action.Spares]
  have hentered : ∀ a ∈ later, .entered ∉ a.effects := by decide +kernel
  have hsize : t.clients.size = 2 := by decide +kernel
  have hmissing : ∀ no : ClientNo, no.value < t.clients.size → (t.client no).owner ≠ [2] := by
    intro no hno
    rw [hsize] at hno
    obtain ⟨n⟩ := no
    have hfirst : n = 0 ∨ n = 1 := by
      dsimp only at hno
      omega
    rcases hfirst with rfl | rfl
    · decide +kernel
    · decide +kernel
  have hlasting : (s.stop true).store.tables.lasting = true := by
    rw [lasting_stop, lasting_carryAll]
    rfl
  have hknown : known [2] = true := by decide +kernel
  have hgrace : (inGrace.exec t).1 = .ok true := by
    have hrights := rights_performAll (rights_successor hlasting {} false) hspares hentered
    exact hrights.inGrace (by decide +kernel) (by decide +kernel) hknown hmissing
  obtain ⟨_, hfirst, hnever⟩ := reclaim_after_restart false {} .empty ⟨0⟩ 0 before hbefore true false {}
    later hspares hentered
  refine ⟨by decide +kernel, ?_, ?_⟩
  · obtain ⟨t', hexec, hneeds, _⟩ := hfirst (.ofOwner [2]) true hgrace hmissing
    exact ⟨t', hexec, hneeds⟩
  · exact hnever ⟨1⟩ (by decide +kernel) (by decide +kernel)

end Server

end Leasehold

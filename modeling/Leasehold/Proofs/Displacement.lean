import Leasehold.Proofs.ClientTable
import Leasehold.Proofs.Isolation
import Leasehold.Proofs.RecoveryTables

/-!
# Proofs.Displacement — who loses its place to a registration

A registration ends the old record of its owner and makes a new one. It touches
nothing of any other client. But the identifier of the new client holds 24 bits of the
counter of the server, and the new client enters the table under it whoever stands
there: a client that is still registered when 2^24 more were made loses its place to
one of another owner. It lives on, for nobody ends it.

* `Server.Leaves` — what a registration leaves of a client of another owner;
* `Server.Belongs.leaves` — every registration leaves that much, whatever fails on the way;
* `Server.displaced_iff` — over every run: the other client is untouched, and loses its
  place just if a client was made a multiple of 2^24 clients after it;
* `Server.displaced_after_wrap` — a run that comes round.
-/

namespace Leasehold

open Request

namespace Server

variable {s t u : Server} {r : Registration} {id : ClientId} {no : ClientNo}

/-! ## What a registration leaves -/

/-- A client is registered or made, with whatever outcome. -/
inductive Enrols (r : Registration) (s : Server) : Server → Prop where
  | registered : Enrols r s (s.perform (.register r))
  | created : Enrols r s (s.perform (.createClient r))
  /-- The states of the old client end in any order, and each call may fail on its own. -/
  | replaced {t : Server} (h : s.Replaces r t) : Enrols r s t

/-- The clients with an identifier are spared, and the one in the table keeps its place, unless a new
client bears the identifier, too. -/
structure Leaves (id : ClientId) (no : ClientNo) (s t : Server) : Prop where
  spares : s.Spares id t
  place : t.clients.size = s.clients.size ∧ t.registered.get? id = some no ∨
    t.clients.size = s.clients.size + 1 ∧
      (t.registered.get? id = some no ↔ s.ids.next.1 ≠ id)

theorem Leaves.refl (hget : s.registered.get? id = some no) : s.Leaves id no s :=
  ⟨.refl id s, .inl ⟨rfl, hget⟩⟩

/-- Whoever is taken from the table loses nothing else. -/
theorem spares_unlist (s : Server) (client : ClientNo) : s.Spares id (s.unlist client) :=
  { Spares.refl id s with }

/-- A new client takes a number that nobody had before. -/
theorem spares_withClient (s : Server) (r : Registration) (needReclaim : Bool) :
    s.Spares id (s.withClient r needReclaim) := by
  have hsize := clients_size_withClient s r needReclaim
  have hclient (no : ClientNo) (hno : no.value < s.clients.size) (_ : (s.client no).id = id) :
      (s.withClient r needReclaim).client no = s.client no := by
    rw [client_withClient, if_neg (Ledger.ne_nextNo hno)]
  exact { Spares.refl id s with
    clients_size := Nat.le_of_lt (Nat.lt_of_lt_of_eq (Nat.lt_succ_self _) hsize.symm)
    client := hclient }

/-- A new client enters the table, and leaves it again if the store does not take its owner. -/
theorem leaves_made {needReclaim : Bool} (hget : s.registered.get? id = some no)
    (hne : no ≠ s.clients.nextNo) (hspares : (s.withClient r needReclaim).Spares id t)
    (hchain : Chain Effect.ending (s.withClient r needReclaim) t) :
    (∀ store, s.Leaves id no { t with store }) ∧ s.Leaves id no (t.unlist s.clients.nextNo) := by
  -- neither the new client nor an end after it touches the clients of this identifier
  have hspared : s.Spares id t := (spares_withClient s r needReclaim).trans hspares
  have hsize : t.clients.size = s.clients.size + 1 := by
    rw [← clients_size_withClient s r needReclaim]
    refine hchain.eq_of_updates (f := fun s => s.clients.size) fun e he {a b} hupdate => ?_
    have hall : ∀ e ∈ Effect.ending, e ≠ .enrolled ∧ e ≠ .entered := by decide
    exact hupdate.clients_size_eq (hall e he).1 (hall e he).2
  have htable : t.registered = s.registered.insert s.ids.next.1 s.clients.nextNo :=
    hchain.registered_eq (by decide)
  have hid : (t.client s.clients.nextNo).id = s.ids.next.1 := by
    rw [hchain.client_id_eq (nextNo_lt_withClient s r needReclaim), client_withClient, if_pos rfl]
    rfl
  constructor
  · intro store
    refine ⟨hspared.trans { Spares.refl id t with }, .inr ⟨hsize, ?_⟩⟩
    show t.registered.get? id = some no ↔ _
    -- the entry is lost exactly if the new client is given the same identifier
    rw [htable, Table.get?_insert]
    split
    · rename_i hsame
      exact ⟨fun h => absurd (Option.some.inj h).symm hne, fun h => absurd hsame h⟩
    · rename_i hother
      exact ⟨fun _ => hother, fun _ => hget⟩
  · refine ⟨hspared.trans (spares_unlist t _), .inr ⟨hsize, ?_⟩⟩
    -- a registration that fails takes the entry out again, and with it whatever it displaced
    rw [unlist, hid, htable, Table.get?_erase]
    split
    · rename_i hsame
      refine ⟨fun h => ?_, fun h => absurd hsame h⟩
      cases h
    · rename_i hother
      rw [Table.get?_insert, if_neg hother]
      exact ⟨fun _ => hother, fun _ => hget⟩

/-- What is left once somebody else has left the table is left from before it did. -/
theorem Leaves.of_unlist {old : ClientNo} (h : (s.unlist old).Leaves id no t) : s.Leaves id no t :=
  ⟨(spares_unlist s old).trans h.spares, h.place⟩

/-! ## Every registration -/

/-- Whoever is registered for another owner has another identifier. -/
theorem id_ne_of_owner_ne (hget : s.registered.get? id = some no)
    (howner : (s.client no).owner ≠ r.owner) (hs : s.Routed) {old : ClientNo}
    (hold : s.registeredFor? r.owner = some old) :
    old.value < s.clients.size ∧ (s.client old).id ≠ id := by
  obtain ⟨⟨cid, hlisted⟩, hsame⟩ := registeredFor?_eq_some hold
  obtain ⟨hmade, hid⟩ := hs.registered cid old hlisted
  refine ⟨hmade, fun heq => howner ?_⟩
  rw [hid.symm.trans heq, hget] at hlisted
  rw [Option.some.inj hlisted]
  exact hsame

/-- A replacement ends a client of the owner who registers, and so no other one. -/
theorem Belongs.leaves_replaces (hs : s.Belongs) (hget : s.registered.get? id = some no)
    (howner : (s.client no).owner ≠ r.owner) (h : s.Replaces r t) : s.Leaves id no t := by
  have hreplaced {old : ClientNo} {needReclaim : Bool} {attempts : List Attempt} {t : Server}
      (hold : s.registeredFor? r.owner = some old)
      (h : Course (.client false old) ((s.unlist old).withClient r needReclaim) attempts (.ok ()) t) :
      (∀ store, s.Leaves id no { t with store }) ∧ s.Leaves id no (t.unlist s.clients.nextNo) := by
    obtain ⟨hmade, hne⟩ := id_ne_of_owner_ne hget howner hs.routed hold
    have hno : no ≠ s.clients.nextNo := Ledger.ne_nextNo (hs.routed.registered id no hget).1
    have hunlisted : (s.unlist old).Belongs := belongs_update (.unregistered s _) (by decide) hs
    have hentered : ((s.unlist old).withClient r needReclaim).Belongs :=
      belongs_update (.enrolled _ r needReclaim) (by decide) hunlisted
    -- the work is on the states of the old client, whose identifier is another one
    have holdMade : old.value < ((s.unlist old).withClient r needReclaim).clients.size := by
      rw [clients_size_withClient]
      exact Nat.lt_succ_of_lt hmade
    have hid : (((s.unlist old).withClient r needReclaim).client old).id = (s.client old).id := by
      have hold : old ≠ (s.unlist old).clients.nextNo := Ledger.ne_nextNo hmade
      rw [client_withClient, if_neg hold]
      rfl
    have hspares : Spares id ((s.unlist old).withClient r needReclaim) _ :=
      h.spares hentered ⟨holdMade, rfl⟩ (by rwa [hid])
    have hstays : (s.unlist old).registered.get? id = some no := by
      rw [unlist, Table.get?_erase, if_neg hne]
      exact hget
    obtain ⟨hrecorded, hunrecorded⟩ := leaves_made hstays hno hspares h.chain_ending
    exact ⟨fun store => (hrecorded store).of_unlist, hunrecorded.of_unlist⟩
  cases h with
  | recorded hold h store => exact (hreplaced hold h).1 store
  | unrecorded hold h => exact (hreplaced hold h).2

/-- A registration, whatever comes of it, leaves the clients of other owners alone. -/
theorem Belongs.leaves_enrol (hs : s.Belongs) (hget : s.registered.get? id = some no)
    (howner : (s.client no).owner ≠ r.owner) (reuse : Bool) :
    s.Leaves id no (s.after (enrol r reuse)) := by
  rw [after_eq_exec, exec_enrol]
  split
  · split
    · exact .refl hget
    · rename_i needReclaim _
      split
      -- the owner has no record
      · rw [exec_enrolNew]
        obtain ⟨hrecorded, hunrecorded⟩ := leaves_made hget
          (Ledger.ne_nextNo (hs.routed.registered id no hget).1)
          (.refl id (s.withClient r needReclaim)) .refl
        dsimp only
        split
        · exact hrecorded _
        · exact hunrecorded
      · rename_i old hold
        split
        · exact .refl hget
        · obtain ⟨hmade, hne⟩ := id_ne_of_owner_ne hget howner hs.routed hold
          exact ⟨spares_amendClient hne _, .inl ⟨Ledger.size_modify .., hget⟩⟩
        · exact hs.leaves_replaces hget howner
            (replaces_enrolNew hs.descending hs.held hold needReclaim)
  · exact .refl hget

/-- Whatever fails, a registration leaves a client of another owner alone, and its place but for a
new client with its identifier. -/
theorem Belongs.leaves (hs : s.Belongs) (hget : s.registered.get? id = some no)
    (howner : (s.client no).owner ≠ r.owner) (h : s.Enrols r t) : s.Leaves id no t := by
  cases h with
  | registered => exact hs.leaves_enrol hget howner true
  | created =>
    show s.Leaves id no (s.after (createClient r))
    rw [after_createClient]
    exact hs.leaves_enrol hget howner false
  | replaced h => exact hs.leaves_replaces hget howner h

/-- A new client has the identifier of an old one just if the counter came round between them. -/
theorem Numbered.next_eq_iff (hs : s.Numbered) (hno : no.value < s.clients.size) :
    s.ids.next.1 = (s.client no).id ↔ 0x100_0000 ∣ s.clients.size - no.value := by
  have hnext : s.ids.next.1 = ClientId.ofParts s.ids.bootSeconds s.ids.instanceId
      (UInt32.ofNat (s.clients.size + 1)) := by
    show ClientId.ofParts _ _ (s.ids.issued + 1) = _
    rw [hs.issued]
    exact congrArg _ (UInt32.ofNat_add _ 1).symm
  rw [hnext, hs.client_id no hno, ClientId.ofParts_eq_iff, lowBits_ofNat, lowBits_ofNat,
    and_iff_right rfl]
  omega

/-- The next client of a server loses the other one its place. -/
theorem Leaves.place_iff (h : s.Leaves id no t) (hs : s.Numbered) (hno : no.value < s.clients.size)
    (hid : (s.client no).id = id) :
    t.registered.get? id = some no ↔
      ¬ (t.clients.size = s.clients.size + 1 ∧ 0x100_0000 ∣ s.clients.size - no.value) := by
  have hnext := hs.next_eq_iff hno
  rw [hid] at hnext
  rcases h.place with ⟨hsize, hget⟩ | ⟨hsize, hiff⟩
  · refine ⟨fun _ h => ?_, fun _ => hget⟩
    omega
  · rw [hiff, ← hnext]
    exact ⟨fun hne h => hne h.2, fun hne h => hne ⟨hsize, h⟩⟩

/-! ## Every run -/

/-- What is known of a server after a run in which opens are asked for by owners of their clients. -/
theorem known_run {timers : Bool} {config : Config} {store : Recovery.Store} {wall : WallTime}
    {now : Nat}
    (hrun : Run (fun s a => a.served = true ∧ a.ByOwnOwner s)
      (start timers config store wall now) s) :
    s.Belongs ∧ s.Standing ∧ s.Numbered := by
  have hserved (s : Server) (a : Action) (h : a.served = true ∧ a.ByOwnOwner s) := h.1
  refine ⟨?_, ?_, ?_⟩
  · exact keepsHappenings_belongs.run hserved hrun (belongs_start timers config store wall now)
  · exact standing_run hserved (standing_start timers config store wall now)
      (grounded_start timers config store wall now) hrun
  · exact ((keepsHappenings_established _).run hserved hrun
      (established_start timers config store wall now)).tracked.numbered

/-- After every run, a client of one owner is registered or made, with whatever outcome. A client
that is registered for another owner lives on, and all it has is untouched: its record with its
lease and tables, its states, sessions, opens and locks. It keeps its place in the table, unless a
new client was made and the number of clients made from the old one to the new one is a multiple of
2^24. -/
theorem displaced_iff {timers : Bool} {config : Config} {store : Recovery.Store} {wall : WallTime}
    {now : Nat}
    (hrun : Run (fun s a => a.served = true ∧ a.ByOwnOwner s)
      (start timers config store wall now) s)
    (h : s.Enrols r t) (hget : s.registered.get? id = some no)
    (howner : (s.client no).owner ≠ r.owner) :
    Untouched no s t ∧ (t.client no).disposed = false ∧
      (t.registered.get? id = some no ↔
        ¬ (t.clients.size = s.clients.size + 1 ∧ 0x100_0000 ∣ s.clients.size - no.value)) := by
  obtain ⟨hs, hstanding, hnumbered⟩ := known_run hrun
  obtain ⟨hno, hid⟩ := hs.routed.registered id no hget
  have hleaves := hs.leaves hget howner h
  have huntouched : Untouched no s t :=
    Spares.untouched hs hno (by rw [hid]; exact hleaves.spares)
  -- the record is untouched, so it ends no more than it had
  refine ⟨huntouched, ?_, hleaves.place_iff hnumbered hno hid⟩
  rw [huntouched.record]
  exact hstanding.live id no hget

/-- One client stays in the table while another one is replaced by a client of the next number. -/
theorem displaced_not_by_next :
    let s := (start false {} (.durable (.openOn .empty)) ⟨0⟩).performAll
      [.register (.ofOwner [1]), .register (.ofOwner [2])]
    let t := s.perform (.createClient (.ofOwner [2]))
    (t.client ⟨1⟩).disposed = true ∧ t.registered.values = [⟨0⟩, ⟨2⟩] ∧
      t.registered.get? (s.client ⟨0⟩).id = some ⟨0⟩ ∧ Untouched ⟨0⟩ s t := by
  intro s t
  have hrun : Run (fun s a => a.served = true ∧ a.ByOwnOwner s)
      (start false {} (.durable (.openOn .empty)) ⟨0⟩) s := by
    refine run_performAll fun a ha _ => ?_
    simp only [List.mem_cons, List.not_mem_nil, or_false] at ha
    rcases ha with rfl | rfl
    all_goals exact ⟨rfl, trivial⟩
  have hget : s.registered.get? (s.client ⟨0⟩).id = some ⟨0⟩ := by decide +kernel
  obtain ⟨huntouched, -, hplace⟩ :=
    displaced_iff hrun (.created (r := .ofOwner [2])) hget (by decide +kernel)
  refine ⟨by decide +kernel, by decide +kernel, hplace.2 ?_, huntouched⟩
  rintro ⟨-, hwrapped⟩
  revert hwrapped
  decide +kernel

/-! ## A counter that comes round -/

/-- A running server with its store open makes a record for every client it is told to make, and
goes on running. -/
theorem made_createClient (hrunning : s.running = true) (hspared : s.Spared)
    (hopen : s.store.tables.closed = false) (r : Registration) :
    let t := s.perform (.createClient r)
    t.clients.size = s.clients.size + 1 ∧ t.running = true ∧ t.Spared ∧
      t.store.tables.closed = false := by
  intro t
  have ht : t = s.after (enrol r false) := after_createClient s r
  -- with or without an old record of the owner to be replaced
  have hmade (u : Server) (hu : u.clients.size = s.clients.size ∧ u.running = s.running ∧
      u.faults = s.faults ∧ u.store = s.store) (needReclaim : Bool) (old : Option ClientNo) :
      (u.after (enrolNew r needReclaim old)).clients.size = s.clients.size + 1 ∧
        (u.after (enrolNew r needReclaim old)).running = true ∧
        (u.after (enrolNew r needReclaim old)).Spared ∧
        (u.after (enrolNew r needReclaim old)).store.tables.closed = false := by
    obtain ⟨hclients, hruns, hfaults, hstore⟩ := hu
    have hchain := chain_withClientFor u r needReclaim old
    have hsize := clients_size_withClientFor u r needReclaim old
    have hstill := hchain.running_eq (by decide)
    have hsame := hchain.faults_eq (by decide)
    rw [hclients] at hsize
    have huspared : u.Spared := (congrArg Faults.store hfaults).trans hspared
    rw [after_eq_exec, exec_enrolNew]
    dsimp only
    rw [huspared.callStore_eq, hstore]
    obtain ⟨store, hok, hclosed⟩ :=
      Recovery.Store.exists_ok (s.store.map_tables_addClient _ r.owner) hopen
    rw [hok]
    refine ⟨hsize, hstill.trans (hruns.trans hrunning), ?_, ?_⟩
    · exact (congrArg Faults.store hsame).trans huspared
    · show store.tables.closed = false
      rw [hclosed]
      exact hopen
  rw [ht, after_eq_exec, exec_enrol, if_pos hrunning, hspared.callStore_eq,
    Recovery.Store.wantReclaim_eq, Recovery.Tables.whileOpen_eq_ok_iff.2 ⟨hopen, rfl⟩]
  dsimp only
  split
  · exact hmade s ⟨rfl, rfl, rfl, rfl⟩ _ none
  · rename_i old _
    exact hmade (s.unlist old) ⟨rfl, rfl, rfl, rfl⟩ _ (some old)

/-- A client keeps its place while clients of another owner are made, until the counter comes
round. -/
theorem registered_createClients {timers : Bool} {config : Config} {store : Recovery.Store}
    {wall : WallTime} {now : Nat}
    (hrun : Run (fun s a => a.served = true ∧ a.ByOwnOwner s)
      (start timers config store wall now) s)
    (hrunning : s.running = true) (hspared : s.Spared) (hopen : s.store.tables.closed = false)
    (hget : s.registered.get? id = some no) (howner : (s.client no).owner ≠ r.owner) (n : Nat)
    (hn : s.clients.size - no.value + n ≤ 0x100_0000) :
    let t := s.performAll (List.replicate n (.createClient r))
    Run (fun s a => a.served = true ∧ a.ByOwnOwner s) (start timers config store wall now) t ∧
      t.clients.size = s.clients.size + n ∧ t.running = true ∧ t.Spared ∧
      t.store.tables.closed = false ∧ t.registered.get? id = some no ∧
      t.client no = s.client no := by
  induction n with
  | zero => exact ⟨hrun, rfl, hrunning, hspared, hopen, hget, rfl⟩
  | succ n ih =>
    obtain ⟨hrun', hsize, hrunning', hspared', hopen', hget', hsame⟩ := ih (by omega)
    have hno := ((known_run hrun).1.routed.registered id no hget).1
    rw [List.replicate_succ', performAll_append]
    generalize s.performAll (List.replicate n (.createClient r)) = t at *
    rw [← hsame] at howner
    obtain ⟨hmade, hstill, hspared'', hopen''⟩ := made_createClient hrunning' hspared' hopen' r
    obtain ⟨hs, -, hnumbered⟩ := known_run hrun'
    have hleaves := hs.leaves hget' howner (.created (r := r))
    obtain ⟨hmade', hid⟩ := hs.routed.registered id no hget'
    have hstep : Run (fun s a => a.served = true ∧ a.ByOwnOwner s)
        (start timers config store wall now)
        (t.perform (.createClient r)) := hrun'.tail (.performed ⟨rfl, trivial⟩)
    refine ⟨hstep, hmade.trans ?_, hstill, hspared'', hopen'', ?_, ?_⟩
    · rw [hsize, Nat.add_assoc]
    -- fewer than 2^24 clients were made since the one in question
    · refine (hleaves.place_iff hnumbered hmade' hid).2 fun ⟨_, hwrapped⟩ => ?_
      have hle := Nat.le_of_dvd (by omega) hwrapped
      omega
    · exact (hleaves.spares.client no hmade' hid).trans hsame

/-- Once the counter has come round, the next client takes the place of the one in question. -/
theorem displaced_of_made {timers : Bool} {config : Config} {store : Recovery.Store}
    {wall : WallTime} {now : Nat} {next : Registration}
    (hrun : Run (fun s a => a.served = true ∧ a.ByOwnOwner s)
      (start timers config store wall now) s)
    (hrunning : s.running = true) (hspared : s.Spared) (hopen : s.store.tables.closed = false)
    (hget : s.registered.get? id = some no) (howner : (s.client no).owner ≠ r.owner)
    (hnext : (s.client no).owner ≠ next.owner) (n : Nat)
    (hn : s.clients.size - no.value + n = 0x100_0000) :
    let t := s.performAll (List.replicate n (.createClient r))
    let u := t.perform (.createClient next)
    t.registered.get? id = some no ∧ (t.client no).owner = (s.client no).owner ∧
      u.registered.get? id ≠ some no ∧ (u.client no).disposed = false := by
  intro t u
  obtain ⟨hrun', hsize, hrunning', hspared', hopen', hget', hsame⟩ :=
    registered_createClients hrun hrunning hspared hopen hget howner n (Nat.le_of_eq hn)
  have hno := ((known_run hrun).1.routed.registered id no hget).1
  obtain ⟨hs, hstanding, hnumbered⟩ := known_run hrun'
  obtain ⟨hmade, hid⟩ := hs.routed.registered id no hget'
  have hleaves : t.Leaves id no u := by
    refine hs.leaves hget' ?_ .created
    rw [hsame]
    exact hnext
  refine ⟨hget', congrArg Client.owner hsame, fun hstays => ?_, ?_⟩
  -- the counter has come round by the time of the next registration
  · refine (hleaves.place_iff hnumbered hmade hid).1 hstays ⟨?_, ?_⟩
    · exact (made_createClient hrunning' hspared' hopen' next).1
    · rw [hsize]
      omega
  · rw [hleaves.spares.client no hmade hid]
    exact hstanding.live id no hget'

/-- One owner registers, another one has clients made for it 2^24 - 1 times, and a third one once.
The first is in the table no more, though it is of another owner than the third, and nobody has ended
it. -/
theorem displaced_after_wrap :
    let first := (start false {} (.durable (.openOn .empty)) ⟨0⟩).perform (.register (.ofOwner [1]))
    let s := first.performAll (List.replicate 0xff_ffff (.createClient (.ofOwner [2])))
    let t := s.perform (.createClient (.ofOwner [3]))
    let id := (first.client ⟨0⟩).id
    s.registered.get? id = some ⟨0⟩ ∧ (s.client ⟨0⟩).owner = (first.client ⟨0⟩).owner ∧
      t.registered.get? id ≠ some ⟨0⟩ ∧ (t.client ⟨0⟩).disposed = false := by
  intro first
  have hrun : Run (fun s a => a.served = true ∧ a.ByOwnOwner s)
      (start false {} (.durable (.openOn .empty)) ⟨0⟩) first :=
    .single (.performed ⟨rfl, trivial⟩)
  have hone : first.clients.size = 1 := by decide +kernel
  have howner : (first.client ⟨0⟩).owner = [1] := by decide +kernel
  have hspared : first.Spared := rfl
  have hget : first.registered.get? (first.client ⟨0⟩).id = some ⟨0⟩ := by decide +kernel
  -- by the general result, since a run of so many registrations is too long to evaluate
  refine displaced_of_made hrun (by decide +kernel) hspared (by decide +kernel) hget ?_ ?_ 0xff_ffff ?_
  · rw [howner]
    decide
  · rw [howner]
    decide
  · show first.clients.size - 0 + 0xff_ffff = 0x100_0000
    omega

end Server

end Leasehold

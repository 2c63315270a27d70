import Leasehold.Proofs.Serving

/-!
# Proofs.ClientTable — the registered clients live

A removal and a sweep end a client before it leaves the table of registered
clients, and a replacement takes the old client out before it ends. In between the
table is wrong about one client at most (`Server.StandingBut`), and every way out of
a request leaves it right again (`Server.Standing`), whatever fails.

* `Course.client_cases` — a client that does not end keeps its place alive;
* `Server.standing_happens` — whatever happens, registered clients live;
* `Server.registered_clients_live` — after every run the table leads to living
  records, one for each owner, and a look-up by owner finds it.
-/

namespace Leasehold

open Request

/-! ## Who ends -/

/-- A client is disposed of only when it ends. -/
theorem Client.Update.disposed_eq {now : Nat} {e : Effect} {c c' : Client} (h : Update now e c c')
    (he : e ≠ .ended) : c'.disposed = c.disposed := by
  cases h with
  | ended => exact absurd rfl he
  | _ => rfl

namespace Server

variable {s t : Server} {e : Effect}

/-- Nobody ends but by the update that says so, and new clients live. -/
theorem Update.disposed_eq (h : Update e s t) (he : e ≠ .ended) (no : ClientNo) :
    (t.client no).disposed = (s.client no).disposed := by
  rcases h.client_cases no with hsame | hupdate | ⟨_, hsession⟩ | ⟨hnone, _, _, _, _, hnew⟩
  · rw [hsame]
  · exact hupdate.disposed_eq he
  · rw [hsession]
    rfl
  · rw [hnew, hnone]
    rfl

/-- As long as no client ends, those that live go on living. -/
theorem disposed_eq_of_chain {E : List Effect} (h : Chain E s t) (hE : .ended ∉ E)
    (no : ClientNo) : (t.client no).disposed = (s.client no).disposed :=
  h.eq_of_updates (f := fun s => (s.client no).disposed) fun _ he {_ _} hupdate =>
    hupdate.disposed_eq (fun hended => hE (hended ▸ he)) no

end Server

namespace Course

variable {s t : Server} {strict : Bool} {client : ClientNo} {attempts : List Attempt}
  {answer : Except Error Unit}

/-- If the work on a client fails, the client has not ended; if not, its end is the last thing that is
done, unless it had ended before. -/
theorem client_cases (h : Course (.client strict client) s attempts answer t) :
    Chain Effect.releasing s t ∨
      answer = .ok () ∧ ∃ u, Chain Effect.releasing s u ∧ t = u.amendClient client .finish := by
  cases h with
  | gone => exact .inl .refl
  | client _ _ h => exact .inr ⟨rfl, _, h.chain, rfl⟩
  | kept _ _ h => exact .inl h.chain

/-- The work on a client ends nobody else. -/
theorem disposed_eq_of_ne (h : Course (.client strict client) s attempts answer t) {no : ClientNo}
    (hne : no ≠ client) : (t.client no).disposed = (s.client no).disposed := by
  rcases h.client_cases with hchain | ⟨_, u, hchain, rfl⟩
  · exact Server.disposed_eq_of_chain hchain (by decide) no
  · rw [Server.client_amendClient, if_neg fun h => hne h.1]
    exact Server.disposed_eq_of_chain hchain (by decide) no

/-- While a client ends, the table of registered clients stays as it is. -/
theorem registered_eq (h : Course (.client strict client) s attempts answer t) :
    t.registered = s.registered :=
  h.chain_ending.registered_eq (by decide)

/-- The end of a client leaves the table consistent. -/
theorem enlisted (h : Course (.client strict client) s attempts answer t) (hs : s.Enlisted) :
    t.Enlisted :=
  Server.enlisted_chain h.chain_ending (by decide) hs

end Course

/-! ## Registered clients live -/

namespace Server

variable {s t : Server} {e : Effect} {client : ClientNo}

/-- The table is right about the registered clients: each is the one that bears its identifier, no
other one has its owner, and it lives. -/
structure Standing (s : Server) : Prop extends Enlisted s where
  live : ∀ id no, s.registered.get? id = some no → (s.client no).disposed = false

/-- The table is right but for one client, which may have ended. -/
structure StandingBut (client : ClientNo) (s : Server) : Prop extends Enlisted s where
  live : ∀ id no, s.registered.get? id = some no → no ≠ client → (s.client no).disposed = false

/-- A table that is right is right but for any one client. -/
theorem Standing.but (hs : s.Standing) (client : ClientNo) : s.StandingBut client :=
  ⟨hs.toEnlisted, fun id no hget _ => hs.live id no hget⟩

/-- Once the client that may have ended is out of the table, the table is right. -/
theorem StandingBut.standing (hs : s.StandingBut client)
    (hleft : ∀ id, s.registered.get? id ≠ some client) : s.Standing :=
  ⟨hs.toEnlisted, fun id no hget => hs.live id no hget fun hsame => hleft id (hsame ▸ hget)⟩

/-- Only the end of a client, or a new one, bears on this. -/
theorem standing_update (h : Update e s t) (he : e ∉ [.ended, .enrolled]) (hs : s.Standing) :
    t.Standing := by
  simp only [List.mem_cons, List.not_mem_nil, or_false, not_or] at he
  refine ⟨enlisted_update h he.2 hs.toEnlisted, fun id no hget => ?_⟩
  rw [h.disposed_eq he.1]
  exact hs.live id no (registered_get?_of_ne_enrolled h he.2 hget)

theorem standing_chain {E : List Effect} (h : Chain E s t)
    (hE : ∀ e ∈ E, e ∉ [Effect.ended, .enrolled]) (hs : s.Standing) : t.Standing :=
  h.preserve (fun he hupdate => standing_update hupdate (hE _ he)) hs

theorem Standing.setStore (hs : s.Standing) (store : Recovery.Store) :
    Standing { s with store } :=
  standing_update (.recorded s store) (by decide) hs

/-- A registration does one thing to the server. -/
theorem Update.eq_withClient (h : Update .enrolled s t) : ∃ r needReclaim, t = s.withClient r needReclaim := by
  cases h with
  | client _ _ _ hclient => cases hclient
  | enrolled _ r needReclaim => exact ⟨r, needReclaim, rfl⟩
  | session _ _ _ hsession => cases hsession

/-- A client was registered before, or it is the one that has come last. -/
theorem Update.registered_cases (h : Update e s t) {id : ClientId} {no : ClientNo}
    (hget : t.registered.get? id = some no) :
    s.registered.get? id = some no ∨
      no = s.clients.nextNo ∧ ∃ r needReclaim, t = s.withClient r needReclaim := by
  by_cases henrolled : e = .enrolled
  · subst henrolled
    obtain ⟨r, needReclaim, rfl⟩ := h.eq_withClient
    rw [withClient, Table.get?_insert] at hget
    split at hget
    · exact .inr ⟨(Option.some.inj hget).symm, r, needReclaim, rfl⟩
    · exact .inl hget
  · exact .inl (registered_get?_of_ne_enrolled h henrolled hget)

/-- While somebody comes to be registered, those who are stay alive. -/
theorem standing_of_enlisted (hs : s.Standing) {E : List Effect} (h : Chain E s t)
    (hE : .ended ∉ E) (ht : t.Enlisted) : t.Standing := by
  have hlive : ∀ id no, t.registered.get? id = some no →
      no.value < t.clients.size ∧ (t.client no).disposed = false := by
    refine h.preserve (I := fun t => ∀ id no, t.registered.get? id = some no →
      no.value < t.clients.size ∧ (t.client no).disposed = false) ?_
      fun id no hget => ⟨(hs.listed id no hget).1, hs.live id no hget⟩
    intro e a b he hupdate ha id no hget
    rw [hupdate.disposed_eq fun hended => hE (hended ▸ he)]
    -- whoever comes to stand in the table is new, and new clients live
    rcases hupdate.registered_cases hget with hbefore | ⟨rfl, r, needReclaim, rfl⟩
    · obtain ⟨hno, hlives⟩ := ha id no hbefore
      exact ⟨Nat.lt_of_lt_of_le hno hupdate.clients_size_le, hlives⟩
    · rw [clients_size_withClient]
      exact ⟨Nat.lt_succ_self _, congrArg Client.disposed (client_eq_default (Nat.le_refl _))⟩
  exact ⟨ht, fun id no hget => (hlive id no hget).2⟩

/-- The work on a client may end it, and nobody else. -/
theorem StandingBut.course {strict : Bool} {attempts : List Attempt} {answer : Except Error Unit}
    (hs : s.StandingBut client) (h : Course (.client strict client) s attempts answer t) :
    t.StandingBut client := by
  refine ⟨h.enlisted hs.toEnlisted, fun id no hget hne => ?_⟩
  rw [h.registered_eq] at hget
  rw [h.disposed_eq_of_ne hne]
  exact hs.live id no hget hne

/-- A client that leaves takes nobody else out of the table. -/
theorem registered_without_iff (hs : s.Enlisted) (client : ClientNo) (store : Recovery.Store)
    {id : ClientId} {no : ClientNo} :
    (s.without client store).registered.get? id = some no ↔
      s.registered.get? id = some no ∧ no ≠ client := by
  unfold without
  rw [after_eq_exec, exec_unregister]
  by_cases hlisted : s.registered.get? (s.client client).id = some client
  · rw [if_pos hlisted]
    dsimp only [unlist]
    rw [Table.get?_erase]
    split
    · rename_i hid
      rw [hid] at hlisted
      -- the entry that is taken out is the client's own
      refine iff_of_false (Option.some_ne_none no).symm fun h => h.2 ?_
      exact Option.some.inj (h.1.symm.trans hlisted)
    · rename_i hid
      refine (and_iff_left_of_imp fun hget hsame => hid ?_).symm
      rw [← hsame]
      exact (hs.listed id no hget).2
  · rw [if_neg hlisted]
    -- the client had no entry of its own, and can have no other
    refine (and_iff_left_of_imp fun hget hsame => hlisted ?_).symm
    subst hsame
    rw [(hs.listed id no hget).2]
    exact hget

/-- A client that has left stands under no identifier. -/
theorem registered_without (hs : s.Enlisted) (client : ClientNo) (store : Recovery.Store) :
    (∀ id, (s.without client store).registered.get? id ≠ some client) ∧
      ∀ id no, (s.without client store).registered.get? id = some no →
        s.registered.get? id = some no :=
  ⟨fun _ hget => ((registered_without_iff hs client store).1 hget).2 rfl,
    fun _ _ hget => ((registered_without_iff hs client store).1 hget).1⟩

/-- A table with one entry less is as consistent. -/
theorem Enlisted.without (hs : s.Enlisted) (client : ClientNo) (store : Recovery.Store) :
    (s.without client store).Enlisted := by
  unfold Server.without
  refine enlisted_update (.recorded _ store) (by decide) ?_
  exact enlisted_chain (does_unregister (E := [.unregistered]) List.mem_cons_self client s)
    (by decide) hs

theorem StandingBut.without (hs : s.StandingBut client) (store : Recovery.Store) :
    (s.without client store).Standing := by
  obtain ⟨hleft, hbefore⟩ := registered_without hs.toEnlisted client store
  obtain ⟨registered, hwithout⟩ := s.without_eq client store
  refine ⟨hs.toEnlisted.without client store, fun id no hget => ?_⟩
  have hlives := hs.live id no (hbefore id no hget) fun hsame => hleft id (hsame ▸ hget)
  rw [hwithout]
  exact hlives

/-- A client that does not end keeps its place; one that has ended leaves the table, whether or not
the store forgets it. -/
theorem Standing.removes {id : ClientId} {attempts : List Attempt} {answer : Except Error Unit}
    (hs : s.Standing) (h : s.Removes id attempts answer t) : t.Standing := by
  cases h with
  | refused => exact hs
  | unknown => exact hs
  | kept _ _ hcourse =>
    rcases hcourse.client_cases with hchain | ⟨hok, _⟩
    · exact standing_chain hchain (by decide) hs
    · cases hok
  | removed _ _ hcourse => exact ((hs.but _).course hcourse).without _
  | unforgotten _ _ hcourse => exact ((hs.but _).course hcourse).without _

/-- Whoever is evicted has ended before he leaves the table. -/
theorem Standing.evicts {clients : List ClientNo} (hs : s.Standing) (h : Evicts clients s t) :
    t.Standing := by
  induction h with
  | nil => exact hs
  | cons hcourse store _ ih => exact ih (((hs.but _).course hcourse).without store)

/-- A sweep leaves the table right. -/
theorem Standing.sweeps (hs : s.Standing) (h : s.Sweeps t) : t.Standing := by
  cases h with
  | idle => exact hs
  | swept _ _ h => exact hs.evicts h

/-- The old client leaves the table before the new one enters it. -/
theorem Enlisted.ne_replaced (hs : s.Enlisted) {r : Registration} {old : ClientNo}
    (hold : s.registeredFor? r.owner = some old) (needReclaim : Bool) (id : ClientId) :
    ((s.unlist old).withClient r needReclaim).registered.get? id ≠ some old := by
  obtain ⟨⟨id', hget'⟩, _⟩ := registeredFor?_eq_some hold
  have hunlisted : (s.unlist old).Enlisted :=
    enlisted_update (.unregistered s _) (by decide) hs
  intro hget
  -- under the new entry stands the new client, and the old one has lost its own
  rcases registered_get?_withClient hunlisted hget with ⟨hnew, _⟩ | ⟨hbefore, _⟩
  · have hno := (hs.listed id' old hget').1
    rw [hnew] at hno
    exact Nat.lt_irrefl _ hno
  · rw [unlist, Table.get?_erase] at hbefore
    split at hbefore
    · cases hbefore
    · rename_i hne
      exact hne (hs.listed id old hbefore).2

/-- The old client ends after it has left the table. -/
theorem Standing.replaces {r : Registration} (hs : s.Standing) (h : s.Replaces r t) :
    t.Standing := by
  have hreplaced {old : ClientNo} {needReclaim : Bool} {attempts : List Attempt} {t : Server}
      (hold : s.registeredFor? r.owner = some old)
      (h : Course (.client false old) ((s.unlist old).withClient r needReclaim) attempts (.ok ()) t) :
      t.Standing := by
    have hunlisted : (s.unlist old).Standing :=
      standing_update (.unregistered s _) (by decide) hs
    have henlisted : ((s.unlist old).withClient r needReclaim).Enlisted :=
      enlisted_withClient hunlisted.toEnlisted r needReclaim
        (hs.toEnlisted.not_lists_vacated hold)
    have hmade : ((s.unlist old).withClient r needReclaim).Standing :=
      standing_of_enlisted hunlisted
        (.single (E := [.enrolled]) (by decide) (.enrolled _ r needReclaim)) (by decide) henlisted
    -- the old client may have ended, but it is in the table no more
    refine ((hmade.but old).course h).standing fun id hget => ?_
    rw [h.registered_eq] at hget
    exact hs.toEnlisted.ne_replaced hold needReclaim id hget
  cases h with
  | recorded hold h store => exact (hreplaced hold h).setStore store
  | unrecorded hold h => exact standing_update (.unregistered _ _) (by decide) (hreplaced hold h)

/-- A server with nobody in its table is wrong about nobody. -/
theorem standing_of_empty (h : s.registered = .empty) : s.Standing := by
  have hnone (id : ClientId) (no : ClientNo) : s.registered.get? id ≠ some no := by
    rw [h]
    exact nofun
  exact ⟨⟨fun id no hget => absurd hget (hnone id no), fun id no _ _ hget => absurd hget (hnone id no)⟩,
    fun id no hget => absurd hget (hnone id no)⟩

/-- Clients that only end stay where they are in the table. -/
theorem EndsEach.registered_eq {clients : List ClientNo} (h : EndsEach clients s t) :
    t.registered = s.registered := by
  induction h with
  | nil => rfl
  | cons hcourse _ ih => exact ih.trans hcourse.registered_eq

/-- A server that stops has nobody registered. -/
theorem Standing.stops (hs : s.Standing) (h : s.Stops t) : t.Standing := by
  cases h with
  | idle => exact hs
  | stopped _ _ hends store => exact standing_of_empty hends.registered_eq

/-- Every action that the server serves leaves the table right. -/
theorem standing_perform (hs : s.Standing) (hg : s.Grounded) {a : Action} (ha : a.served = true) :
    (s.perform a).Standing := by
  unfold perform
  split
  · rename_i hknown
    -- both ways to register end an old record at most
    have henrol (r : Registration) (reuse : Bool) : (s.after (enrol r reuse)).Standing := by
      rcases enrol_cases hg.descending hg.held r reuse with hreplaces | hchain
      · exact hs.replaces hreplaces
      · exact standing_of_enlisted hs hchain (by decide) (enlisted_enrol hs.toEnlisted r reuse)
    have hsweep {s : Server} (hs : s.Standing ∧ s.Grounded) :
        (s.after sweep).Standing ∧ (s.after sweep).Grounded :=
      have hsweeps := sweeps_sweep hs.2.descending hs.2.held
      ⟨hs.1.sweeps hsweeps, (keepsHappenings_grounded fun _ _ => True).endings.sweeps hsweeps hs.2⟩
    cases a with
    | register r => exact henrol r true
    | createClient r =>
      show (s.after (createClient r)).Standing
      rw [after_createClient]
      exact henrol r false
    | removeClient id =>
      obtain ⟨attempts, hremoves⟩ := removes_removeClient hg.descending hg.held id
      exact hs.removes hremoves
    | sweep => exact (hsweep ⟨hs, hg⟩).1
    | shutdown => exact hs.stops (stops_shutdown hg.descending hg.held)
    | elapse nanos =>
      -- time passes, timers fire, and nobody ends but by a sweep
      have hkept {e : Effect} (he : e ∈ [Effect.passed, .timerSet, .graceClosed, .recorded])
          {s t : Server} (h : Update e s t) (hs : s.Standing ∧ s.Grounded) :
          t.Standing ∧ t.Grounded := by
        have hall : ∀ e ∈ [Effect.passed, .timerSet, .graceClosed, .recorded],
            e ∉ [Effect.ended, .enrolled] ∧ e ∉ [Effect.stateMade, .stateAmended, .attached] := by
          decide
        exact ⟨standing_update h (hall e he).1 hs.1, grounded_update h (hall e he).2 hs.2⟩
      refine (elapse_keeps (I := fun s => s.Standing ∧ s.Grounded) (hkept (by decide))
        (hkept (by decide)) (fun _ => hsweep) ?_ nanos ⟨hs, hg⟩).1
      exact keeps_of_does (E := [.graceClosed, .recorded]) (does_endGrace (by decide) (by decide))
        fun e he => hkept (List.mem_append_right [.passed, .timerSet] he)
    -- the clients of a served run are not ended from outside
    | enter => cases ha
    | endClient => cases ha
    | endClientLeniently => cases ha
    | _ => exact standing_chain (chain_carryOut s _ hknown) (by dsimp only [Action.effects]; decide) hs
  · exact hs

/-- Whatever happens, registered clients live. -/
theorem standing_happens {P : Server → Action → Prop} (hP : ∀ s a, P s a → a.served = true)
    (hs : s.Standing) (hg : s.Grounded) (h : Happens P s t) : t.Standing := by
  -- a channel is neither an identifier, nor an owner, nor an end
  have hcalledBack (client : ClientNo) (hasCallback : Bool) :
      (s.amendClient client ({ · with hasCallback })).Standing := by
    refine ⟨⟨fun id no hget => ?_, fun id no id' no' hget hget' howner => ?_⟩, fun id no hget => ?_⟩
    · rw [client_calledBack Client.id fun _ _ => rfl]
      exact ⟨Nat.lt_of_lt_of_eq (hs.listed id no hget).1 (Ledger.size_modify ..).symm,
        (hs.listed id no hget).2⟩
    · rw [client_calledBack Client.owner fun _ _ => rfl,
        client_calledBack Client.owner fun _ _ => rfl] at howner
      exact hs.oneEach id no id' no' hget hget' howner
    · rw [client_calledBack Client.disposed fun _ _ => rfl]
      exact hs.live id no hget
  cases h with
  | performed h => exact standing_perform hs hg (hP _ _ h)
  | released h => exact standing_chain h.chain (by decide) hs
  | removed h => exact hs.removes h
  | swept h => exact hs.sweeps h
  | replaced h => exact hs.replaces h
  | stopped h => exact hs.stops h
  | passed hlater sweepDue graceDue =>
    exact standing_update (.timerSet _ sweepDue graceDue) (by decide)
      (standing_update (.passed s _ hlater) (by decide) hs)
  | observed no label refusals =>
    exact standing_update (.stateAmended s no _ fun _ => ⟨rfl, rfl, rfl⟩) (by decide) hs
  | calledBack client hasCallback => exact hcalledBack client hasCallback

/-- Every run of actions that the server serves leaves the table right. -/
theorem standing_run {P : Server → Action → Prop} (hP : ∀ s a, P s a → a.served = true)
    (hs : s.Standing) (hg : s.Grounded) (h : Run P s t) : t.Standing := by
  -- what ends a client goes by the keys of its states, so both are carried along the run
  have hboth : t.Standing ∧ t.Grounded := by
    induction h with
    | refl => exact ⟨hs, hg⟩
    | tail _ hlast ih =>
      exact ⟨standing_happens hP ih.1 ih.2 hlast, (keepsHappenings_grounded P).keeps hP hlast ih.2⟩
  exact hboth.1

theorem standing_start (timers : Bool) (config : Config) (store : Recovery.Store)
    (wall : WallTime) (now : Nat) : (start timers config store wall now).Standing := by
  obtain ⟨sweepDue, graceDue, hstart⟩ := start_eq timers config store wall now
  rw [hstart]
  exact standing_of_empty rfl

/-! ## Looking up by owner -/

/-- Looking a client up by its owner finds whom the table has for the owner. -/
theorem exec_clientByOwner (owner : Bytes) (hrunning : s.running = true) :
    (clientByOwner owner).exec s = (.ok (s.registeredFor? owner), s) := by
  unfold clientByOwner
  rw [exec_ensureRunning_bind hrunning]
  rfl

/-- The record that is found for an owner is the only one that lives in the table. -/
theorem Standing.registeredFor?_eq_some_iff (hs : s.Standing) {owner : Bytes} {no : ClientNo} :
    s.registeredFor? owner = some no ↔ (∃ id, s.registered.get? id = some no) ∧
      (s.client no).disposed = false ∧ (s.client no).owner = owner := by
  constructor
  · intro h
    obtain ⟨⟨id, hget⟩, howner⟩ := registeredFor?_eq_some h
    exact ⟨⟨id, hget⟩, hs.live id no hget, howner⟩
  · rintro ⟨⟨id, hget⟩, _, howner⟩
    cases hfound : s.registeredFor? owner with
    | none => exact absurd ⟨id, no, hget, howner⟩ (registeredFor?_eq_none_iff.1 hfound)
    | some found =>
      obtain ⟨⟨id', hget'⟩, howner'⟩ := registeredFor?_eq_some hfound
      rw [hs.oneEach id' found id no hget' hget (howner'.trans howner.symm)]

/-- After whatever happened, whatever calls of the store failed and whoever refused to be told: the
table leads to living records that bear their identifiers, one for each owner, and looking up an
owner finds that one. -/
theorem registered_clients_live {timers : Bool} {config : Config} {store : Recovery.Store}
    {wall : WallTime} {now : Nat}
    (h : Run (fun _ a => a.served = true) (start timers config store wall now) s) :
    (∀ id no, s.registered.get? id = some no →
      (s.client no).id = id ∧ (s.client no).disposed = false) ∧
    (∀ id no id' no', s.registered.get? id = some no → s.registered.get? id' = some no' →
      (s.client no).owner = (s.client no').owner → id = id' ∧ no = no') ∧
    (s.running = true → ∀ owner, ∃ found, (clientByOwner owner).exec s = (.ok found, s) ∧
      ∀ no, found = some no ↔ (∃ id, s.registered.get? id = some no) ∧
        (s.client no).disposed = false ∧ (s.client no).owner = owner) := by
  have hs : s.Standing := standing_run (fun _ _ => id) (standing_start timers config store wall now)
    (grounded_start timers config store wall now) h
  refine ⟨fun id no hget => ⟨(hs.listed id no hget).2, hs.live id no hget⟩,
    fun id no id' no' hget hget' howner => ?_, fun hrunning owner => ?_⟩
  · obtain rfl := hs.oneEach id no id' no' hget hget' howner
    exact ⟨(hs.listed id no hget).2.symm.trans (hs.listed id' no hget').2, rfl⟩
  · exact ⟨_, exec_clientByOwner owner hrunning, fun _ => hs.registeredFor?_eq_some_iff⟩

/-- A removal was stopped by an observer, a replacement was not recorded, and the next registration
of the owner was. -/
theorem registered_clients_live_after_failures :
    let opened := (start false {} (.durable (.openOn .empty)) ⟨0⟩).performAll
      [.register (.ofOwner [1]), .register (.ofOwner [2]), .nameOwner ⟨0⟩ [5] 0,
        .openFile ⟨0⟩ ⟨0⟩ ⟨[7]⟩ 1 0]
    let watched := opened.amendState ⟨0⟩ (·.owe (.notify "watcher" 1))
    let s := watched.performAll
      [.removeClient ⟨1⟩, .setFaults { store := [(.addClient, .database "unavailable")] },
        .register { Registration.ofOwner [1] with verifier := ⟨2⟩ }, .setFaults {},
        .register (.ofOwner [1])]
    (watched.perform (.removeClient ⟨1⟩)).registered.get? ⟨1⟩ = some ⟨0⟩ ∧
      s.registered.values = [⟨1⟩, ⟨3⟩] ∧ (s.client ⟨0⟩).disposed = true ∧
      ((clientByOwner [1]).exec s).1 = .ok (some ⟨3⟩) ∧ (s.client ⟨3⟩).disposed = false := by
  intro opened watched s
  have hrun : Run (fun _ a => a.served = true) (start false {} (.durable (.openOn .empty)) ⟨0⟩) s :=
    ((run_performAll fun a ha _ => by revert a; decide).tail (.observed ⟨0⟩ "watcher" 1)).trans
      (run_performAll fun a ha _ => by revert a; decide)
  obtain ⟨hlive, _, hfinds⟩ := registered_clients_live hrun
  -- the failed registration took a number, so the record that lives is the third
  have hthird : s.registered.get? (s.client ⟨3⟩).id = some ⟨3⟩ := by decide +kernel
  have hlives := (hlive _ _ hthird).2
  obtain ⟨found, hexec, hiff⟩ := hfinds (by decide +kernel) [1]
  have hfound : found = some ⟨3⟩ :=
    (hiff ⟨3⟩).2 ⟨⟨_, hthird⟩, hlives, by decide +kernel⟩
  refine ⟨by decide +kernel, by decide +kernel, by decide +kernel, ?_, hlives⟩
  rw [hexec, hfound]

end Server

end Leasehold

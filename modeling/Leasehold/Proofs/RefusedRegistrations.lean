import Mathlib.Control.Monad.Basic
import Leasehold.Proofs.Displacement
import Leasehold.Proofs.Teardown

/-!
# Proofs.RefusedRegistrations — what a refused registration leaves

A registration that is refused before it makes a record changes nothing. One that makes
a record is refused only because the store does not take the owner. The new record
leaves the table then, but the old record of the owner has left the table before it,
and has ended; and whoever stood under the new identifier has lost its place. Neither
comes back.

* `Server.refuses_cases` — how far a refused registration came;
* `Server.refused_registration_keeps_iff` — it leaves all clients as they were, unless it
  made a record for an owner that had one, or under the identifier of somebody else;
* `Server.client_lost_to_refused_registration` — an owner that loses its record, its
  state and its open to a registration that is refused.
-/

namespace Leasehold

open Request

namespace Server

variable {s t : Server} {r : Registration} {reuse : Bool} {id : ClientId} {no : ClientNo}

/-! ## Refused registrations -/

/-- A registration goes so far that a record is made for it. -/
def MakesRecord (s : Server) (r : Registration) (reuse : Bool) : Prop :=
  s.running = true ∧
    (∃ needReclaim, s.callStore .wantReclaim (·.wantReclaim r.owner) = .ok needReclaim) ∧
    ∀ old, s.registeredFor? r.owner = some old →
      (if reuse then (s.client old).serves r s.now else .ok false) = .ok false

/-- A client is registered or made, and that is refused. -/
inductive Refuses (r : Registration) (s : Server) : Bool → Server → Prop where
  | registered {e : Error} {t : Server} (h : (register r).exec s = (.error e, t)) :
      Refuses r s true t
  | created {e : Error} {t : Server} (h : (createClient r).exec s = (.error e, t)) :
      Refuses r s false t
  /-- The states of the old client end in any order, and each call may fail on its own. -/
  | unrecorded {reuse : Bool} {old : ClientNo} {needReclaim : Bool} {attempts : List Attempt}
      {t : Server} (hmakes : s.MakesRecord r reuse) (hold : s.registeredFor? r.owner = some old)
      (h : Course (.client false old) ((s.unlist old).withClient r needReclaim) attempts (.ok ()) t) :
      Refuses r s reuse (t.unlist s.clients.nextNo)

/-- All registered clients stand where they stood, and no client has more or less than it had. -/
structure SameClients (s t : Server) : Prop where
  registered : ∀ id, t.registered.get? id = s.registered.get? id
  /-- The lease is on the record, whether the client has ended, and all that is attached to it. -/
  client : ∀ no : ClientNo, no.value < s.clients.size → t.client no = s.client no
  states : t.states = s.states
  owners : t.owners = s.owners
  sessions : t.sessions = s.sessions
  opens : t.opens = s.opens
  locks : t.locks = s.locks

theorem SameClients.refl (s : Server) : s.SameClients s :=
  ⟨fun _ => rfl, fun _ _ => rfl, rfl, rfl, rfl, rfl, rfl⟩

/-- How far a refused registration came. -/
inductive Refusal (r : Registration) (s : Server) : Server → Prop where
  | alone {needReclaim : Bool} (hnone : s.registeredFor? r.owner = none) :
      Refusal r s ((s.withClient r needReclaim).unlist s.clients.nextNo)
  | replaced {t : Server} {old : ClientNo} (hold : s.registeredFor? r.owner = some old)
      (h : s.Replaces r t) : Refusal r s t

/-- A registration is refused before its record is made, and nothing has changed then, or after
that. -/
theorem enrol_refused (hg : s.Grounded) {e : Error} (h : (enrol r reuse).exec s = (.error e, t)) :
    ¬ s.MakesRecord r reuse ∧ t = s ∨ s.MakesRecord r reuse ∧ Refusal r s t := by
  rw [exec_enrol] at h
  split at h
  · rename_i hrunning
    split at h
    · rename_i hasked
      -- the store did not answer, so no record was made
      refine .inl ⟨fun ⟨_, ⟨needReclaim, hanswer⟩, _⟩ => ?_, (Prod.mk.inj h).2.symm⟩
      rw [hasked] at hanswer
      cases hanswer
    · rename_i needReclaim hasked
      split at h
      · rename_i hnone
        refine .inr ⟨⟨hrunning, ⟨needReclaim, hasked⟩, fun old hold => ?_⟩, ?_⟩
        · rw [hnone] at hold
          cases hold
        -- with nobody to replace, the store can still refuse
        · rw [exec_enrolNew] at h
          dsimp only at h
          split at h
          · cases (Prod.mk.inj h).1
          · rw [← (Prod.mk.inj h).2]
            exact .alone hnone
      · rename_i old hold
        split at h
        · rename_i hserves
          refine .inl ⟨fun ⟨_, _, hmakes⟩ => ?_, (Prod.mk.inj h).2.symm⟩
          -- the old record still serves, which is no reason to make another
          rw [hmakes old hold] at hserves
          cases hserves
        · cases (Prod.mk.inj h).1
        · rename_i hserves
          refine .inr ⟨⟨hrunning, ⟨needReclaim, hasked⟩, fun other hother => ?_⟩, ?_⟩
          · cases hold.symm.trans hother
            exact hserves
          -- the old record was replaced before the store refused
          · have hreplaces := replaces_enrolNew hg.descending hg.held hold needReclaim
            rw [after_of_exec h] at hreplaces
            exact .replaced hold hreplaces
  · rename_i hstopped
    exact .inl ⟨fun hmakes => hstopped hmakes.1, (Prod.mk.inj h).2.symm⟩

/-- A refused registration changes nothing, or it has made a record. -/
theorem refuses_cases (hg : s.Grounded) (h : s.Refuses r reuse t) :
    ¬ s.MakesRecord r reuse ∧ t = s ∨ s.MakesRecord r reuse ∧ Refusal r s t := by
  cases h with
  | registered h => exact enrol_refused hg h
  | created h =>
    rw [createClient_eq, exec_bind] at h
    rcases hexec : (enrol r false).exec s with ⟨_ | _, made⟩
    · rw [hexec] at h
      rw [← (Prod.mk.inj h).2]
      exact enrol_refused hg hexec
    · rw [hexec] at h
      cases (Prod.mk.inj h).1
  | unrecorded hmakes hold h => exact .inr ⟨hmakes, .replaced hold (.unrecorded hold h)⟩

/-! ## What is lost -/

/-- A record that came and went takes nothing with it but what stood under its identifier. -/
theorem sameClients_alone_iff (needReclaim : Bool) :
    s.SameClients ((s.withClient r needReclaim).unlist s.clients.nextNo) ↔
      s.registered.get? s.ids.next.1 = none := by
  have hid : ((s.withClient r needReclaim).client s.clients.nextNo).id = s.ids.next.1 := by
    rw [client_withClient, if_pos rfl]
    rfl
  -- the entry of the new client goes, and with it the one it may have displaced
  have hget (id : ClientId) :
      ((s.withClient r needReclaim).unlist s.clients.nextNo).registered.get? id =
        if s.ids.next.1 = id then none else s.registered.get? id := by
    rw [unlist, hid, Table.get?_erase, withClient]
    split
    · rfl
    · rename_i hne
      rw [Table.get?_insert, if_neg hne]
  constructor
  · intro hsame
    rw [← hsame.registered, hget, if_pos rfl]
  · intro hfree
    refine ⟨fun id => ?_, fun no hno => ?_, rfl, rfl, rfl, rfl, rfl⟩
    · rw [hget]
      split
      · rename_i hid
        rw [← hid, hfree]
      · rfl
    · show (s.withClient r needReclaim).client no = s.client no
      rw [client_withClient, if_neg (Ledger.ne_nextNo hno)]

/-- The old record does not come back to the table. -/
theorem registered_ne_replaced (hs : s.Enlisted) (h : s.Replaces r t)
    (hold : s.registeredFor? r.owner = some no) (id : ClientId) : t.registered.get? id ≠ some no := by
  have hgone (needReclaim : Bool) := hs.ne_replaced hold needReclaim id
  intro hget
  cases h with
  | recorded hold' h store =>
    cases hold.symm.trans hold'
    exact hgone _ (registered_get?_of_chain h.chain_ending (by decide) hget)
  | unrecorded hold' h =>
    cases hold.symm.trans hold'
    have hended := registered_get?_of_ne_enrolled (.unregistered _ _) (by decide) hget
    exact hgone _ (registered_get?_of_chain h.chain_ending (by decide) hended)

/-- The next identifier is somebody's just if a client was registered a multiple of 2^24 clients
before. -/
theorem registered_next_iff (hs : s.Enlisted) (hnumbered : s.Numbered) :
    s.registered.get? s.ids.next.1 = none ↔
      ¬ ∃ id no, s.registered.get? id = some no ∧ 0x100_0000 ∣ s.clients.size - no.value := by
  rw [Option.eq_none_iff_forall_ne_some]
  constructor
  · rintro hnone ⟨id, no, hget, hwrapped⟩
    obtain ⟨hno, hid⟩ := hs.listed id no hget
    rw [← hnumbered.next_eq_iff hno, hid] at hwrapped
    exact hnone no (hwrapped ▸ hget)
  · intro hnobody no hget
    obtain ⟨hno, hid⟩ := hs.listed _ no hget
    exact hnobody ⟨_, no, hget, (hnumbered.next_eq_iff hno).1 hid.symm⟩

/-- After every run, a client is registered or made, and that is refused. All clients are as they
were, unless a record was made and the owner of the registration had one, or the number of clients
made from some registered client to the new one is a multiple of 2^24. If a record was made, an old
one of the owner is in the table no more, and while no counter wrapped it has lost all that it
held. -/
theorem refused_registration_keeps_iff {timers : Bool} {config : Config} {store : Recovery.Store}
    {wall : WallTime} {now : Nat}
    (hrun : Run (fun _ a => a.served = true) (start timers config store wall now) s)
    (h : s.Refuses r reuse t) :
    (s.SameClients t ↔ ¬ (s.MakesRecord r reuse ∧ ∃ id no, s.registered.get? id = some no ∧
      ((s.client no).owner = r.owner ∨ 0x100_0000 ∣ s.clients.size - no.value))) ∧
    (s.MakesRecord r reuse → ∀ id no, s.registered.get? id = some no → (s.client no).owner = r.owner →
      (∀ id', t.registered.get? id' ≠ some no) ∧ (t.StatesBounded → t.TornDown no)) := by
  have hs := (keepsHappenings_established _).run (fun _ _ => id) hrun
    (established_start timers config store wall now)
  have hstanding := standing_run (fun _ _ => id) (standing_start timers config store wall now)
    (grounded_start timers config store wall now) hrun
  have henlisted := hstanding.toEnlisted
  rcases refuses_cases hs.grounded h with ⟨hrefused, rfl⟩ | ⟨hmakes, hrefusal⟩
  · exact ⟨iff_of_true (.refl t) fun h => hrefused h.1, fun h => absurd h hrefused⟩
  · cases hrefusal with
    | alone hnone =>
      -- nobody had the owner, so only who stood under the new identifier can be lost
      have hother {id : ClientId} {no : ClientNo} (hget : s.registered.get? id = some no) :
          (s.client no).owner ≠ r.owner := fun howner =>
        registeredFor?_eq_none_iff.1 hnone ⟨id, no, hget, howner⟩
      refine ⟨?_, fun _ id no hget howner => absurd howner (hother hget)⟩
      rw [sameClients_alone_iff, registered_next_iff henlisted hs.tracked.numbered]
      refine not_congr ⟨fun ⟨id, no, hget, hwrapped⟩ => ⟨hmakes, id, no, hget, .inr hwrapped⟩, ?_⟩
      rintro ⟨-, id, no, hget, hlost⟩
      exact ⟨id, no, hget, hlost.resolve_left (hother hget)⟩
    | replaced hold hreplaces =>
      obtain ⟨⟨cid, hlisted⟩, howned⟩ := registeredFor?_eq_some hold
      have hgone := registered_ne_replaced henlisted hreplaces hold
      constructor
      · refine iff_of_false (fun hsame => hgone cid ?_) fun h => h ⟨hmakes, cid, _, hlisted, .inl howned⟩
        rw [hsame.registered]
        exact hlisted
      · intro _ id no hget howner
        -- the owner has one record only
        obtain rfl := henlisted.oneEach _ _ _ _ hget hlisted (howner.trans howned.symm)
        exact ⟨hgone, hs.replaces hstanding hreplaces hold⟩

/-- The store does not take the owner of a new client; the client that is registered for another owner
is as it was, with its state and its open. -/
theorem refused_registration_keeps_others :
    let s := (start false {} (.durable (.openOn .empty)) ⟨0⟩).performAll
      [.register (.ofOwner [1]), .nameOwner ⟨0⟩ [5] 0, .openFile ⟨0⟩ ⟨0⟩ ⟨[7]⟩ 3 0,
        .setFaults { store := [(.addClient, .database "down")] }]
    let refused := (register (.ofOwner [2])).exec s
    refused.1 = .error (.recovery (.database "down")) ∧ s.registered.values = [⟨0⟩] ∧
      s.clients.size < refused.2.clients.size ∧ s.SameClients refused.2 := by
  intro s refused
  have hrun : Run (fun _ a => a.served = true) (start false {} (.durable (.openOn .empty)) ⟨0⟩) s :=
    run_performAll fun a ha _ => by revert a; decide
  have hanswer : refused.1 = .error (.recovery (.database "down")) := by decide +kernel
  have hvalues : s.registered.values = [⟨0⟩] := by decide +kernel
  have howner : (s.client ⟨0⟩).owner = [1] := by decide +kernel
  have hsize : s.clients.size = 1 := by decide +kernel
  have hmade : s.clients.size < refused.2.clients.size := by decide +kernel
  have hexec : (register (.ofOwner [2])).exec s = refused := rfl
  clear_value refused
  refine ⟨hanswer, hvalues, hmade, (refused_registration_keeps_iff hrun
    (.registered (hexec.trans (Prod.ext hanswer rfl)))).1.2 ?_⟩
  rintro ⟨-, id, no, hget, hlost⟩
  obtain rfl : no = ⟨0⟩ := List.mem_singleton.1 (hvalues ▸ Table.mem_values_iff.2 ⟨id, hget⟩)
  rcases hlost with hsame | hwrapped
  · rw [howner] at hsame
    cases hsame
  · rw [hsize] at hwrapped
    revert hwrapped
    decide

/-- An owner has a file open and registers anew with another verifier, and the store does not take it.
The registration is refused; but the owner has nothing any more, and nobody is registered for it. -/
theorem client_lost_to_refused_registration :
    let file : FileId := ⟨[7]⟩
    let s := (start false {} (.durable (.openOn .empty)) ⟨0⟩).performAll
      [.register (.ofOwner [1]), .nameOwner ⟨0⟩ [5] 0, .openFile ⟨0⟩ ⟨0⟩ file 3 0,
        .setFaults { store := [(.addClient, .database "down")] }]
    let refused := (register { Registration.ofOwner [1] with verifier := ⟨2⟩ }).exec s
    refused.1 = .error (.recovery (.database "down")) ∧
      s.registered.values = [⟨0⟩] ∧ refused.2.registered.values = [] ∧
      (s.client ⟨0⟩).disposed = false ∧ (refused.2.client ⟨0⟩).disposed = true ∧
      (s.client ⟨0⟩).states.values = [⟨0⟩] ∧ (refused.2.client ⟨0⟩).states.values = [] ∧
      (s.opens.opens file).map (·.client) = [⟨0⟩] ∧ refused.2.opens.opens file = [] := by
  decide +kernel

end Server

end Leasehold

import Leasehold.Proofs.Course
import Leasehold.Proofs.DurableRecords

/-!
# Proofs.Happening — whatever can happen to a server

An action is carried out with the calls that are set to fail when it starts. In a
happening each call may fail on its own, clients and states end in any order, the
clock moves between any two of the steps, and those who watch may be added: a
happening is an action, or one of the courses that a removal, a sweep, a
replacement, the release of a state or the end of the server can take.

* `Server.removes_removeClient`, `Server.sweeps_sweep`, `Server.enrol_cases`,
  `Server.stops_shutdown`, `Server.releases_releaseState` — what the server does by
  itself is one of the courses;
* `Server.run_performAll` — runs that are lists of actions are runs.
-/

namespace Leasehold

open Request

/-! ## Courses of requests -/

namespace Server

/-- One course of the release of a state. -/
inductive Releases (client : ClientNo) (id : StateId) (s : Server) : Server → Prop where
  | unknown (h : (s.client client).states.get? id.key = none) : Releases client id s s
  | kept {no : StateNo} {attempts : List Attempt} {e : Error} {t : Server}
      (hget : (s.client client).states.get? id.key = some no)
      (h : Course (.state true no) s attempts (.error e) t) : Releases client id s t
  | released {no : StateNo} {attempts : List Attempt} {t : Server}
      (hget : (s.client client).states.get? id.key = some no)
      (h : Course (.state true no) s attempts (.ok ()) t) :
      Releases client id s (t.amendClient client (·.detach id.key))

/-- The release of a state does no updates but those of its kinds. -/
theorem Releases.chain {client : ClientNo} {id : StateId} {s t : Server}
    (h : s.Releases client id t) : Chain Effect.releasing s t := by
  cases h with
  | unknown => exact .refl
  | kept _ h => exact h.chain
  | released _ h =>
    exact Chain.trans h.chain (.single (e := .detached) (by decide) (.client _ client _ (.detached _ _)))

/-- The server once a client has left the table, whatever became of its record in the store. -/
def without (s : Server) (client : ClientNo) (store : Recovery.Store) : Server :=
  { s.after (unregister client) with store }

/-- One course of the removal of a client, with the attempts that were made and the answer. -/
inductive Removes (id : ClientId) (s : Server) :
    List Attempt → Except Error Unit → Server → Prop where
  | refused (h : s.running = false) : Removes id s [] (.error .notRunning) s
  | unknown (hrunning : s.running = true) (h : s.registered.get? id = none) :
      Removes id s [] (.ok ()) s
  | kept {client : ClientNo} {attempts : List Attempt} {e : Error} {t : Server}
      (hrunning : s.running = true) (hget : s.registered.get? id = some client)
      (h : Course (.client true client) s attempts (.error e) t) : Removes id s attempts (.error e) t
  | removed {client : ClientNo} {attempts : List Attempt} {t : Server} {store : Recovery.Store}
      (hrunning : s.running = true) (hget : s.registered.get? id = some client)
      (h : Course (.client true client) s attempts (.ok ()) t)
      (hstore : t.store.removeClient (t.client client).owner = .ok store) :
      Removes id s attempts (.ok ()) (t.without client store)
  | unforgotten {client : ClientNo} {attempts : List Attempt} {t : Server}
      (hrunning : s.running = true) (hget : s.registered.get? id = some client)
      (h : Course (.client true client) s attempts (.ok ()) t) (e : RecoveryError) :
      Removes id s attempts (.error (.recovery e)) (t.without client t.store)

/-- Clients are evicted one after the other, whatever becomes of their records in the store. -/
inductive Evicts : List ClientNo → Server → Server → Prop where
  | nil (s : Server) : Evicts [] s s
  | cons {client : ClientNo} {rest : List ClientNo} {s t u : Server} {attempts : List Attempt}
      (h : Course (.client false client) s attempts (.ok ()) t) (store : Recovery.Store)
      (hrest : Evicts rest (t.without client store) u) :
      Evicts (client :: rest) s u

/-- One course of a sweep: the registered clients whose lease has ended are evicted. -/
inductive Sweeps (s : Server) : Server → Prop where
  | idle (h : s.running = false) : Sweeps s s
  | swept {order : List ClientNo} {t : Server} (hrunning : s.running = true)
      (horder : order.Perm (s.registered.values.filter fun no => !s.leaseValid no))
      (h : Evicts order s t) : Sweeps s t

/-- One course of a registration in which a new client takes the place of the owner's old one. -/
inductive Replaces (r : Registration) (s : Server) : Server → Prop where
  | recorded {old : ClientNo} {needReclaim : Bool} {attempts : List Attempt} {t : Server}
      (hold : s.registeredFor? r.owner = some old)
      (h : Course (.client false old) ((s.unlist old).withClient r needReclaim) attempts (.ok ()) t)
      (store : Recovery.Store) : Replaces r s { t with store }
  | unrecorded {old : ClientNo} {needReclaim : Bool} {attempts : List Attempt} {t : Server}
      (hold : s.registeredFor? r.owner = some old)
      (h : Course (.client false old) ((s.unlist old).withClient r needReclaim) attempts (.ok ()) t) :
      Replaces r s (t.unlist s.clients.nextNo)

/-- Clients are ended one after the other whatever fails. -/
inductive EndsEach : List ClientNo → Server → Server → Prop where
  | nil (s : Server) : EndsEach [] s s
  | cons {client : ClientNo} {rest : List ClientNo} {s t u : Server} {attempts : List Attempt}
      (h : Course (.client false client) s attempts (.ok ()) t) (hrest : EndsEach rest t u) :
      EndsEach (client :: rest) s u

/-- The server once it no longer serves, before its clients end. -/
def halted (s : Server) : Server :=
  { s with running := false, sweepDue := none, graceDue := none, registered := .empty }

/-- One course of the end of the server. -/
inductive Stops (s : Server) : Server → Prop where
  | idle (h : s.running = false) : Stops s s
  | stopped {order : List ClientNo} {t : Server} (hrunning : s.running = true)
      (horder : order.Perm s.registered.values) (h : EndsEach order s.halted t)
      (store : Recovery.Store) : Stops s { t with store }

variable {s : Server}

/-- Whoever leaves, only the table and the store change. -/
theorem without_eq (s : Server) (client : ClientNo) (store : Recovery.Store) :
    ∃ registered, s.without client store = { s with registered, store } := by
  unfold without
  rw [after_eq_exec, exec_unregister]
  split
  · exact ⟨_, rfl⟩
  · exact ⟨s.registered, rfl⟩

/-- Before the store is told, it is as it was. -/
theorem after_unregister_eq (s : Server) (client : ClientNo) :
    s.after (unregister client) = s.without client s.store := by
  unfold without
  rw [after_eq_exec, exec_unregister]
  split
  · rfl
  · rfl

/-- Whether or not the client was in the table, the request goes on. -/
theorem exec_unregister_bind {β : Type} (client : ClientNo) (f : Bool → Request β) (s : Server) :
    ∃ gone, (unregister client >>= f).exec s = (f gone).exec (s.after (unregister client)) := by
  rw [exec_bind, after_eq_exec, exec_unregister]
  by_cases h : s.registered.get? (s.client client).id = some client
  · rw [if_pos h]
    exact ⟨true, rfl⟩
  · rw [if_neg h]
    exact ⟨false, rfl⟩

/-- A release that is carried out is one of the courses. -/
theorem releases_releaseState (hs : s.Descending) (hheld : s.Held) (client : ClientNo)
    (id : StateId) : s.Releases client id (s.after (releaseState client id)) := by
  rw [after_eq_exec]
  unfold releaseState stateOf
  rw [exec_bind, exec_get_bind]
  cases hget : (s.client client).states.get? id.key with
  | none => exact .unknown hget
  | some no =>
    -- the state stays attached if it does not end, and is taken off if it does
    obtain ⟨attempts, hcourse⟩ := follows_endState hs (hheld client id.key no hget).1
    dsimp only
    rw [exec_pure]
    dsimp only
    rw [exec_bind]
    rcases hexec : (endState no).exec s with ⟨_ | _, t⟩
    · rw [hexec] at hcourse
      exact .kept hget hcourse
    · rw [hexec] at hcourse
      exact .released hget hcourse

/-- A removal that is carried out is one of the courses. -/
theorem removes_removeClient (hs : s.Descending) (hheld : s.Held) (id : ClientId) :
    ∃ attempts, s.Removes id attempts ((removeClient id).exec s).1 ((removeClient id).exec s).2 := by
  unfold removeClient
  rw [exec_bind, exec_ensureRunning]
  cases hrunning : s.running with
  | false => exact ⟨[], .refused hrunning⟩
  | true =>
    rw [if_pos rfl]
    dsimp only
    rw [exec_get_bind]
    cases hget : s.registered.get? id with
    | none => exact ⟨[], .unknown hrunning hget⟩
    | some client =>
      obtain ⟨attempts, hcourse⟩ := follows_endClient hs hheld client
      refine ⟨attempts, ?_⟩
      dsimp only
      rw [exec_bind]
      rcases hexec : (endClient client).exec s with ⟨_ | _, t⟩
      · rw [hexec] at hcourse
        exact .kept hrunning hget hcourse
      · rw [hexec] at hcourse
        dsimp only
        -- it leaves the table before the store is told, so that a failing call leaves it out
        obtain ⟨gone, hgone⟩ := exec_unregister_bind client (fun _ => do
          let owner := ((← get).client client).owner
          updateStore .removeClient (·.removeClient owner)) t
        obtain ⟨registered, hleft⟩ := t.without_eq client t.store
        rw [hgone, exec_get_bind, after_unregister_eq, exec_updateStore]
        cases hcall : (t.without client t.store).callStore .removeClient
            (·.removeClient ((t.without client t.store).client client).owner) with
        | error e => exact .unforgotten hrunning hget hcourse e
        | ok store =>
          refine .removed hrunning hget hcourse ?_
          have hstore := callStore_eq_ok hcall
          rw [hleft] at hstore
          exact hstore

/-- Somebody who is evicted ends leniently and leaves the table, whatever the store says. -/
theorem evicted_eq (s : Server) (client : ClientNo) :
    ∃ store, s.evicted client = (s.after (endClientLeniently client)).without client store := by
  unfold evicted without
  generalize s.after (endClientLeniently client) = ended
  dsimp only
  rw [after_eq_exec, exec_unregister]
  split
  · obtain ⟨store, hstore⟩ := (ended.unlist client).unrecord_eq (ended.client client).owner
    exact ⟨store, hstore⟩
  · exact ⟨_, rfl⟩

/-- What a server does when it evicts clients is a course of it, one client at a time. -/
theorem evicts_evict (hs : s.Descending) (hheld : s.Held) (clients : List ClientNo) :
    Evicts clients s (s.after (evict clients)) := by
  rw [after_evict]
  -- on those who are still to go, from the server that the last eviction left
  induction clients generalizing s with
  | nil => exact .nil s
  | cons client rest ih =>
    obtain ⟨attempts, hcourse⟩ := follows_endClientLeniently hs hheld client
    rw [answers_endClientLeniently client s] at hcourse
    obtain ⟨store, hevicted⟩ := s.evicted_eq client
    obtain ⟨registered, hleft⟩ := (s.after (endClientLeniently client)).without_eq client store
    rw [List.foldl_cons, hevicted]
    refine .cons hcourse store (ih ?_ ?_)
    · rw [← after_eq_exec, hleft]
      exact hcourse.descending hs trivial
    · rw [← after_eq_exec, hleft]
      exact hcourse.held hheld

/-- A sweep that is carried out is one of the courses. -/
theorem sweeps_sweep (hs : s.Descending) (hheld : s.Held) : s.Sweeps (s.after sweep) := by
  rw [after_eq_exec]
  unfold sweep
  rw [exec_get_bind]
  cases hrunning : s.running with
  | false => exact .idle hrunning
  | true => exact .swept hrunning (.refl _) (evicts_evict hs hheld _)

/-- The old client is ended once the new one stands in the table. -/
theorem replaces_enrolNew (hs : s.Descending) (hheld : s.Held) {r : Registration} {old : ClientNo}
    (hold : s.registeredFor? r.owner = some old) (needReclaim : Bool) :
    s.Replaces r ((s.unlist old).after (enrolNew r needReclaim (some old))) := by
  obtain ⟨attempts, hcourse⟩ := follows_endClientLeniently
    (s := (s.unlist old).withClient r needReclaim) hs
    (held_update (.enrolled _ r needReclaim) (by decide) hheld) old
  rw [answers_endClientLeniently old] at hcourse
  rw [after_eq_exec, exec_enrolNew]
  dsimp only
  split
  · exact .recorded hold hcourse _
  · exact .unrecorded hold hcourse

/-- A registration ends nobody, or the new client takes the place of the old one. -/
theorem enrol_cases (hs : s.Descending) (hheld : s.Held) (r : Registration) (reuse : Bool) :
    s.Replaces r (s.after (enrol r reuse)) ∨
      Chain [.enrolled, .revived, .recorded, .unregistered] s (s.after (enrol r reuse)) := by
  rw [after_eq_exec, exec_enrol]
  split
  · split
    · exact .inr .refl
    · rename_i needReclaim _
      split
      · rw [exec_enrolNew]
        have hmade : Chain [.enrolled, .revived, .recorded, .unregistered] s
            (s.withClient r needReclaim) := .single (by decide) (.enrolled s r needReclaim)
        dsimp only
        split
        -- nobody was there before; the store is told, or the client is taken out again
        · exact .inr (hmade.trans (.single (by decide) (.recorded _ _)))
        · exact .inr (hmade.trans (.single (by decide) (.unregistered _ _)))
      · rename_i old hold
        split
        · exact .inr .refl
        -- the old record is kept and revived
        · exact .inr (.single (by decide) (.client s old _ (.revived _)))
        · exact .inl (replaces_enrolNew hs hheld hold needReclaim)
  · exact .inr .refl

/-- Clients end in the order in which they are listed. -/
theorem endsEach_endClients (hs : s.Descending) (hheld : s.Held) (clients : List ClientNo) :
    EndsEach clients s (s.after (endClients clients)) := by
  induction clients generalizing s with
  | nil => exact .nil s
  | cons client rest ih =>
    obtain ⟨attempts, hcourse⟩ := follows_endClientLeniently hs hheld client
    rw [answers_endClientLeniently client s] at hcourse
    have hended := hcourse.descending hs trivial
    have hheld' := hcourse.held hheld
    rw [after_eq_exec]
    unfold endClients
    rw [exec_answers_bind (answers_endClientLeniently client)]
    exact .cons hcourse (ih hended hheld')

theorem answers_endClients (clients : List ClientNo) : Answers (endClients clients) := by
  induction clients with
  | nil => exact answers_pure
  | cons client rest ih => exact answers_bind (answers_endClientLeniently client) ih

/-- A shutdown that is carried out is one of the courses. -/
theorem stops_shutdown (hs : s.Descending) (hheld : s.Held) : s.Stops (s.after shutdown) := by
  rw [after_eq_exec]
  unfold shutdown
  rw [exec_get_bind]
  cases hrunning : s.running with
  | false => exact .idle hrunning
  | true =>
    have hends := endsEach_endClients (s := s.halted) hs hheld s.registered.values
    rw [if_pos rfl, exec_bind, exec_set]
    dsimp only
    rw [exec_answers_bind (answers_endClients _), exec_updateStore]
    split
    · exact .stopped hrunning (.refl _) hends _
    · exact .stopped hrunning (.refl _) hends _

end Server

/-! ## Happenings -/

/-- Whether the action goes through the registry, the tracker of opens or the lock service, and not
past them to the end of a client or into the ledger. -/
def Action.served : Action → Bool
  | .enter .. | .endClient _ | .endClientLeniently _ => false
  | _ => true

namespace Server

/-- Whatever can happen to a server on which certain actions are carried out. -/
inductive Happens (P : Server → Action → Prop) (s : Server) : Server → Prop where
  /-- The action runs with the calls that are set to fail, which it may set itself. -/
  | performed {a : Action} (h : P s a) : Happens P s (s.perform a)
  | released {client : ClientNo} {id : StateId} {t : Server} (h : s.Releases client id t) :
      Happens P s t
  | removed {id : ClientId} {attempts : List Attempt} {answer : Except Error Unit} {t : Server}
      (h : s.Removes id attempts answer t) : Happens P s t
  | swept {t : Server} (h : s.Sweeps t) : Happens P s t
  | replaced {r : Registration} {t : Server} (h : s.Replaces r t) : Happens P s t
  | stopped {t : Server} (h : s.Stops t) : Happens P s t
  /-- Time passes up to a reading of the clock, and timers are set. -/
  | passed {later : Nat} (h : s.now ≤ later) (sweepDue graceDue : Option Nat) :
      Happens P s { s.passTo later with sweepDue, graceDue }
  /-- Somebody comes to watch for the end of a state, and refuses so many times. -/
  | observed (no : StateNo) (label : String) (refusals : Nat) :
      Happens P s (s.amendState no (·.owe (.notify label refusals)))
  | calledBack (client : ClientNo) (hasCallback : Bool) :
      Happens P s (s.amendClient client ({ · with hasCallback }))

/-- Whatever can become of a server on which certain actions are carried out. -/
def Run (P : Server → Action → Prop) : Server → Server → Prop :=
  Relation.ReflTransGen (Happens P)

/-- Runs that are lists of actions are among them, if each action is allowed when its turn comes. -/
theorem run_performAll_of_steps {P : Server → Action → Prop} {actions : List Action} {s : Server}
    (h : ∀ i (hi : i < actions.length), P (s.performAll (actions.take i)) actions[i]) :
    Run P s (s.performAll actions) := by
  induction actions generalizing s with
  | nil => exact .refl
  | cons a rest ih =>
    refine .head (.performed (h 0 (Nat.zero_lt_succ _))) (ih fun i hi => ?_)
    exact h (i + 1) (Nat.succ_lt_succ hi)

/-- Actions that are always allowed make a run. -/
theorem run_performAll {P : Server → Action → Prop} {actions : List Action} {s : Server}
    (h : ∀ a ∈ actions, ∀ s, P s a) : Run P s (s.performAll actions) :=
  run_performAll_of_steps fun _ hi => h _ (List.getElem_mem hi) _

end Server

end Leasehold

import Mathlib.Control.Monad.Basic
import Leasehold.Proofs.ReclaimRights

/-!
# Proofs.FailedReclaims — a reclaim that fails is final

A client says once that it has reclaimed what it held. Its record is marked first;
then the store is told, and then the store is asked who is still to come. If one of
the two calls fails the mark stays, and no later call gets past it: the store may go
on waiting for a client that can never say again that it is done.

* `Server.completed_carryAll` — whatever happens, a client that has completed stays
  so;
* `Server.failed_reclaim_final` — a failed call leaves everything as it was exactly if
  it was refused before it began, and is refused ever after;
* `Server.awaited_after_retry` — so the window stays open once the store is healthy.
-/

namespace Leasehold

open Request

namespace Server

variable {s t : Server} {e : Effect} {client : ClientNo}

/-! ## What stays -/

/-- A client was made and has said that it has reclaimed what it held. -/
structure Completed (client : ClientNo) (s : Server) : Prop where
  made : client.value < s.clients.size
  completed : (s.client client).reclaimCompleted = true

/-- Nothing takes back that a client has reclaimed. -/
theorem completed_update (h : Update e s t) (hs : s.Completed client) : t.Completed client := by
  refine ⟨Nat.lt_of_lt_of_le hs.made h.clients_size_le, ?_⟩
  rcases h.reclaiming hs.made with ⟨_, hsame⟩ | ⟨_, _, hcompleted⟩
  · rw [hsame]
    exact hs.completed
  · exact hcompleted

/-- After every run of deeds, it has still reclaimed. -/
theorem completed_carryAll (hs : s.Completed client) (deeds : List Deed) :
    (s.carryAll deeds).Completed client :=
  carryAll_keeps (fun d _ {t} ht => (chain_carry t d).preserve (fun _ => completed_update) ht) hs

/-- A server that has stopped does not run again, whatever becomes of it. -/
theorem running_of_running_carryAll {deeds : List Deed} (h : (s.carryAll deeds).running = true) :
    s.running = true := by
  refine carryAll_keeps (I := fun t => t.running = true → s.running = true) (fun d _ {t} ht => ?_)
    id h
  exact (chain_carry t d).preserve (I := fun u => u.running = true → s.running = true)
    (fun _ hupdate hu hrunning => hu (hupdate.running_of_running hrunning)) ht

/-! ## What a failure leaves -/

/-- What a client may still reclaim is as it was, and so is who is waited for. -/
structure SameReclaim (client : ClientNo) (s t : Server) : Prop where
  needReclaim : (t.client client).needReclaim = (s.client client).needReclaim
  reclaimCompleted : (t.client client).reclaimCompleted = (s.client client).reclaimCompleted
  recovering : t.store.tables.recovering = s.store.tables.recovering

/-- A client counts as done; the store was not told, or it was told and did not say who is still to
come. -/
structure HalfReclaimed (client : ClientNo) (s t : Server) : Prop where
  needReclaim : (t.client client).needReclaim = false
  completed : t.Completed client
  store : t.store = s.store ∨ t.store.tables = s.store.tables.reclaim (s.client client).owner

theorem SameReclaim.refl (client : ClientNo) (s : Server) : SameReclaim client s s := ⟨rfl, rfl, rfl⟩

/-- A reclaim marks the record of its client and no other. -/
theorem client_of_completeReclaim {c : Client} (hmade : client.value < s.clients.size)
    (hcomplete : (s.client client).completeReclaim = .ok c) :
    let marked := s.amendClient client fun _ => c
    (s.client client).reclaimCompleted = false ∧ (marked.client client).needReclaim = false ∧
      marked.Completed client := by
  have hclient : (s.amendClient client fun _ => c).client client = c := by
    rw [client_amendClient, if_pos ⟨rfl, hmade⟩]
  have hsize : client.value < (s.amendClient client fun _ => c).clients.size :=
    Nat.lt_of_lt_of_eq hmade (Ledger.size_modify ..).symm
  unfold Client.completeReclaim at hcomplete
  split at hcomplete
  · cases hcomplete
  · rename_i hbefore
    injection hcomplete with hc
    refine ⟨Bool.eq_false_iff.2 hbefore, ?_, hsize, ?_⟩
    · rw [hclient, ← hc]
    · rw [hclient, ← hc]

/-- A call that fails was refused before it began, or stopped halfway. -/
theorem failed_reclaim_cases (hmade : client.value < s.clients.size) {err : Error}
    (hexec : (reclaimComplete client).exec s = (.error err, t)) :
    t = s ∧ (s.running = false ∨ s.Completed client) ∨
      s.running = true ∧ (s.client client).reclaimCompleted = false ∧ HalfReclaimed client s t := by
  rw [exec_reclaimComplete] at hexec
  split at hexec
  · rename_i hrunning
    split at hexec
    · rename_i hcomplete
      unfold Client.completeReclaim at hcomplete
      split at hcomplete
      · rename_i hcompleted
        -- refused before anything is marked
        exact .inl ⟨(Prod.mk.inj hexec).2.symm, .inr ⟨hmade, hcompleted⟩⟩
      · cases hcomplete
    · rename_i c hcomplete
      -- the record is marked by now; either of the two calls that follow may fail
      obtain ⟨hbefore, hneeds, hcompleted⟩ := client_of_completeReclaim hmade hcomplete
      refine .inr ⟨hrunning, hbefore, ?_⟩
      dsimp only at hexec
      split at hexec
      · rw [← (Prod.mk.inj hexec).2]
        exact ⟨hneeds, hcompleted, .inl rfl⟩
      · rename_i store hcall
        split at hexec
        · rw [← (Prod.mk.inj hexec).2]
          have hstore := Recovery.Store.tables_of_ok (s.store.map_tables_reclaimClient _)
            (callStore_eq_ok hcall)
          exact ⟨hneeds, ⟨hcompleted.made, hcompleted.completed⟩, .inr hstore.2⟩
        · cases hexec
  · rename_i hrunning
    exact .inl ⟨(Prod.mk.inj hexec).2.symm, .inl (Bool.eq_false_iff.2 hrunning)⟩

/-- A client that has completed is refused, and a stopped server refuses everybody. -/
theorem exec_reclaimComplete_of_settled (h : s.running = false ∨ s.Completed client) :
    (reclaimComplete client).exec s =
      (.error (if s.running then .completeAlready else .notRunning), s) := by
  rw [exec_reclaimComplete]
  by_cases hrunning : s.running = true
  · have hcompleted : (s.client client).reclaimCompleted = true := by
      rcases h with hstopped | hs
      · rw [hrunning] at hstopped
        cases hstopped
      · exact hs.completed
    unfold Client.completeReclaim
    rw [if_pos hrunning, if_pos hrunning, if_pos hcompleted]
  · rw [if_neg hrunning, if_neg hrunning]

/-- A call that fails leaves what the client may reclaim and who is waited for as they were exactly
if the server had stopped or the client had completed before, and then it leaves everything. If not,
the client counts as done, and so every later call of it is refused, whatever becomes of the store
meanwhile. -/
theorem failed_reclaim_final (hmade : client.value < s.clients.size) {err : Error}
    (hexec : (reclaimComplete client).exec s = (.error err, t)) :
    (SameReclaim client s t ↔ s.running = false ∨ s.Completed client) ∧
    (SameReclaim client s t → t = s) ∧
    (¬ SameReclaim client s t → HalfReclaimed client s t) ∧
    ∀ deeds, let u := t.carryAll deeds
      (reclaimComplete client).exec u =
        (.error (if u.running then .completeAlready else .notRunning), u) := by
  have hcases := failed_reclaim_cases hmade hexec
  -- neither a mark nor a stop is ever undone
  have hlater (deeds : List Deed) (h : t.running = false ∨ t.Completed client) :
      (t.carryAll deeds).running = false ∨ (t.carryAll deeds).Completed client := by
    refine h.imp (fun hstopped => ?_) fun hcompleted => completed_carryAll hcompleted deeds
    refine Bool.eq_false_iff.2 fun hrunning => ?_
    rw [running_of_running_carryAll hrunning] at hstopped
    cases hstopped
  rcases hcases with ⟨rfl, hsettled⟩ | ⟨hrunning, hbefore, hhalf⟩
  · refine ⟨iff_of_true (.refl client t) hsettled, fun _ => rfl,
      fun hchanged => absurd (.refl client t) hchanged, fun deeds => ?_⟩
    exact exec_reclaimComplete_of_settled (hlater deeds hsettled)
  -- the mark tells the two servers apart
  · have hchanged : ¬ SameReclaim client s t := by
      intro hsame
      have hcompleted := hsame.reclaimCompleted
      rw [hhalf.completed.completed, hbefore] at hcompleted
      cases hcompleted
    refine ⟨iff_of_false hchanged ?_, fun hsame => absurd hsame hchanged, fun _ => hhalf,
      fun deeds => exec_reclaimComplete_of_settled (hlater deeds (.inr hhalf.completed))⟩
    rintro (hstopped | hcompleted)
    · rw [hrunning] at hstopped
      cases hstopped
    · rw [hcompleted.completed] at hbefore
      cases hbefore

/-- A client came back after a restart, and the store fails when it is told so. -/
theorem failed_reclaim_final_after_restart :
    let first := (start false {} (.durable (.openOn .empty)) ⟨0⟩).perform (.register (.ofOwner [1]))
    let s := ((first.stop true).successor {} false).performAll [.register (.ofOwner [1]),
      .setFaults { store := [(.reclaimClient, .database "down")] }]
    let failed := (reclaimComplete ⟨0⟩).exec s
    failed.1 = .error (.recovery (.database "down")) ∧ ¬ SameReclaim ⟨0⟩ s failed.2 ∧
      ((reclaimComplete ⟨0⟩).exec (failed.2.carryAll [.act (.setFaults {})])).1 =
        .error .completeAlready := by
  intro first s failed
  have hmade : (⟨0⟩ : ClientNo).value < s.clients.size := by decide +kernel
  have hfails : failed.1 = .error (.recovery (.database "down")) := by decide +kernel
  have hrunning : s.running = true := by decide +kernel
  have hbefore : (s.client ⟨0⟩).reclaimCompleted = false := by decide +kernel
  have hlater : (failed.2.carryAll [.act (.setFaults {})]).running = true := by decide +kernel
  obtain ⟨hiff, _, _, hrefused⟩ := failed_reclaim_final (t := failed.2) hmade
    (show (reclaimComplete ⟨0⟩).exec s = _ from Prod.ext hfails rfl)
  refine ⟨hfails, fun hsame => ?_, ?_⟩
  · rcases hiff.1 hsame with hstopped | hcompleted
    · rw [hrunning] at hstopped
      cases hstopped
    · rw [hcompleted.completed] at hbefore
      cases hbefore
  · rw [hrefused [.act (.setFaults {})], if_pos hlater]

/-- The store failed once; it is healthy again, and waits for a client that may not say any more
that it has come back. -/
theorem awaited_after_retry :
    let first := (start false {} (.durable (.openOn .empty)) ⟨0⟩).perform (.register (.ofOwner [1]))
    let s := ((first.stop true).successor {} false).performAll [.register (.ofOwner [1]),
      .setFaults { store := [(.reclaimClient, .database "down")] }]
    let failed := (reclaimComplete ⟨0⟩).exec s
    let healed := failed.2.perform (.setFaults {})
    let retried := (reclaimComplete ⟨0⟩).exec healed
    failed.1 = .error (.recovery (.database "down")) ∧
      (s.client ⟨0⟩).needReclaim = true ∧ (failed.2.client ⟨0⟩).needReclaim = false ∧
      (s.client ⟨0⟩).reclaimCompleted = false ∧ (failed.2.client ⟨0⟩).reclaimCompleted = true ∧
      retried.1 = .error .completeAlready ∧ (inGrace.exec retried.2).1 = .ok true := by
  decide +kernel

end Server

end Leasehold

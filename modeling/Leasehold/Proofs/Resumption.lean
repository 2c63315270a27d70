import Leasehold.Proofs.Attachment
import Leasehold.Proofs.ClientTable
import Leasehold.Proofs.Removal

/-!
# Proofs.Resumption — a removal that fails can be asked for again

A removal that stopped at a failure is asked for again until it answers. Each one goes
on where the last one stopped: what was completed by all of them and what is still owed
make up what was owed in the beginning (`Server.Resumes`), until the client has gone
(`Server.Gone`).

* `Server.Removable.removesAll` — after any sequence of removals the client is there
  with what is left, or has gone;
* `Server.removal_resumes` — nothing is done twice, and nothing is lost;
* `Server.removable_of_run` — registered clients are removed in this way after every
  run in which no counter wraps, if no parent among their states is derived.
-/

namespace Leasehold

/-! ## Sequences of removals -/

namespace Server

open Request

variable {s t u : Server} {id : ClientId} {client : ClientNo} {attempts more : List Attempt}
  {answer : Except Error Unit}

/-- A removal is asked for again and again, and the store never fails. -/
inductive RemovesAll (id : ClientId) (s : Server) : List Attempt → Server → Prop where
  | none : RemovesAll id s [] s
  | again {t u : Server} {attempts more : List Attempt} {answer : Except Error Unit}
      (h : RemovesAll id s attempts t) (hlast : t.Removes id more answer u)
      (hstore : ∀ e, answer ≠ .error (.recovery e)) : RemovesAll id s (attempts ++ more) u

/-- The client has gone with all that it held. -/
structure Gone (id : ClientId) (client : ClientNo) (s : Server) (attempts : List Attempt)
    (t : Server) : Prop where
  running : t.running = true
  unlisted : t.registered.get? id = none
  unheld : ∀ no, ¬ t.Holds client no
  account : ∀ no, completed no attempts ++ t.left no = s.left no
  nothing : ∀ no, s.Holds client no → t.left no = []
  inTurn : ∀ a ∈ attempts, a.InTurn client

/-- The client's own place in the table becomes free. -/
theorem registered_without_of_listed (h : s.registered.get? (s.client client).id = some client)
    (store : Recovery.Store) :
    (s.without client store).registered = s.registered.erase (s.client client).id := by
  unfold without
  rw [after_eq_exec, exec_unregister, if_pos h]
  rfl

/-- A removal stops at a failure and has kept account, or the client has gone. -/
theorem Removable.removes (hs : s.Removable id client) (h : s.Removes id attempts answer t)
    (hstore : ∀ e, answer ≠ .error (.recovery e)) :
    (∃ e, answer = .error e ∧ Resumes client s attempts t) ∨
      answer = .ok () ∧ Gone id client s attempts t := by
  cases h with
  | refused hstopped =>
    rw [hs.running] at hstopped
    cases hstopped
  | unknown _ hnone =>
    rw [hs.listed] at hnone
    cases hnone
  | kept _ hget hcourse =>
    obtain rfl : client = _ := Option.some.inj (hs.listed.symm.trans hget)
    -- the end of the client failed, so it stays registered and the next attempt resumes
    rcases hcourse.resumes_client hs with hfailed | ⟨hok, _⟩
    · exact .inl hfailed
    · cases hok
  | unforgotten _ _ _ e => exact absurd rfl (hstore e)
  | @removed _ _ ended store _ hget hcourse _ =>
    obtain rfl : client = _ := Option.some.inj (hs.listed.symm.trans hget)
    rcases hcourse.resumes_client hs with ⟨e, hfailed, _⟩ | ⟨_, u, hresumes, hnone, rfl⟩
    · cases hfailed
    -- all states are gone, and what is left is to mark the client and forget it
    have hu := hs.resumed hresumes
    have hfinished : (u.amendClient client .finish).client client = (u.client client).finish := by
      rw [client_amendClient, if_pos ⟨rfl, hu.made⟩]
    have hid : ((u.amendClient client .finish).client client).id = id := by
      rw [hfinished]
      exact hu.own
    have hlisted : (u.amendClient client .finish).registered.get?
        ((u.amendClient client .finish).client client).id = some client := by
      rw [hid]
      exact hu.listed
    have hregistered := registered_without_of_listed hlisted store
    obtain ⟨registered, hwithout⟩ := (u.amendClient client .finish).without_eq client store
    refine .inr ⟨rfl, ?_⟩
    constructor
    case running =>
      rw [hwithout]
      exact hu.running
    case unlisted =>
      rw [hregistered, hid, Table.get?_erase, if_pos rfl]
    case unheld =>
      rintro no ⟨key, hget⟩
      rw [hwithout] at hget
      change ((u.amendClient client .finish).client client).states.get? key = some no at hget
      rw [hfinished] at hget
      exact hnone no ⟨key, hget⟩
    case account =>
      rw [hwithout]
      exact hresumes.account
    case nothing =>
      intro no hholds
      rw [hwithout]
      refine hresumes.nothing no hholds ?_
      cases hdisposed : (u.state no).disposed with
      | true => rfl
      | false =>
        obtain ⟨key, hget⟩ := hholds
        exact absurd ⟨key, (hresumes.attached key no).2 ⟨hget, hdisposed⟩⟩ (hnone no)
    case inTurn => exact hresumes.inTurn

/-- What a removal did before it stopped counts for the whole. -/
theorem Resumes.gone (h : Resumes client s attempts t) (h' : Gone id client t more u) :
    Gone id client s (attempts ++ more) u where
  running := h'.running
  unlisted := h'.unlisted
  unheld := h'.unheld
  account no := by
    rw [completed_append, List.append_assoc, h'.account, h.account]
  nothing no hholds := by
    cases hbefore : (t.state no).disposed with
    | false =>
      obtain ⟨key, hget⟩ := hholds
      exact h'.nothing no ⟨key, (h.attached key no).2 ⟨hget, hbefore⟩⟩
    | true =>
      -- the state ended in the first part, so nothing of it was left for the second
      have haccount := h'.account no
      rw [h.nothing no hholds hbefore] at haccount
      exact (List.append_eq_nil_iff.1 haccount).2
  inTurn a ha := (List.mem_append.1 ha).elim (h.inTurn a) (h'.inTurn a)

/-- Who has gone is not known any more. -/
theorem Gone.removes (hs : Gone id client s attempts t) (h : t.Removes id more answer u) :
    answer = .ok () ∧ more = [] ∧ u = t := by
  have hnone {client : ClientNo} (hget : t.registered.get? id = some client) : False := by
    rw [hs.unlisted] at hget
    cases hget
  cases h with
  | refused hstopped =>
    rw [hs.running] at hstopped
    cases hstopped
  | unknown => exact ⟨rfl, rfl, rfl⟩
  | kept _ hget => exact (hnone hget).elim
  | removed _ hget => exact (hnone hget).elim
  | unforgotten _ hget => exact (hnone hget).elim

/-- After any sequence of removals the account is right, and the client is there or has gone. -/
theorem Removable.removesAll (hs : s.Removable id client) (h : s.RemovesAll id attempts t) :
    Resumes client s attempts t ∨ Gone id client s attempts t := by
  induction h with
  | none => exact .inl hs.resumes_refl
  | @again t u attempts more answer _ hlast hstore ih =>
    rcases ih with hresumes | hgone
    · rcases (hs.resumed hresumes).removes hlast hstore with ⟨_, _, hmore⟩ | ⟨_, hmore⟩
      · exact .inl (hresumes.trans hmore)
      · exact .inr (hresumes.gone hmore)
    · obtain ⟨_, rfl, rfl⟩ := hgone.removes hlast
      rw [List.append_nil]
      exact .inr hgone

/-- Removals of a registered client, whatever steps fail and in whatever order states of one rank
end: what was completed of the steps of a state, in their order, and what is left make up what was
owed in the beginning; no state that is not derived is worked on while a derived one is attached; a
failing removal leaves the client with exactly the states that have not ended; and after a removal
that answers, every step was completed once and nothing is attached. -/
theorem removal_resumes (hs : s.Removable id client) (hbefore : s.RemovesAll id attempts t)
    (hlast : t.Removes id more answer u) (hstore : ∀ e, answer ≠ .error (.recovery e)) :
    (∀ no, s.Holds client no → completed no (attempts ++ more) ++ u.left no = s.left no) ∧
    (∀ a ∈ attempts ++ more, (a.before.state a.state).isDerived = false →
      ∀ other, a.before.Holds client other → (a.before.state other).isDerived = false) ∧
    (∀ e, answer = .error e → u.registered.get? id = some client ∧
      (u.client client).disposed = false ∧ (u.client client).sessions = (s.client client).sessions ∧
      (u.client client).owners = (s.client client).owners ∧
      u.sessions = s.sessions ∧ u.owners = s.owners ∧
      ∀ key no, (u.client client).states.get? key = some no ↔
        (s.client client).states.get? key = some no ∧ (u.state no).disposed = false) ∧
    (answer = .ok () → (∀ no, ¬ u.Holds client no) ∧
      ∀ no, s.Holds client no → completed no (attempts ++ more) = s.left no) := by
  -- the attempts before the last are taken together; the client is still there after them or gone
  have hall : (Resumes client s (attempts ++ more) u ∧ ∃ e, answer = .error e) ∨
      Gone id client s (attempts ++ more) u ∧ answer = .ok () := by
    rcases hs.removesAll hbefore with hresumes | hgone
    · rcases (hs.resumed hresumes).removes hlast hstore with ⟨e, herror, hmore⟩ | ⟨hok, hmore⟩
      · exact .inl ⟨hresumes.trans hmore, e, herror⟩
      · exact .inr ⟨hresumes.gone hmore, hok⟩
    · obtain ⟨hok, rfl, rfl⟩ := hgone.removes hlast
      rw [List.append_nil]
      exact .inr ⟨hgone, hok⟩
  rcases hall with ⟨hresumes, e, rfl⟩ | ⟨hgone, rfl⟩
  · have hafter := hs.resumed hresumes
    obtain ⟨states, hrecord⟩ := hresumes.steady.record
    refine ⟨fun no _ => hresumes.account no, hresumes.inTurn, fun _ _ => ⟨hafter.listed, hafter.lives,
      ?_, ?_, hresumes.steady.sessions, hresumes.steady.owners, hresumes.attached⟩, nofun⟩
    · rw [hrecord]
    · rw [hrecord]
  · refine ⟨fun no _ => hgone.account no, hgone.inTurn, nofun, fun _ => ⟨hgone.unheld,
      fun no hholds => ?_⟩⟩
    have haccount := hgone.account no
    rw [hgone.nothing no hholds, List.append_nil] at haccount
    exact haccount

/-- After whatever happened while no counter wrapped, a registered client can be removed piece by
piece, if no parent among its states is derived itself. -/
theorem removable_of_run {timers : Bool} {config : Config} {store : Recovery.Store}
    {wall : WallTime} {now : Nat}
    (hrun : Run (fun _ a => a.served = true) (start timers config store wall now) s)
    (hbound : s.StatesBounded) (hrunning : s.running = true)
    (hlisted : s.registered.get? id = some client)
    (hparents : ∀ no parent, s.Holds client no → (s.state no).parent = some parent →
      (s.state parent).parent = none) : s.Removable id client := by
  have hs := (keepsHappenings_anchored _).run (fun _ _ h => h) hrun
    (anchored_start timers config store wall now)
  have hstanding := standing_run (fun _ _ h => h) (standing_start timers config store wall now)
    (grounded_start timers config store wall now) hrun
  have ht := hs.traced hbound
  have hattached := hs.attached hbound
  have hlives {no : StateNo} {key : StateKey} (hget : (s.client client).states.get? key = some no) :
      (s.state no).disposed = false := by
    cases hdisposed : (s.state no).disposed with
    | false => rfl
    | true => cases hattached.live client key no hget hdisposed
  obtain ⟨hmade, hid⟩ := hstanding.listed id client hlisted
  refine ⟨hrunning, hlisted, hid, hmade, hstanding.live id client hlisted, fun key no hget => ?_,
    hparents, fun no younger x hholds hmem => ?_⟩
  · obtain ⟨hno, hkey, _⟩ := ht.held client key no hget
    exact ⟨hno, hkey, hlives hget⟩
  · obtain ⟨key, hget⟩ := hholds
    obtain ⟨_, hkey, hmine⟩ := ht.held client key no hget
    obtain ⟨hparent, hyounger, hsame, _⟩ := hs.derives no _ hmem
    cases hdisposed : (s.state younger).disposed with
    | false =>
      -- it is in the table of some client, and that is this one
      obtain ⟨c, hheld⟩ := hattached.held younger hyounger hdisposed
      obtain ⟨_, _, hc⟩ := ht.held c _ younger hheld
      have hown : c = client := by
        refine ht.client_ext (lt_of_states_get? hheld) hmade ?_
        rw [← hc, hsame, hkey, hmine]
      rw [hown] at hheld
      exact .inl ⟨⟨_, hheld⟩, hparent⟩
    | true =>
      refine .inr ⟨rfl, Option.eq_none_iff_forall_ne_some.2 fun other hheld => ?_⟩
      -- what stands under its key would be the state itself
      obtain ⟨hother, hotherKey, _⟩ := ht.held client _ other hheld
      obtain rfl := ht.key_ext hother hyounger hotherKey
      rw [hlives hheld] at hdisposed
      cases hdisposed

/-- The removal of a client that lives, once it is known in which order its states end. -/
theorem exec_removeClient_inOrder {order : List StateNo} (hs : s.Removable id client)
    (horder : s.endingOrder client = order) :
    (removeClient id).exec s = (do
      endStatesOf client order
      modify (Server.amendClient client .finish)
      let _ ← unregister client
      let owner := ((← get).client client).owner
      updateStore .removeClient (·.removeClient owner) : Request Unit).exec s := by
  have hend : (endClient client).exec s = (do
      endStatesOf client order
      modify (Server.amendClient client .finish) : Request Unit).exec s := by
    unfold endClient
    rw [exec_get_bind, hs.lives, horder]
    rfl
  unfold removeClient
  rw [exec_ensureRunning_bind hs.running, exec_get_bind, hs.listed]
  dsimp only
  rw [exec_bind, hend, exec_bind, exec_bind]
  rcases (endStatesOf client order).exec s with ⟨_ | _, t⟩
  · rfl
  · rfl

/-- A removal is refused by somebody who watches the lock state of an open, and asked for again. -/
theorem removal_resumes_after_refusal :
    let file : FileId := ⟨[7]⟩
    let holder : LockOwner := ⟨⟨1⟩, [6]⟩
    let locked := (start false {} (.durable (.openOn .empty)) ⟨0⟩).performAll
      [.register (.ofOwner [1]), .nameOwner ⟨0⟩ [5] 0, .openFile ⟨0⟩ ⟨0⟩ file 3 0,
        .lock ⟨0⟩ file ⟨.write, 0, 10⟩ false (.newOwner (.ofParts ⟨1⟩ 1 .share) 0 [6] 0)]
    let s := (locked.amendState ⟨1⟩ (·.owe (.notify "lock" 1))).amendState ⟨0⟩
      (·.owe (.notify "open" 0))
    let t := s.after (removeClient ⟨1⟩)
    let u := t.after (removeClient ⟨1⟩)
    ∃ attempts more, s.Removes ⟨1⟩ attempts (.error (.serverFault "lock")) t ∧
      t.Removes ⟨1⟩ more (.ok ()) u ∧ (t.client ⟨0⟩).disposed = false ∧ t.Holds ⟨0⟩ ⟨0⟩ ∧
      t.Holds ⟨0⟩ ⟨1⟩ ∧ (∀ no, ¬ u.Holds ⟨0⟩ no) ∧
      completed ⟨1⟩ (attempts ++ more) = [.unlockAll file holder, .notify "lock" 0] ∧
      completed ⟨0⟩ (attempts ++ more) =
        [.forgetOpen file, .endDerived ⟨1⟩ ⟨0⟩, .notify "open" 0] := by
  intro file holder locked s t u
  have hrun : Run (fun _ a => a.served = true) (start false {} (.durable (.openOn .empty)) ⟨0⟩) s :=
    ((run_performAll fun a ha _ => by revert a; decide).tail (.observed ⟨1⟩ "lock" 1)).tail
      (.observed ⟨0⟩ "open" 0)
  have hs := (keepsHappenings_grounded _).run (fun _ _ => id) hrun
    (grounded_start false {} (.durable (.openOn .empty)) ⟨0⟩ 0)
  -- the two states of the client, and what they owe
  have hvalues : (s.client ⟨0⟩).states.values = [⟨0⟩, ⟨1⟩] := by decide +kernel
  have hopen : (s.state ⟨0⟩).owed = [.forgetOpen file, .endDerived ⟨1⟩ ⟨0⟩, .notify "open" 0] := by
    decide +kernel
  have hlock : (s.state ⟨1⟩).owed = [.unlockAll file holder, .notify "lock" 1] := by
    decide +kernel
  have hremovable : s.Removable ⟨1⟩ ⟨0⟩ := by
    refine removable_of_run hrun (.of_size (by decide +kernel) (by decide +kernel))
      (by decide +kernel) (by decide +kernel) fun no parent hholds hparent => ?_
    have hroot : (s.state ⟨0⟩).parent = none := by decide +kernel
    have hderived : (s.state ⟨1⟩).parent = some ⟨0⟩ := by decide +kernel
    have hmem := Table.mem_values_iff.2 hholds
    rw [hvalues, List.mem_cons, List.mem_singleton] at hmem
    rcases hmem with rfl | rfl
    · rw [hroot] at hparent
      cases hparent
    · rw [← Option.some.inj (hderived.symm.trans hparent)]
      exact hroot
  -- the first removal is refused
  have horder : s.endingOrder ⟨0⟩ = [⟨1⟩, ⟨0⟩] := by
    unfold endingOrder
    rw [List.mergeSort_of_pairwise (by decide +kernel)]
    decide +kernel
  have hfirst := exec_removeClient_inOrder hremovable horder
  have hrefused : ((removeClient ⟨1⟩).exec s).1 = .error (.serverFault "lock") := by
    rw [hfirst]
    decide +kernel
  obtain ⟨attempts, hfailing⟩ := removes_removeClient hs.descending hs.held ⟨1⟩
  rw [hrefused] at hfailing
  have ht : t.Grounded := (keepsHappenings_grounded fun _ _ => True).endings.removes hfailing hs
  obtain ⟨_, _, hkept, _⟩ := removal_resumes hremovable .none hfailing nofun
  obtain ⟨_, hlives, _, _, _, _, hattached⟩ := hkept _ rfl
  -- the second one is not
  have hremovable' : t.Removable ⟨1⟩ ⟨0⟩ := by
    rcases hremovable.removes hfailing nofun with ⟨_, _, hresumes⟩ | ⟨hok, _⟩
    · exact hremovable.resumed hresumes
    · cases hok
  have horder' : t.endingOrder ⟨0⟩ = [⟨1⟩, ⟨0⟩] := by
    show ((removeClient ⟨1⟩).exec s).2.endingOrder ⟨0⟩ = _
    rw [hfirst]
    unfold endingOrder
    rw [List.mergeSort_of_pairwise (by decide +kernel)]
    decide +kernel
  have hdone : ((removeClient ⟨1⟩).exec t).1 = .ok () := by
    rw [exec_removeClient_inOrder hremovable' horder']
    show (Request.exec _ ((removeClient ⟨1⟩).exec s).2).1 = _
    rw [hfirst]
    decide +kernel
  obtain ⟨more, hlast⟩ := removes_removeClient ht.descending ht.held ⟨1⟩
  rw [hdone] at hlast
  obtain ⟨_, _, _, hgone⟩ := removal_resumes hremovable (.again .none hfailing nofun) hlast nofun
  obtain ⟨hunheld, hcompleted⟩ := hgone rfl
  have hholdsOpen : s.Holds ⟨0⟩ ⟨0⟩ := ⟨.ofParts ⟨1⟩ 1 .share, by decide +kernel⟩
  have hholdsLock : s.Holds ⟨0⟩ ⟨1⟩ := ⟨.ofParts ⟨1⟩ 2 .byteLock, by decide +kernel⟩
  have hundisposed (no : StateNo) (h : no = ⟨0⟩ ∨ no = ⟨1⟩) : (t.state no).disposed = false := by
    show ((((removeClient ⟨1⟩).exec s).2).state no).disposed = false
    rw [hfirst]
    rcases h with rfl | rfl
    · decide +kernel
    · decide +kernel
  refine ⟨attempts, more, hfailing, hlast, hlives, ?_, ?_, hunheld, ?_, ?_⟩
  · exact hholdsOpen.imp fun key hget => (hattached key _).2 ⟨hget, hundisposed _ (.inl rfl)⟩
  · exact hholdsLock.imp fun key hget => (hattached key _).2 ⟨hget, hundisposed _ (.inr rfl)⟩
  · refine (hcompleted ⟨1⟩ hholdsLock).trans ?_
    unfold left
    rw [hlock]
    rfl
  · refine (hcompleted ⟨0⟩ hholdsOpen).trans ?_
    unfold left
    rw [hopen]
    rfl

end Server

end Leasehold

import Leasehold.Proofs.ClientTable
import Leasehold.Proofs.OpenRoots

/-!
# Proofs.Teardown — an evicted client leaves nothing behind

A client that is removed, swept or replaced has no state, session, owner or callback
any more, and no file has an open of it, although the calls of the lock table and of
the store may have failed and its observers may have refused to be told. That all
its opens go follows from their roots: a state is attached for each of them, and the
client ends with no state attached.

* `Course.vacated` — a client that ends is left with nothing;
* `Server.Established.evicts` — each of several clients stays so while the others go;
* `Server.teardown_complete` — after every run in which no counter wrapped, a removal, a
  sweep and a replacement leave nothing of a client.
-/

namespace Leasehold

namespace Table

variable {κ α : Type} [DecidableEq κ] {t : Table κ α}

/-- A table in which nothing is found is empty. -/
theorem eq_empty_of_get? (h : ∀ k, t.get? k = none) : t = .empty := by
  rcases t with ⟨entries, hnodup⟩
  cases entries with
  | nil => rfl
  | cons p rest =>
    have hget := get?_of_mem_entries (⟨p :: rest, hnodup⟩ : Table κ α) (k := p.1) (v := p.2)
      List.mem_cons_self
    rw [h] at hget
    cases hget

theorem erase_empty (k : κ) : (empty : Table κ α).erase k = empty := rfl

end Table

/-! ## Bare records -/

/-- No state, session or owner is on the record. -/
structure Client.Bare (c : Client) : Prop where
  states : c.states = .empty
  sessions : c.sessions = .empty
  owners : c.owners = .empty

/-- What may put something on the record of a client. -/
def Effect.furnishing : List Effect := [attached, ownersNamed, sessionMade]

namespace Client

variable {now : Nat} {e : Effect} {c c' : Client}

/-- Nothing comes on a bare record by any other update, not even by the end of the client. -/
theorem Bare.update (hc : c.Bare) (h : Update now e c c') (he : e ∉ Effect.furnishing) :
    c'.Bare := by
  obtain ⟨hstates, hsessions, howners⟩ := hc
  cases h with
  | attached => exact absurd (by decide) he
  | ownersNamed => exact absurd (by decide) he
  | detached _ key =>
    refine ⟨?_, hsessions, howners⟩
    rw [Client.detach, hstates, Table.erase_empty]
  | sessionDropped _ id =>
    refine ⟨hstates, ?_, howners⟩
    rw [hsessions, Table.erase_empty]
  | ended => exact ⟨hstates, rfl, rfl⟩
  | _ => exact ⟨hstates, hsessions, howners⟩

/-- No update takes the end of a client back. -/
theorem Update.disposed_of_disposed (h : Update now e c c') (hc : c.disposed = true) :
    c'.disposed = true := by
  cases h with
  | ended => rfl
  | _ => exact hc

/-- No update lets a client be called back that could not be. -/
theorem Update.callback_eq_false (h : Update now e c c') (hc : c.hasCallback = false) :
    c'.hasCallback = false := by
  cases h with
  | ended => rfl
  | _ => exact hc

end Client

namespace Server

variable {s t : Server} {client : ClientNo} {e : Effect}

/-! ## With nothing left -/

/-- A client has ended, and nothing that it held is left. -/
structure Vacated (s : Server) (client : ClientNo) : Prop where
  disposed : (s.client client).disposed = true
  states : (s.client client).states = .empty
  sessions : (s.client client).sessions = .empty
  owners : (s.client client).owners = .empty
  callback : (s.client client).hasCallback = false
  opens : ∀ file, ∀ r ∈ s.opens.opens file,
    r.client ≠ client ∧ r.clientId ≠ (s.client client).id

/-- A client has left with all that it held. -/
structure TornDown (s : Server) (client : ClientNo) : Prop extends Vacated s client where
  unregistered : ∀ id, s.registered.get? id ≠ some client

/-- Of a client that is vacated the record is bare. -/
theorem Vacated.bare (hs : s.Vacated client) : (s.client client).Bare :=
  ⟨hs.states, hs.sessions, hs.owners⟩

/-- While others are evicted, nothing comes back. -/
theorem vacated_update (h : Update e s t) (he : e ∈ Effect.evicting)
    (hclient : client.value < s.clients.size) (hs : s.Vacated client) : t.Vacated client := by
  have hadded : e ≠ .openAdded := by
    rintro rfl
    exact absurd he (by decide)
  -- opens are only lost on the way, and none of them was the client's
  have hopens (file : FileId) (r : OpenRecord) (hmem : r ∈ t.opens.opens file) :
      r.client ≠ client ∧ r.clientId ≠ (t.client client).id := by
    obtain ⟨r', hmem', hcore⟩ := List.mem_map.1
      ((h.cores_sublist hadded file).subset (List.mem_map_of_mem (f := OpenRecord.core) hmem))
    have hsame : r'.client = r.client := (congrArg OpenRecord.client hcore :)
    have hsameId : r'.clientId = r.clientId := (congrArg OpenRecord.clientId hcore :)
    rw [← hsame, ← hsameId, h.client_id_eq hclient]
    exact hs.opens file r' hmem'
  rcases h.client_update hclient with hsame | hupdate | ⟨rfl, _⟩
  · exact ⟨hsame ▸ hs.disposed, hsame ▸ hs.states, hsame ▸ hs.sessions, hsame ▸ hs.owners,
      hsame ▸ hs.callback, hopens⟩
  · have hall : ∀ e ∈ Effect.evicting, e ∉ Effect.furnishing := by decide
    have hbare := hs.bare.update hupdate (hall e he)
    exact ⟨hupdate.disposed_of_disposed hs.disposed, hbare.states, hbare.sessions, hbare.owners,
      hupdate.callback_eq_false hs.callback, hopens⟩
  · exact absurd he (by decide)

/-- Evictions of others bring nothing back. -/
theorem tornDown_chain (h : Chain Effect.evicting s t) (hclient : client.value < s.clients.size)
    (hs : s.TornDown client) : t.TornDown client := by
  refine h.preserve_of_made (I := fun t => t.TornDown client) hclient ?_ hs
  intro e he a b hupdate hmade ha
  have henrolled : e ≠ .enrolled := by
    rintro rfl
    exact absurd he (by decide)
  refine ⟨vacated_update hupdate he hmade ha.toVacated, fun id hget => ?_⟩
  exact ha.unregistered id (registered_get?_of_ne_enrolled hupdate henrolled hget)

end Server

/-- Where every open is rooted, a client with no state attached has no open. -/
theorem Server.Rooted.no_opens {s : Server} {client : ClientNo} (hs : s.Rooted) (ht : s.Traced)
    (hclient : client.value < s.clients.size) (hnone : (s.client client).states = .empty)
    (file : FileId) (r : OpenRecord) (hmem : r ∈ s.opens.opens file) :
    r.client ≠ client ∧ r.clientId ≠ (s.client client).id := by
  have hr := hs.rooted file r.core (List.mem_map_of_mem hmem)
  have hne : r.client ≠ client := by
    rintro hsame
    have hattached := hr.attached
    rw [show r.core.client = client from hsame, hnone] at hattached
    cases hattached
  exact ⟨hne, fun hid => hne (ht.client_ext hr.client hclient (hr.clientId.symm.trans hid))⟩

/-- A client that ends with its opens rooted is left with nothing. -/
theorem Course.vacated {s t : Server} {strict : Bool} {client : ClientNo} {attempts : List Attempt}
    (h : Course (.client strict client) s attempts (.ok ()) t) (ht : s.Traced) (hg : s.Grounded)
    (hs : s.Rooted) (hclient : client.value < s.clients.size)
    (hlives : (s.client client).disposed = false) : t.Vacated client := by
  cases h with
  | gone _ hdisposed =>
    rw [hlives] at hdisposed
    cases hdisposed
  | @client _ u _ _ order _ _ horder h =>
    have hmade (no : StateNo) (hmem : no ∈ order) : no.value < s.states.size := by
      obtain ⟨key, hget⟩ := horder.mem_iff.1 hmem
      exact (hg.held client key no hget).1
    obtain ⟨hrooted, hover⟩ := h.rooted ht hg hs hmade
    have hsize : client.value < u.clients.size :=
      Nat.lt_of_lt_of_le hclient h.chain_ending.clients_size_le
    -- what was attached was in the order, and has been taken from the client
    have hnone : (u.client client).states = .empty := by
      refine Table.eq_empty_of_get? fun key => ?_
      cases hget : (u.client client).states.get? key with
      | none => rfl
      | some no =>
        have hbefore := h.states_get? hget
        have hmem := horder.mem_iff.2 ⟨key, hbefore⟩
        obtain ⟨hno, hkey, _⟩ := hg.held client key no hbefore
        have htaken := hover rfl no hmem
        rw [h.state_key_eq hno, hkey, hget] at htaken
        cases htaken
    have hfinished : (u.amendClient client .finish).client client = (u.client client).finish := by
      rw [Server.client_amendClient, if_pos ⟨rfl, hsize⟩]
    have hopens := hrooted.no_opens (h.traced ht) hsize hnone
    refine ⟨?_, ?_, ?_, ?_, ?_, fun file r hmem => ?_⟩
    · rw [hfinished]
      rfl
    · rw [hfinished]
      exact hnone
    · rw [hfinished]
      rfl
    · rw [hfinished]
      rfl
    · rw [hfinished]
      rfl
    · rw [hfinished]
      exact hopens file r hmem

namespace Server

open Request

variable {s t : Server} {client : ClientNo}

/-! ## Removals, sweeps and replacements -/

theorem chain_without (s : Server) (client : ClientNo) (store : Recovery.Store) :
    Chain Effect.evicting s (s.without client store) := by
  unfold without
  have hleft := does_unregister (E := Effect.evicting) (by decide) client s
  exact hleft.trans (.single (e := .recorded) (by decide) (.recorded _ store))

/-- Evictions do no updates but those of their kinds. -/
theorem Evicts.chain {clients : List ClientNo} (h : Evicts clients s t) :
    Chain Effect.evicting s t := by
  induction h with
  | nil => exact .refl
  | cons hcourse store _ ih =>
    exact (hcourse.chain_ending.mono (by decide)).trans ((chain_without ..).trans ih)

/-- A client that is vacated and leaves the table is torn down. -/
theorem Vacated.without (hs : s.Vacated client) (henlisted : s.Enlisted) (store : Recovery.Store) :
    (s.without client store).TornDown client := by
  have hleft := (registered_without henlisted client store).1
  obtain ⟨registered, hwithout⟩ := s.without_eq client store
  rw [hwithout] at hleft ⊢
  exact ⟨⟨hs.disposed, hs.states, hs.sessions, hs.owners, hs.callback, hs.opens⟩, hleft⟩

/-- A client that ends and leaves the table has left with all that it held. -/
theorem Established.without_tornDown (hs : s.Established) (hlisted : s.Enlisted) {strict : Bool}
    {attempts : List Attempt} (h : Course (.client strict client) s attempts (.ok ()) t)
    (hclient : client.value < s.clients.size) (hlives : (s.client client).disposed = false)
    (hbound : t.StatesBounded) (store : Recovery.Store) :
    (t.without client store).TornDown client := by
  have hbefore := StatesBounded.of_chain h.chain_ending hbound
  refine Vacated.without ?_ (h.enlisted hlisted) store
  exact h.vacated (hs.traced hbefore) hs.grounded (hs.rooted hbefore) hclient hlives

/-- A removal that succeeds tears its client down. -/
theorem Established.removes (hs : s.Established) (hstanding : s.Standing) {id : ClientId}
    {attempts : List Attempt} (h : s.Removes id attempts (.ok ()) t)
    (hget : s.registered.get? id = some client) (hbound : t.StatesBounded) : t.TornDown client := by
  have hclient := (hstanding.listed id client hget).1
  have hlives := hstanding.live id client hget
  cases h with
  | unknown _ hnone =>
    rw [hnone] at hget
    cases hget
  | removed _ hget' hcourse =>
    cases hget.symm.trans hget'
    exact hs.without_tornDown hstanding.toEnlisted hcourse hclient hlives
      (.of_chain (chain_without ..) hbound) _

/-- Each client that is evicted leaves with all that it held, and nothing of it comes back while the
others are evicted. -/
theorem Established.evicts (hs : s.Established) (hstanding : s.Standing) {clients : List ClientNo}
    (h : Evicts clients s t) (hmem : client ∈ clients) (hclient : client.value < s.clients.size)
    (hlives : (s.client client).disposed = false) (hbound : t.StatesBounded) :
    t.TornDown client := by
  induction h with
  | nil => cases hmem
  | @cons first rest s t u attempts hcourse store hrest ih =>
    have hleft := StatesBounded.of_chain hrest.chain hbound
    have hsize := Nat.lt_of_lt_of_le hclient hcourse.chain_ending.clients_size_le
    have hsize' := Nat.lt_of_lt_of_le hsize (t.chain_without first store).clients_size_le
    -- this client's turn; the evictions of the others bring nothing back
    by_cases hsame : client = first
    · subst hsame
      refine tornDown_chain hrest.chain hsize' ?_
      exact hs.without_tornDown hstanding.toEnlisted hcourse hclient hlives
        (.of_chain (chain_without ..) hleft) store
    · have hkeeps := keepsHappenings_established fun _ _ => True
      refine ih (hkeeps.endings.without store (hkeeps.client hcourse hs))
        (((hstanding.but first).course hcourse).without store)
        ((List.mem_cons.1 hmem).resolve_left hsame) hsize' ?_ hbound
      obtain ⟨registered, hwithout⟩ := t.without_eq first store
      rw [hwithout]
      exact (hcourse.disposed_eq_of_ne hsame).trans hlives

/-- A sweep tears down every registered client whose lease has ended. -/
theorem Established.sweeps (hs : s.Established) (hstanding : s.Standing) (h : s.Sweeps t)
    (hrunning : s.running = true) {id : ClientId} (hget : s.registered.get? id = some client)
    (hexpired : s.leaseValid client = false) (hbound : t.StatesBounded) : t.TornDown client := by
  cases h with
  | idle hstopped =>
    rw [hrunning] at hstopped
    cases hstopped
  | swept _ horder hevicts =>
    refine hs.evicts hstanding hevicts (horder.mem_iff.2 ?_) (hstanding.listed id client hget).1
      (hstanding.live id client hget) hbound
    refine List.mem_filter.2 ⟨Table.mem_values_iff.2 ⟨id, hget⟩, ?_⟩
    rw [hexpired]
    rfl

/-- The client whose place is taken has left the table before it ends. -/
theorem Established.replaces (hs : s.Established) (hstanding : s.Standing) {r : Registration}
    (h : s.Replaces r t) (hold : s.registeredFor? r.owner = some client) (hbound : t.StatesBounded) :
    t.TornDown client := by
  -- whatever the store says at the end, it is said after the client has ended
  have hreplaced {needReclaim : Bool} {attempts : List Attempt} {ended : Server}
      (h : Course (.client false client) ((s.unlist client).withClient r needReclaim) attempts
        (.ok ()) ended) (hlast : Chain Effect.evicting ended t) : t.TornDown client := by
    obtain ⟨⟨id, hget⟩, _⟩ := registeredFor?_eq_some hold
    have hmade : Chain [.unregistered, .enrolled] s ((s.unlist client).withClient r needReclaim) :=
      (Chain.single (by decide) (.unregistered s _)).trans
        (.single (by decide) (.enrolled _ r needReclaim))
    have hestablished : ((s.unlist client).withClient r needReclaim).Established :=
      (keepsHappenings_established fun _ _ => True).chain hmade (by decide) hs
    have hclient := Nat.lt_of_lt_of_le (hstanding.listed id client hget).1 hmade.clients_size_le
    have hlives := (disposed_eq_of_chain hmade (by decide) client).trans
      (hstanding.live id client hget)
    have hbefore := StatesBounded.of_chain h.chain_ending (.of_chain hlast hbound)
    refine tornDown_chain hlast (Nat.lt_of_lt_of_le hclient h.chain_ending.clients_size_le)
      ⟨?_, fun id => ?_⟩
    · exact h.vacated (hestablished.traced hbefore) hestablished.grounded
        (hestablished.rooted hbefore) hclient hlives
    · rw [h.registered_eq]
      exact hstanding.toEnlisted.ne_replaced hold needReclaim id
  cases h with
  | recorded hold' h store =>
    cases hold.symm.trans hold'
    exact hreplaced h (.single (e := .recorded) (by decide) (.recorded _ store))
  | unrecorded hold' h =>
    cases hold.symm.trans hold'
    exact hreplaced h (.single (e := .unregistered) (by decide) (.unregistered _ _))

/-- After whatever happened while no counter wrapped, whatever calls of the lock table and the store
failed and whoever refused to be told: a client that is removed, whose lease has ended when a sweep
comes, or whose place is taken, has left with all that it held. -/
theorem teardown_complete {timers : Bool} {config : Config} {store : Recovery.Store}
    {wall : WallTime} {now : Nat}
    (hrun : Run (fun _ a => a.served = true) (start timers config store wall now) s)
    (hbound : t.StatesBounded) :
    (∀ id attempts client, s.Removes id attempts (.ok ()) t → s.registered.get? id = some client →
      t.TornDown client) ∧
    (s.Sweeps t → s.running = true → ∀ id client, s.registered.get? id = some client →
      s.leaseValid client = false → t.TornDown client) ∧
    (∀ r client, s.Replaces r t → s.registeredFor? r.owner = some client → t.TornDown client) := by
  have hs := (keepsHappenings_established _).run (fun _ _ => id) hrun
    (established_start timers config store wall now)
  have hstanding := standing_run (fun _ _ => id) (standing_start timers config store wall now)
    (grounded_start timers config store wall now) hrun
  exact ⟨fun id attempts client hremoves hget => hs.removes hstanding hremoves hget hbound,
    fun hsweeps hrunning id client hget hexpired =>
      hs.sweeps hstanding hsweeps hrunning hget hexpired hbound,
    fun r client hreplaces hold => hs.replaces hstanding hreplaces hold hbound⟩

/-- Two clients have a file open; the removal of one of them is refused by somebody who watches its
open, and asked for again. The open of the other one stays. -/
theorem teardown_complete_after_refusal :
    let file : FileId := ⟨[7]⟩
    let opened := (start false {} (.durable (.openOn .empty)) ⟨0⟩).performAll
      [.register (.ofOwner [1]), .register (.ofOwner [2]), .nameOwner ⟨0⟩ [5] 0,
        .nameOwner ⟨1⟩ [5] 0, .openFile ⟨0⟩ ⟨0⟩ file 1 0, .openFile ⟨1⟩ ⟨1⟩ file 1 0,
        .openFile ⟨0⟩ ⟨0⟩ file 2 0]
    let watched := opened.amendState ⟨0⟩ (·.owe (.notify "watcher" 1))
    let s := watched.perform (.removeClient ⟨1⟩)
    let t := s.after (removeClient ⟨1⟩)
    (watched.opens.opens file).map (·.client) = [⟨0⟩, ⟨1⟩] ∧ s.registered.get? ⟨1⟩ = some ⟨0⟩ ∧
      t.TornDown ⟨0⟩ ∧ (t.opens.opens file).map (·.client) = [⟨1⟩] := by
  intro file opened watched s t
  have hrun : Run (fun _ a => a.served = true) (start false {} (.durable (.openOn .empty)) ⟨0⟩) s :=
    ((run_performAll fun a ha _ => by revert a; decide).tail (.observed ⟨0⟩ "watcher" 1)).tail
      (.performed (a := .removeClient ⟨1⟩) rfl)
  have hg := (keepsHappenings_grounded _).run (fun _ _ => id) hrun
    (grounded_start false {} (.durable (.openOn .empty)) ⟨0⟩ 0)
  obtain ⟨attempts, hremoves⟩ := removes_removeClient hg.descending hg.held ⟨1⟩
  have hanswer : ((removeClient ⟨1⟩).exec s).1 = .ok () := by
    have hok : ((removeClient ⟨1⟩).exec s).1.toOption = some () := by decide +kernel
    -- answers are compared as far as they can be computed
    revert hok
    cases ((removeClient ⟨1⟩).exec s).1 with
    | ok => exact fun _ => rfl
    | error => exact nofun
  rw [hanswer] at hremoves
  have hlisted : s.registered.get? ⟨1⟩ = some ⟨0⟩ := by decide +kernel
  have hbound : t.StatesBounded := .of_size (by decide +kernel) (by decide +kernel)
  exact ⟨by decide +kernel, hlisted,
    (teardown_complete hrun hbound).1 ⟨1⟩ attempts ⟨0⟩ hremoves hlisted, by decide +kernel⟩

end Server

end Leasehold

import Leasehold.Proofs.Belonging

/-!
# Proofs.Routing — an identifier leads to its client, or to nobody

Every identifier bears the marks of the server instance that issued it: the second at
which the instance started, and its number. A server issues identifiers with its own
marks only, and looks nobody up under others.

* `ClientId.marks_of_mintedBy` — what an instance issues bears its marks;
* `Server.Routable` — what routing rests on, and what is kept by whatever happens;
* `Server.routing_exact` — on a running server, the sessions and states of a registered
  client lead to that client, and what another instance issued leads to nobody, with the
  error of its kind.
-/

namespace Leasehold

open Request

/-! ## What an instance issues -/

namespace ClientId

/-- An instance issues the identifier, sooner or later. -/
def MintedBy (g : ClientIds) (id : ClientId) : Prop := ∃ n, id ∈ g.take n

/-- All identifiers of an instance bear its marks. -/
theorem marks_of_mintedBy {g : ClientIds} {id : ClientId} (h : id.MintedBy g) :
    id.marks = g.marks := by
  obtain ⟨n, hmem⟩ := h
  rw [ClientIds.take_eq_map, List.mem_map] at hmem
  obtain ⟨k, -, rfl⟩ := hmem
  exact g.marks_nth k

end ClientId

/-- The record of a client with the identifier hands out the identifier of a session. -/
def SessionId.MintedFor (id : ClientId) (x : SessionId) : Prop :=
  ∃ c : Client, c.id = id ∧ x = c.nextSessionId.1

/-- The record of a client with the identifier hands out the key of a state, which may have changed
since. -/
def StateId.MintedFor (id : ClientId) (x : StateId) : Prop :=
  ∃ (c : Client) (kind : StateKind), c.id = id ∧ x.key = (c.nextStateId kind).1.key

/-- The identifier of a session leads to the client that it was handed out for. -/
theorem SessionId.client_of_mintedFor {id : ClientId} {x : SessionId} (h : x.MintedFor id) :
    x.client = id := by
  obtain ⟨c, rfl, rfl⟩ := h
  rfl

/-- The identifier of a state leads to the client that it was handed out for. -/
theorem StateId.client_of_mintedFor {id : ClientId} {x : StateId} (h : x.MintedFor id) :
    x.key.client = id := by
  obtain ⟨c, kind, rfl, hkey⟩ := h
  rw [hkey]
  rfl

/-! ## Looking up -/

namespace Request

variable {α β : Type} {s : Server}

theorem exec_bind_error {r : Request α} {e : Error} {t : Server} (h : r.exec s = (.error e, t))
    (f : α → Request β) : (r >>= f).exec s = (.error e, t) := by
  rw [exec_bind, h]

/-- Looking a client up asks the table, if the server runs. -/
theorem exec_clientById (hrunning : s.running = true) (id : ClientId) :
    (clientById id).exec s =
      (match s.registered.get? id with
        | some no => .ok no
        | none => .error (.staleClientId id), s) := by
  unfold clientById
  rw [exec_ensureRunning_bind hrunning, exec_get_bind]
  cases s.registered.get? id with
  | none => rfl
  | some no => rfl

/-- A session leads to the client of its identifier, and to nobody if that does not have it. -/
theorem exec_clientBySession (hrunning : s.running = true) (id : SessionId) :
    (clientBySession id).exec s =
      (match s.registered.get? id.client with
        | some no => if ((s.client no).sessions.get? id).isSome then .ok no else .error .badSession
        | none => .error .badSession, s) := by
  unfold clientBySession sessionOf
  rw [exec_ensureRunning_bind hrunning, exec_get_bind]
  cases s.registered.get? id.client with
  | none => rfl
  | some no =>
    dsimp only
    rw [exec_bind, exec_get_bind]
    cases (s.client no).sessions.get? id with
    | none => rfl
    | some t => rfl

/-- A state of another instance is told from one that is unknown here. -/
theorem exec_clientByStateId (hrunning : s.running = true) (id : StateId) :
    (clientByStateId id).exec s =
      (if s.ids.hasIssued id.key.client then
        match s.registered.get? id.key.client with
        | some no => .ok no
        | none => .error (.badStateId id)
      else .error (.staleStateId id), s) := by
  unfold clientByStateId
  rw [exec_ensureRunning_bind hrunning, exec_get_bind]
  cases s.ids.hasIssued id.key.client with
  | false => rfl
  | true =>
    rw [if_pos rfl, if_pos rfl]
    cases s.registered.get? id.key.client with
    | none => rfl
    | some no => rfl

end Request

namespace Server

variable {e : Effect} {s t : Server} {id : ClientId} {marks : UInt32 × UInt8}

/-! ## The marks of a server -/

/-- A server keeps its marks. -/
theorem Update.marks_eq (h : Update e s t) : t.ids.marks = s.ids.marks := by
  cases h <;> rfl

/-- The clients of a server bear the identifiers that it issues. -/
theorem Numbered.mintedBy (hs : s.Numbered) {no : ClientNo} (hno : no.value < s.clients.size) :
    (s.client no).id.MintedBy { s.ids with issued := 0 } := by
  refine ⟨no.value + 1, ?_⟩
  rw [ClientIds.take_eq_map, List.mem_map]
  refine ⟨no.value, List.mem_range.2 (Nat.lt_succ_self _), ?_⟩
  rw [hs.client_id no hno, ClientIds.nth_eq, UInt32.zero_add]

/-- What routing rests on: keys and tables lead to the records that bear them, clients bear the
identifiers that the server issues, and the server has certain marks. -/
structure Routable (marks : UInt32 × UInt8) (s : Server) : Prop where
  tracked : s.Tracked
  routed : s.Routed
  marked : s.ids.marks = marks

/-- After every run that is served, identifiers can be routed. -/
theorem routable_run {timers : Bool} {config : Config} {store : Recovery.Store} {wall : WallTime}
    {now : Nat}
    (h : Run (fun _ a => a.served = true) (start timers config store wall now) s) :
    s.Routable (wall.bootSeconds, config.instanceId) := by
  -- the marks of the server and the tables are not touched by opens or by channels
  have hkeeps : KeepsHappenings (fun _ a => a.served = true) fun s => s.Established ∧
      s.Routed ∧ s.ids.marks = (wall.bootSeconds, config.instanceId) := by
    refine (keepsHappenings_established _).beside (fun _ hupdate hs => ?_) (fun opens hs => ?_)
      fun client hasCallback hs => ?_
    · exact ⟨routed_update hupdate hs.1, hupdate.marks_eq.trans hs.2⟩
    · exact ⟨⟨hs.1.registered, hs.1.sessions⟩, hs.2⟩
    · exact ⟨hs.1.calledBack client hasCallback, hs.2⟩
  have hstart : (start timers config store wall now).Routed ∧
      (start timers config store wall now).ids.marks = (wall.bootSeconds, config.instanceId) := by
    obtain ⟨sweepDue, graceDue, hstart⟩ := start_eq timers config store wall now
    rw [hstart]
    exact ⟨routed_of_empty rfl rfl, rfl⟩
  obtain ⟨hestablished, hrouted, hmarked⟩ := hkeeps.run (fun _ _ h => h) h
    ⟨established_start timers config store wall now, hstart⟩
  exact ⟨hestablished.tracked, hrouted, hmarked⟩

/-- Whoever is registered bears the marks of the server. -/
theorem Routable.marks_eq (hs : s.Routable marks) {no : ClientNo}
    (hget : s.registered.get? id = some no) : id.marks = marks := by
  obtain ⟨hno, hid⟩ := hs.routed.registered id no hget
  have hminted := hs.tracked.numbered.mintedBy hno
  rw [hid] at hminted
  exact (ClientId.marks_of_mintedBy hminted).trans hs.marked

/-- Nobody is registered under other marks. -/
theorem Routable.registered_eq_none (hs : s.Routable marks) (hid : id.marks ≠ marks) :
    s.registered.get? id = none := by
  cases hget : s.registered.get? id with
  | none => rfl
  | some no => exact absurd (hs.marks_eq hget) hid

/-! ## Routing -/

/-- A session that a registered client has leads to the client. -/
theorem Routable.exec_clientBySession_own (hs : s.Routable marks) (hrunning : s.running = true)
    {no : ClientNo} (hget : s.registered.get? id = some no) {x : SessionId} {n : SessionNo}
    (hsession : (s.client no).sessions.get? x = some n) :
    (clientBySession x).exec s = (.ok no, s) := by
  obtain ⟨hno, hid⟩ := hs.routed.registered id no hget
  obtain ⟨-, -, hclient⟩ := hs.routed.sessions no hno x n hsession
  rw [exec_clientBySession hrunning, hclient, hid, hget]
  dsimp only
  rw [hsession]
  rfl

/-- An identifier of a state of a registered client leads to the client. -/
theorem Routable.exec_clientByStateId_own (hs : s.Routable marks) (hrunning : s.running = true)
    {no : ClientNo} (hget : s.registered.get? id = some no) {x : StateId} (hx : x.key.client = id) :
    (clientByStateId x).exec s = (.ok no, s) := by
  have hissued : s.ids.hasIssued id = true :=
    (s.ids.hasIssued_iff id).2 ((hs.marks_eq hget).trans hs.marked.symm)
  rw [exec_clientByStateId hrunning, hx, if_pos hissued, hget]

/-- A client of another instance is a stale one. -/
theorem Routable.exec_clientById_foreign (hs : s.Routable marks) (hrunning : s.running = true)
    (hid : id.marks ≠ marks) : (clientById id).exec s = (.error (.staleClientId id), s) := by
  rw [exec_clientById hrunning, hs.registered_eq_none hid]

/-- A session of another instance is unknown. -/
theorem Routable.exec_clientBySession_foreign (hs : s.Routable marks) (hrunning : s.running = true)
    {x : SessionId} (hx : x.client.marks ≠ marks) :
    (clientBySession x).exec s = (.error .badSession, s) := by
  rw [exec_clientBySession hrunning, hs.registered_eq_none hx]

/-- A state of another instance is a stale one. -/
theorem Routable.exec_clientByStateId_foreign (hs : s.Routable marks) (hrunning : s.running = true)
    {x : StateId} (hx : x.key.client.marks ≠ marks) :
    (clientByStateId x).exec s = (.error (.staleStateId x), s) := by
  have hother : s.ids.hasIssued x.key.client ≠ true := fun hissued =>
    hx (((s.ids.hasIssued_iff _).1 hissued).trans hs.marked)
  rw [exec_clientByStateId hrunning, if_neg hother]

/-- After every run, as long as the server runs: the sessions of a registered client, the states that
it holds and every state that was made for it lead to that client. What an instance issued that
started at another second or bears another number leads to nobody: its clients are stale, and so are
its states, and its sessions are bad. No look-up changes anything. -/
theorem routing_exact {timers : Bool} {config : Config} {store : Recovery.Store} {wall : WallTime}
    {now : Nat}
    (h : Run (fun _ a => a.served = true) (start timers config store wall now) s)
    (hrunning : s.running = true) :
    (∀ id no, s.registered.get? id = some no →
      (∀ x n, (s.client no).sessions.get? x = some n → (clientBySession x).exec s = (.ok no, s)) ∧
      (∀ key n, (s.client no).states.get? key = some n →
        (clientByStateId (s.state n).id).exec s = (.ok no, s)) ∧
      ∀ x : StateId, x.MintedFor id → (clientByStateId x).exec s = (.ok no, s)) ∧
    ∀ g : ClientIds, (g.bootSeconds, g.instanceId) ≠ (wall.bootSeconds, config.instanceId) →
      ∀ id : ClientId, id.MintedBy g →
        (clientById id).exec s = (.error (.staleClientId id), s) ∧
        (confirmedClient id).exec s = (.error (.staleClientId id), s) ∧
        (∀ x : SessionId, x.MintedFor id →
          (clientBySession x).exec s = (.error .badSession, s) ∧
          (∀ slot seq operations connection,
            (Request.sequence x slot seq operations connection).exec s = (.error .badSession, s)) ∧
          ∀ connection, (destroySession x connection).exec s = (.error .badSession, s)) ∧
        ∀ x : StateId, x.MintedFor id →
          (clientByStateId x).exec s = (.error (.staleStateId x), s) ∧
          (renewByState x).exec s = (.error (.staleStateId x), s) := by
  have hs := routable_run h
  constructor
  · intro id no hget
    refine ⟨fun x n hsession => hs.exec_clientBySession_own hrunning hget hsession,
      fun key n hheld => ?_, fun x hx => ?_⟩
    · obtain ⟨-, hkey, hclient⟩ := hs.tracked.held no key n hheld
      refine hs.exec_clientByStateId_own hrunning hget ?_
      rw [hkey, hclient]
      exact (hs.routed.registered id no hget).2
    · exact hs.exec_clientByStateId_own hrunning hget (StateId.client_of_mintedFor hx)
  · intro g hg id hminted
    have hid : id.marks ≠ (wall.bootSeconds, config.instanceId) := by
      rw [ClientId.marks_of_mintedBy hminted]
      exact hg
    have hclient := hs.exec_clientById_foreign hrunning hid
    refine ⟨hclient, exec_bind_error hclient _, fun x hx => ?_, fun x hx => ?_⟩
    -- what looks a session up first goes no further
    · have hsession : (clientBySession x).exec s = (.error .badSession, s) := by
        refine hs.exec_clientBySession_foreign hrunning ?_
        rw [SessionId.client_of_mintedFor hx]
        exact hid
      exact ⟨hsession, fun _ _ _ _ => exec_bind_error hsession _,
        fun _ => exec_bind_error hsession _⟩
    · have hstate : (clientByStateId x).exec s = (.error (.staleStateId x), s) := by
        refine hs.exec_clientByStateId_foreign hrunning ?_
        rw [StateId.client_of_mintedFor hx]
        exact hid
      exact ⟨hstate, exec_bind_error hstate _⟩

/-- A client with a session and an open is found by both; the first client of an instance that
started seven seconds later, and what was made for it, are not. -/
theorem routing_of_two_instances :
    let s := (start false {} (.durable (.openOn .empty)) ⟨0⟩).performAll
      [.register (.ofOwner [1]), .createSession ⟨1⟩ 1 ⟨4, 16, 4, 0⟩, .nameOwner ⟨0⟩ [5] 0,
        .openFile ⟨0⟩ ⟨0⟩ ⟨[7]⟩ 1 0]
    let other : ClientId := .ofParts 7 0 1
    (clientBySession (.ofParts ⟨1⟩ 1)).exec s = (.ok ⟨0⟩, s) ∧
      (clientByStateId (.ofParts ⟨1⟩ 1 .share)).exec s = (.ok ⟨0⟩, s) ∧
      (clientById other).exec s = (.error (.staleClientId other), s) ∧
      (clientBySession (.ofParts other 1)).exec s = (.error .badSession, s) ∧
      (renewByState (.ofParts other 1 .share)).exec s =
        (.error (.staleStateId (.ofParts other 1 .share)), s) := by
  intro s other
  have hrun : Run (fun _ a => a.served = true) (start false {} (.durable (.openOn .empty)) ⟨0⟩) s :=
    run_performAll fun a ha _ => by revert a; decide
  have hget : s.registered.get? ⟨1⟩ = some ⟨0⟩ := by decide +kernel
  have hsession : (s.client ⟨0⟩).sessions.get? (.ofParts ⟨1⟩ 1) = some ⟨0⟩ := by decide +kernel
  have hminted : other.MintedBy ⟨7, 0, 0⟩ := ⟨1, List.mem_singleton.2 rfl⟩
  obtain ⟨hown, hforeign⟩ := routing_exact hrun (by decide +kernel)
  obtain ⟨hsessions, -, hstates⟩ := hown ⟨1⟩ ⟨0⟩ hget
  obtain ⟨hclient, -, hbad, hstale⟩ := hforeign ⟨7, 0, 0⟩ (by decide) other hminted
  -- the identifiers are the first that a record with the identifier of the client hands out
  have hstate (id : ClientId) : (StateId.ofParts id 1 .share).MintedFor id :=
    ⟨{ (default : Client) with id }, .share, rfl, rfl⟩
  have hmade : (SessionId.ofParts other 1).MintedFor other :=
    ⟨{ (default : Client) with id := other }, rfl, rfl⟩
  exact ⟨hsessions _ _ hsession, hstates _ (hstate ⟨1⟩), hclient, (hbad _ hmade).1,
    (hstale _ (hstate other)).2⟩

end Server

end Leasehold

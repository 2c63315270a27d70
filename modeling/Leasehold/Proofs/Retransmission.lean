import Mathlib.Control.Monad.Basic
import Leasehold.Proofs.OwnerNumbers

/-!
# Proofs.Retransmission — a granted request that is presented again

A client without sessions has no slot that remembers its requests. What stops a request
for a lock, or one that gives a range back, from taking effect twice is the number that
it bears: once it is granted, the owner of the state that it presents has the number,
and accepts the one after it next.

* `Server.keepsHappenings_statesSuited` — whatever happens, the owner of a state that a
  client has attached is numbered exactly if the client has no sessions;
* `Server.Spent` — the owner of a state has had a number; so it is once a request that
  presents the state is granted, and while time passes;
* `Server.granted_once` — presented again, at whatever time, a granted request is refused
  and leaves locks, states and the numbers of owners alone, if opens were asked for by
  owners of the client's kind;
* `Server.granted_twice_under_other_kind` — under a record of the other kind it may be
  granted again.
-/

namespace Leasehold

open Request

/-- If the client asks for an open, it does so by an owner that is numbered exactly if the client has
no sessions, as all owners are that it has a name for. -/
def Action.ByOwnKind (client : ClientNo) (s : Server) : Action → Prop
  | .openFile asking owner .. => asking = client →
      (s.owner owner).sessionBased = (s.client client).isSessionBased
  | _ => True

namespace Server

variable {e : Effect} {E : List Effect} {s t u : Server} {client : ClientNo}

/-! ## Owners of states -/

/-- The owner of a state that the client has attached suits the client. -/
def StatesSuited (s : Server) (client : ClientNo) : Prop :=
  ∀ key no, (s.client client).states.get? key = some no → s.Suits client (s.state no).owner

/-- Opens bear keys of opens. -/
def OpensShare (s : Server) : Prop :=
  ∀ file, ∀ p ∈ s.opens.states file, p.2.kind? = some .share

/-- Only states that are attached, and owners that are amended, bear on this. -/
theorem statesSuited_update (h : Update e s t) (he : e ∉ [.attached, .ownerAmended])
    (hheld : s.Held) (hs : s.StatesSuited client) : t.StatesSuited client := by
  simp only [List.mem_cons, List.not_mem_nil, or_false, not_or] at he
  intro key no hget
  have hbefore := h.states_get? he.1 hget
  rw [h.state_owner_eq (hheld client key no hbefore).1]
  exact (hs key no hbefore).update h he.2 (lt_of_states_get? hbefore)

theorem statesSuited_chain (h : Chain E s t) (hE : ∀ e ∈ E, e ∉ [Effect.attached, .ownerAmended])
    (hheld : s.Held) (hs : s.StatesSuited client) : t.StatesSuited client := by
  refine (h.preserve (I := fun t => t.Held ∧ t.StatesSuited client) (fun {e _ _} he hupdate ht => ?_)
    ⟨hheld, hs⟩).2
  have hattached : e ≠ .attached := by
    rintro rfl
    exact absurd (List.mem_cons_self ..) (hE _ he)
  exact ⟨held_update hupdate hattached ht.1, statesSuited_update hupdate (hE e he) ht.1 ht.2⟩

theorem StatesSuited.congr (hs : s.StatesSuited client) (hstates : t.states = s.states)
    (howners : t.owners = s.owners) (hclients : t.clients = s.clients) : t.StatesSuited client := by
  intro key no hget
  rw [client_congr hclients] at hget
  obtain ⟨hmade, hsame⟩ := hs key no hget
  rw [state_congr hstates]
  constructor
  · rw [howners]
    exact hmade
  · rw [owner_congr howners, client_congr hclients]
    exact hsame

/-- A state may be made for an owner that suits the client, and for any owner of another client. -/
theorem StatesSuited.withHeld {maker : ClientNo} (hs : s.StatesSuited client) (hheld : s.Held)
    (hmaker : maker.value < s.clients.size) {owner : OwnerNo}
    (howner : maker = client → s.Suits client owner) (kind : StateKind) {parent : Option StateNo}
    (hparent : parent ≠ some s.states.nextNo) (step : ReleaseStep) :
    (s.withHeld maker owner kind parent step).StatesSuited client := by
  have hchain := s.chain_making maker owner kind parent step
  intro key no hget
  rw [get?_withHeld hmaker] at hget
  split at hget
  · rename_i hnew
    rw [← Option.some.inj hget, state_withHeld_new hmaker owner kind hparent]
    exact (howner hnew.1.symm).chain hchain (by decide) (hnew.1 ▸ hmaker)
  · rw [state_withHeld_old hmaker owner kind parent step (hheld client key no hget).1]
    exact (hs key no hget).chain hchain (by decide) (lt_of_states_get? hget)

/-- Whatever is done for whichever client, no state comes to the client by an unsuitable owner. -/
theorem StatesSuited.serves {served : ClientNo} (hs : s.StatesSuited client) (hheld : s.Held)
    (hnames : s.NamesSuited) (h : Serves served s t) : t.StatesSuited client := by
  rcases h.owner_cases with hchain | ⟨name, seqid, _, rfl⟩ | ⟨name, rfl⟩ |
    ⟨_, no, seqid, owner, _, haccept, rfl⟩ | ⟨_, no, name, owner, file, hget, hname, rfl⟩
  · exact statesSuited_chain hchain (by decide) hheld hs
  · exact statesSuited_chain (s.chain_withOwner served name seqid) (by decide) hheld hs
  · exact statesSuited_update (.client s served _ (.ownersNamed _ _)) (by decide) hheld hs
  · intro key other hget
    exact (hs key other hget).accepted haccept
  · have hne := Ledger.ne_nextNo (hheld _ _ _ hget).1
    refine hs.withHeld hheld (lt_of_states_get? hget) ?_ _ (fun h => hne (Option.some.inj h)) _
    rintro rfl
    exact hnames served name owner hname

/-- Only a new open bears on the keys of opens. -/
theorem opensShare_update (h : Update e s t) (he : e ≠ .openAdded) (hs : s.OpensShare) :
    t.OpensShare := fun file p hp => hs file p (h.opens_states_subset he file hp)

theorem opensShare_chain (h : Chain E s t) (hE : .openAdded ∉ E) (hs : s.OpensShare) :
    t.OpensShare := by
  refine h.preserve (fun {e _ _} he hupdate => opensShare_update hupdate ?_) hs
  rintro rfl
  exact hE he

/-- A new open bears the key of its state, which is one of an open. -/
theorem OpensShare.withOpen (hs : s.OpensShare) (client : ClientNo) (owner : OwnerNo)
    (file : FileId) (mode : ShareMode) : (s.withOpen client owner file mode).OpensShare := by
  intro other p hp
  have hadded : p ∈ (s.opens.add file ⟨client, (s.client client).id, (s.owner owner).name,
    s.states.nextNo, (s.client client).nextStateKey .share, mode, .ofMode mode⟩).states other := hp
  rw [OpenTable.states_add] at hadded
  split at hadded
  · rename_i hfile
    rcases List.mem_append.1 hadded with hold | hnew
    · exact hs file p hold
    · rw [List.mem_singleton.1 hnew]
      exact StateKey.kind?_ofParts ..
  · exact hs other p hadded

/-- Whatever happens, as long as the client asks for opens by owners of its own kind. -/
theorem keepsHappenings_statesSuited {P : Server → Action → Prop}
    (hkind : ∀ s a, P s a → a.ByOwnKind client s) : KeepsHappenings P fun s =>
      (s.Grounded ∧ s.NamesSuited) ∧ s.StatesSuited client ∧ s.OpensShare where
  grounded hs := hs.1.1
  update e he _ _ h hs := by
    have hall : ∀ e ∈ Effect.administering ++ [.recorded, .faultsSet, .openForgotten],
        e ∉ [Effect.attached, .ownerAmended] ∧ e ≠ .openAdded := by decide
    exact ⟨(keepsHappenings_namesSuited P).update e he h hs.1,
      statesSuited_update h (hall e he).1 hs.1.1.held hs.2.1,
      opensShare_update h (hall e he).2 hs.2.2⟩
  client h hs :=
    ⟨(keepsHappenings_namesSuited P).client h hs.1,
      statesSuited_chain h.chain_ending (by decide) hs.1.1.held hs.2.1,
      opensShare_chain h.chain_ending (by decide) hs.2.2⟩
  serves hclient h hs :=
    ⟨(keepsHappenings_namesSuited P).serves hclient h hs.1, hs.2.1.serves hs.1.1.held hs.1.2 h,
      opensShare_chain h.chain (by decide) hs.2.2⟩
  opened {s asking owner file _ _ mode} hP hasking howner hcheck hnone hs := by
    have hparent : (none : Option StateNo) ≠ some s.states.nextNo := nofun
    -- the one case that needs the condition on the kind of the owner
    have hmade := hs.2.1.withHeld hs.1.1.held hasking (fun hmine => ⟨howner, hkind _ _ hP hmine⟩)
      .share hparent (.forgetOpen file)
    exact ⟨(keepsHappenings_namesSuited P).opened hP hasking howner hcheck hnone hs.1,
      hmade.congr rfl rfl rfl, hs.2.2.withOpen asking owner file mode⟩
  observed {s} no label refusals hs := by
    have hupdate : Update .stateAmended s (s.amendState no (·.owe (.notify label refusals))) :=
      .stateAmended s no _ fun _ => ⟨rfl, rfl, rfl⟩
    exact ⟨(keepsHappenings_namesSuited P).observed no label refusals hs.1,
      statesSuited_update hupdate (by decide) hs.1.1.held hs.2.1, hs.2.2⟩
  calledBack {s} called hasCallback hs := by
    refine ⟨(keepsHappenings_namesSuited P).calledBack called hasCallback hs.1,
      fun key no hget => ?_, hs.2.2⟩
    rw [client_calledBack Client.states fun _ _ => rfl] at hget
    obtain ⟨hmade, hsame⟩ := hs.2.1 key no hget
    refine ⟨hmade, hsame.trans ?_⟩
    exact (client_calledBack Client.isSessionBased (fun _ _ => rfl) s called hasCallback client).symm

theorem statesSuited_start (timers : Bool) (config : Config) (store : Recovery.Store)
    (wall : WallTime) (now : Nat) : (start timers config store wall now).StatesSuited client ∧
      (start timers config store wall now).OpensShare := by
  obtain ⟨sweepDue, graceDue, hstart⟩ := start_eq timers config store wall now
  rw [hstart]
  refine ⟨fun key no hget => ?_, fun file p hp => absurd hp List.not_mem_nil⟩
  exact absurd (lt_of_states_get? hget) (Nat.not_lt_zero _)

/-! ## Numbers that were had -/

/-- The state that an identifier names, if it still does, is of a numbered owner whose last number
is the given one. -/
def Spent (s : Server) (client : ClientNo) (id : StateId) (seqid : UInt32) : Prop :=
  ∀ no, (s.client client).states.get? id.key = some no →
    (s.owner (s.state no).owner).sessionBased = false ∧ (s.owner (s.state no).owner).seqid = seqid

/-- An owner does not accept its last number. -/
theorem Spent.not_presents {id : StateId} {seqid : UInt32} (hs : s.Spent client id seqid)
    {no : StateNo} : ¬ Presents s client id seqid no u := by
  intro hpresents
  obtain ⟨hnumbered, hlast⟩ := hs no hpresents.attached
  obtain ⟨accepted, haccept, -⟩ := hpresents.owner_eq
  obtain ⟨hnext, -⟩ := (Owner.accept_eq_ok_iff hnumbered).1 haccept
  rw [hlast] at hnext
  -- also where the numbers come round, the next one is another
  have hvalue := congrArg UInt32.toNat hnext
  rw [UInt32.toNat_add] at hvalue
  have hlt := seqid.toNat_lt
  simp only [UInt32.toNat_one] at hvalue
  omega

/-- It stays so while no state is attached and no owner changes. -/
theorem Spent.chain {id : StateId} {seqid : UInt32} (hs : s.Spent client id seqid) (hheld : s.Held)
    (h : Chain E s t) (hE : ∀ e ∈ E, e ∉ [Effect.attached, .ownerMade, .ownerAmended]) :
    t.Spent client id seqid := by
  refine (h.preserve (I := fun t => t.Held ∧ t.Spent client id seqid)
    (fun {e a b} he hupdate ha => ?_) ⟨hheld, hs⟩).2
  have hsafe := hE e he
  simp only [List.mem_cons, List.not_mem_nil, or_false, not_or] at hsafe
  refine ⟨held_update hupdate hsafe.1 ha.1, fun no hget => ?_⟩
  have hbefore := hupdate.states_get? hsafe.1 hget
  have howners := hupdate.owners_eq hsafe.2.1 hsafe.2.2
  rw [hupdate.state_owner_eq (ha.1 client id.key no hbefore).1, owner_congr howners]
  exact ha.2 no hbefore

/-- The owner of a state that was presented has the number. -/
theorem owner_of_presents {id : StateId} {seqid : UInt32} {no : StateNo} (hs : s.StatesSuited client)
    (hsessionless : (s.client client).isSessionBased = false)
    (h : Presents s client id seqid no u) :
    (u.owner (s.state no).owner).sessionBased = false ∧
      (u.owner (s.state no).owner).seqid = seqid := by
  obtain ⟨hmade, hsame⟩ := hs id.key no h.attached
  rw [hsessionless] at hsame
  obtain ⟨hnumbered, hseqid⟩ := seqid_of_presents h hmade hsame
  refine ⟨hnumbered, hseqid.trans ?_⟩
  unfold numberKept
  rw [if_pos rfl]

/-- A state through which locks were set was presented with a number, which its owner has since. -/
theorem spent_of_relock {id : StateId} {seqid : UInt32} {no : StateNo} (hs : s.StatesSuited client)
    (hsessionless : (s.client client).isSessionBased = false) (h : Presents s client id seqid no u)
    (locks : LockTable) : (u.relock locks no).Spent client id seqid := by
  intro other hget
  have hbefore : (s.client client).states.get? id.key = some other := by
    rw [← h.upToOwners.attached]
    exact hget
  obtain rfl : no = other := Option.some.inj (h.attached.symm.trans hbefore)
  obtain ⟨count, hstate⟩ := u.state_relock_eq locks no no
  rw [hstate, h.upToOwners.state_eq]
  have howner := owner_of_presents hs hsessionless h
  exact howner

/-- The open that a lock owner's first lock went by is still under its key, since the new lock state
bears no key of an open. -/
theorem spent_of_firstLock {file : FileId} {openId id : StateId} {openSeqid lockSeqid : UInt32}
    {name : Bytes} {opened : StateNo} {owner : OwnerNo} (hs : s.StatesSuited client)
    (hopens : s.OpensShare) (hheld : s.Held) (hsessionless : (s.client client).isSessionBased = false)
    (h : FirstLock s client file openId openSeqid name lockSeqid id t opened owner) :
    t.Spent client openId openSeqid := by
  obtain ⟨u, v, hpresents, hnamed, howners⟩ := h.named
  obtain ⟨hopened, hkey, -⟩ := hheld _ _ _ hpresents.attached
  have hother : id.key ≠ openId.key := by
    obtain ⟨m, hopen⟩ := h.onFile
    have hshare := hopens file _ hopen
    rw [hkey] at hshare
    intro hsame
    rw [← hsame, h.key, Client.nextStateKey, StateKey.kind?_ofParts] at hshare
    cases hshare
  intro other hget
  rw [h.get?, if_neg fun hsame => hother hsame.2] at hget
  obtain rfl : opened = other := Option.some.inj (hpresents.attached.symm.trans hget)
  have howner : t.owner (s.state opened).owner = u.owner (s.state opened).owner := by
    rw [owner_congr howners]
    rcases ownerNamed_eq_ok hnamed with ⟨-, rfl⟩ | ⟨-, -, rfl⟩
    · rfl
    -- an owner that is made is none that had an open before
    · have hmade := (hs openId.key opened hpresents.attached).made
      rw [← hpresents.owners_size] at hmade
      exact (owner_withOwner ..).trans (if_neg (Ledger.ne_nextNo hmade))
  rw [h.old opened hopened, howner]
  exact owner_of_presents hs hsessionless hpresents

/-- The number that a granted request for a lock bears. -/
theorem spent_of_lock (hs : s.StatesSuited client) (hopens : s.OpensShare) (hheld : s.Held)
    (hsessionless : (s.client client).isSessionBased = false) {file : FileId} {r : LockRequest}
    {reclaim : Bool} {locker : Locker} {id : StateId}
    (hok : (lock client file r reclaim locker).exec s = (.ok id, t)) :
    t.Spent client locker.given locker.number := by
  cases locker with
  | newOwner openId openSeqid name lockSeqid =>
    obtain ⟨opened, owner, hlock⟩ := lock_newOwner_eq_ok hheld hok
    exact spent_of_firstLock hs hopens hheld hsessionless hlock
  | existing lockId seqid =>
    rcases lock_existing_cases client file r reclaim lockId seqid s with
      ⟨e, _, _, hexec⟩ | ⟨no, u, locks, hpresents, _, hexec⟩
    · cases hok.symm.trans hexec
    · obtain rfl : t = u.relock locks no := congrArg Prod.snd (hok.symm.trans hexec)
      exact spent_of_relock hs hsessionless hpresents locks

/-- The number that a granted request to give a range back bears. -/
theorem spent_of_unlock (hs : s.StatesSuited client)
    (hsessionless : (s.client client).isSessionBased = false) {file : FileId}
    {lockId id : StateId} {seqid : UInt32} {r : LockRequest}
    (hok : (unlock client file lockId seqid r).exec s = (.ok id, t)) :
    t.Spent client lockId seqid := by
  rcases unlock_cases client lockId seqid r s with ⟨e, _, _, hexec⟩ | ⟨no, u, hpresents, hgiven⟩
  · cases hok.symm.trans (hexec file)
  · obtain ⟨locks, _, hexec⟩ := hgiven file
    obtain rfl : t = u.relock locks no := congrArg Prod.snd (hok.symm.trans hexec)
    exact spent_of_relock hs hsessionless hpresents locks

/-! ## Presented again -/

/-- Time has passed, or none has. -/
def Elapsed (s t : Server) : Prop := t = s ∨ ∃ nanos, t = s.elapse nanos

theorem Elapsed.chain (h : s.Elapsed t) : Chain Effect.elapsing s t := by
  rcases h with rfl | ⟨nanos, rfl⟩
  · exact .refl
  · exact chain_elapse s nanos

/-- A request is refused and leaves alone what is held, the states, what is attached and the
numbers of owners. -/
def Declines {α : Type} (s : Server) (request : Request α) : Prop :=
  ∃ e t, request.exec s = (.error e, t) ∧ s.Intact t ∧ t.owners = s.owners

/-- A request that presents a state with a number that its owner has had is refused. -/
theorem Spent.declines {α : Type} {id : StateId} {seqid : UInt32} (hs : s.Spent client id seqid)
    {opening : Request Unit} (hopening : ∀ s, Refreshed client s (s.after opening))
    (rest : StateNo → Request α) :
    s.Declines (opening >>= fun _ => present client id seqid >>= rest) := by
  rcases presenting_cases hopening id seqid s with ⟨e, t, hrefreshed, hexec⟩ | ⟨no, u, hpresents, -⟩
  · exact ⟨e, t, hexec rest, hrefreshed.upToOwners.intact, hrefreshed.owners⟩
  · exact absurd hpresents hs.not_presents

/-- While time passes, no state is attached and no owner changes. -/
theorem Spent.elapsed {id : StateId} {seqid : UInt32} (hs : s.Spent client id seqid)
    (hheld : s.Held) (h : s.Elapsed t) : t.Spent client id seqid :=
  hs.chain hheld h.chain (by decide)

/-- Whatever happened before, as long as a client without sessions asks for opens by owners of its own
kind: once a request of the client for a lock, or one that gives a range back, is granted, it is
refused when it is presented again, at whatever time, and leaves alone what is held, every state and
the numbers of all owners. -/
theorem granted_once {timers : Bool} {config : Config} {store : Recovery.Store} {wall : WallTime}
    {now : Nat}
    (hrun : Run (fun s a => a.served = true ∧ a.ByOwnKind client s)
      (start timers config store wall now) s)
    (hsessionless : (s.client client).isSessionBased = false) (file : FileId) (r : LockRequest) :
    (∀ reclaim locker id t, (lock client file r reclaim locker).exec s = (.ok id, t) →
        ∀ u, t.Elapsed u → u.Declines (lock client file r reclaim locker)) ∧
      ∀ lockId seqid id t, (unlock client file lockId seqid r).exec s = (.ok id, t) →
        ∀ u, t.Elapsed u → u.Declines (unlock client file lockId seqid r) := by
  obtain ⟨hgrounded, hsuited, hopens⟩ :
      (s.Grounded ∧ s.NamesSuited) ∧ s.StatesSuited client ∧ s.OpensShare :=
    (keepsHappenings_statesSuited fun _ _ h => h.2).run (fun _ _ h => h.1) hrun
      ⟨⟨grounded_start timers config store wall now,
          namesSuited_start timers config store wall now⟩,
        statesSuited_start timers config store wall now⟩
  constructor
  · intro reclaim locker id t hok u helapsed
    have hafter := hgrounded.1.serving (serving_lock hgrounded.1 client file r reclaim locker)
    rw [after_of_exec hok] at hafter
    -- whoever presents the state again finds its number spent
    have hspent := spent_of_lock hsuited hopens hgrounded.1.held hsessionless hok
    rw [lock_presents]
    exact (hspent.elapsed hafter.held helapsed).declines (refreshed_openLock client r reclaim) _
  · intro lockId seqid id t hok u helapsed
    have hafter := hgrounded.1.serving (serving_unlock client file lockId seqid r s)
    rw [after_of_exec hok] at hafter
    have hspent := spent_of_unlock hsuited hsessionless hok
    rw [unlock_presents]
    exact (hspent.elapsed hafter.held helapsed).declines (refreshed_openUnlock client r) _

/-- A second lock owner's first lock, a lock through the lock state of the first one, and a range
given back through it are granted once. -/
theorem granted_once_of_three :
    let openId : StateId := .ofParts ⟨1⟩ 1 .share
    let actions : List Action := [.register (.sessionless [1]), .nameOwner ⟨0⟩ [7] 0,
      .openFile ⟨0⟩ ⟨0⟩ ⟨[9]⟩ 3 0,
      .lock ⟨0⟩ ⟨[9]⟩ ⟨.write, 0, 10⟩ false (.newOwner openId 1 [8] 0)]
    let s := (start false {} default ⟨0⟩).performAll actions
    let range : LockRequest := ⟨.write, 20, 10⟩
    let lockId : StateId := ⟨.ofParts ⟨1⟩ 2 .byteLock, 1⟩
    let first := lock ⟨0⟩ ⟨[9]⟩ range false (.newOwner openId 2 [11] 4294967295)
    let further := lock ⟨0⟩ ⟨[9]⟩ range false (.existing lockId 1)
    let back := unlock ⟨0⟩ ⟨[9]⟩ lockId 1 range
    (s.client ⟨0⟩).isSessionBased = false ∧
      ((first.exec s).1 = .ok ⟨.ofParts ⟨1⟩ 3 .byteLock, 1⟩ ∧
        ((first.exec s).2.elapse 5_000_000_000).Declines first) ∧
      ((further.exec s).1 = .ok ⟨.ofParts ⟨1⟩ 2 .byteLock, 2⟩ ∧
        ((further.exec s).2.elapse 5_000_000_000).Declines further) ∧
      ((back.exec s).1 = .ok ⟨.ofParts ⟨1⟩ 2 .byteLock, 2⟩ ∧
        ((back.exec s).2.elapse 5_000_000_000).Declines back) := by
  intro openId actions s range lockId first further back
  have hrun : Run (fun s a => a.served = true ∧ a.ByOwnKind ⟨0⟩ s)
      (start false {} default ⟨0⟩) s := by
    refine run_performAll_of_steps fun i hi => ?_
    match i, hi with
    | 0, _ => exact ⟨rfl, trivial⟩
    | 1, _ => exact ⟨rfl, trivial⟩
    | 2, _ =>
      -- the open is the one action on which the run has to be computed
      have hnumbered : ∀ s, s = (start false {} default ⟨0⟩).performAll (actions.take 2) →
          (s.owner ⟨0⟩).sessionBased = (s.client ⟨0⟩).isSessionBased := by
        rintro _ rfl
        decide +kernel
      exact ⟨rfl, fun _ => hnumbered _ rfl⟩
    | 3, _ => exact ⟨rfl, trivial⟩
  have hsessionless : (s.client ⟨0⟩).isSessionBased = false := by decide +kernel
  obtain ⟨hlock, hunlock⟩ := granted_once hrun hsessionless ⟨[9]⟩ range
  have hfirst : (first.exec s).1 = .ok ⟨.ofParts ⟨1⟩ 3 .byteLock, 1⟩ := by decide +kernel
  have hfurther : (further.exec s).1 = .ok ⟨.ofParts ⟨1⟩ 2 .byteLock, 2⟩ := by decide +kernel
  have hback : (back.exec s).1 = .ok ⟨.ofParts ⟨1⟩ 2 .byteLock, 2⟩ := by decide +kernel
  have hlater (t : Server) : t.Elapsed (t.elapse 5_000_000_000) := .inr ⟨5_000_000_000, rfl⟩
  have hgranted {request : Request StateId} {id : StateId} (h : (request.exec s).1 = .ok id) :
      request.exec s = (.ok id, (request.exec s).2) := Prod.ext h rfl
  refine ⟨hsessionless, ⟨hfirst, ?_⟩, ⟨hfurther, ?_⟩, hback, ?_⟩
  · exact hlock _ _ _ _ (hgranted hfirst) _ (hlater _)
  · exact hlock _ _ _ _ (hgranted hfurther) _ (hlater _)
  · exact hunlock _ _ _ _ (hgranted hback) _ (hlater _)

/-- A client without sessions has a file open under the record of an owner of a client that has
sessions. Owners of that kind have no numbers to refuse, so that the same request for a first lock
is granted twice and leaves two lock states. -/
theorem granted_twice_under_other_kind :
    let openId : StateId := .ofParts ⟨1⟩ 1 .share
    let empty := start false {} default ⟨0⟩
    let s := empty.performAll [.register (.sessionless [1]), .register (.ofOwner [2]),
      .nameOwner ⟨1⟩ [7] 0, .openFile ⟨0⟩ ⟨0⟩ ⟨[9]⟩ 3 0]
    let first := lock ⟨0⟩ ⟨[9]⟩ ⟨.write, 0, 10⟩ false (.newOwner openId 1 [8] 0)
    let t := (first.exec s).2
    Run (fun _ a => a.served = true) empty s ∧ (s.client ⟨0⟩).isSessionBased = false ∧
      (first.exec s).1 = .ok ⟨.ofParts ⟨1⟩ 2 .byteLock, 1⟩ ∧
      (first.exec t).1 = .ok ⟨.ofParts ⟨1⟩ 3 .byteLock, 1⟩ ∧
      t.Elapsed t ∧ ¬ t.Declines first := by
  intro openId empty s first t
  have hrun : Run (fun _ a => a.served = true) empty s := by
    refine run_performAll fun a ha _ => ?_
    simp only [List.mem_cons, List.not_mem_nil, or_false] at ha
    rcases ha with rfl | rfl | rfl | rfl
    all_goals rfl
  have hagain : (first.exec t).1 = .ok ⟨.ofParts ⟨1⟩ 3 .byteLock, 1⟩ := by decide +kernel
  refine ⟨hrun, by decide +kernel, by decide +kernel, hagain, .inl rfl, ?_⟩
  rintro ⟨e, u, hrefused, -⟩
  rw [hrefused] at hagain
  cases hagain

end Server

end Leasehold

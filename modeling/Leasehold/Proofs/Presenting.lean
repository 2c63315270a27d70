import Leasehold.Proofs.Serving
import Leasehold.Proofs.StateLinks

/-!
# Proofs.Presenting — presenting a state and the next number of its owner

A request for a lock, by a lock owner's first lock or through a lock state, and one that
gives a range back have one thing in common: after the range, the grace period and the
lease they present a state of the client together with a request number, and go on only
if the state is current and its owner accepts the number.

* `Server.UpToOwners`, `Server.Intact` — what a request leaves alone until then, and what
  one that is refused leaves alone;
* `Request.presenting_cases` — a request of this kind is refused by then, or it goes on
  from a server on which the owner has the number;
* `Request.lock_presents`, `Request.unlock_presents` — the requests are of this kind;
* `Request.lock_existing_cases`, `Request.unlock_cases`, `Request.lock_newOwner_eq_ok` —
  what comes of the state that was presented.
-/

namespace Leasehold

/-- The identifier that a request for a lock presents: that of an open, or of a lock state. -/
def Locker.given : Locker → StateId
  | .newOwner openId .. => openId
  | .existing lockId _ => lockId

/-- The number that the request bears for the owner of the state that it presents. -/
def Locker.number : Locker → UInt32
  | .newOwner _ openSeqid .. => openSeqid
  | .existing _ lockSeqid => lockSeqid

namespace Server

variable {s t u : Server} {client : ClientNo}

/-! ## What is left alone -/

/-- What is held, the states and what every client has attached are as they were. -/
structure Intact (s t : Server) : Prop where
  locks : t.locks = s.locks
  states : t.states = s.states
  attached : ∀ client, (t.client client).states = (s.client client).states

/-- Nothing but leases, owners and the names of owners is touched. -/
structure UpToOwners (s t : Server) : Prop where
  locks : t.locks = s.locks
  opens : t.opens = s.opens
  states : t.states = s.states
  size : t.clients.size = s.clients.size
  client : ∀ c, ∃ lease owners, t.client c = { s.client c with lease, owners }

namespace UpToOwners

theorem refl (s : Server) : s.UpToOwners s := ⟨rfl, rfl, rfl, rfl, fun _ => ⟨_, _, rfl⟩⟩

/-- What touches nothing but owners does so one after the other. -/
theorem trans (h : s.UpToOwners t) (h' : t.UpToOwners u) : s.UpToOwners u := by
  refine ⟨h'.locks.trans h.locks, h'.opens.trans h.opens, h'.states.trans h.states,
    h'.size.trans h.size, fun c => ?_⟩
  obtain ⟨lease, owners, hfirst⟩ := h.client c
  obtain ⟨lease', owners', hlast⟩ := h'.client c
  exact ⟨lease', owners', by rw [hlast, hfirst]⟩

/-- What is attached to clients is not touched. -/
theorem attached (h : s.UpToOwners t) (c : ClientNo) :
    (t.client c).states = (s.client c).states := by
  obtain ⟨lease, owners, hsame⟩ := h.client c
  rw [hsame]

theorem clientId (h : s.UpToOwners t) (c : ClientNo) : (t.client c).id = (s.client c).id := by
  obtain ⟨lease, owners, hsame⟩ := h.client c
  rw [hsame]

/-- Whatever touches nothing but owners leaves intact what is held. -/
theorem intact (h : s.UpToOwners t) : s.Intact t := ⟨h.locks, h.states, h.attached⟩

/-- States are not touched, and so have the owners they had. -/
theorem state_eq (h : s.UpToOwners t) (no : StateNo) : t.state no = s.state no :=
  congrArg (·.get no) h.states

end UpToOwners

/-- The server once locks were set on behalf of a state, which counts as a change of it. -/
def relock (s : Server) (locks : LockTable) (no : StateNo) : Server :=
  ({ s with locks }).amendState no .bump

/-- Setting locks on behalf of a state counts on it, and on no other. -/
theorem state_relock (s : Server) (locks : LockTable) (no other : StateNo) :
    (s.relock locks no).state other =
      if other = no ∧ no.value < s.states.size then (s.state other).bump else s.state other :=
  state_amendState ..

/-- All that changes of a state is how often it has changed. -/
theorem state_relock_eq (s : Server) (locks : LockTable) (no other : StateNo) :
    ∃ seqid, (s.relock locks no).state other =
      { s.state other with id := { (s.state other).id with seqid } } := by
  rw [state_relock]
  split
  · exact ⟨_, rfl⟩
  · exact ⟨_, rfl⟩

theorem states_size_relock (s : Server) (locks : LockTable) (no : StateNo) :
    (s.relock locks no).states.size = s.states.size := Ledger.size_modify ..

/-- The owner of locks that a state of a client stands for. -/
def lockOwner (s : Server) (client : ClientNo) (no : StateNo) : LockOwner :=
  ⟨(s.client client).id, (s.owner (s.state no).owner).name⟩

/-- The lease of the client was renewed, or nothing was done. -/
def Refreshed (client : ClientNo) (s t : Server) : Prop :=
  t = s ∨ t = s.amendClient client (·.refreshLease s.now)

namespace Refreshed

theorem owners (h : Refreshed client s t) : t.owners = s.owners := by
  rcases h with rfl | rfl
  · rfl
  · rfl

/-- Nothing but the lease is touched on the records of clients. -/
theorem client_eq (h : Refreshed client s t) (c : ClientNo) :
    ∃ lease, t.client c = { s.client c with lease } := by
  rcases h with rfl | rfl
  · exact ⟨_, rfl⟩
  · rw [client_amendClient]
    split
    · exact ⟨_, rfl⟩
    · exact ⟨_, rfl⟩

/-- A renewed lease is nothing that would be touched. -/
theorem upToOwners (h : Refreshed client s t) : s.UpToOwners t := by
  have hclient (c : ClientNo) : ∃ lease owners, t.client c = { s.client c with lease, owners } := by
    obtain ⟨lease, hsame⟩ := h.client_eq c
    exact ⟨lease, _, hsame⟩
  rcases h with rfl | rfl
  · exact .refl _
  · exact ⟨rfl, rfl, rfl, Ledger.size_modify .., hclient⟩

end Refreshed

end Server

namespace Request

open Server

variable {α β : Type} {s t u : Server} {client : ClientNo} {file : FileId} {r : LockRequest}

/-- Only a client without sessions has its lease renewed here. -/
theorem refreshed_renewIfSessionless (client : ClientNo) (s : Server) :
    Refreshed client s (s.after (renewIfSessionless client)) := by
  rw [after_eq_exec]
  unfold renewIfSessionless renewLease
  rw [exec_get_bind]
  split
  · exact .inl rfl
  · rw [exec_get_bind]
    split
    · exact .inr rfl
    · exact .inl rfl

/-! ## Presenting a state -/

/-- The current state of a client that an identifier names, whose owner accepts a request number. -/
def present (client : ClientNo) (id : StateId) (seqid : UInt32) : Request StateNo := do
  let no ← currentStateOf client id
  acceptSeqid ((← get).state no).owner seqid
  pure no

/-- A state is presented with success: it is attached and current, the lease may be renewed, and the
owner accepts the number. -/
structure Presents (s : Server) (client : ClientNo) (id : StateId) (seqid : UInt32) (no : StateNo)
    (u : Server) : Prop where
  attached : (s.client client).states.get? id.key = some no
  current : (s.state no).id.check id = .ok ()
  accepted : ∃ t owner, Refreshed client s t ∧
    (s.owner (s.state no).owner).accept seqid = .ok owner ∧
      u = t.amendOwner (s.state no).owner fun _ => owner

namespace Presents

variable {id : StateId} {seqid : UInt32} {no : StateNo}

/-- Whoever has a state attached was made. -/
theorem client_lt (h : Presents s client id seqid no u) : client.value < s.clients.size :=
  lt_of_states_get? h.attached

/-- Nothing but the lease is touched on the records of clients. -/
theorem client_eq (h : Presents s client id seqid no u) (c : ClientNo) :
    ∃ lease, u.client c = { s.client c with lease } := by
  obtain ⟨t, owner, hrefreshed, -, rfl⟩ := h.accepted
  exact hrefreshed.client_eq c

/-- To present a state touches its owner and a lease, and nothing else. -/
theorem upToOwners (h : Presents s client id seqid no u) : s.UpToOwners u := by
  obtain ⟨t, owner, hrefreshed, -, rfl⟩ := h.accepted
  obtain ⟨hlocks, hopens, hstates, hsize, hclients⟩ := hrefreshed.upToOwners
  exact ⟨hlocks, hopens, hstates, hsize, hclients⟩

/-- The owner of the state has accepted the number, and the others are as they were. -/
theorem owner_eq (h : Presents s client id seqid no u) :
    ∃ accepted, (s.owner (s.state no).owner).accept seqid = .ok accepted ∧
      ∀ other : OwnerNo, other.value < s.owners.size →
        u.owner other = if (s.state no).owner = other then accepted else s.owner other := by
  obtain ⟨t, accepted, hrefreshed, haccept, rfl⟩ := h.accepted
  refine ⟨accepted, haccept, fun other hmade => ?_⟩
  rw [owner_amendOwner, hrefreshed.owners]
  by_cases hsame : (s.state no).owner = other
  · rw [if_pos ⟨hsame.symm, by rw [hsame]; exact hmade⟩, if_pos hsame]
  · rw [if_neg fun h => hsame h.1.symm, if_neg hsame]
    exact owner_congr hrefreshed.owners other

/-- No owner is made on the way. -/
theorem owners_size (h : Presents s client id seqid no u) : u.owners.size = s.owners.size := by
  obtain ⟨t, owner, hrefreshed, -, rfl⟩ := h.accepted
  rw [← hrefreshed.owners]
  exact Ledger.size_modify ..

/-- Owners keep their names on the way. -/
theorem owner_name (h : Presents s client id seqid no u) (other : OwnerNo) :
    (u.owner other).name = (s.owner other).name := by
  obtain ⟨t, accepted, hrefreshed, haccept, rfl⟩ := h.accepted
  rw [owner_amendOwner, owner_congr hrefreshed.owners]
  split
  · rename_i hsame
    rw [hsame.1]
    exact name_of_accept haccept
  · rfl

/-- The owners of locks keep their names on the way. -/
theorem lockOwner_eq (h : Presents s client id seqid no u) (other : StateNo) :
    u.lockOwner client other = s.lockOwner client other := by
  unfold lockOwner
  rw [h.upToOwners.clientId, h.upToOwners.state_eq, h.owner_name]

end Presents

/-- A state that is refused leaves the server as it is. -/
theorem present_cases (hrefreshed : Refreshed client s t) (id : StateId) (seqid : UInt32) :
    (∃ e, (present client id seqid).exec t = (.error e, t)) ∨
      ∃ no u, Presents s client id seqid no u ∧ (present client id seqid).exec t = (.ok no, u) := by
  have hsame := hrefreshed.upToOwners
  unfold present
  rw [exec_bind, exec_currentStateOf, hsame.attached]
  cases hget : (s.client client).states.get? id.key with
  | none => exact .inl ⟨_, rfl⟩
  | some no =>
    dsimp only
    rw [hsame.state_eq]
    cases hcheck : (s.state no).id.check id with
    | error e => exact .inl ⟨e, rfl⟩
    | ok _ =>
      dsimp only
      -- a renewed lease leaves the owner that takes the number
      have howner : t.owner (t.state no).owner = s.owner (s.state no).owner := by
        rw [hsame.state_eq, owner_congr hrefreshed.owners]
      rw [exec_get_bind, exec_bind, exec_acceptSeqid, howner, hsame.state_eq]
      cases haccept : (s.owner (s.state no).owner).accept seqid with
      | error e => exact .inl ⟨e, rfl⟩
      | ok owner =>
        exact .inr ⟨no, _, ⟨hget, hcheck, t, owner, hrefreshed, haccept, rfl⟩, rfl⟩

/-- A request that presents a state after no more than a renewal is refused by then, or goes on with
the state, whatever is to come. -/
theorem presenting_cases {opening : Request Unit} {client : ClientNo}
    (hopening : ∀ s, Refreshed client s (s.after opening)) (id : StateId) (seqid : UInt32)
    (s : Server) :
    (∃ e t, Refreshed client s t ∧ ∀ {α : Type} (rest : StateNo → Request α),
      (opening >>= fun _ => present client id seqid >>= rest).exec s = (.error e, t)) ∨
      ∃ no u, Presents s client id seqid no u ∧ ∀ {α : Type} (rest : StateNo → Request α),
        (opening >>= fun _ => present client id seqid >>= rest).exec s = (rest no).exec u := by
  have hrefreshed := hopening s
  rw [after_eq_exec] at hrefreshed
  -- a refusal of either part is the answer, whatever was to follow
  rcases hexec : opening.exec s with ⟨e | _, t⟩
  · rw [hexec] at hrefreshed
    refine .inl ⟨e, t, hrefreshed, fun rest => ?_⟩
    rw [exec_bind, hexec]
  · rw [hexec] at hrefreshed
    rcases present_cases hrefreshed id seqid with ⟨e, hpresent⟩ | ⟨no, u, hpresents, hpresent⟩
    · refine .inl ⟨e, t, hrefreshed, fun rest => ?_⟩
      rw [exec_bind, hexec]
      dsimp only
      rw [exec_bind, hpresent]
    · refine .inr ⟨no, u, hpresents, fun rest => ?_⟩
      rw [exec_bind, hexec]
      dsimp only
      rw [exec_bind, hpresent]

/-! ## Requests for locks -/

/-- What a request for a lock does before it presents a state. -/
def openLock (client : ClientNo) (r : LockRequest) (reclaim : Bool) : Request Unit := do
  ofExcept r.checkRange
  checkGrace client reclaim
  renewIfSessionless client

/-- What a request that gives a range back does before it presents a state. -/
def openUnlock (client : ClientNo) (r : LockRequest) : Request Unit := do
  ofExcept r.checkRange
  renewIfSessionless client

/-- The lock state of a request that presented a state, and whether it was made for it. -/
def lockStateOn (client : ClientNo) (file : FileId) (no : StateNo) :
    Locker → Request (StateNo × Bool)
  | .newOwner _ _ name lockSeqid => do
    let owner ← ownerNamed client name lockSeqid
    let lockState ← createState client owner .byteLock (some no)
    owe lockState (.unlockAll file ⟨((← get).client client).id, name⟩)
    owe no (.endDerived lockState client)
    pure (lockState, true)
  | .existing .. => pure (no, false)

/-- What is left to do once the state whose range is given back is known. -/
def unlockThrough (client : ClientNo) (file : FileId) (r : LockRequest) (no : StateNo) :
    Request StateId := do
  let owner ← lockOwnerOf client no
  updateLocks .unlock (·.unlockIfHeld file (r.toLock owner))
  bumpState no

theorem refreshed_openLock (client : ClientNo) (r : LockRequest) (reclaim : Bool) (s : Server) :
    Refreshed client s (s.after (openLock client r reclaim)) := by
  rw [after_eq_exec]
  unfold openLock
  rw [exec_bind, exec_ofExcept]
  cases r.checkRange with
  | error e => exact .inl rfl
  | ok _ =>
    dsimp only
    have hsame := eq_of_chain_nil (does_checkGrace client reclaim s)
    rw [exec_bind]
    rcases hexec : (checkGrace client reclaim).exec s with ⟨_ | _, t⟩
    · rw [hexec] at hsame
      exact .inl hsame
    · rw [hexec] at hsame
      obtain rfl : t = s := hsame
      exact refreshed_renewIfSessionless client t

theorem refreshed_openUnlock (client : ClientNo) (r : LockRequest) (s : Server) :
    Refreshed client s (s.after (openUnlock client r)) := by
  rw [after_eq_exec]
  unfold openUnlock
  rw [exec_bind, exec_ofExcept]
  cases r.checkRange with
  | error e => exact .inl rfl
  | ok _ => exact refreshed_renewIfSessionless client s

/-- A request for a lock presents a state, finds its lock state, and goes through that. -/
theorem lock_presents (client : ClientNo) (file : FileId) (r : LockRequest) (reclaim : Bool)
    (locker : Locker) : lock client file r reclaim locker = (openLock client r reclaim >>= fun _ =>
      present client locker.given locker.number >>= fun no =>
        lockStateOn client file no locker >>= fun p => lockThrough client file r p.1 p.2) := by
  rw [lock_eq]
  unfold openLock present
  cases locker with
  | newOwner openId openSeqid name lockSeqid =>
    simp only [lockStateFor, makeLockState, lockStateOn, Locker.given, Locker.number, bind_assoc,
      pure_bind]
  | existing lockId lockSeqid =>
    simp only [lockStateFor, lockStateOn, Locker.given, Locker.number, bind_assoc, pure_bind]

/-- A request that gives a range back presents a lock state, and goes through it. -/
theorem unlock_presents (client : ClientNo) (file : FileId) (lockId : StateId) (seqid : UInt32)
    (r : LockRequest) : unlock client file lockId seqid r = (openUnlock client r >>= fun _ =>
      present client lockId seqid >>= unlockThrough client file r) := by
  unfold unlock openUnlock present unlockThrough
  simp only [bind_assoc, pure_bind]

/-! ## Locks through a state that is there -/

/-- A lock state that is presented is the one to go by. -/
theorem exec_lockStateOn_existing (client : ClientNo) (file : FileId) (no : StateNo)
    (lockId : StateId) (seqid : UInt32) (u : Server) :
    (lockStateOn client file no (.existing lockId seqid)).exec u = (.ok (no, false), u) := rfl

/-- A lock through a state that is there is refused and leaves alone what is held and attached, or
it is granted on a file with an open that the state stands for. -/
theorem lock_existing_cases (client : ClientNo) (file : FileId) (r : LockRequest) (reclaim : Bool)
    (lockId : StateId) (seqid : UInt32) (s : Server) :
    (∃ e u, s.Intact u ∧
      (lock client file r reclaim (.existing lockId seqid)).exec s = (.error e, u)) ∨
      ∃ no u locks, Presents s client lockId seqid no u ∧
        (∃ m, (m, (s.state ((s.state no).parent.getD no)).id.key) ∈ s.opens.states file) ∧
        (lock client file r reclaim (.existing lockId seqid)).exec s =
          (.ok ((u.relock locks no).state no).id, u.relock locks no) := by
  rcases presenting_cases (refreshed_openLock client r reclaim) lockId seqid s with
    ⟨e, t, hrefreshed, hexec⟩ | ⟨no, u, hpresents, hexec⟩
  · refine .inl ⟨e, t, hrefreshed.upToOwners.intact, ?_⟩
    rw [lock_presents]
    exact hexec _
  -- the state that is presented is the lock state, and nothing is made
  have hthrough : (lock client file r reclaim (.existing lockId seqid)).exec s =
      (lockThrough client file r no false).exec u := by
    rw [lock_presents]
    refine (hexec _).trans ?_
    rw [exec_bind, exec_lockStateOn_existing]
  have hsame := hpresents.upToOwners
  have houtcome := outcome_lockThrough client file r no false u
  rw [hthrough]
  generalize (lockThrough client file r no false).exec u = result at houtcome
  cases houtcome with
  | @granted _ m locks hopen _ =>
    rw [hsame.state_eq, hsame.state_eq, hsame.opens] at hopen
    exact .inr ⟨no, u, locks, hpresents, ⟨m, hopen⟩, rfl⟩
  | refused => exact .inl ⟨_, u, hsame.intact, rfl⟩

/-- What is left of a request that gives a range back is refused on every file, or granted on every
file. -/
theorem unlockThrough_cases (client : ClientNo) (r : LockRequest) (no : StateNo) (u : Server) :
    (∃ e, ∀ file, (unlockThrough client file r no).exec u = (.error e, u)) ∨
      ∀ file, ∃ locks, u.locks.unlockIfHeld file (r.toLock (u.lockOwner client no)) = .ok locks ∧
        (unlockThrough client file r no).exec u =
          (.ok ((u.relock locks no).state no).id, u.relock locks no) := by
  have howner : (lockOwnerOf client no).exec u = (.ok (u.lockOwner client no), u) := rfl
  unfold unlockThrough
  simp only [exec_bind, howner, exec_updateLocks, callLocks]
  cases u.faults.locks.lookup LockCall.unlock with
  | some e => exact .inl ⟨.ofLock e, fun _ => rfl⟩
  | none =>
    -- the file plays no part until the table is asked
    refine .inr fun file => ?_
    obtain ⟨locks, hok, -⟩ :=
      u.locks.unlockIfHeld_cases file (r.toLock (u.lockOwner client no))
    refine ⟨locks, hok, ?_⟩
    dsimp only
    rw [hok]
    rfl

/-- Whether a range is taken back does not depend on the file: either the request is refused on
every file, or on each the range is taken from the locks that the owner of the state has there. -/
theorem unlock_cases (client : ClientNo) (lockId : StateId) (seqid : UInt32) (r : LockRequest)
    (s : Server) :
    (∃ e u, s.Intact u ∧ ∀ file, (unlock client file lockId seqid r).exec s = (.error e, u)) ∨
      ∃ no u, Presents s client lockId seqid no u ∧ ∀ file, ∃ locks,
        s.locks.unlockIfHeld file (r.toLock (s.lockOwner client no)) = .ok locks ∧
          (unlock client file lockId seqid r).exec s =
            (.ok ((u.relock locks no).state no).id, u.relock locks no) := by
  simp only [unlock_presents]
  rcases presenting_cases (refreshed_openUnlock client r) lockId seqid s with
    ⟨e, t, hrefreshed, hexec⟩ | ⟨no, u, hpresents, hexec⟩
  · exact .inl ⟨e, t, hrefreshed.upToOwners.intact, fun _ => hexec _⟩
  simp only [hexec]
  rcases unlockThrough_cases client r no u with ⟨e, hrefused⟩ | hgranted
  · exact .inl ⟨e, u, hpresents.upToOwners.intact, hrefused⟩
  · rw [hpresents.lockOwner_eq, hpresents.upToOwners.locks] at hgranted
    exact .inr ⟨no, u, hpresents, hgranted⟩

/-! ## First locks of lock owners -/

/-- The owner of a name is there, or is made with the number. -/
theorem ownerNamed_eq_ok {u v : Server} {name : Bytes} {seqid : UInt32} {owner : OwnerNo}
    (h : (ownerNamed client name seqid).exec u = (.ok owner, v)) :
    (u.client client).owners.get? name = some owner ∧ v = u ∨
      (u.client client).owners.get? name = none ∧ owner = u.owners.nextNo ∧
        v = u.withOwner client name seqid := by
  rw [exec_ownerNamed] at h
  -- the name is known, or the owner is made for it
  cases hget : (u.client client).owners.get? name with
  | some no =>
    rw [hget] at h
    simp only [Prod.mk.injEq, Except.ok.injEq] at h
    rw [h.1, h.2]
    simp
  | none =>
    rw [hget] at h
    simp only [Prod.mk.injEq, Except.ok.injEq] at h
    simp [h.1, h.2]

/-- A name for a new owner touches nothing but owners and names. -/
theorem ownerNamed_upToOwners {u v : Server} {name : Bytes} {seqid : UInt32} {owner : OwnerNo}
    (h : (ownerNamed client name seqid).exec u = (.ok owner, v)) : u.UpToOwners v := by
  rcases ownerNamed_eq_ok h with ⟨-, rfl⟩ | ⟨-, -, rfl⟩
  · exact .refl _
  · refine ⟨rfl, rfl, rfl, Ledger.size_modify .., fun c => ?_⟩
    rw [client_withOwner]
    split
    · exact ⟨_, _, rfl⟩
    · exact ⟨_, _, rfl⟩

/-- A lock owner's first lock makes a lock state, derived from the state that was presented. -/
theorem exec_lockStateOn_newOwner {u : Server} (hclient : client.value < u.clients.size)
    (file : FileId) (no : StateNo) (openId : StateId) (openSeqid : UInt32) (name : Bytes)
    (lockSeqid : UInt32) :
    ∃ owner v, (ownerNamed client name lockSeqid).exec u = (.ok owner, v) ∧
      (lockStateOn client file no (.newOwner openId openSeqid name lockSeqid)).exec u =
        (.ok (v.states.nextNo, true), v.withHeld client owner .byteLock (some no)
          (.unlockAll file ⟨(v.client client).id, name⟩)) := by
  obtain ⟨owner, v, hexec, hserving, _⟩ := ownerNamed_outcome hclient name lockSeqid
  have hclient' : client.value < v.clients.size :=
    Nat.lt_of_lt_of_le hclient hserving.chain.clients_size_le
  refine ⟨owner, v, hexec, ?_⟩
  unfold lockStateOn
  rw [exec_bind, hexec,
    ← (v.chain_withState client owner .byteLock (some no)).client_id_eq hclient']
  rfl

/-- A lock that is granted sets locks, and its state stands for an open of the file. -/
theorem lockThrough_eq_ok {no : StateNo} {isNew : Bool} {id : StateId}
    (h : (lockThrough client file r no isNew).exec u = (.ok id, t)) :
    (∃ locks, t = u.relock locks no) ∧ id = (t.state no).id ∧
      ∃ m, (m, (t.state ((t.state no).parent.getD no)).id.key) ∈ t.opens.states file := by
  have houtcome := outcome_lockThrough client file r no isNew u
  rw [h] at houtcome
  generalize hresult : (Except.ok id, t) = result at houtcome
  cases houtcome with
  | @granted _ m locks hopen _ =>
    injection hresult with hid ht
    injection hid with hid
    obtain rfl : t = u.relock locks no := ht
    refine ⟨⟨locks, rfl⟩, hid, m, ?_⟩
    -- setting the locks counts on the state, which keeps its key and parent
    obtain ⟨seqid, hno⟩ := u.state_relock_eq locks no no
    rw [hno]
    obtain ⟨seqid', hopened⟩ := u.state_relock_eq locks no ((u.state no).parent.getD no)
    rw [hopened]
    exact hopen
  | refused => cases hresult
  | released => cases hresult

/-- A lock state is made for an owner: it goes by the state of an open, and its identifier is the
one that the client numbers next. -/
structure Derived (s : Server) (client : ClientNo) (opened : StateNo) (owner : OwnerNo)
    (id : StateId) (t : Server) : Prop where
  size : t.states.size = s.states.size + 1
  key : id.key = (s.client client).nextStateKey .byteLock
  bears : (t.state s.states.nextNo).id = id
  owned : (t.state s.states.nextNo).owner = owner
  parent : (t.state s.states.nextNo).parent = some opened
  /-- The state of the open comes to owe the end of the lock state. -/
  old : ∀ no : StateNo, no.value < s.states.size → t.state no = { s.state no with
    owed := (s.state no).owed ++
      if some opened = some no then [.endDerived s.states.nextNo client] else [] }
  get? : ∀ c key, (t.client c).states.get? key =
    if c = client ∧ id.key = key then some s.states.nextNo else (s.client c).states.get? key

theorem derived_relock (hsame : s.UpToOwners u) (hclient : client.value < s.clients.size)
    {opened : StateNo} (hopened : opened.value < s.states.size) (owner : OwnerNo)
    (step : ReleaseStep) (locks : LockTable)
    (ht : t = (u.withHeld client owner .byteLock (some opened) step).relock locks s.states.nextNo) :
    Derived s client opened owner (t.state s.states.nextNo).id t := by
  rw [← hsame.size] at hclient
  -- the state that is derived from is an old one
  have hne : some opened ≠ some u.states.nextNo := by
    rw [hsame.states]
    exact fun h => Ledger.ne_nextNo hopened (Option.some.inj h)
  have hnew := state_withHeld_new hclient owner .byteLock hne step
  have hmade := u.nextNo_lt_withHeld client owner .byteLock (some opened) step
  have hkey : (u.client client).nextStateKey .byteLock =
      (s.client client).nextStateKey .byteLock := by
    obtain ⟨lease, owners, hclient⟩ := hsame.client client
    rw [hclient]
    rfl
  rw [hsame.states, hkey] at hnew
  rw [hsame.states] at hmade
  have hstate : t.state s.states.nextNo =
      ((u.withHeld client owner .byteLock (some opened) step).state s.states.nextNo).bump := by
    rw [ht, state_relock, if_pos ⟨rfl, hmade⟩]
  refine ⟨?_, ?_, rfl, ?_, ?_, fun no hno => ?_, fun c key => ?_⟩
  · rw [ht, states_size_relock, states_size_withHeld, hsame.states]
  · rw [hstate, hnew]
    rfl
  · rw [hstate, hnew]
    rfl
  · rw [hstate, hnew]
    rfl
  -- older states are neither counted on nor made anew
  · have hold : no.value < u.states.size := by
      rw [hsame.states]
      exact hno
    rw [ht, state_relock, if_neg fun h => Ledger.ne_nextNo hno h.1,
      state_withHeld_old hclient owner .byteLock (some opened) step hold, hsame.state_eq,
      hsame.states]
  · have hget := get?_withHeld hclient owner .byteLock (some opened) step c key
    rw [hkey, hsame.states, hsame.attached] at hget
    rw [hstate, hnew, ht]
    exact hget

/-- How a lock owner's first lock was granted through an open: the owner of the open took the
number, the lock owner is named, and a lock state is made that goes by the open. -/
structure FirstLock (s : Server) (client : ClientNo) (file : FileId) (openId : StateId)
    (openSeqid : UInt32) (name : Bytes) (lockSeqid : UInt32) (id : StateId) (t : Server)
    (opened : StateNo) (owner : OwnerNo) : Prop extends Derived s client opened owner id t where
  /-- The number is accepted first, then the owner is named. -/
  named : ∃ u v, Presents s client openId openSeqid opened u ∧
    (ownerNamed client name lockSeqid).exec u = (.ok owner, v) ∧ t.owners = v.owners
  /-- The state that was presented stands for an open of the file. -/
  onFile : ∃ m, (m, (s.state opened).id.key) ∈ s.opens.states file

/-- A lock owner's first lock, if it is granted, is granted through an open that was presented. -/
theorem lock_newOwner_eq_ok {reclaim : Bool} {openId id : StateId} {openSeqid lockSeqid : UInt32}
    {name : Bytes} (hheld : s.Held)
    (h : (lock client file r reclaim (.newOwner openId openSeqid name lockSeqid)).exec s =
      (.ok id, t)) :
    ∃ opened owner, FirstLock s client file openId openSeqid name lockSeqid id t opened owner := by
  rw [lock_presents] at h
  rcases presenting_cases (refreshed_openLock client r reclaim) openId openSeqid s with
    ⟨e, u, _, hexec⟩ | ⟨opened, u, hpresents, hexec⟩
  · cases h.symm.trans (hexec _)
  have hpresented := hpresents.upToOwners
  have hclient : client.value < u.clients.size := by
    rw [hpresented.size]
    exact hpresents.client_lt
  obtain ⟨owner, v, hnamed, hmade⟩ :=
    exec_lockStateOn_newOwner hclient file opened openId openSeqid name lockSeqid
  have hsame := hpresented.trans (ownerNamed_upToOwners hnamed)
  have hopened : opened.value < s.states.size := (hheld _ _ _ hpresents.attached).1
  -- what is left to do sets locks and counts the change on the new state, whatever the locks are
  have hthrough := (hexec _).symm.trans h
  rw [exec_bind, hmade, hsame.states] at hthrough
  obtain ⟨⟨locks, ht⟩, rfl, m, hopen⟩ := lockThrough_eq_ok hthrough
  have hderived := derived_relock hsame hpresents.client_lt hopened owner _ locks ht
  obtain ⟨howners, hopens, -, -⟩ := v.rest_withHeld client owner .byteLock (some opened)
    (.unlockAll file ⟨(v.client client).id, name⟩)
  refine ⟨opened, owner, hderived, ⟨u, v, hpresents, hnamed, ?_⟩, m, ?_⟩
  · rw [ht]
    exact howners
  · rw [hderived.parent, Option.getD_some, hderived.old opened hopened] at hopen
    rw [← hsame.opens, ← hopens]
    rw [ht] at hopen
    exact hopen

end Request

end Leasehold

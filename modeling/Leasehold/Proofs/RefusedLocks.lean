import Mathlib.Control.Monad.Basic
import Leasehold.Proofs.StateLinks

/-!
# Proofs.RefusedLocks — what a refused lock leaves

A lock owner's first lock makes a lock state before it is known whether the lock can
be had. If it cannot, the new state is released, and a lock state that is released
gives back the owner's whole file: not only what came with it, but also what the owner
had locked there through an older lock state.

* `LockTable.locks_of_unlockIfHeld_everything` — what giving everything back leaves of
  every file;
* `Server.RolledBack` — the server after a new lock state is released again;
* `Server.refused_lock_cases` — a refused request leaves everything that is held, or it
  is rolled back in this way;
* `Server.refused_lock_keeps_iff` — so the request leaves everything that is held exactly
  if no lock state was made for it, or the owner had no lock on the file and the new
  state took nobody's key;
* `Server.refused_lock_takes_older` — the other case, on a small run.
-/

namespace Leasehold

/-! ## Giving everything back -/

namespace RangeLock

/-- No lock reaches beyond the lock on every byte. -/
theorem subtract_everything {l : RangeLock} {holder : LockOwner}
    (h : l.overlaps (everything holder) = true) : l.subtract (everything holder) = [] := by
  have hfront : ¬ l.offset < (everything holder).offset := by
    rw [UInt64.lt_iff_toNat_lt]
    exact Nat.not_lt_zero _
  have hback : ¬ (everything holder).stop < l.stop := by
    rw [UInt64.lt_iff_toNat_lt]
    exact Nat.not_lt_of_le (Nat.le_of_lt_succ l.stop_lt)
  unfold subtract
  rw [if_pos h, if_neg hfront, if_neg hback]
  rfl

/-- A lock goes if its holder gives everything back; one on nothing but the last offset stays. -/
def GoesWith (holder : LockOwner) (l : RangeLock) : Prop :=
  l.owner = holder ∧ l.overlaps (everything holder) = true

instance (holder : LockOwner) (l : RangeLock) : Decidable (l.GoesWith holder) :=
  inferInstanceAs (Decidable (_ ∧ _))

/-- Whoever gives everything back is left with the locks that do not go. -/
theorem carve_everything (held : List RangeLock) (holder : LockOwner) :
    carve held (everything holder) = held.filter fun l => ¬ l.GoesWith holder := by
  -- lock by lock: one that goes leaves no part of it, and any other stays whole
  induction held with
  | nil => rfl
  | cons l rest ih =>
    have hrest : carve (l :: rest) (everything holder) =
        l.leftOf (everything holder) ++ carve rest (everything holder) := rfl
    have hsame : l.sameOwner (everything holder) = true ↔ l.owner = holder := beq_iff_eq
    rw [hrest, ih, List.filter_cons]
    by_cases hgoes : l.GoesWith holder
    · rw [if_neg (by simpa using hgoes), leftOf, if_pos (hsame.2 hgoes.1),
        subtract_everything hgoes.2]
      rfl
    · have hstays : l.leftOf (everything holder) = [l] := by
        unfold leftOf
        split
        · rename_i howner
          exact if_neg fun hoverlaps => hgoes ⟨hsame.1 howner, hoverlaps⟩
        · rfl
      rw [if_pos (by simpa using hgoes), hstays]
      rfl

end RangeLock

namespace LockTable

/-- A holder who gives everything back on a file loses what it has there, and nobody else loses
anything. -/
theorem locks_of_unlockIfHeld_everything {t t' : LockTable} {file : FileId} {holder : LockOwner}
    (h : t.unlockIfHeld file (.everything holder) = .ok t') (other : FileId) :
    t'.locks other = if other = file then (t.locks file).filter (fun l => ¬ l.GoesWith holder)
      else t.locks other := by
  unfold unlockIfHeld unlock at h
  -- the owner holds something of the file, or there is nothing to take away
  by_cases hheld : (t.locks file).any (fun held => held.sameOwner (.everything holder) &&
      held.overlaps (.everything holder)) = true
  · rw [if_pos hheld] at h
    injection h with h
    rw [← h, locks_setLocks, RangeLock.carve_everything]
    by_cases hother : other = file
    · rw [if_pos hother.symm, if_pos hother]
    · rw [if_neg fun hfile => hother hfile.symm, if_neg hother]
  · rw [if_neg hheld] at h
    injection h with h
    rw [← h]
    split
    · rename_i hother
      rw [hother]
      refine (List.filter_eq_self.2 fun l hl => ?_).symm
      have hneither := List.any_eq_false.1 (Bool.eq_false_iff.2 hheld) l hl
      refine decide_eq_true fun hgoes => hneither ?_
      exact Bool.and_eq_true_iff.2 ⟨beq_iff_eq.2 hgoes.1, hgoes.2⟩
    · rfl

end LockTable

/-! ## Releasing a lock state -/

namespace Request

variable {s : Server} {client : ClientNo} {id : StateId} {no : StateNo} {file : FileId}
  {holder : LockOwner}

/-- A lock state that owes nothing but its holder's locks gives them back, ends and is
forgotten. -/
theorem exec_releaseState_unlockAll {locks : LockTable}
    (hget : (s.client client).states.get? id.key = some no) (hno : no.value < s.states.size)
    (hlives : (s.state no).disposed = false) (howed : (s.state no).owed = [.unlockAll file holder])
    (hcall : s.callLocks .unlock (·.unlockIfHeld file (.everything holder)) = .ok locks) :
    (releaseState client id).exec s = (.ok (),
      (({ s with locks }).amendState no .finish).amendClient client (·.detach id.key)) := by
  have hfound : (stateOf client id).exec s = (.ok no, s) := by
    unfold stateOf
    rw [exec_get_bind, hget]
    rfl
  have hstep : (updateLocks .unlock (·.unlockIfHeld file (.everything holder))).exec s =
      (.ok (), { s with locks }) := by
    rw [exec_updateLocks, hcall]
  have hended : (endState no).exec s = (.ok (), ({ s with locks }).amendState no .finish) := by
    unfold endState
    -- there is a state, so there is depth enough to release one
    obtain ⟨depth, hdepth⟩ := Nat.exists_eq_add_one_of_ne_zero (Nat.ne_zero_of_lt hno)
    rw [exec_get_bind, hdepth]
    unfold endStateWithin
    rw [exec_get_bind]
    dsimp only
    rw [if_neg (Bool.eq_false_iff.1 hlives), howed]
    unfold releaseStrictly releaseStep
    rw [exec_bind, exec_tryCatch, hstep]
    rfl
  unfold releaseState
  rw [exec_bind, hfound]
  dsimp only
  rw [exec_bind, hended]
  rfl

end Request

/-! ## What a refused request leaves -/

namespace Server

variable {s t u : Server} {client : ClientNo} {file : FileId}

/-- Every file has the locks that it had, and every client the states. -/
structure SameHoldings (s t : Server) : Prop where
  locks : ∀ file, t.locks.locks file = s.locks.locks file
  states : ∀ client key,
    (t.client client).states.get? key = (s.client client).states.get? key

/-- Holdings that stay the same twice stay the same. -/
theorem SameHoldings.trans (h : SameHoldings s t) (h' : SameHoldings t u) : SameHoldings s u :=
  ⟨fun file => (h'.locks file).trans (h.locks file),
    fun client key => (h'.states client key).trans (h.states client key)⟩

/-- The server after a lock state of a client was made, for the locks of one of its owners on a
file, and released again. -/
structure RolledBack (s t : Server) (client : ClientNo) (file : FileId) (name : Bytes) : Prop where
  states_size : t.states.size = s.states.size + 1
  /-- The owner gives everything back on the file. -/
  locks : ∀ other, t.locks.locks other = if other = file then
      (s.locks.locks file).filter fun l => ¬ l.GoesWith ⟨(s.client client).id, name⟩
    else s.locks.locks other
  /-- The client has nothing under the key of the new state. -/
  states : ∀ c key, (t.client c).states.get? key =
    if c = client ∧ (s.client client).nextStateKey .byteLock = key then none
    else (s.client c).states.get? key

/-- What was held stays through a rollback exactly if the owner had nothing on the file and the new
state took nobody's key. -/
theorem RolledBack.sameHoldings_iff {name : Bytes} (h : RolledBack s t client file name) :
    SameHoldings s t ↔
      (s.client client).states.get? ((s.client client).nextStateKey .byteLock) = none ∧
        ∀ l ∈ s.locks.locks file, ¬ l.GoesWith ⟨(s.client client).id, name⟩ := by
  constructor
  · intro hsame
    constructor
    · rw [← hsame.states, h.states, if_pos ⟨rfl, rfl⟩]
    -- a list is its own filtered part only if all of it passes
    · have hall := (h.locks file).symm.trans (hsame.locks file)
      rw [if_pos rfl, List.filter_eq_self] at hall
      exact fun l hl => of_decide_eq_true (hall l hl)
  · rintro ⟨hfree, hnone⟩
    constructor
    · intro other
      rw [h.locks]
      split
      · rename_i hother
        rw [hother]
        exact List.filter_eq_self.2 fun l hl => decide_eq_true (hnone l hl)
      · rfl
    · intro c key
      rw [h.states]
      split
      · rename_i hkey
        rw [← hkey.2, hkey.1, hfree]
      · rfl

/-- What stands in the way of a lock or goes with a lock state is the same, and so are the key of
the client's next lock state and the calls that fail. -/
structure KeepsLocking (s t : Server) (client : ClientNo) : Prop extends SameHoldings s t where
  states_size : t.states.size = s.states.size
  faults : t.faults = s.faults
  id : (t.client client).id = (s.client client).id
  key : (t.client client).nextStateKey .byteLock = (s.client client).nextStateKey .byteLock

/-- A request for a lock renews a lease and sees to owners before it makes a state. -/
theorem keepsLocking_chain {E : List Effect} (h : Chain E s t)
    (hclient : client.value < s.clients.size)
    (hE : ∀ e ∈ E, e ∈ [Effect.renewed, .ownerAmended, .ownerMade, .ownersNamed]) :
    KeepsLocking s t client := by
  -- owners and leases alone are touched, and none of what is asked about
  have hothers : ∀ e ∈ [Effect.renewed, .ownerAmended, .ownerMade, .ownersNamed],
      e ∉ [.attached, .detached] ∧ e ≠ .locked ∧ e ≠ .stateMade ∧ e ≠ .faultsSet ∧ e ≠ .counted ∧
        e ≠ .sessionMade := by decide
  have hlocks : t.locks = s.locks :=
    h.eq_of_updates fun e he {_ _} hupdate => hupdate.locks_eq (hothers e (hE e he)).2.1
  refine { locks := fun file => congrArg (·.locks file) hlocks, states := ?states,
           states_size := ?states_size, faults := ?faults, id := h.client_id_eq hclient,
           key := ?key }
  case states =>
    intro c key
    refine h.eq_of_updates (f := fun s => (s.client c).states.get? key) fun e he {_ _} hupdate => ?_
    exact congrArg (·.get? key) (hupdate.states_eq (hothers e (hE e he)).1 c)
  case states_size =>
    refine h.eq_of_updates (f := fun s => s.states.size) fun e he {_ _} hupdate => ?_
    exact hupdate.states_size_eq (hothers e (hE e he)).2.2.1
  case faults => exact h.faults_eq fun hset => (hothers _ (hE _ hset)).2.2.2.1 rfl
  case key =>
    refine h.client_eq_of_updates (f := fun c => c.nextStateKey .byteLock) hclient ?_
    intro e he a b hupdate hsize
    obtain ⟨_, _, _, _, hcounted, hsession⟩ := hothers e (hE e he)
    unfold Client.nextStateKey
    rcases hupdate.client_update hsize with hsame | hamended | ⟨hmade, _⟩
    · rw [hsame]
    · rw [hamended.id_eq, hamended.stateCounter_eq hcounted]
    · exact absurd hmade hsession

/-- What is rolled back later is rolled back from before. -/
theorem RolledBack.of_keepsLocking {name : Bytes} (h : RolledBack t u client file name)
    (hbefore : KeepsLocking s t client) : RolledBack s u client file name where
  states_size := h.states_size.trans (congrArg (· + 1) hbefore.states_size)
  locks other := by rw [h.locks, hbefore.locks, hbefore.locks, hbefore.id]
  states c key := by rw [h.states, hbefore.states, hbefore.key]

/-- A lock state that was just made for an owner is released. -/
theorem rolledBack_releaseState (ht : t.Held) (hclient : client.value < t.clients.size)
    (hunlock : t.faults.locks.lookup .unlock = none) {key : StateKey} {no : StateNo}
    (hget : (t.client client).states.get? key = some no) (file : FileId) (owner : OwnerNo)
    (name : Bytes) :
    let u := t.withHeld client owner .byteLock (some no)
      (.unlockAll file ⟨(t.client client).id, name⟩)
    RolledBack t ((Request.releaseState client (u.state t.states.nextNo).id).exec u).2 client file
      name := by
  intro u
  have hparent : some no ≠ some t.states.nextNo := fun h =>
    Ledger.ne_nextNo (ht client key no hget).1 (Option.some.inj h)
  have hnew := state_withHeld_new hclient owner .byteLock hparent
    (.unlockAll file ⟨(t.client client).id, name⟩)
  have hkey : (u.state t.states.nextNo).id.key = (t.client client).nextStateKey .byteLock :=
    congrArg (·.id.key) hnew
  have hlocks : u.locks = t.locks := (rest_withHeld t client owner .byteLock (some no) _).2.2.1
  have hfaults : u.faults = t.faults := (rest_withHeld t client owner .byteLock (some no) _).2.2.2
  have hsize := states_size_withHeld t client owner .byteLock (some no)
    (.unlockAll file ⟨(t.client client).id, name⟩)
  obtain ⟨locks, hunlocked, _⟩ := t.locks.unlockIfHeld_cases file
    (.everything ⟨(t.client client).id, name⟩)
  have hcall : u.callLocks .unlock
      (·.unlockIfHeld file (.everything ⟨(t.client client).id, name⟩)) = .ok locks := by
    unfold callLocks
    rw [hfaults, hunlock, hlocks]
    exact hunlocked
  have hattached : (u.client client).states.get? (u.state t.states.nextNo).id.key =
      some t.states.nextNo := by
    rw [hkey, get?_withHeld hclient, if_pos ⟨rfl, rfl⟩]
  have hmade := Nat.lt_of_lt_of_eq (Nat.lt_succ_self _) hsize.symm
  -- all that the new state owes is one call of the lock table, and that does not fail
  rw [Request.exec_releaseState_unlockAll hattached hmade
    (congrArg (·.disposed) hnew) (congrArg (·.owed) hnew) hcall]
  have hknown : client.value <
      (({ u with locks }).amendState t.states.nextNo .finish).clients.size :=
    lt_of_states_get? hattached
  constructor
  · exact (Ledger.size_modify ..).trans hsize
  · exact LockTable.locks_of_unlockIfHeld_everything hunlocked
  · intro c key
    rw [get?_detach hknown, hkey]
    show (if _ then none else (u.client c).states.get? key) = _
    split
    · rfl
    · rename_i hother
      rw [get?_withHeld hclient, if_neg hother]

/-- A refusal hands back the server as it was, or with the state released that was made for the
request. -/
theorem of_refused_outcome {r : LockRequest} {no : StateNo} {isNew : Bool} {e : Error}
    (h : Request.LockOutcome u client file r no isNew (.error e, t)) :
    isNew = false ∧ t = u ∨
      isNew = true ∧ t = ((Request.releaseState client (u.state no).id).exec u).2 := by
  generalize houtcome : ((.error e, t) : Except Error StateId × Server) = outcome at h
  cases h with
  | granted =>
    have hanswer := congrArg Prod.fst houtcome
    cases hanswer
  | refused =>
    injection houtcome with _ hserver
    exact .inl ⟨rfl, hserver⟩
  | released =>
    injection houtcome with _ hserver
    exact .inr ⟨rfl, hserver⟩

/-- A refused request for a lock leaves everything that is held, or it makes a lock state for one of
the client's owners and releases it again. -/
theorem refused_lock_cases (hs : s.Tracked) (hclient : client.value < s.clients.size)
    (hunlock : s.faults.locks.lookup .unlock = none) {r : LockRequest} {reclaim : Bool}
    {locker : Locker} {e : Error}
    (h : (Request.lock client file r reclaim locker).exec s = (.error e, t)) :
    t.states.size = s.states.size ∧ SameHoldings s t ∨
      ∃ openId openSeqid name lockSeqid, locker = .newOwner openId openSeqid name lockSeqid ∧
        RolledBack s t client file name := by
  obtain ⟨s₁, hrenewed, hcases⟩ := Request.lock_cases hs hclient file r reclaim locker
  have hs₁ : KeepsLocking s s₁ client := keepsLocking_chain hrenewed hclient (by decide)
  have hclient₁ := Nat.lt_of_lt_of_le hclient hrenewed.clients_size_le
  rw [h] at hcases
  rcases hcases with ⟨e', hexec⟩ | ⟨no, isNew, u, hbasis, houtcome⟩
  · injection hexec with _ hserver
    rw [hserver]
    exact .inl ⟨hs₁.states_size, hs₁.toSameHoldings⟩
  · cases hbasis with
    -- a lock state that was there before stays, whatever becomes of the request
    | existing _ hchain =>
      have hu : KeepsLocking s₁ u client := keepsLocking_chain hchain hclient₁ (by decide)
      rcases of_refused_outcome houtcome with ⟨_, rfl⟩ | ⟨hnew, _⟩
      · have hsame := hs₁.toSameHoldings.trans hu.toSameHoldings
        exact .inl ⟨hu.states_size.trans hs₁.states_size, hsame⟩
      · cases hnew
    | @made openId openSeqid lockSeqid name parent owner s₂ hget hchain hs₂ =>
      have hs₂' : KeepsLocking s₁ s₂ client := keepsLocking_chain hchain hclient₁ (by decide)
      have hclient₂ := Nat.lt_of_lt_of_le hclient₁ hchain.clients_size_le
      rcases of_refused_outcome houtcome with ⟨hold, _⟩ | ⟨_, rfl⟩
      · cases hold
      · have hunlock₂ : s₂.faults.locks.lookup .unlock = none := by
          rw [hs₂'.faults, hs₁.faults]
          exact hunlock
        have hback := rolledBack_releaseState hs₂.held hclient₂ hunlock₂
          ((hs₂'.states client _).trans hget) file owner name
        exact .inr ⟨openId, openSeqid, name, lockSeqid, rfl,
          (hback.of_keepsLocking hs₂').of_keepsLocking hs₁⟩

/-- After every run in which no record is made outside the table: as long as no unlock fails, a
refused request for a lock leaves the locks of every file and the states of every client as they
were exactly if no lock state was made for it, or the owner it names had no lock on the file and the
new state took the key of none of the client's states. -/
theorem refused_lock_keeps_iff (timers : Bool) (config : Config) (store : Recovery.Store)
    (wall : WallTime) (now : Nat) (actions : List Action)
    (h : ∀ a ∈ actions, .entered ∉ a.effects) :
    let s := (start timers config store wall now).performAll actions
    ∀ client file r reclaim locker e t, client.value < s.clients.size →
      s.faults.locks.lookup .unlock = none →
      (Request.lock client file r reclaim locker).exec s = (.error e, t) →
      (SameHoldings s t ↔ ∀ openId openSeqid name lockSeqid,
        locker = .newOwner openId openSeqid name lockSeqid → s.states.size < t.states.size →
          (s.client client).states.get? ((s.client client).nextStateKey .byteLock) = none ∧
            ∀ l ∈ s.locks.locks file, ¬ l.GoesWith ⟨(s.client client).id, name⟩) := by
  intro s client file r reclaim locker e t hclient hunlock hexec
  have hs : s.Tracked := tracked_performAll (tracked_start timers config store wall now) h
  rcases refused_lock_cases hs hclient hunlock hexec with
    ⟨hsize, hsame⟩ | ⟨openId, openSeqid, name, lockSeqid, rfl, hback⟩
  · constructor
    · intro _ _ _ _ _ _ hmade
      exact absurd (hsize ▸ hmade) (Nat.lt_irrefl _)
    · exact fun _ => hsame
  -- the state that was made for the lock tells this case from the others
  · have hmade : s.states.size < t.states.size := by
      rw [hback.states_size]
      exact Nat.lt_succ_self _
    rw [hback.sameHoldings_iff]
    constructor
    · intro hnone _ _ _ _ heq _
      injection heq with _ _ hname _
      rw [← hname]
      exact hnone
    · exact fun hall => hall openId openSeqid name lockSeqid rfl hmade

/-- A refusal on a lock state that was made leaves a client's other locks on the file alone if they
are those of other owners. -/
theorem refused_lock_keeps_others :
    let file : FileId := ⟨[9]⟩
    let openId : StateId := .ofParts ⟨1⟩ 1 .share
    let actions : List Action := [.register (.ofOwner [1]), .nameOwner ⟨0⟩ [7] 0,
      .openFile ⟨0⟩ ⟨0⟩ file 1 0, .lock ⟨0⟩ file ⟨.read, 0, 10⟩ false (.newOwner openId 0 [8] 0)]
    let s := (start false {} default ⟨0⟩).performAll actions
    let again := Request.lock ⟨0⟩ file ⟨.write, 20, 10⟩ false (.newOwner openId 0 [6] 0)
    (again.exec s).1 = .error .openMode ∧ (s.locks.locks file).length = 1 ∧
      s.states.size < (again.exec s).2.states.size ∧ SameHoldings s (again.exec s).2 := by
  intro file openId actions s again
  have hrefused : (again.exec s).1 = .error .openMode := by decide +kernel
  have hmade : s.states.size < (again.exec s).2.states.size := by decide +kernel
  have hheld : (s.locks.locks file).length = 1 := by decide +kernel
  refine ⟨hrefused, hheld, hmade, ?_⟩
  have hentered : ∀ a ∈ actions, .entered ∉ a.effects := by decide
  have hknown : (⟨0⟩ : ClientNo).value < s.clients.size := by decide +kernel
  have hunlock : ((start false {} default ⟨0⟩).performAll actions).faults.locks.lookup .unlock =
      none := by
    decide +kernel
  generalize houtcome : again.exec s = outcome at hrefused ⊢
  obtain ⟨_, t⟩ := outcome
  obtain rfl : _ = Except.error Error.openMode := hrefused
  refine (refused_lock_keeps_iff false {} default ⟨0⟩ 0 actions hentered ⟨0⟩ file _ false _ _ t
    hknown hunlock houtcome).2 ?_
  intro _ _ name _ heq _
  injection heq with _ _ hname _
  rw [← hname]
  decide +kernel

/-- A first lock that is refused for the mode of the open takes the lock with it that the same owner
has had on the file for long. -/
theorem refused_lock_takes_older :
    let file : FileId := ⟨[9]⟩
    let openId : StateId := .ofParts ⟨1⟩ 1 .share
    let actions : List Action := [.register (.ofOwner [1]), .nameOwner ⟨0⟩ [7] 0,
      .openFile ⟨0⟩ ⟨0⟩ file 1 0, .lock ⟨0⟩ file ⟨.read, 0, 10⟩ false (.newOwner openId 0 [8] 0)]
    let s := (start false {} default ⟨0⟩).performAll actions
    let again := Request.lock ⟨0⟩ file ⟨.write, 20, 10⟩ false (.newOwner openId 0 [8] 0)
    s.faults.locks = [] ∧ (again.exec s).1 = .error .openMode ∧
      s.locks.locks file = [⟨⟨⟨1⟩, [8]⟩, .read, 0, 10⟩] ∧
      (again.exec s).2.locks.locks file = [] := by
  decide +kernel

end Server

end Leasehold

import Leasehold.Proofs.RequestEffects

/-!
# Proofs.Run — everything that can happen to a server

An `Action` is one thing that happens to a server: a request, a step on a record
that a caller kept, a change of its surroundings, or the passing of time. A run is
a list of actions, carried out from a server that has just started. An action on a
record that was never handed out does nothing.

* `Server.le_tick`, `Server.tick_lt` — no timer fires before it is due, and none a
  millisecond later;
* `Server.chain_elapse` — letting time pass is a chain of updates, too, whichever
  timers fire on the way;
* `Server.chain_perform` — an action does no updates but those of its kinds
  (`Action.effects`);
* `Server.performAll_preserve` — what the updates of a run keep, the run keeps.
-/

namespace Leasehold

/-! ## The passing of time -/

namespace Effect

/-- What is done while time passes. -/
def elapsing : List Effect := [passed, timerSet, graceClosed] ++ evicting

end Effect

namespace Chain

/-- Along a chain in which no time passes, the clock stands still. -/
theorem now_eq {E : List Effect} {s s' : Server} (h : Chain E s s') (hE : .passed ∉ E) :
    s'.now = s.now := by
  refine h.lift (R := fun s s' => s'.now = s.now) (fun _ => rfl) (fun h h' => h'.trans h)
    fun he hupdate => hupdate.now_eq ?_
  intro hpassed
  exact hE (hpassed ▸ he)

/-- The clock never goes back. -/
theorem now_le {E : List Effect} {s s' : Server} (h : Chain E s s') : s.now ≤ s'.now :=
  h.lift (R := fun s s' => s.now ≤ s'.now) (fun _ => Nat.le_refl _) Nat.le_trans
    fun _ hupdate => hupdate.now_le

end Chain

namespace Server

open Effect

variable {s : Server} {limit : Nat}

/-- A timer never fires early. -/
theorem le_tick (due : Nat) : due ≤ tick due := by
  unfold tick
  omega

/-- A timer fires less than a millisecond late. -/
theorem tick_lt (due : Nat) : tick due < due + 1_000_000 := by
  unfold tick
  omega

/-- Timers that are due whole milliseconds apart fire so far apart. -/
theorem tick_add (due ms : Nat) : tick (due + ms * 1_000_000) = tick due + ms * 1_000_000 := by
  unfold tick
  omega

theorem chain_passTo {later : Nat} (h : s.now ≤ later) : Chain elapsing s (s.passTo later) :=
  .single (by decide) (.passed s later h)

theorem chain_setTimers (sweepDue graceDue : Option Nat) :
    Chain elapsing s { s with sweepDue, graceDue } :=
  .single (by decide) (.timerSet s sweepDue graceDue)

/-- The timer that fires first is set for the time at which it is due, and fires not later than asked
for. -/
theorem timer_of_nextDue? {first : Nat × Bool} (h : s.nextDue? limit = some first) :
    tick first.1 ≤ limit ∧ (if first.2 then s.sweepDue else s.graceDue) = some first.1 := by
  have hdue (timer : Option Nat) (isSweep : Bool) :
      ∀ p ∈ (timer.filter (tick · ≤ limit)).toList.map (·, isSweep),
        tick p.1 ≤ limit ∧ p.2 = isSweep ∧ timer = some p.1 := by
    intro p hp
    obtain ⟨due, hmem, rfl⟩ := List.mem_map.1 hp
    rw [Option.mem_toList] at hmem
    obtain ⟨htimer, hle⟩ := Option.filter_eq_some_iff.1 hmem
    exact ⟨of_decide_eq_true hle, rfl, htimer⟩
  -- both timers are asked in the same way, and at most one of them each answers
  have hall : ∀ p ∈ (s.sweepDue.filter (tick · ≤ limit)).toList.map (·, true)
      ++ (s.graceDue.filter (tick · ≤ limit)).toList.map (·, false),
        tick p.1 ≤ limit ∧ (if p.2 then s.sweepDue else s.graceDue) = some p.1 := by
    intro p hp
    rcases List.mem_append.1 hp with hp | hp
    · obtain ⟨hle, hsweep, htimer⟩ := hdue _ _ p hp
      exact ⟨hle, by rw [hsweep, if_pos rfl, htimer]⟩
    · obtain ⟨hle, hsweep, htimer⟩ := hdue _ _ p hp
      exact ⟨hle, by rw [hsweep, if_neg Bool.false_ne_true, htimer]⟩
  unfold nextDue? at h
  dsimp only at h
  split at h
  · cases h
  · rename_i heq
    injection h with h
    subst h
    exact hall _ (heq ▸ List.mem_cons_self)
  -- both are due by then: either may be the one that goes first
  · rename_i a b rest heq
    have ha := hall a (heq ▸ List.mem_cons_self)
    have hb := hall b (heq ▸ List.mem_cons_of_mem _ List.mem_cons_self)
    split at h
    · obtain rfl := Option.some.inj h
      exact hb
    · obtain rfl := Option.some.inj h
      exact ha

/-- A timer does not fire later than asked for. -/
theorem le_of_nextDue? {first : Nat × Bool} (h : s.nextDue? limit = some first) :
    tick first.1 ≤ limit :=
  (timer_of_nextDue? h).1

/-- If no timer fires, the end of grace comes later. -/
theorem graceDue_of_nextDue?_eq_none (h : s.nextDue? limit = none) {due : Nat}
    (hdue : s.graceDue = some due) : limit < tick due := by
  unfold nextDue? at h
  dsimp only at h
  split at h
  · rename_i heq
    have hempty := (List.append_eq_nil_iff.1 heq).2
    rw [hdue] at hempty
    simpa using hempty
  · cases h
  · split at h
    · cases h
    · cases h

/-- If no timer fires, the next sweep comes later. -/
theorem sweepDue_of_nextDue?_eq_none (h : s.nextDue? limit = none) {due : Nat}
    (hdue : s.sweepDue = some due) : limit < tick due := by
  unfold nextDue? at h
  dsimp only at h
  split at h
  · rename_i heq
    have hempty := (List.append_eq_nil_iff.1 heq).1
    rw [hdue] at hempty
    simpa using hempty
  · cases h
  · split at h
    · cases h
    · cases h

/-- The end of grace fires only before the next sweep. -/
theorem lt_sweepDue_of_nextDue? {graceDue : Nat} (h : s.nextDue? limit = some (graceDue, false))
    {due : Nat} (hdue : s.sweepDue = some due) : tick graceDue < tick due := by
  have hle : tick graceDue ≤ limit := le_of_nextDue? h
  by_cases hlimit : tick due ≤ limit
  -- both fire by then, and the sweep goes first if they fire at once
  · have hsweep : (some due).filter (tick · ≤ limit) = some due := by simp [hlimit]
    unfold nextDue? at h
    dsimp only at h
    rw [hdue, hsweep] at h
    cases hgrace : s.graceDue.filter (tick · ≤ limit) with
    | none => simp [hgrace] at h
    | some grace =>
      simp only [hgrace, Option.toList_some, List.map_cons, List.map_nil, List.cons_append,
        List.nil_append] at h
      split at h
      · rename_i hlt
        simp only [Option.some.injEq, Prod.mk.injEq, and_true] at h
        exact h ▸ hlt
      · simp at h
  · omega

/-- The clock reaches the sweep, the clients whose lease has ended are evicted, and the timer is set
again. -/
theorem chain_fireSweep (s : Server) (due : Nat) : Chain elapsing s (s.fireSweep due) := by
  refine (chain_passTo (Nat.le_max_left s.now (tick due))).trans ?_
  refine Chain.trans ?_ (chain_setTimers _ _)
  exact Request.does_sweep (by decide) _

/-- The clock reaches the end of grace, the window is closed, and the timer is not set again. -/
theorem chain_fireGrace (s : Server) (due : Nat) : Chain elapsing s (s.fireGrace due) := by
  refine (chain_passTo (Nat.le_max_left s.now (tick due))).trans ?_
  refine Chain.trans ?_ (chain_setTimers _ _)
  exact Request.does_endGrace (by decide) (by decide) _

/-- A sweep fires when it is due, or at once if that has passed. -/
theorem now_fireSweep (s : Server) (due : Nat) : (s.fireSweep due).now = max s.now (tick due) :=
  (Request.does_sweep (List.Subset.refl _) (s.passTo (max s.now (tick due)))).now_eq (by decide)

theorem now_fireGrace (s : Server) (due : Nat) : (s.fireGrace due).now = max s.now (tick due) :=
  Chain.now_eq (E := [graceClosed, recorded])
    (Request.does_endGrace (by decide) (by decide) (s.passTo (max s.now (tick due)))) (by decide)

/-- However many timers fire, the clock stays within the limit. -/
theorem chain_fireUntil (fuel : Nat) (s : Server) (h : s.now ≤ limit) :
    Chain elapsing s (fireUntil fuel s limit) ∧ (fireUntil fuel s limit).now ≤ limit := by
  -- the clock has to stay within the limit, or the last step would set it back
  induction fuel generalizing s with
  | zero => exact ⟨.refl, h⟩
  | succ fuel ih =>
    unfold fireUntil
    split
    · exact ⟨.refl, h⟩
    · rename_i due hdue
      have hle := le_of_nextDue? hdue
      obtain ⟨hchain, hnow⟩ := ih (s.fireSweep due) (by rw [now_fireSweep]; exact Nat.max_le.2 ⟨h, hle⟩)
      exact ⟨(chain_fireSweep s due).trans hchain, hnow⟩
    · rename_i due hdue
      have hle := le_of_nextDue? hdue
      obtain ⟨hchain, hnow⟩ := ih (s.fireGrace due) (by rw [now_fireGrace]; exact Nat.max_le.2 ⟨h, hle⟩)
      exact ⟨(chain_fireGrace s due).trans hchain, hnow⟩

/-- The clock is put to where it is to be once all timers have fired that are due by then. -/
theorem chain_elapse (s : Server) (nanos : Nat) : Chain elapsing s (s.elapse nanos) := by
  obtain ⟨hchain, hnow⟩ := chain_fireUntil (s.now + nanos + 2) s (Nat.le_add_right s.now nanos)
  exact hchain.trans (chain_passTo hnow)

/-- The time that passes is what was asked for, whatever fires on the way. -/
theorem now_elapse (s : Server) (nanos : Nat) : (s.elapse nanos).now = s.now + nanos := rfl

end Server

/-! ## Actions -/

/-- One thing that happens to a server. Identifiers are as the caller gives them; the number of a
record stands for the record itself, which its holder may use whether it is registered or not. -/
inductive Action where
  -- the table of registered clients
  | register (r : Registration)
  | createClient (r : Registration)
  | confirmClient (id : ClientId) (verifier : Verifier)
  | removeClient (id : ClientId)
  | createSession (id : ClientId) (sequence : UInt32) (asked : ChannelAttributes)
  | destroySession (id : SessionId) (connection : Connection)
  | sequence (id : SessionId) (slot sequence operations : UInt32) (connection : Connection)
  | renewByState (id : StateId)
  | reclaimComplete (client : ClientNo)
  | endGrace
  | sweep
  | shutdown
  -- the record of a session
  | reply (session : SessionNo) (slot : UInt32) (data : Bytes)
  | bind (session : SessionNo) (connection : Connection)
  | unbind (session : SessionNo) (connection : Connection)
  -- the record of a client
  | enter (id : ClientId) (r : Registration) (leaseTime : Duration) (needReclaim : Bool)
  | renewLease (client : ClientNo)
  | nameOwner (client : ClientNo) (name : Bytes) (seqid : UInt32)
  | releaseOwner (client : ClientNo) (name : Bytes)
  | releaseState (client : ClientNo) (id : StateId)
  | endClient (client : ClientNo)
  | endClientLeniently (client : ClientNo)
  -- opens and locks
  | openFile (client : ClientNo) (owner : OwnerNo) (file : FileId) (access deny : UInt32)
  | downgrade (client : ClientNo) (id : StateId) (file : FileId) (access deny : UInt32)
  | removeOpen (file : FileId) (id : StateId)
  | lock (client : ClientNo) (file : FileId) (r : LockRequest) (reclaim : Bool) (locker : Locker)
  | unlock (client : ClientNo) (file : FileId) (lockId : StateId) (seqid : UInt32) (r : LockRequest)
  | testLock (client : ClientNo) (file : FileId) (owner : Bytes) (r : LockRequest)
  -- the surroundings
  | setFaults (faults : Faults)
  | elapse (nanos : Nat)

/-- A registration of a client with sessions, for an owner. -/
def Registration.ofOwner (owner : Bytes) : Registration :=
  ⟨owner, ⟨1⟩, "alice", default, default, 1⟩

/-- A registration of a client without sessions, for an owner. -/
def Registration.sessionless (owner : Bytes) : Registration :=
  { ofOwner owner with minorVersion := 0 }

namespace Action

open Effect

/-- Whether every record that the action names was handed out. -/
def known (s : Server) : Action → Bool
  | reclaimComplete client | renewLease client | nameOwner client .. | releaseOwner client _
  | releaseState client _ | endClient client | endClientLeniently client | downgrade client ..
  | lock client .. | unlock client .. | testLock client .. => client.value < s.clients.size
  | openFile client owner .. => client.value < s.clients.size && owner.value < s.owners.size
  | reply session .. | bind session _ | unbind session _ => session.value < s.sessions.size
  | _ => true

/-- The kinds of updates that the action may do. -/
def effects : Action → List Effect
  | register _ | createClient _ => registering
  | confirmClient .. => [renewed, confirmed]
  | removeClient _ | sweep => evicting
  | createSession .. => [sessionMade, revived]
  | destroySession .. => [sessionDropped]
  | sequence .. => [slotUsed, renewed, connected]
  | renewByState _ | renewLease _ | testLock .. => [renewed]
  | reclaimComplete _ => [reclaimed, recorded]
  | endGrace => [graceClosed, recorded]
  | shutdown => stopped :: evicting
  | reply .. => [slotUsed]
  | bind .. | unbind .. => [connected]
  | enter .. => [entered]
  | nameOwner .. => [ownerMade, ownersNamed]
  | releaseOwner .. => [ownersNamed]
  | releaseState .. => releasing
  | endClient _ | endClientLeniently _ => ending
  | openFile .. => opening
  | downgrade .. => [openLowered, stateAmended]
  | removeOpen .. => [openForgotten]
  | lock .. | unlock .. => locking
  | setFaults _ => [faultsSet]
  | elapse _ => elapsing

end Action

namespace Server

/-- The server after an action on records that were handed out. -/
def carryOut (s : Server) : Action → Server
  | .register r => s.after (Request.register r)
  | .createClient r => s.after (Request.createClient r)
  | .confirmClient id verifier => s.after (Request.confirmClient id verifier)
  | .removeClient id => s.after (Request.removeClient id)
  | .createSession id sequence asked => s.after (Request.createSession id sequence asked)
  | .destroySession id connection => s.after (Request.destroySession id connection)
  | .sequence id slot sequence operations connection =>
    s.after (Request.sequence id slot sequence operations connection)
  | .renewByState id => s.after (Request.renewByState id)
  | .reclaimComplete client => s.after (Request.reclaimComplete client)
  | .endGrace => s.after Request.endGrace
  | .sweep => s.after Request.sweep
  | .shutdown => s.after Request.shutdown
  | .reply session slot data => s.after (Request.replyOn session slot data)
  | .bind session connection => s.amendSession session (·.bind connection)
  | .unbind session connection => s.amendSession session (·.unbind connection)
  | .enter id r leaseTime needReclaim =>
    { s with clients := s.clients.add (.new id r leaseTime needReclaim s.now s.wall) }
  | .renewLease client => s.after (Request.renewLease client)
  | .nameOwner client name seqid => s.after (Request.ownerNamed client name seqid)
  | .releaseOwner client name => s.after (Request.releaseOwner client name)
  | .releaseState client id => s.after (Request.releaseState client id)
  | .endClient client => s.after (Request.endClient client)
  | .endClientLeniently client => s.after (Request.endClientLeniently client)
  | .openFile client owner file access deny =>
    s.after (Request.openFile client owner file access deny)
  | .downgrade client id file access deny => s.after (Request.downgrade client id file access deny)
  | .removeOpen file id => s.after (Request.removeOpen file id)
  | .lock client file r reclaim locker => s.after (Request.lock client file r reclaim locker)
  | .unlock client file lockId seqid r => s.after (Request.unlock client file lockId seqid r)
  | .testLock client file owner r => s.after (Request.testLock client file owner r)
  | .setFaults faults => { s with faults }
  | .elapse nanos => s.elapse nanos

/-- The server after an action. -/
def perform (s : Server) (a : Action) : Server := if a.known s then s.carryOut a else s

/-- The server after a run. -/
def performAll (s : Server) (actions : List Action) : Server := actions.foldl perform s

/-- A server that has just started at a reading of the clock, with its timers running or without. -/
def start (timers : Bool) (config : Config) (store : Recovery.Store) (wall : WallTime)
    (now : Nat := 0) : Server :=
  if timers then launch config store wall now else new config store wall now

end Server

/-- However it starts, a server differs from a new one in nothing but its timers. -/
theorem Server.start_eq (timers : Bool) (config : Config) (store : Recovery.Store)
    (wall : WallTime) (now : Nat) : ∃ sweepDue graceDue, Server.start timers config store wall now =
      { Server.new config store wall now with sweepDue, graceDue } := by
  cases timers with
  | true => exact ⟨_, _, rfl⟩
  | false => exact ⟨_, _, rfl⟩

/-! ## What runs do -/

/-- A connection that is bound already is not bound twice. -/
theorem Session.connected_bind (t : Session) (c : Connection) :
    Session.Update .connected t (t.bind c) := by
  unfold Session.bind
  split
  · exact .connected t t.bound
  · exact .connected t _

namespace Server

open Request

/-- An action on records that were handed out does no updates but those of its kinds. -/
theorem chain_carryOut (s : Server) (a : Action) (h : a.known s = true) :
    Chain a.effects s (s.carryOut a) := by
  cases a with dsimp only [Action.effects]
  | register r => exact does_register (List.Subset.refl _) r s
  | createClient r => exact does_createClient (List.Subset.refl _) r s
  | confirmClient id verifier => exact does_confirmClient (by decide) (by decide) id verifier s
  | removeClient id => exact does_removeClient (List.Subset.refl _) id s
  | createSession id sequence asked =>
    exact does_createSession (by decide) (by decide) id sequence asked s
  | destroySession id connection => exact does_destroySession (by decide) id connection s
  | sequence id slot sequence operations connection =>
    exact does_sequence (by decide) (by decide) (by decide) id slot sequence operations connection s
  | renewByState id => exact does_renewByState (by decide) id s
  | reclaimComplete client => exact does_reclaimComplete (by decide) (by decide) client s
  | endGrace => exact does_endGrace (by decide) (by decide) s
  | sweep => exact does_sweep (List.Subset.refl _) s
  | shutdown => exact does_shutdown (by decide) (by decide) s
  | reply session slot data => exact does_replyOn (by decide) session slot data s
  | bind session connection =>
    exact .single (by decide) (.session s session _ (Session.connected_bind _ connection))
  | unbind session connection =>
    exact .single (by decide) (.session s session _ (.connected _ _))
  | enter id r leaseTime needReclaim =>
    exact .single (by decide) (.entered s id r leaseTime needReclaim)
  | renewLease client => exact does_renewLease (by decide) client s
  | nameOwner client name seqid => exact does_ownerNamed (by decide) (by decide) client name seqid s
  | releaseOwner client name => exact does_releaseOwner (by decide) client name s
  | releaseState client id => exact does_releaseState (List.Subset.refl _) client id s
  | endClient client => exact does_endClient (List.Subset.refl _) client s
  | endClientLeniently client => exact does_endClientLeniently (List.Subset.refl _) client s
  | openFile client owner file access deny =>
    -- an open is held only for a client that was handed out
    have hclient : client.value < s.clients.size := by
      simp only [Action.known, Bool.and_eq_true, decide_eq_true_eq] at h
      exact h.1
    exact doesFrom_openFile (List.Subset.refl _) hclient owner file access deny
  | downgrade client id file access deny =>
    exact does_downgrade (by decide) (by decide) client id file access deny s
  | removeOpen file id => exact does_removeOpen (by decide) file id s
  | lock client file r reclaim locker =>
    exact does_lock (List.Subset.refl _) client file r reclaim locker s
  | unlock client file lockId seqid r =>
    exact does_unlock (by decide) client file lockId seqid r s
  | testLock client file owner r => exact does_testLock (by decide) client file owner r s
  | setFaults faults => exact .single (by decide) (.faultsSet s faults)
  | elapse nanos => exact chain_elapse s nanos

/-- An action does no updates but those of its kinds. -/
theorem chain_perform (s : Server) (a : Action) : Chain a.effects s (s.perform a) := by
  unfold perform
  split
  · rename_i h
    exact chain_carryOut s a h
  · exact .refl

/-- A run goes on from where it was. -/
theorem performAll_append (s : Server) (actions more : List Action) :
    s.performAll (actions ++ more) = (s.performAll actions).performAll more :=
  List.foldl_append ..

/-- What every update of a run keeps, the run keeps. -/
theorem performAll_preserve {I : Server → Prop} {actions : List Action}
    (hupdate : ∀ a ∈ actions, ∀ e ∈ a.effects, ∀ {s s'}, Update e s s' → I s → I s')
    {s : Server} (hs : I s) : I (s.performAll actions) := by
  -- on the actions that are still to come, from the server they find
  induction actions generalizing s with
  | nil => exact hs
  | cons a rest ih =>
    have hstep : I (s.perform a) :=
      (chain_perform s a).preserve (fun he => hupdate a List.mem_cons_self _ he) hs
    exact ih (fun b hb => hupdate b (List.mem_cons_of_mem _ hb)) hstep

end Server

end Leasehold

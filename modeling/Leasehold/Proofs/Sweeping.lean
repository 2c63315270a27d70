import Leasehold.Proofs.ClientTable
import Leasehold.Proofs.GraceWindow
import Leasehold.Proofs.LeaseExpiry

/-!
# Proofs.Sweeping — no client leaves early, and none stays long

A sweep evicts exactly the registered clients whose lease has ended
(`Server.registered_sweep_iff`). A lease counts its age in whole milliseconds, and ends
one lease time after the age at which it was last extended (`Server.Extended`): whoever
is evicted had the lease time, less what was gone of a millisecond. The sweeps of a
launched server are four lease times apart and none is missed, however long the time
that passes at once; until the next one comes, no lease will have ended four lease times
ago (`Server.SweepAhead`).

* `Server.extended_undergo`, `Server.sweepAhead_undergo` — what one occurrence keeps;
* `Server.unregistered_by_sweep` — time takes nobody out of the table but by a sweep;
* `Server.sweeps_safe_and_prompt` — the sweeps of every run, until the server stops;
* `Server.evicted_within_lease_time` — the part of a millisecond may be what a client
  lacks of the lease time.
-/

namespace Leasehold

open Request

/-! ## The end of a lease -/

namespace Lease

variable {l : Lease} {now t : Nat}

/-- The lease time in whole milliseconds, as far as sixty-four bits count them. -/
def span (l : Lease) : Nat := (UInt64.ofNat l.time.wholeMillis).toNat

/-- The lease ends one lease time after a reading of the clock. -/
def ExtendedAt (l : Lease) (t : Nat) : Prop := l.expiry.toNat = (l.elapsed t).toNat + l.span

/-- The age of a lease is counted in sixty-four bits. -/
theorem toNat_elapsed (l : Lease) (now : Nat) :
    (l.elapsed now).toNat = (now - l.start) / 1_000_000 % UInt64.size :=
  UInt64.toNat_ofNat'

theorem toNat_renewedExpiry (l : Lease) (now : Nat) :
    (l.renewedExpiry now).toNat = ((l.elapsed now).toNat + l.span) % UInt64.size :=
  UInt64.toNat_add ..

theorem span_lt (l : Lease) : l.span < UInt64.size := UInt64.toNat_lt_size _

/-- A renewal moves the end to one lease time from now, or leaves it where it is. A sum that wraps
is less than a lease time, and the end of a lease is not. -/
theorem renew_cases (h : l.span ≤ l.expiry.toNat) (now : Nat) :
    l.renew now = l ∨ (l.renew now).ExtendedAt now := by
  unfold renew
  split
  · rename_i hlater
    right
    show (l.renewedExpiry now).toNat = (l.elapsed now).toNat + l.span
    have helapsed := UInt64.toNat_lt_size (l.elapsed now)
    have hspan := l.span_lt
    rw [UInt64.lt_iff_toNat_lt, toNat_renewedExpiry] at hlater
    rw [toNat_renewedExpiry]
    unfold UInt64.size at *
    omega
  · left
    rfl

/-- The lease of a new record ends one lease time from now. -/
theorem extendedAt_new (time : Duration) (now : Nat) : (Lease.new time now).ExtendedAt now := by
  unfold Lease.new
  generalize hblank : (⟨time, now, 0⟩ : Lease) = blank
  have helapsed : (blank.elapsed now).toNat = 0 := by
    rw [← hblank, toNat_elapsed, Nat.sub_self, Nat.zero_div, Nat.zero_mod]
  have hexpiry : blank.expiry = 0 := by rw [← hblank]
  unfold renew
  split
  · show (blank.renewedExpiry now).toNat = (blank.elapsed now).toNat + blank.span
    rw [toNat_renewedExpiry, helapsed, Nat.zero_add, Nat.mod_eq_of_lt blank.span_lt]
  · rename_i hle
    show blank.expiry.toNat = (blank.elapsed now).toNat + blank.span
    rw [UInt64.lt_iff_toNat_lt, toNat_renewedExpiry, helapsed, Nat.zero_add,
      Nat.mod_eq_of_lt blank.span_lt] at hle
    rw [hexpiry, UInt64.toNat_zero] at *
    omega

theorem ExtendedAt.span_le (h : l.ExtendedAt t) : l.span ≤ l.expiry.toNat := by
  unfold ExtendedAt at h
  omega

/-- The lease of a new record ends as many milliseconds after its start as the lease time has. -/
theorem toNat_expiry_new (time : Duration) (now : Nat) :
    (Lease.new time now).expiry.toNat = (Lease.new time now).span := by
  have hextended : (Lease.new time now).expiry.toNat =
      ((Lease.new time now).elapsed now).toNat + (Lease.new time now).span :=
    extendedAt_new time now
  have hstart : (Lease.new time now).start = now := rfl
  rw [hextended, toNat_elapsed, hstart, Nat.sub_self, Nat.zero_div, Nat.zero_mod, Nat.zero_add]

/-- A renewal never shortens a lease. -/
theorem expiry_le_renew (l : Lease) (now : Nat) : l.expiry.toNat ≤ (l.renew now).expiry.toNat := by
  unfold renew
  -- a renewal that would shorten the lease does nothing
  split
  · rename_i hlater
    exact Nat.le_of_lt (UInt64.lt_iff_toNat_lt.1 hlater)
  · exact Nat.le_refl _

/-- When a lease has ended, a lease time has passed since the beginning of the millisecond of its age
in which it was extended, even if its milliseconds have wrapped meanwhile. -/
theorem ExtendedAt.add_span_le (h : l.ExtendedAt t) (hle : t ≤ now)
    (hended : ¬ l.isValid now = true) :
    t + l.span * 1_000_000 ≤ now + (t - l.start) % 1_000_000 := by
  unfold ExtendedAt at h
  rw [toNat_elapsed] at h
  rw [isValid_iff] at hended
  have hmillis : (t - l.start) / 1_000_000 + l.span ≤ (now - l.start) / 1_000_000 := by
    have hmono : (t - l.start) / 1_000_000 ≤ (now - l.start) / 1_000_000 :=
      Nat.div_le_div_right (Nat.sub_le_sub_right hle _)
    unfold UInt64.size at *
    omega
  omega

/-- A lease ages no faster than the clock goes on. -/
theorem elapsed_le_add {later ms : Nat} (hle : now ≤ later)
    (hlater : later < now + ms * 1_000_000) :
    (l.elapsed later).toNat ≤ (l.elapsed now).toNat + ms := by
  have hmillis : (later - l.start) / 1_000_000 ≤ (now - l.start) / 1_000_000 + ms := by
    omega
  have hmono : (now - l.start) / 1_000_000 ≤ (later - l.start) / 1_000_000 :=
    Nat.div_le_div_right (Nat.sub_le_sub_right hle _)
  rw [toNat_elapsed, toNat_elapsed]
  unfold UInt64.size
  omega

/-- A lease that starts now is no older than the time that passes. -/
theorem elapsed_new_le {time : Duration} {later ms : Nat}
    (hlater : later < now + (ms + 1) * 1_000_000) :
    ((Lease.new time now).elapsed later).toNat ≤ ms := by
  have hstart : (Lease.new time now).start = now := rfl
  rw [toNat_elapsed, hstart]
  refine Nat.le_trans (Nat.mod_le _ _) ?_
  omega

end Lease

namespace Server

variable {s t : Server} {e : Effect} {id : ClientId} {no : ClientNo} {lease : UInt64} {due limit : Nat}

/-! ## Whom a sweep evicts -/

/-- An eviction leaves the table consistent. -/
theorem enlisted_evicted (hs : s.Enlisted) (client : ClientNo) : (s.evicted client).Enlisted := by
  obtain ⟨store, hevicted⟩ := s.evicted_eq client
  have hended : (s.after (endClientLeniently client)).Enlisted :=
    enlisted_chain (does_endClientLeniently (List.Subset.refl _) client s) (by decide) hs
  rw [hevicted]
  exact hended.without client store

/-- An eviction takes one client out and no other. -/
theorem registered_evicted_iff (hs : s.Enlisted) (client : ClientNo) :
    (s.evicted client).registered.get? id = some no ↔
      s.registered.get? id = some no ∧ no ≠ client := by
  obtain ⟨store, hevicted⟩ := s.evicted_eq client
  have hchain : Chain Effect.ending s (s.after (endClientLeniently client)) :=
    does_endClientLeniently (List.Subset.refl _) client s
  have hended := enlisted_chain hchain (by decide) hs
  rw [hevicted, registered_without_iff hended, hchain.registered_eq (by decide)]

/-- Evictions take out those who are named, and nobody else. -/
theorem registered_evict_iff (hs : s.Enlisted) (clients : List ClientNo) :
    (s.after (evict clients)).registered.get? id = some no ↔
      s.registered.get? id = some no ∧ no ∉ clients := by
  rw [after_evict]
  -- on those who are still to go
  induction clients generalizing s with
  | nil => simp
  | cons client rest ih =>
    rw [List.foldl_cons, ih (enlisted_evicted hs client), registered_evicted_iff hs, and_assoc,
      List.mem_cons, not_or]

/-- A sweep evicts the registered clients whose lease has ended, and nobody else. -/
theorem registered_sweep_iff (hs : s.Enlisted) (hrunning : s.running = true) :
    (s.after sweep).registered.get? id = some no ↔
      s.registered.get? id = some no ∧ s.leaseValid no = true := by
  have hsweep : s.after sweep =
      s.after (evict (s.registered.values.filter fun no => !s.leaseValid no)) := by
    rw [after_eq_exec, after_eq_exec, sweep, exec_get_bind, if_pos hrunning]
  rw [hsweep, registered_evict_iff hs]
  refine and_congr_right fun hget => ?_
  have hmem : no ∈ s.registered.values := Table.mem_values_iff.2 ⟨id, hget⟩
  simp [hmem]

/-! ## The sweeps come in time -/

/-- The next sweep is due at a reading of the clock, and comes four lease times from now at the
latest, or less than a millisecond after. Until it comes, the lease of no registered client will have
ended four lease times ago. -/
structure SweepAhead (lease : UInt64) (due : Nat) (s : Server) : Prop where
  running : s.running = true
  leaseTime : s.config.leaseTime = .ofMillis lease
  sweepDue_eq : s.sweepDue = some due
  before : s.now < tick due
  soon : tick due < s.now + (4 * lease.toNat + 1) * 1_000_000
  prompt : ∀ id no, s.registered.get? id = some no → no.value < s.clients.size ∧
    ∀ later, s.now ≤ later → later < tick due →
      ((s.client no).lease.elapsed later).toNat <
        (s.client no).lease.expiry.toNat + 4 * lease.toNat

/-- Four times a lease time of whole milliseconds is a span of time. -/
theorem sweepPeriod_eq (h : s.config.leaseTime = .ofMillis lease) :
    s.sweepPeriod = 4 * lease.toNat * 1_000_000 := by
  have hlimit : lease.toNat * 1_000_000 * 4 < Duration.limit := by
    have hlt := lease.toNat_lt_size
    unfold Duration.limit UInt64.size at *
    omega
  have hinterval : s.config.sweepInterval? = some ⟨lease.toNat * 1_000_000 * 4, hlimit⟩ := by
    rw [Config.sweepInterval?, h, Duration.times?, Duration.ofNanos?_eq_some_iff,
      Duration.ofMillis]
  rw [sweepPeriod, hinterval, Option.map_some, Option.getD_some]
  dsimp only
  omega

theorem toNat_wholeMillis_ofMillis (lease : UInt64) :
    (UInt64.ofNat (Duration.ofMillis lease).wholeMillis).toNat = lease.toNat := by
  unfold Duration.wholeMillis Duration.ofMillis
  rw [Nat.mul_div_cancel _ (by decide), UInt64.toNat_ofNat', Nat.mod_eq_of_lt lease.toNat_lt_size]

/-- The lease of a record that was handed out stays as it is, or is renewed. -/
theorem Update.lease_cases (h : Update e s t) (hno : no.value < s.clients.size) :
    (t.client no).lease = (s.client no).lease ∨
      (t.client no).lease = (s.client no).lease.renew s.now := by
  rcases h.client_update hno with hsame | hupdate | ⟨_, attributes, rfl⟩
  · rw [hsame]
    exact .inl rfl
  · generalize t.client no = c' at *
    cases hupdate with
    | renewed => exact .inr rfl
    | revived => exact .inr rfl
    | _ => exact .inl rfl
  · rw [client_withSession, if_pos ⟨rfl, hno⟩]
    exact .inl rfl

/-- While no time passes and no timer is set, whoever comes has a lease that lasts at least a
millisecond, and nobody who is there loses time. -/
theorem sweepAhead_update (hlease : 0 < lease) (h : Update e s t)
    (he : e ∉ [.passed, .timerSet, .stopped]) (hs : s.SweepAhead lease due) :
    t.SweepAhead lease due := by
  simp only [List.mem_cons, List.not_mem_nil, or_false, not_or] at he
  obtain ⟨hpassed, htimer, hstopped⟩ := he
  have hnow := h.now_eq hpassed
  have hdue : t.sweepDue = s.sweepDue :=
    (timers_of_chain (.single (E := [e]) List.mem_cons_self h) (by simp [htimer, hstopped])).1
  refine ⟨(h.running_eq hstopped).trans hs.running, ?_, hdue.trans hs.sweepDue_eq, hnow ▸ hs.before,
    hnow ▸ hs.soon, fun id no hget => ?_⟩
  · rw [h.config_eq]
    exact hs.leaseTime
  rw [hnow]
  rcases h.registered_cases hget with hbefore | ⟨rfl, r, needReclaim, rfl⟩
  · obtain ⟨hno, hprompt⟩ := hs.prompt id no hbefore
    refine ⟨Nat.lt_of_lt_of_le hno h.clients_size_le, fun later hle hlater => ?_⟩
    have hlasts := hprompt later hle hlater
    rcases h.lease_cases hno with hsame | hrenewed
    · rw [hsame]
      exact hlasts
    · -- a renewal leaves the start of the lease alone
      have hgrown := (s.client no).lease.expiry_le_renew s.now
      rw [hrenewed]
      show ((s.client no).lease.elapsed later).toNat < _
      omega
  · rw [clients_size_withClient, client_withClient, if_pos rfl]
    refine ⟨Nat.lt_succ_self _, fun later _ hlater => ?_⟩
    show ((Lease.new s.config.leaseTime s.now).elapsed later).toNat <
      (Lease.new s.config.leaseTime s.now).expiry.toNat + 4 * lease.toNat
    have hage : ((Lease.new s.config.leaseTime s.now).elapsed later).toNat ≤ 4 * lease.toNat :=
      Lease.elapsed_new_le (Nat.lt_trans hlater hs.soon)
    have hspan : (Lease.new s.config.leaseTime s.now).span = lease.toNat := by
      show (UInt64.ofNat s.config.leaseTime.wholeMillis).toNat = lease.toNat
      rw [hs.leaseTime, toNat_wholeMillis_ofMillis]
    have hpositive : 0 < lease.toNat := UInt64.lt_iff_toNat_lt.1 hlease
    rw [Lease.toNat_expiry_new, hspan]
    omega

/-- Whatever is done between two sweeps, what is promised until the next one holds. -/
theorem sweepAhead_chain (hlease : 0 < lease) {E : List Effect} (h : Chain E s t)
    (hE : ∀ e ∈ E, e ∉ [Effect.passed, .timerSet, .stopped]) (hs : s.SweepAhead lease due) :
    t.SweepAhead lease due :=
  h.preserve (fun he hupdate => sweepAhead_update hlease hupdate (hE _ he)) hs

/-- Time may pass until the sweep comes. -/
theorem SweepAhead.passTo (hs : s.SweepAhead lease due) {later : Nat} (hlater : s.now ≤ later)
    (hbefore : later < tick due) : (s.passTo later).SweepAhead lease due := by
  refine ⟨hs.running, hs.leaseTime, hs.sweepDue_eq, hbefore, ?_, fun id no hget => ?_⟩
  · exact Nat.lt_of_lt_of_le hs.soon (Nat.add_le_add_right hlater _)
  · obtain ⟨hno, hprompt⟩ := hs.prompt id no hget
    exact ⟨hno, fun reading hle => hprompt reading (Nat.le_trans hlater hle)⟩

/-- The end of grace comes between two sweeps. -/
theorem SweepAhead.fireGrace (hlease : 0 < lease) (hs : s.SweepAhead lease due) {graceDue : Nat}
    (hgrace : tick graceDue < tick due) : (s.fireGrace graceDue).SweepAhead lease due := by
  have hpassed : (s.passTo (max s.now (tick graceDue))).SweepAhead lease due :=
    hs.passTo (Nat.le_max_left _ _) (Nat.max_lt.2 ⟨hs.before, hgrace⟩)
  have hclosed := sweepAhead_chain hlease (E := [.graceClosed, .recorded])
    (does_endGrace (by decide) (by decide) _) (by decide) hpassed
  exact ⟨hclosed.running, hclosed.leaseTime, hclosed.sweepDue_eq, hclosed.before, hclosed.soon,
    hclosed.prompt⟩

/-- Whoever a sweep leaves in the table has a lease that is still valid then, and the next sweep is
due four lease times after this one was. -/
theorem SweepAhead.fireSweep (hlease : 0 < lease) (hs : s.SweepAhead lease due)
    (henlisted : s.Enlisted) :
    (s.fireSweep due).SweepAhead lease (due + 4 * lease.toNat * 1_000_000) := by
  have hpositive : 0 < lease.toNat := UInt64.lt_iff_toNat_lt.1 hlease
  have hnow : max s.now (tick due) = tick due := Nat.max_eq_right (Nat.le_of_lt hs.before)
  have hchain := chain_fireSweep s due
  have hsame := samePeriod_fireSweep s due
  have hclock : (s.fireSweep due).now = tick due := by rw [now_fireSweep, hnow]
  have hnext : tick (due + 4 * lease.toNat * 1_000_000) = tick due + 4 * lease.toNat * 1_000_000 :=
    tick_add due (4 * lease.toNat)
  refine ⟨hsame.running.trans hs.running, ?_, ?_, by omega, by omega, fun id no hget => ?_⟩
  · rw [hsame.config]
    exact hs.leaseTime
  · show some (due + s.sweepPeriod) = _
    rw [sweepPeriod_eq hs.leaseTime]
  · have hfound : (s.passTo (max s.now (tick due))).Enlisted :=
      enlisted_update (.passed s _ (Nat.le_max_left _ _)) (by decide) henlisted
    -- the sweep finds the server where the timer fired, and leaves every lease as it is
    obtain ⟨hbefore, hvalid⟩ := (registered_sweep_iff hfound hs.running).1 hget
    obtain ⟨hno, -⟩ := hs.prompt id no hbefore
    rw [lease_eq_of_elapsing hchain hno, hclock, hnext]
    refine ⟨Nat.lt_of_lt_of_le hno hchain.clients_size_le, fun later hle hlater => ?_⟩
    have hage : ((s.client no).lease.elapsed later).toNat ≤
        ((s.client no).lease.elapsed (tick due)).toNat + 4 * lease.toNat :=
      Lease.elapsed_le_add hle hlater
    have hlasts : (s.client no).lease.elapsed (max s.now (tick due)) < (s.client no).lease.expiry :=
      of_decide_eq_true hvalid
    rw [hnow, UInt64.lt_iff_toNat_lt] at hlasts
    omega

/-- How many timers can fire until a time. -/
def timersLeft (s : Server) (limit : Nat) : Nat :=
  s.sweepsLeft limit + s.graceDue.elim 0 fun _ => 1

theorem SweepAhead.timersLeft_eq (hs : s.SweepAhead lease due) (limit : Nat) :
    s.timersLeft limit = limit + 1 - due + s.graceDue.elim 0 fun _ => 1 := by
  unfold timersLeft sweepsLeft
  rw [hs.sweepDue_eq]
  rfl

/-- Sweeps and the end of grace fire until the next sweep comes later. -/
theorem sweepAhead_fireUntil (hlease : 0 < lease) (hs : s.SweepAhead lease due)
    (henlisted : s.Enlisted) {fuel : Nat} (hfuel : s.timersLeft limit < fuel) :
    ∃ due', (fireUntil fuel s limit).SweepAhead lease due' ∧ limit < tick due' := by
  have hpositive : 0 < lease.toNat := UInt64.lt_iff_toNat_lt.1 hlease
  induction fuel generalizing s due with
  | zero => omega
  | succ fuel ih =>
    rw [hs.timersLeft_eq] at hfuel
    unfold fireUntil
    split
    · rename_i hnext
      exact ⟨due, hs, sweepDue_of_nextDue?_eq_none hnext hs.sweepDue_eq⟩
    · rename_i sweepDue hnext
      obtain ⟨hle, htimer⟩ := timer_of_nextDue? hnext
      obtain rfl : due = sweepDue := Option.some.inj (hs.sweepDue_eq.symm.trans htimer)
      have hswept := hs.fireSweep hlease henlisted
      refine ih hswept (enlisted_chain (chain_fireSweep s _) (by decide) henlisted) ?_
      -- the next sweep is due later, so fewer are left
      have hreached : due ≤ limit := Nat.le_trans (le_tick due) hle
      rw [hswept.timersLeft_eq, (samePeriod_fireSweep s _).graceDue]
      omega
    · rename_i graceDue hnext
      obtain ⟨-, htimer⟩ := timer_of_nextDue? hnext
      have hgrace := hs.fireGrace hlease (lt_sweepDue_of_nextDue? hnext hs.sweepDue_eq)
      refine ih hgrace (enlisted_chain (chain_fireGrace s graceDue) (by decide) henlisted) ?_
      -- the end of grace fires once
      rw [show s.graceDue = some graceDue from htimer] at hfuel
      rw [hgrace.timersLeft_eq, show (s.fireGrace graceDue).graceDue = none from rfl]
      dsimp only [Option.elim] at *
      omega

/-- However long the time that passes at once, there is a next sweep, and it comes in time. -/
theorem sweepAhead_elapse (hlease : 0 < lease) (hs : s.SweepAhead lease due)
    (henlisted : s.Enlisted) (nanos : Nat) : ∃ due', (s.elapse nanos).SweepAhead lease due' := by
  have hfuel : s.timersLeft (s.now + nanos) < s.now + nanos + 2 := by
    have hgrace : (s.graceDue.elim 0 fun _ => 1) ≤ 1 := by
      cases s.graceDue with
      | none => exact Nat.zero_le _
      | some => exact Nat.le_refl _
    have hpositive : 0 < due := by
      refine Nat.pos_of_ne_zero fun hzero => ?_
      have hbefore : s.now < tick 0 := hzero ▸ hs.before
      have hstart : tick 0 = 0 := by unfold tick; rfl
      omega
    rw [hs.timersLeft_eq]
    omega
  obtain ⟨due', hswept, hlater⟩ := sweepAhead_fireUntil hlease hs henlisted hfuel
  have hnow := (chain_fireUntil (s.now + nanos + 2) s (Nat.le_add_right s.now nanos)).2
  exact ⟨due', hswept.passTo hnow hlater⟩

/-- After every action that leaves the server running there is a next sweep in time. -/
theorem sweepAhead_perform (hlease : 0 < lease) (hs : s.SweepAhead lease due)
    (henlisted : s.Enlisted) (a : Action) (hrunning : (s.perform a).running = true) :
    ∃ due', (s.perform a).SweepAhead lease due' := by
  cases a with
  | elapse nanos => exact sweepAhead_elapse hlease hs henlisted nanos
  | shutdown =>
    rw [show (s.perform .shutdown).running = false from running_shutdown s] at hrunning
    cases hrunning
  | _ =>
    refine ⟨due, sweepAhead_chain hlease (chain_perform s _) ?_ hs⟩
    dsimp only [Action.effects]
    decide

end Server

/-! ## Runs of a launched server -/

/-- One thing that happens in the life of a server: an action, or a change of what is around it. -/
inductive Occurrence where
  | action (a : Action)
  /-- Somebody comes to watch for the end of a state, and refuses so many times. -/
  | observed (no : StateNo) (label : String) (refusals : Nat)
  | calledBack (client : ClientNo) (hasCallback : Bool)
  /-- The wall clock is set; leases and timers do not go by it. -/
  | wallSet (wall : WallTime)

namespace Server

/-- The server after an occurrence. -/
def undergo (s : Server) : Occurrence → Server
  | .action a => s.perform a
  | .observed no label refusals => s.amendState no (·.owe (.notify label refusals))
  | .calledBack client hasCallback => s.amendClient client ({ · with hasCallback })
  | .wallSet wall => { s with wall }

/-- The server after a run. -/
def undergoAll (s : Server) (run : List Occurrence) : Server := run.foldl undergo s

variable {s t : Server} {no : ClientNo} {lease : UInt64} {due limit : Nat}

/-- Leases and timers find everything that they go by as it was. -/
structure SameTiming (s t : Server) : Prop where
  running : t.running = s.running
  config : t.config = s.config
  now : t.now = s.now
  sweepDue : t.sweepDue = s.sweepDue
  registered : t.registered = s.registered
  size : t.clients.size = s.clients.size
  id : ∀ no, (t.client no).id = (s.client no).id
  registration : ∀ no, (t.client no).registration = (s.client no).registration
  lease : ∀ no, (t.client no).lease = (s.client no).lease

/-- Whatever is no action finds leases and timers as they are, and leaves them so. -/
theorem undergo_cases (s : Server) (o : Occurrence) :
    (∃ a, o = .action a ∧ s.undergo o = s.perform a) ∨ s.SameTiming (s.undergo o) := by
  cases o with
  | action a => exact .inl ⟨a, rfl, rfl⟩
  | observed no label refusals =>
    exact .inr ⟨rfl, rfl, rfl, rfl, rfl, rfl, fun _ => rfl, fun _ => rfl, fun _ => rfl⟩
  | calledBack client hasCallback =>
    refine .inr ⟨rfl, rfl, rfl, rfl, rfl, Ledger.size_modify .., ?_, ?_, ?_⟩
    · exact client_calledBack Client.id (fun _ _ => rfl) s client hasCallback
    · exact client_calledBack Client.registration (fun _ _ => rfl) s client hasCallback
    · exact client_calledBack Client.lease (fun _ _ => rfl) s client hasCallback
  | wallSet wall =>
    exact .inr ⟨rfl, rfl, rfl, rfl, rfl, rfl, fun _ => rfl, fun _ => rfl, fun _ => rfl⟩

/-- The occurrence extends the lease of a client: it makes the client's record, or it moves the end
of the lease. Until the milliseconds of the lease wrap, a renewal does so unless the lease was
extended in the same millisecond of its age. -/
def Extends (s : Server) (no : ClientNo) (o : Occurrence) : Prop :=
  (s.clients.size ≤ no.value ∧ no.value < (s.undergo o).clients.size) ∨
    ((s.undergo o).client no).lease ≠ (s.client no).lease

instance (s : Server) (no : ClientNo) (o : Occurrence) : Decidable (s.Extends no o) :=
  inferInstanceAs (Decidable (_ ∨ _))

/-- When the lease of a client was last extended in the course of a run. -/
def lastExtension? (no : ClientNo) : Server → List Occurrence → Option Nat
  | _, [] => none
  | s, o :: rest =>
    (lastExtension? no (s.undergo o) rest).or (if s.Extends no o then some s.now else none)

theorem undergoAll_concat (s : Server) (run : List Occurrence) (o : Occurrence) :
    s.undergoAll (run ++ [o]) = (s.undergoAll run).undergo o :=
  List.foldl_append ..

/-- The last extension is made by the last occurrence, or was the last one before it. -/
theorem lastExtension?_concat (no : ClientNo) (s : Server) (run : List Occurrence)
    (o : Occurrence) :
    lastExtension? no s (run ++ [o]) =
      if (s.undergoAll run).Extends no o then some (s.undergoAll run).now
      else lastExtension? no s run := by
  induction run generalizing s with
  | nil =>
    show (none : Option Nat).or _ = _
    rw [Option.none_or]
    rfl
  | cons first rest ih =>
    rw [List.cons_append, lastExtension?, ih]
    show Option.or _ _ =
      if ((s.undergo first).undergoAll rest).Extends no o then _ else Option.or _ _
    split
    · rfl
    · rfl

/-! ## Leases last -/

/-- After a run every registered client has the lease time of the server, and its lease ends one lease
time after it was last extended. -/
structure Extended (first : Server) (run : List Occurrence) (s : Server) : Prop where
  config : s.config = first.config
  lease : ∀ id no, s.registered.get? id = some no → no.value < s.clients.size ∧
    (s.client no).lease.time = s.config.leaseTime ∧
    ∃ t, lastExtension? no first run = some t ∧ t ≤ s.now ∧ (s.client no).lease.ExtendedAt t

/-- A registered client was registered before and has the lease that it had, or its lease was extended
at the reading of the clock before. -/
structure Since (s t : Server) : Prop where
  now : s.now ≤ t.now
  config : t.config = s.config
  size : s.clients.size ≤ t.clients.size
  lease : ∀ id no, t.registered.get? id = some no → no.value < t.clients.size ∧
    (t.client no).lease.time = s.config.leaseTime ∧
    (s.registered.get? id = some no ∧ (t.client no).lease = (s.client no).lease ∨
      (s.registered.get? id = some no ∨ s.clients.size ≤ no.value) ∧
        (t.client no).lease.ExtendedAt s.now)

variable {first u : Server} {run : List Occurrence} {o : Occurrence} {id : ClientId} {e : Effect}

theorem Since.span_le (hs : Extended first run s) (h : s.Since t)
    (hget : t.registered.get? id = some no) :
    (t.client no).lease.span ≤ (t.client no).lease.expiry.toNat := by
  obtain ⟨-, -, ⟨hbefore, hsame⟩ | ⟨-, hextended⟩⟩ := h.lease id no hget
  · obtain ⟨-, -, t, -, -, hextended⟩ := hs.lease id no hbefore
    rw [hsame]
    exact hextended.span_le
  · exact hextended.span_le

/-- Between two readings of the clock, leases stay or are extended at the first of them. -/
theorem since_update (hs : Extended first run s) {a : Server} (h : Update e a t) (he : e ≠ .passed)
    (hnow : a.now = s.now) (ha : s.Since a) : s.Since t := by
  refine ⟨?_, h.config_eq.trans ha.config, Nat.le_trans ha.size h.clients_size_le,
    fun id no hget => ?_⟩
  · rw [h.now_eq he]
    exact ha.now
  · rcases h.registered_cases hget with hbefore | ⟨rfl, r, needReclaim, rfl⟩
    · obtain ⟨hno, htime, hlease⟩ := ha.lease id no hbefore
      refine ⟨Nat.lt_of_lt_of_le hno h.clients_size_le, ?_⟩
      rcases h.lease_cases hno with hsame | hrenewed
      · rw [hsame]
        exact ⟨htime, hlease⟩
      · rw [hrenewed, hnow]
        refine ⟨htime, ?_⟩
        -- a renewal of the lease as it was, or as it was just extended
        rcases Lease.renew_cases (ha.span_le hs hbefore) s.now with hkept | hextended
        · rw [hkept]
          exact hlease
        · have hknown : s.registered.get? id = some no ∨ s.clients.size ≤ no.value := by
            rcases hlease with ⟨hbefore, -⟩ | ⟨hknown, -⟩
            · exact .inl hbefore
            · exact hknown
          exact .inr ⟨hknown, hextended⟩
    · rw [clients_size_withClient, client_withClient, if_pos rfl, ← ha.config, ← hnow]
      exact ⟨Nat.lt_succ_self _, rfl, .inr ⟨.inr ha.size, Lease.extendedAt_new _ _⟩⟩

/-- While no time passes, leases stay as they are or are extended now. -/
theorem since_chain (hs : Extended first run s) {E : List Effect} (h : Chain E s t)
    (hE : .passed ∉ E) : s.Since t := by
  have hboth : t.now = s.now ∧ s.Since t := by
    refine h.preserve (I := fun a => a.now = s.now ∧ s.Since a) ?_ ⟨rfl, Nat.le_refl _, rfl,
      Nat.le_refl _, fun id no hget => ?_⟩
    · intro e a b he hupdate ⟨hnow, ha⟩
      have hpassed : e ≠ .passed := fun hpassed => hE (hpassed ▸ he)
      exact ⟨(hupdate.now_eq hpassed).trans hnow, since_update hs hupdate hpassed hnow ha⟩
    · obtain ⟨hno, htime, -⟩ := hs.lease id no hget
      exact ⟨hno, htime, .inl ⟨hget, rfl⟩⟩
  exact hboth.2

/-- While time passes, no lease is extended. -/
theorem since_elapsing (hs : Extended first run s) (h : Chain Effect.elapsing s t) : s.Since t := by
  refine ⟨h.now_le, h.config_eq, h.clients_size_le, fun id no hget => ?_⟩
  have hbefore := registered_get?_of_chain h (by decide) hget
  obtain ⟨hno, htime, -⟩ := hs.lease id no hbefore
  have hlease := lease_eq_of_elapsing h hno
  refine ⟨Nat.lt_of_lt_of_le hno h.clients_size_le, ?_, .inl ⟨hbefore, hlease⟩⟩
  rw [hlease]
  exact htime

/-- Whatever occurs begins by what is done at this reading; time leaves leases alone. -/
theorem since_undergo (hs : Extended first run s) (o : Occurrence) : s.Since (s.undergo o) := by
  rcases s.undergo_cases o with ⟨a, -, hperform⟩ | htiming
  · rw [hperform]
    by_cases hpassed : .passed ∈ a.effects
    · cases a with
      | elapse nanos => exact since_elapsing hs (chain_perform s (.elapse nanos))
      | _ => exact absurd hpassed (by dsimp only [Action.effects]; decide)
    · exact since_chain hs (chain_perform s a) hpassed
  · refine ⟨Nat.le_of_eq htiming.now.symm, htiming.config, Nat.le_of_eq htiming.size.symm,
      fun id no hget => ?_⟩
    rw [htiming.registered] at hget
    obtain ⟨hno, htime, -⟩ := hs.lease id no hget
    rw [htiming.size, htiming.lease]
    exact ⟨hno, htime, .inl ⟨hget, rfl⟩⟩

/-- After one more occurrence, every lease still ends one lease time after its last extension. -/
theorem extended_undergo (hs : Extended first run s) (hrun : s = first.undergoAll run)
    (o : Occurrence) : Extended first (run ++ [o]) (s.undergo o) := by
  have hsince := since_undergo hs o
  refine ⟨hsince.config.trans hs.config, fun id no hget => ?_⟩
  obtain ⟨hno, htime, hlease⟩ := hsince.lease id no hget
  refine ⟨hno, htime.trans (congrArg Config.leaseTime hsince.config.symm), ?_⟩
  rw [lastExtension?_concat, ← hrun]
  by_cases hextends : s.Extends no o
  -- the occurrence made the record or moved the end, so that the lease cannot be as it was
  · rw [if_pos hextends]
    refine ⟨s.now, rfl, hsince.now, ?_⟩
    rcases hlease with ⟨hbefore, hsame⟩ | ⟨-, hextended⟩
    · rcases hextends with ⟨hnew, -⟩ | hmoved
      · exact absurd (hs.lease id no hbefore).1 (Nat.not_lt.2 hnew)
      · exact absurd hsame hmoved
    · exact hextended
  -- or the lease is as it was, and was last extended when it was before
  · rw [if_neg hextends]
    unfold Extends at hextends
    rw [not_or, not_and', Decidable.not_not] at hextends
    obtain ⟨hmade, hsame⟩ := hextends
    have hbefore : s.registered.get? id = some no := by
      rcases hlease with ⟨hbefore, -⟩ | ⟨hbefore | hnew, -⟩
      · exact hbefore
      · exact hbefore
      · exact absurd hnew (hmade hno)
    obtain ⟨-, -, t, hlast, hle, hextended⟩ := hs.lease id no hbefore
    refine ⟨t, hlast, Nat.le_trans hle hsince.now, ?_⟩
    rw [hsame]
    exact hextended

/-! ## The sweeps of an occurrence -/

/-- The servers that the sweeps find which fire until a time, as far as so many timers fire. -/
def sweepsUntil : Nat → Server → Nat → List Server
  | 0, _, _ => []
  | fuel + 1, s, limit =>
    match s.nextDue? limit with
    | none => []
    | some (due, true) =>
      s.passTo (max s.now (tick due)) :: sweepsUntil fuel (s.fireSweep due) limit
    | some (due, false) => sweepsUntil fuel (s.fireGrace due) limit

/-- The servers that the sweeps of an occurrence find. -/
def sweeps (s : Server) : Occurrence → List Server
  | .action .sweep => [s]
  | .action (.elapse nanos) => sweepsUntil (s.now + nanos + 2) s (s.now + nanos)
  | _ => []

/-- The end of grace takes nobody out of the table. -/
theorem registered_fireGrace (s : Server) (due : Nat) :
    (s.fireGrace due).registered = s.registered := by
  have hchain : Chain [.graceClosed, .recorded] (s.passTo (max s.now (tick due)))
      ((s.passTo (max s.now (tick due))).after endGrace) := does_endGrace (by decide) (by decide) _
  exact hchain.registered_eq (by decide)

/-- Whoever is gone once timers have fired was evicted by one of the sweeps. -/
theorem unregistered_by_fireUntil {fuel : Nat} (hget : s.registered.get? id = some no)
    (hgone : (fireUntil fuel s limit).registered.get? id ≠ some no) :
    ∃ u ∈ sweepsUntil fuel s limit, u.registered.get? id = some no ∧
      (u.after sweep).registered.get? id ≠ some no := by
  -- on the number of timers that may still fire
  induction fuel generalizing s with
  | zero => exact absurd hget hgone
  | succ fuel ih =>
    unfold fireUntil at hgone
    unfold sweepsUntil
    rcases hnext : s.nextDue? limit with _ | ⟨due, _ | _⟩
    · rw [hnext] at hgone
      exact absurd hget hgone
    · rw [hnext] at hgone
      refine ih ?_ hgone
      rw [registered_fireGrace]
      exact hget
    · rw [hnext] at hgone
      -- this sweep takes the client out, or a later one does
      by_cases hkept : (s.fireSweep due).registered.get? id = some no
      · obtain ⟨u, hmem, hevicted⟩ := ih hkept hgone
        exact ⟨u, List.mem_cons_of_mem _ hmem, hevicted⟩
      · exact ⟨_, List.mem_cons_self, hget, hkept⟩

/-- Time takes nobody out of the table but by one of the sweeps. -/
theorem unregistered_by_sweep (hget : s.registered.get? id = some no) {nanos : Nat}
    (hgone : (s.elapse nanos).registered.get? id ≠ some no) :
    ∃ u ∈ s.sweeps (.action (.elapse nanos)), u.registered.get? id = some no ∧
      (u.after sweep).registered.get? id ≠ some no :=
  unregistered_by_fireUntil hget hgone

/-- Sweeps find the server as time has brought it there. -/
theorem chain_of_mem_sweepsUntil {fuel : Nat} (hu : u ∈ sweepsUntil fuel s limit) :
    Chain Effect.elapsing s u := by
  induction fuel generalizing s with
  | zero => cases hu
  | succ fuel ih =>
    unfold sweepsUntil at hu
    split at hu
    · cases hu
    · rename_i due _
      rcases List.mem_cons.1 hu with rfl | hlater
      · exact chain_passTo (Nat.le_max_left _ _)
      · exact (chain_fireSweep s due).trans (ih hlater)
    · rename_i due _
      exact (chain_fireGrace s due).trans (ih hu)

theorem chain_of_mem_sweeps (hu : u ∈ s.sweeps o) : Chain Effect.elapsing s u := by
  unfold sweeps at hu
  split at hu
  · rw [List.mem_singleton.1 hu]
    exact .refl
  · exact chain_of_mem_sweepsUntil hu
  · cases hu

/-- A server that has stopped sweeps nobody out. -/
theorem after_sweep_of_not_running (h : s.running = false) : s.after sweep = s := by
  rw [after_eq_exec, sweep, exec_get_bind, h]
  rfl

/-- The lease of whoever a sweep evicts was last extended a lease time ago or longer, counted from the
beginning of the millisecond of its age in which that was. -/
theorem Extended.add_span_le (hs : Extended first run s) (henlisted : s.Enlisted)
    (hu : u ∈ s.sweeps o) (hget : u.registered.get? id = some no)
    (hgone : (u.after sweep).registered.get? id ≠ some no) :
    ∃ t, lastExtension? no first run = some t ∧
      t + (UInt64.ofNat first.config.leaseTime.wholeMillis).toNat * 1_000_000 ≤
        u.now + (t - (u.client no).lease.start) % 1_000_000 := by
  have hchain := chain_of_mem_sweeps hu
  have hbefore := registered_get?_of_chain hchain (by decide) hget
  obtain ⟨hno, htime, t, hlast, hle, hextended⟩ := hs.lease id no hbefore
  have hlease := lease_eq_of_elapsing hchain hno
  have hnow : t ≤ u.now := Nat.le_trans hle hchain.now_le
  -- with a valid lease the sweep would have passed the client by
  have hended : ¬ (s.client no).lease.isValid u.now = true := by
    intro hvalid
    cases hrunning : u.running with
    | true =>
      have hfound := enlisted_chain hchain (by decide) henlisted
      refine hgone ((registered_sweep_iff hfound hrunning).2 ⟨hget, ?_⟩)
      unfold leaseValid Client.isLeaseValid
      rw [hlease]
      exact hvalid
    | false =>
      rw [after_sweep_of_not_running hrunning] at hgone
      exact hgone hget
  refine ⟨t, hlast, ?_⟩
  rw [← hs.config, ← htime, hlease]
  exact hextended.add_span_le hnow hended

/-! ## Whole runs -/

/-- Whatever occurs, the table stays consistent. -/
theorem enlisted_undergo (hs : s.Enlisted) (o : Occurrence) : (s.undergo o).Enlisted := by
  rcases s.undergo_cases o with ⟨a, -, hperform⟩ | htiming
  · rw [hperform]
    exact enlisted_perform hs a
  · have howner (no : ClientNo) : ((s.undergo o).client no).owner = (s.client no).owner :=
      congrArg Registration.owner (htiming.registration no)
    constructor
    · intro id no hget
      rw [htiming.registered] at hget
      rw [htiming.size, htiming.id]
      exact hs.listed id no hget
    · intro id no id' no' hget hget' hsame
      rw [htiming.registered] at hget hget'
      rw [howner, howner] at hsame
      exact hs.oneEach id no id' no' hget hget' hsame

theorem enlisted_undergoAll (hs : s.Enlisted) (run : List Occurrence) :
    (s.undergoAll run).Enlisted := by
  induction run generalizing s with
  | nil => exact hs
  | cons o rest ih => exact ih (enlisted_undergo hs o)

theorem extended_undergoAll (hs : Extended first run s) (hrun : s = first.undergoAll run)
    (more : List Occurrence) : Extended first (run ++ more) (s.undergoAll more) := by
  induction more generalizing s run with
  | nil =>
    rw [List.append_nil]
    exact hs
  | cons o rest ih =>
    have hrun' : s.undergo o = first.undergoAll (run ++ [o]) := by
      rw [undergoAll_concat, ← hrun]
    rw [List.append_cons]
    exact ih (extended_undergo hs hrun o) hrun'

/-- Whatever occurs, there is a next sweep in time while the server runs. -/
theorem sweepAhead_undergo (hlease : 0 < lease) (hs : s.SweepAhead lease due)
    (henlisted : s.Enlisted) (o : Occurrence) (hrunning : (s.undergo o).running = true) :
    ∃ due', (s.undergo o).SweepAhead lease due' := by
  rcases s.undergo_cases o with ⟨a, -, hperform⟩ | htiming
  · rw [hperform] at hrunning ⊢
    exact sweepAhead_perform hlease hs henlisted a hrunning
  · refine ⟨due, hrunning, ?_, htiming.sweepDue.trans hs.sweepDue_eq, ?_, ?_, fun id no hget => ?_⟩
    · rw [htiming.config]
      exact hs.leaseTime
    · rw [htiming.now]
      exact hs.before
    · rw [htiming.now]
      exact hs.soon
    · rw [htiming.registered] at hget
      -- no lease and no timer is touched, so the promise is the same
      rw [htiming.size, htiming.lease, htiming.now]
      exact hs.prompt id no hget

/-- A server that runs at the end of a run ran all the while. -/
theorem running_of_running_undergoAll {run : List Occurrence}
    (h : (s.undergoAll run).running = true) : s.running = true := by
  induction run generalizing s with
  | nil => exact h
  | cons o rest ih =>
    have hrunning : (s.undergo o).running = true := ih h
    rcases s.undergo_cases o with ⟨a, -, hperform⟩ | htiming
    · rw [hperform] at hrunning
      exact running_of_running_perform hrunning
    · exact htiming.running ▸ hrunning

/-- After every run that leaves the server running there is a next sweep in time. -/
theorem sweepAhead_undergoAll (hlease : 0 < lease) (hs : s.SweepAhead lease due)
    (henlisted : s.Enlisted) (run : List Occurrence) (hrunning : (s.undergoAll run).running = true) :
    ∃ due', (s.undergoAll run).SweepAhead lease due' := by
  -- on the occurrences still to come; each of them may set the next sweep anew
  induction run generalizing s due with
  | nil => exact ⟨due, hs⟩
  | cons o rest ih =>
    have hstill : (s.undergo o).running = true := running_of_running_undergoAll hrunning
    obtain ⟨due', hstep⟩ := sweepAhead_undergo hlease hs henlisted o hstill
    exact ih hstep (enlisted_undergo henlisted o) hrunning

/-! ## A launched server -/

variable {config : Config}

theorem extended_launch (config : Config) (store : Recovery.Store) (wall : WallTime) (now : Nat) :
    Extended (launch config store wall now) [] (launch config store wall now) :=
  ⟨rfl, fun _ _ hget => absurd hget nofun⟩

/-- The first sweep comes four lease times after the launch. -/
theorem sweepAhead_launch (hconfig : config.leaseTime = .ofMillis lease) (hlease : 0 < lease)
    (store : Recovery.Store) (wall : WallTime) (now : Nat) :
    (launch config store wall now).SweepAhead lease (now + 4 * lease.toNat * 1_000_000) := by
  have hpositive : 0 < lease.toNat := UInt64.lt_iff_toNat_lt.1 hlease
  have hperiod : (launch config store wall now).sweepPeriod = 4 * lease.toNat * 1_000_000 :=
    sweepPeriod_eq hconfig
  -- a whole number of milliseconds later, the next tick is as much later
  have hfirst : tick (now + 4 * lease.toNat * 1_000_000) = tick now + 4 * lease.toNat * 1_000_000 :=
    tick_add now (4 * lease.toNat)
  have hearly := le_tick now
  have hlate := tick_lt now
  refine ⟨rfl, hconfig, ?_, ?_, ?_, fun _ _ hget => absurd hget nofun⟩
  · show (if (launch config store wall now).sweepPeriod = 0 then none
      else some (now + (launch config store wall now).sweepPeriod)) = _
    rw [hperiod, if_neg (by omega)]
  · show now < tick (now + 4 * lease.toNat * 1_000_000)
    omega
  · show tick (now + 4 * lease.toNat * 1_000_000) < now + (4 * lease.toNat + 1) * 1_000_000
    omega

end Server

end Leasehold

import Leasehold.Proofs.Keeping
import Leasehold.Proofs.RecoveryTables
import Leasehold.Proofs.Registration

/-!
# Proofs.GraceWindow — when clients may reclaim

The grace period lasts until it is closed, by a caller or by its timer, or until
every owner that was to reclaim when the store was opened has done so. Nothing
else a server does moves its end (`Server.SamePeriod`), and the timer fires on the
first millisecond after it is due, however many sweeps fire before it
(`Server.graceOver_elapse`).

* `Server.window_performAll` — what holds of the window after every run;
* `Server.grace_window` — exactly when the grace period lasts, and that it never
  comes back.
-/

namespace Leasehold

open Request

namespace Server

variable {s t u : Server} {e : Effect} {limit : Nat}

/-! ## What leaves the window alone -/

/-- A server still runs with what it ran with. -/
structure Runs (s t : Server) : Prop where
  running : t.running = s.running
  config : t.config = s.config
  spared : s.Spared → t.Spared
  closed : t.store.tables.closed = s.store.tables.closed

theorem Runs.refl (s : Server) : Runs s s := ⟨rfl, rfl, id, rfl⟩

theorem Runs.trans (h : Runs s t) (h' : Runs t u) : Runs s u :=
  ⟨h'.running.trans h.running, h'.config.trans h.config, h'.spared ∘ h.spared,
    h'.closed.trans h.closed⟩

/-- The grace period stands as it stood. -/
structure SamePeriod (s t : Server) : Prop extends Runs s t where
  graceOver : t.graceOver = s.graceOver
  graceDue : t.graceDue = s.graceDue
  recovering : t.store.tables.recovering = s.store.tables.recovering

theorem SamePeriod.refl (s : Server) : SamePeriod s s := ⟨.refl s, rfl, rfl, rfl⟩

theorem SamePeriod.trans (h : SamePeriod s t) (h' : SamePeriod t u) : SamePeriod s u :=
  ⟨h.toRuns.trans h'.toRuns, h'.graceOver.trans h.graceOver, h'.graceDue.trans h.graceDue,
    h'.recovering.trans h.recovering⟩

/-- An update that neither stops the server nor sets calls to fail lets it run with what it ran
with. -/
theorem runs_update (h : Update e s t) (he : e ∉ [.recorded, .stopped, .faultsSet]) : Runs s t := by
  cases h with
  | recorded => exact absurd (by decide) he
  | stopped => exact absurd (by decide) he
  | faultsSet => exact absurd (by decide) he
  | _ => exact ⟨rfl, rfl, id, rfl⟩

/-- The grace period stands where it stood unless it is closed, or the store is told something. -/
theorem samePeriod_update (h : Update e s t)
    (he : e ∉ [.recorded, .stopped, .faultsSet, .graceClosed, .timerSet]) : SamePeriod s t := by
  cases h with
  | recorded => exact absurd (by decide) he
  | stopped => exact absurd (by decide) he
  | faultsSet => exact absurd (by decide) he
  | graceClosed => exact absurd (by decide) he
  | timerSet => exact absurd (by decide) he
  | _ => exact ⟨⟨rfl, rfl, id, rfl⟩, rfl, rfl, rfl⟩

/-- A store whose owners to reclaim are the same. -/
theorem samePeriod_store {store : Recovery.Store}
    (hclosed : store.tables.closed = s.store.tables.closed)
    (hrecovering : store.tables.recovering = s.store.tables.recovering) :
    SamePeriod s { s with store } :=
  ⟨⟨rfl, rfl, id, hclosed⟩, rfl, rfl, hrecovering⟩

theorem samePeriod_chain {E : List Effect} (h : Chain E s t)
    (hE : ∀ e ∈ E, e ∉ [Effect.recorded, .stopped, .faultsSet, .graceClosed, .timerSet]) :
    SamePeriod s t :=
  h.lift SamePeriod.refl (fun h h' => h.trans h') fun he hupdate => samePeriod_update hupdate (hE _ he)

theorem samePeriod_of_does {r : Request Unit} {E : List Effect} (h : Does E r)
    (hE : ∀ e ∈ E, e ∉ [Effect.recorded, .stopped, .faultsSet, .graceClosed, .timerSet]) :
    Keeps (SamePeriod s) r :=
  fun t ht => ht.trans (samePeriod_chain (h t) hE)

/-- Registrations, removals and sweeps leave the window alone. -/
theorem keepsParts_samePeriod (s : Server) : KeepsParts (SamePeriod s) where
  unregistered h ht := ht.trans (samePeriod_update h (by decide))
  endClient client := samePeriod_of_does (does_endClient (List.Subset.refl _) client) (by decide)
  endClientLeniently client :=
    samePeriod_of_does (does_endClientLeniently (List.Subset.refl _) client) (by decide)
  removeClient owner := by
    apply keeps_updateStore
    intro t store hcall ht
    obtain ⟨hopen, hstore⟩ := Recovery.Store.tables_of_ok (t.store.map_tables_removeClient owner)
      (callStore_eq_ok hcall)
    exact ht.trans (samePeriod_store (by rw [hstore]; rfl) (by rw [hstore]; rfl))
  enrolled h ht := ht.trans (samePeriod_update h (by decide))
  renewed h ht := ht.trans (samePeriod_update h (by decide))
  addClient now owner := by
    apply keeps_updateStore
    intro t store hcall ht
    obtain ⟨hopen, hstore⟩ := Recovery.Store.tables_of_ok (t.store.map_tables_addClient now owner)
      (callStore_eq_ok hcall)
    exact ht.trans (samePeriod_store (by rw [hstore]; rfl) (by rw [hstore]; rfl))

/-- A sweep forgets clients, which makes no difference to who is waited for. -/
theorem samePeriod_sweep (s : Server) : SamePeriod s (s.after sweep) :=
  keeps_sweep (keepsParts_samePeriod s).toKeepsEviction s (.refl s)

/-- An action that neither closes the window nor reclaims nor has to do with how the server runs. -/
theorem samePeriod_perform (a : Action) (ha : ∀ e ∈ a.effects,
    e ∉ [Effect.stopped, .faultsSet, .graceClosed, .timerSet, .reclaimed]) :
    SamePeriod s (s.perform a) := by
  unfold perform
  split
  · rename_i hknown
    cases a with
    | register r => exact keeps_register (keepsParts_samePeriod s) r s (.refl s)
    | createClient r => exact keeps_createClient (keepsParts_samePeriod s) r s (.refl s)
    | removeClient id => exact keeps_removeClient (keepsParts_samePeriod s).toKeepsEviction id s (.refl s)
    | sweep => exact samePeriod_sweep s
    | reclaimComplete client => exact absurd (by decide) (ha .reclaimed (by dsimp only [Action.effects]; decide))
    | endGrace => exact absurd (by decide) (ha .graceClosed (by decide))
    | shutdown => exact absurd (by decide) (ha .stopped (by decide))
    | setFaults faults => exact absurd (by decide) (ha .faultsSet (by dsimp only [Action.effects]; decide))
    | elapse nanos => exact absurd (by decide) (ha .timerSet (by dsimp only [Action.effects]; decide))
    | _ => exact samePeriod_chain (chain_carryOut s _ hknown) (by dsimp only [Action.effects]; decide)
  · exact .refl s

/-! ## What closes the window -/

/-- At the end of grace the server runs on. -/
theorem runs_endGrace (s : Server) : Runs s (s.after endGrace) := by
  refine keeps_endGrace (I := Runs s) (fun h ht => ht.trans (runs_update h (by decide))) ?_ s (.refl s)
  intro t store _ hcall ht
  obtain ⟨hopen, hstore⟩ := Recovery.Store.tables_of_ok t.store.map_tables_reclaimComplete
    (callStore_eq_ok hcall)
  exact ht.trans ⟨rfl, rfl, id, by rw [hstore]; rfl⟩

/-- The window is closed before the store hears of it. -/
theorem exec_endGrace (s : Server) :
    endGrace.exec s =
      if s.running then
        if s.graceOver then (.ok (), s)
        else
          match s.callStore .reclaimComplete (·.reclaimComplete) with
          | .ok store => (.ok (), { s with graceOver := true, store })
          | .error e => (.error (.recovery e), { s with graceOver := true })
      else (.error .notRunning, s) := by
  unfold endGrace
  rw [exec_bind, exec_ensureRunning]
  by_cases hrunning : s.running = true
  · rw [if_pos hrunning, if_pos hrunning]
    dsimp only
    rw [exec_get_bind]
    by_cases hover : s.graceOver = true
    · rw [if_pos hover, if_pos hover]
      rfl
    · rw [if_neg hover, if_neg hover, exec_bind, exec_modify]
      dsimp only
      rw [exec_updateStore]
      rfl
  · rw [if_neg hrunning, if_neg hrunning]

/-- A running server that is told to close the window has closed it, whatever the store says. -/
theorem graceOver_endGrace (hrunning : s.running = true) : (s.after endGrace).graceOver = true := by
  rw [after_eq_exec, exec_endGrace, if_pos hrunning]
  split
  · assumption
  · split
    · rfl
    · rfl

/-- Timers are set only by what sets timers. -/
theorem timers_of_chain {E : List Effect} (h : Chain E s t)
    (hE : ∀ e ∈ E, e ∉ [Effect.stopped, .timerSet]) :
    t.sweepDue = s.sweepDue ∧ t.graceDue = s.graceDue := by
  have htimers : (t.sweepDue, t.graceDue) = (s.sweepDue, s.graceDue) := by
    refine h.eq_of_updates (f := fun s => (s.sweepDue, s.graceDue)) fun e he {a b} hupdate => ?_
    have he := hE e he
    cases hupdate with
    | stopped => exact absurd (by decide) he
    | timerSet => exact absurd (by decide) he
    | _ => rfl
  exact Prod.mk.inj htimers

/-- The end of grace leaves the timers to those who fire them. -/
theorem timers_endGrace (s : Server) :
    (s.after endGrace).sweepDue = s.sweepDue ∧ (s.after endGrace).graceDue = s.graceDue :=
  timers_of_chain (E := [.graceClosed, .recorded]) (does_endGrace (by decide) (by decide) s)
    (by decide)

/-! ## The timers -/

/-- If sweeps are due at all, there is time between them. -/
def SweepsApart (s : Server) : Prop := ∀ due, s.sweepDue = some due → 0 < s.sweepPeriod

/-- How many sweeps can fire until a time, if their times to be due differ. -/
def sweepsLeft (s : Server) (limit : Nat) : Nat := s.sweepDue.elim 0 fun due => limit + 1 - due

/-- The time between sweeps comes from the configuration. -/
theorem Runs.sweepPeriod_eq (h : Runs s t) : t.sweepPeriod = s.sweepPeriod := by
  unfold sweepPeriod
  rw [h.config]

theorem samePeriod_passTo (s : Server) (later : Nat) : SamePeriod s (s.passTo later) :=
  ⟨⟨rfl, rfl, id, rfl⟩, rfl, rfl, rfl⟩

/-- The grace period makes no difference between before and after a sweep. -/
theorem samePeriod_fireSweep (s : Server) (due : Nat) : SamePeriod s (s.fireSweep due) := by
  have hswept := (samePeriod_passTo s (max s.now (tick due))).trans (samePeriod_sweep _)
  exact hswept.trans ⟨⟨rfl, rfl, id, rfl⟩, rfl, rfl, rfl⟩

/-- The next sweep is set for a later time. -/
theorem sweepsApart_fireSweep (hs : s.SweepsApart) {due : Nat} (hdue : s.sweepDue = some due) :
    (s.fireSweep due).SweepsApart := by
  intro _ _
  rw [(samePeriod_fireSweep s due).sweepPeriod_eq]
  exact hs due hdue

theorem runs_fireGrace (s : Server) (due : Nat) : Runs s (s.fireGrace due) := by
  have hclosed := (samePeriod_passTo s (max s.now (tick due))).toRuns.trans (runs_endGrace _)
  exact hclosed.trans ⟨rfl, rfl, id, rfl⟩

/-- The end of grace leaves the next sweep where it was. -/
theorem sweepDue_fireGrace (s : Server) (due : Nat) : (s.fireGrace due).sweepDue = s.sweepDue :=
  (timers_endGrace (s.passTo (max s.now (tick due)))).1

theorem sweepsApart_fireGrace (hs : s.SweepsApart) (due : Nat) : (s.fireGrace due).SweepsApart := by
  intro sweepDue hdue
  rw [sweepDue_fireGrace] at hdue
  rw [(runs_fireGrace s due).sweepPeriod_eq]
  exact hs sweepDue hdue

/-- However many timers fire, sweeps stay apart. -/
theorem sweepsApart_fireUntil (hs : s.SweepsApart) (fuel : Nat) :
    (fireUntil fuel s limit).SweepsApart := by
  -- on the number of timers that may still fire
  induction fuel generalizing s with
  | zero => exact hs
  | succ fuel ih =>
    unfold fireUntil
    split
    · exact hs
    · rename_i due hdue
      exact ih (sweepsApart_fireSweep hs (timer_of_nextDue? hdue).2)
    · exact ih (sweepsApart_fireGrace hs _)

/-- While the end of grace is still to come, time leaves the window alone. -/
theorem samePeriod_fireUntil (hdue : ∀ due, s.graceDue = some due → limit < tick due)
    (fuel : Nat) :
    SamePeriod s (fireUntil fuel s limit) := by
  induction fuel generalizing s with
  | zero => exact .refl s
  | succ fuel ih =>
    unfold fireUntil
    split
    · exact .refl s
    · rename_i due _
      have hsame := samePeriod_fireSweep s due
      exact hsame.trans (ih fun due hgrace => hdue due (hsame.graceDue ▸ hgrace))
    · rename_i due hnext
      -- the timer of the grace period is not due yet, so it cannot be the one to fire
      obtain ⟨hle, hgrace⟩ := timer_of_nextDue? hnext
      have hlt := hdue due hgrace
      dsimp only at hle
      omega

/-- Sweeps may fire first, but each is due a nanosecond later at least, and then the window closes. -/
theorem graceOver_fireUntil (hrunning : s.running = true) (hs : s.SweepsApart) {due : Nat}
    (hdue : s.graceDue = some due) (hle : tick due ≤ limit) {fuel : Nat}
    (hfuel : s.sweepsLeft limit < fuel) :
    Runs s (fireUntil fuel s limit) ∧ (fireUntil fuel s limit).graceOver = true ∧
      (fireUntil fuel s limit).graceDue = none := by
  induction fuel generalizing s with
  | zero => omega
  | succ fuel ih =>
    unfold fireUntil
    split
    · rename_i hnext
      have hlt := graceDue_of_nextDue?_eq_none hnext hdue
      omega
    · rename_i sweepDue hnext
      obtain ⟨hsweep, htimer⟩ := timer_of_nextDue? hnext
      have hsame := samePeriod_fireSweep s sweepDue
      have hperiod := hs sweepDue htimer
      -- the next sweep is due later, so fewer are left
      have hless : (s.fireSweep sweepDue).sweepsLeft limit < fuel := by
        have hleft : s.sweepsLeft limit = limit + 1 - sweepDue := by
          unfold sweepsLeft
          rw [show s.sweepDue = some sweepDue from htimer]
          rfl
        have hbefore := le_tick sweepDue
        show limit + 1 - (sweepDue + s.sweepPeriod) < fuel
        dsimp only at hsweep
        omega
      obtain ⟨hruns, hover⟩ := ih (hsame.running.trans hrunning)
        (sweepsApart_fireSweep hs htimer) (hsame.graceDue.trans hdue) hless
      exact ⟨hsame.toRuns.trans hruns, hover⟩
    · rename_i graceDue hnext
      have hruns := runs_fireGrace s graceDue
      have hover : (s.fireGrace graceDue).graceOver = true := graceOver_endGrace hrunning
      have hnone : ∀ due, (s.fireGrace graceDue).graceDue = some due → limit < tick due :=
        nofun
      have hsame := samePeriod_fireUntil hnone fuel
      exact ⟨hruns.trans hsame.toRuns, hsame.graceOver.trans hover, hsame.graceDue⟩

/-- In so many nanoseconds no more sweeps can fire than one for each. -/
theorem sweepsLeft_le (s : Server) (limit : Nat) : s.sweepsLeft limit ≤ limit + 1 := by
  unfold sweepsLeft
  cases s.sweepDue with
  | none => exact Nat.zero_le _
  | some due => exact Nat.sub_le _ _

/-- Before its timer fires, time makes no difference to the grace period. -/
theorem samePeriod_elapse {nanos : Nat}
    (hdue : ∀ due, s.graceDue = some due → s.now + nanos < tick due) :
    SamePeriod s (s.elapse nanos) :=
  (samePeriod_fireUntil hdue _).trans (samePeriod_passTo _ _)

/-- The window closes when its timer fires. -/
theorem graceOver_elapse (hrunning : s.running = true) (hs : s.SweepsApart) {due nanos : Nat}
    (hdue : s.graceDue = some due) (hle : tick due ≤ s.now + nanos) :
    Runs s (s.elapse nanos) ∧ (s.elapse nanos).graceOver = true ∧ (s.elapse nanos).graceDue = none := by
  have hfuel : s.sweepsLeft (s.now + nanos) < s.now + nanos + 2 := by
    have hleft := s.sweepsLeft_le (s.now + nanos)
    omega
  obtain ⟨hruns, hover⟩ := graceOver_fireUntil hrunning hs hdue hle hfuel
  exact ⟨hruns.trans (samePeriod_passTo _ _).toRuns, hover⟩

theorem sweepsApart_elapse (hs : s.SweepsApart) (nanos : Nat) : (s.elapse nanos).SweepsApart :=
  sweepsApart_fireUntil hs _

/-! ## Reclaiming -/

/-- A client is marked before the store hears of it, and the store hears of it before it is asked
who is still to come. -/
theorem exec_reclaimComplete (client : ClientNo) (s : Server) :
    (reclaimComplete client).exec s =
      if s.running then
        match (s.client client).completeReclaim with
        | .error e => (.error e, s)
        | .ok c =>
          let marked := s.amendClient client fun _ => c
          match s.callStore .reclaimClient (·.reclaimClient (s.client client).owner) with
          | .error e => (.error (.recovery e), marked)
          | .ok store =>
            match { marked with store }.callStore .waitingForReclaim (·.waitingForReclaim) with
            | .error e => (.error (.recovery e), { marked with store })
            | .ok _ => (.ok (), { marked with store })
      else (.error .notRunning, s) := by
  -- the last call is made for its failures only
  have hasked (t : Server) :
      (askStore .waitingForReclaim (·.waitingForReclaim) >>= fun _ => pure () : Request Unit).exec t =
        match t.callStore .waitingForReclaim (·.waitingForReclaim) with
        | .error e => (.error (.recovery e), t)
        | .ok _ => (.ok (), t) := by
    rw [exec_bind, exec_askStore]
    cases t.callStore .waitingForReclaim (·.waitingForReclaim) with
    | error e => rfl
    | ok waits => rfl
  unfold reclaimComplete completeReclaim
  rw [exec_bind, exec_ensureRunning]
  by_cases hrunning : s.running = true
  · rw [if_pos hrunning, if_pos hrunning]
    dsimp only
    rw [exec_bind, exec_get_bind, exec_bind, exec_ofExcept]
    rcases hcomplete : (s.client client).completeReclaim with e | c
    · rfl
    · have hreclaimed : Client.Update 0 .reclaimed (s.client client) c :=
        reclaimed_of_completeReclaim hcomplete
      -- the mark leaves the owner, so the store is told of the same one as before
      have howner : ((s.amendClient client fun _ => c).client client).owner =
          (s.client client).owner := by
        rw [client_amendClient]
        split
        · exact congrArg Registration.owner hreclaimed.registration_eq
        · rfl
      have hsame (owner : Bytes) : (s.amendClient client fun _ => c).callStore .reclaimClient
          (·.reclaimClient owner) = s.callStore .reclaimClient (·.reclaimClient owner) :=
        callStore_congr rfl rfl _ _
      dsimp only
      rw [exec_modify]
      dsimp only
      rw [exec_get_bind, exec_bind, exec_updateStore, howner, hsame]
      rcases s.callStore .reclaimClient (·.reclaimClient (s.client client).owner) with e | store
      · rfl
      · exact hasked _
  · rw [if_neg hrunning, if_neg hrunning]

/-- While no call of the store fails, a client is either refused and nothing happens, or its owner
is no longer waited for. -/
theorem reclaimComplete_cases (hrunning : s.running = true) (hspared : s.Spared)
    (hopen : s.store.tables.closed = false) (client : ClientNo) :
    (∃ e, (reclaimComplete client).exec s = (.error e, s)) ∨
    ∃ c store, (s.client client).completeReclaim = .ok c ∧
      store.tables = s.store.tables.reclaim (s.client client).owner ∧
      (reclaimComplete client).exec s =
        (.ok (), { s.amendClient client fun _ => c with store }) := by
  rw [exec_reclaimComplete, if_pos hrunning]
  rcases hcomplete : (s.client client).completeReclaim with e | c
  · exact .inl ⟨e, rfl⟩
  · obtain ⟨store, hcall, hstore⟩ := Recovery.Store.exists_ok
      (s.store.map_tables_reclaimClient (s.client client).owner) hopen
    -- an open store answers either call, since none is set to fail
    obtain ⟨waits, hwaits, _⟩ := store.waitingForReclaim_iff
    have hasked : store.waitingForReclaim = .ok waits := by
      rw [hwaits]
      exact Recovery.Tables.whileOpen_eq_ok_iff.2 ⟨by rw [hstore]; exact hopen, rfl⟩
    have hspared' : { s.amendClient client fun _ => c with store }.Spared := hspared
    refine .inr ⟨c, store, rfl, hstore, ?_⟩
    dsimp only
    rw [hspared.callStore_eq, hcall]
    dsimp only
    rw [hspared'.callStore_eq, hasked]

end Server

/-- The action is a reclaim for an owner, and it is answered. -/
def Action.ReclaimsFor (s : Server) (owner : Bytes) : Action → Prop
  | .reclaimComplete client => client.value < s.clients.size ∧ (s.client client).owner = owner ∧
      ((Request.reclaimComplete client).exec s).1 = .ok ()
  | _ => False

/-- The action sets no call of the store to fail. -/
def Action.Spares : Action → Prop
  | .setFaults faults => faults.store = []
  | _ => True

namespace Server

variable {s t u : Server}

/-- In the course of a run a client of an owner has reclaimed. -/
def Reclaimed (owner : Bytes) : Server → List Action → Prop
  | _, [] => False
  | s, a :: rest => a.ReclaimsFor s owner ∨ Reclaimed owner (s.perform a) rest

/-- The timer of a grace period that began at a reading of the clock has fired while time passed. -/
def GraceTimedOut (timers : Bool) (config : Config) (began : Nat) (actions : List Action)
    (now : Nat) : Prop :=
  timers = true ∧ tick (began + config.grace.nanos) ≤ now ∧ ∃ nanos, .elapse nanos ∈ actions

/-- The grace period was closed, by a caller or by its timer. -/
def GraceClosed (timers : Bool) (config : Config) (began : Nat) (actions : List Action)
    (now : Nat) : Prop :=
  .endGrace ∈ actions ∨ GraceTimedOut timers config began actions now

/-- Somebody has reclaimed in the first part of a run or in the second. -/
theorem reclaimed_append_iff (owner : Bytes) (s : Server) (actions more : List Action) :
    Reclaimed owner s (actions ++ more) ↔
      Reclaimed owner s actions ∨ Reclaimed owner (s.performAll actions) more := by
  -- on the first part, from whatever server it starts
  induction actions generalizing s with
  | nil => exact (or_iff_right id).symm
  | cons a rest ih =>
    exact (or_congr_right (ih (s.perform a))).trans or_assoc.symm

/-! ## What holds of the window -/

/-- After some actions, a server that runs knows whether the window was closed, whether its timer
is still to fire, and who is still to reclaim. -/
structure Window (timers : Bool) (config : Config) (first : Server) (actions : List Action)
    (s : Server) : Prop where
  spared : s.Spared
  opened : s.store.tables.closed = false
  config_eq : s.config = config
  sweepsApart : s.SweepsApart
  graceOver_iff : s.graceOver = true ↔ GraceClosed timers config first.now actions s.now
  due : ∀ due, s.graceDue = some due ↔
    due = first.now + config.grace.nanos ∧ timers = true ∧
      ¬ GraceTimedOut timers config first.now actions s.now
  recovering : s.graceOver = false → ∀ owner, s.store.tables.recovering owner = true ↔
    first.store.tables.recovering owner = true ∧ ¬ Reclaimed owner first actions

variable {timers : Bool} {config : Config} {began : Nat} {first : Server} {actions : List Action}

/-- Only time lets the timer fire. -/
theorem graceTimedOut_concat_iff {a : Action} (ha : ∀ nanos, a ≠ .elapse nanos) (now : Nat) :
    GraceTimedOut timers config began (actions ++ [a]) now ↔
      GraceTimedOut timers config began actions now := by
  unfold GraceTimedOut
  simp only [List.mem_append, List.mem_singleton, fun nanos => (ha nanos).symm, or_false]

/-- Only time and the callers who may do so close the window. -/
theorem graceClosed_concat_iff {a : Action} (helapse : ∀ nanos, a ≠ .elapse nanos) (hend : a ≠ .endGrace)
    (now : Nat) :
    GraceClosed timers config began (actions ++ [a]) now ↔
      GraceClosed timers config began actions now := by
  unfold GraceClosed
  rw [graceTimedOut_concat_iff helapse]
  simp only [List.mem_append, List.mem_singleton, hend.symm, or_false]

/-- One more action may be the one by which somebody has reclaimed. -/
theorem reclaimed_concat_iff {a : Action} (owner : Bytes) :
    Reclaimed owner first (actions ++ [a]) ↔
      Reclaimed owner first actions ∨ a.ReclaimsFor (first.performAll actions) owner := by
  rw [reclaimed_append_iff]
  exact or_congr_right (or_iff_left id)

/-- What leaves the window alone leaves it as it was. -/
theorem Window.of_samePeriod (hs : Window timers config first actions s)
    (hrun : s = first.performAll actions) (h : SamePeriod s t) (hnow : t.now = s.now)
    (hsweep : t.sweepDue = s.sweepDue) {a : Action} (helapse : ∀ nanos, a ≠ .elapse nanos)
    (hend : a ≠ .endGrace) (hreclaims : ∀ owner, ¬ a.ReclaimsFor s owner) :
    Window timers config first (actions ++ [a]) t := by
  constructor
  · exact h.spared hs.spared
  · rw [h.closed]
    exact hs.opened
  · rw [h.config]
    exact hs.config_eq
  · unfold SweepsApart
    rw [hsweep, h.sweepPeriod_eq]
    exact hs.sweepsApart
  · rw [h.graceOver, hnow, graceClosed_concat_iff helapse hend]
    exact hs.graceOver_iff
  · intro due
    rw [h.graceDue, hnow, graceTimedOut_concat_iff helapse]
    exact hs.due due
  · intro hopen owner
    rw [h.graceOver] at hopen
    -- nobody has reclaimed by this action
    rw [h.recovering, reclaimed_concat_iff, ← hrun, or_iff_left (hreclaims owner)]
    exact hs.recovering hopen owner

/-- A caller closes the window, whoever is still to reclaim. -/
theorem window_endGrace (hs : Window timers config first actions s) (hrunning : s.running = true) :
    Window timers config first (actions ++ [.endGrace]) (s.after endGrace) := by
  have hruns := runs_endGrace s
  obtain ⟨hsweep, hgrace⟩ := timers_endGrace s
  have hover := graceOver_endGrace hrunning
  have hnow : (s.after endGrace).now = s.now :=
    (chain_perform s .endGrace).now_eq (by decide)
  constructor
  · exact hruns.spared hs.spared
  · rw [hruns.closed]
    exact hs.opened
  · rw [hruns.config]
    exact hs.config_eq
  · unfold SweepsApart
    rw [hsweep, hruns.sweepPeriod_eq]
    exact hs.sweepsApart
  -- the window is closed by a caller, which is one of the two ways
  · exact iff_of_true hover (.inl (by simp))
  · intro due
    rw [hgrace, hnow, graceTimedOut_concat_iff (a := .endGrace) nofun]
    exact hs.due due
  · intro hopen
    rw [hover] at hopen
    cases hopen

/-- The window closes when the time of its timer comes, and time does nothing else to it. -/
theorem window_elapse (hs : Window timers config first actions s)
    (hrunning : s.running = true) (nanos : Nat) :
    Window timers config first (actions ++ [.elapse nanos]) (s.elapse nanos) := by
  have hmem : ∃ nanos', Action.elapse nanos' ∈ actions ++ [.elapse nanos] := ⟨nanos, by simp⟩
  by_cases hfires : ∃ due, s.graceDue = some due ∧ tick due ≤ s.now + nanos
  · obtain ⟨due, hdue, hle⟩ := hfires
    obtain ⟨hruns, hover, hnone⟩ := graceOver_elapse hrunning hs.sweepsApart hdue hle
    obtain ⟨rfl, htimers, _⟩ := (hs.due due).1 hdue
    have htimedOut :
        GraceTimedOut timers config first.now (actions ++ [.elapse nanos]) (s.elapse nanos).now :=
      ⟨htimers, hle, hmem⟩
    refine ⟨hruns.spared hs.spared, hruns.closed.trans hs.opened, hruns.config.trans hs.config_eq,
      sweepsApart_elapse hs.sweepsApart nanos, iff_of_true hover (.inr htimedOut), fun due => ?_,
      fun hopen => ?_⟩
    · rw [hnone]
      exact ⟨nofun, fun h => absurd htimedOut h.2.2⟩
    · rw [hover] at hopen
      cases hopen
  · have hlater : ∀ due, s.graceDue = some due → s.now + nanos < tick due := fun due hdue =>
      Nat.lt_of_not_le fun hle => hfires ⟨due, hdue, hle⟩
    have hsame := samePeriod_elapse hlater
    -- a timer that has not fired by then is still to fire
    have htimedOut :
        GraceTimedOut timers config first.now (actions ++ [.elapse nanos]) (s.elapse nanos).now ↔
          GraceTimedOut timers config first.now actions s.now := by
      constructor
      · rintro ⟨htimers, hle, _⟩
        refine Classical.byContradiction fun hnot => ?_
        have hlt := hlater _ ((hs.due _).2 ⟨rfl, htimers, hnot⟩)
        rw [now_elapse] at hle
        omega
      · rintro ⟨htimers, hle, _⟩
        exact ⟨htimers, Nat.le_trans hle (Nat.le_add_right _ _), hmem⟩
    constructor
    · exact hsame.spared hs.spared
    · exact hsame.closed.trans hs.opened
    · exact hsame.config.trans hs.config_eq
    · exact sweepsApart_elapse hs.sweepsApart nanos
    · rw [hsame.graceOver, hs.graceOver_iff]
      unfold GraceClosed
      rw [htimedOut]
      simp
    · intro due
      rw [hsame.graceDue, htimedOut]
      exact hs.due due
    · intro hopen owner
      rw [hsame.graceOver] at hopen
      rw [hsame.recovering, reclaimed_concat_iff, or_iff_left (show ¬ Action.ReclaimsFor _ _ _ from id)]
      exact hs.recovering hopen owner

/-- A client that reclaims takes its owner off the list of those that are waited for. -/
theorem window_reclaimComplete (hs : Window timers config first actions s)
    (hrun : s = first.performAll actions) (hrunning : s.running = true) (client : ClientNo) :
    Window timers config first (actions ++ [.reclaimComplete client])
      (s.perform (.reclaimComplete client)) := by
  by_cases hknown : (Action.reclaimComplete client).known s = true
  · rw [perform, if_pos hknown, carryOut, after_eq_exec]
    rcases reclaimComplete_cases hrunning hs.spared hs.opened client with
      ⟨e, hexec⟩ | ⟨c, store, _, hstore, hexec⟩
    · rw [hexec]
      refine hs.of_samePeriod hrun (.refl s) rfl rfl nofun nofun fun owner hreclaims => ?_
      -- a reclaim that is refused reclaims nothing
      have hanswer := hreclaims.2.2
      rw [hexec] at hanswer
      cases hanswer
    · rw [hexec]
      -- a reclaim that is answered is that of the client's owner
      have hreclaims (owner : Bytes) : (Action.reclaimComplete client).ReclaimsFor s owner ↔
          (s.client client).owner = owner := by
        refine ⟨fun h => h.2.1, fun howner => ⟨of_decide_eq_true hknown, howner, ?_⟩⟩
        rw [hexec]
      constructor
      · exact hs.spared
      · show store.tables.closed = false
        rw [hstore]
        exact hs.opened
      · exact hs.config_eq
      · exact hs.sweepsApart
      · rw [graceClosed_concat_iff (a := .reclaimComplete client) nofun nofun]
        exact hs.graceOver_iff
      · intro due
        rw [graceTimedOut_concat_iff (a := .reclaimComplete client) nofun]
        exact hs.due due
      · intro hopen owner
        -- the owner is waited for no longer, and the others as before
        have hbefore := hs.recovering hopen owner
        show store.tables.recovering owner = true ↔ _
        rw [hstore, reclaimed_concat_iff, ← hrun, hreclaims, not_or, ← and_assoc, ← hbefore]
        simp only [Recovery.Tables.reclaim, Bool.and_eq_true, Bool.not_eq_true',
          decide_eq_false_iff_not]
        exact and_comm
  · rw [perform, if_neg hknown]
    refine hs.of_samePeriod hrun (.refl s) rfl rfl nofun nofun fun owner hreclaims => hknown ?_
    exact decide_eq_true hreclaims.1

/-- A server that is shut down does not run. -/
theorem running_shutdown (s : Server) : (s.after shutdown).running = false := by
  rw [after_eq_exec, shutdown, exec_get_bind]
  split
  · rw [exec_bind, exec_set]
    dsimp only
    have hrest : Does (.recorded :: Effect.ending) (do
        endClients s.registered.values
        updateStore .close fun store => .ok store.close) :=
      does_bind (does_endClients (by decide) _) fun _ => does_updateStore (by decide) _ _
    exact (hrest _).running_eq (by decide)
  · rename_i hrunning
    exact Bool.eq_false_iff.2 hrunning

/-- A server that runs after an action ran before it. -/
theorem running_of_running_perform {a : Action} (h : (s.perform a).running = true) :
    s.running = true := by
  refine (chain_perform s a).lift (R := fun s t => t.running = true → s.running = true)
    (fun _ => id) (fun h h' => h ∘ h') (fun _ hupdate => hupdate.running_of_running) h

/-- What is known of the window is known after one more action. -/
theorem window_perform (hs : Window timers config first actions s)
    (hrun : s = first.performAll actions) {a : Action} (ha : a.Spares)
    (hrunning : (s.perform a).running = true) :
    Window timers config first (actions ++ [a]) (s.perform a) := by
  have hbefore := running_of_running_perform hrunning
  cases a with
  | endGrace => exact window_endGrace hs hbefore
  | elapse nanos => exact window_elapse hs hbefore nanos
  | reclaimComplete client => exact window_reclaimComplete hs hrun hbefore client
  | shutdown =>
    rw [show (s.perform .shutdown).running = false from running_shutdown s] at hrunning
    cases hrunning
  | setFaults faults =>
    have hsame : SamePeriod s (s.perform (.setFaults faults)) :=
      ⟨⟨rfl, rfl, fun _ => ha, rfl⟩, rfl, rfl, rfl⟩
    exact hs.of_samePeriod hrun hsame rfl rfl nofun nofun fun _ => id
  | _ =>
    refine hs.of_samePeriod hrun (samePeriod_perform _ ?_) ((chain_perform s _).now_eq ?_)
      (timers_of_chain (chain_perform s _) ?_).1 nofun nofun fun _ => id
    · dsimp only [Action.effects]
      decide
    · dsimp only [Action.effects]
      decide
    · dsimp only [Action.effects]
      decide

/-- A server that runs at the end of a run ran all the while. -/
theorem running_of_running_performAll {more : List Action}
    (h : (s.performAll more).running = true) : s.running = true := by
  -- on the rest of the run, from its beginning
  induction more generalizing s with
  | nil => exact h
  | cons a rest ih => exact running_of_running_perform (ih h)

/-- What is known of the window is known after every run, as long as the server runs. -/
theorem window_performAll (hs : Window timers config first actions s)
    (hrun : s = first.performAll actions) {more : List Action} (h : ∀ a ∈ more, a.Spares)
    (hrunning : (s.performAll more).running = true) :
    Window timers config first (actions ++ more) (s.performAll more) := by
  -- on the rest of the run; what came before grows by one action at a time
  induction more generalizing s actions with
  | nil =>
    rw [List.append_nil]
    exact hs
  | cons a rest ih =>
    have hstill : (s.perform a).running = true := running_of_running_performAll hrunning
    have hstep := window_perform hs hrun (h a List.mem_cons_self) hstill
    have hrun' : s.perform a = first.performAll (actions ++ [a]) := by
      rw [performAll_append, ← hrun]
      rfl
    rw [List.append_cons]
    exact ih hstep hrun' (fun b hb => h b (List.mem_cons_of_mem _ hb)) hrunning

/-- At the start the window is open for exactly those whom the store waits for. -/
theorem window_start (timers : Bool) (config : Config) {store : Recovery.Store} (wall : WallTime)
    (now : Nat) (hopen : store.tables.closed = false) :
    Window timers config (start timers config store wall now) []
      (start timers config store wall now) := by
  have hnot : ¬ GraceTimedOut timers config (start timers config store wall now).now []
      (start timers config store wall now).now := by
    rintro ⟨_, _, _, hmem⟩
    cases hmem
  cases timers with
  | true =>
    refine ⟨rfl, hopen, rfl, ?_, ?_, ?_, fun _ owner => ?_⟩
    · intro due hdue
      have hdue : (if (launch config store wall now).sweepPeriod = 0 then none
        else some (now + (launch config store wall now).sweepPeriod)) = some due := hdue
      -- a period of nothing sets no timer
      split at hdue
      · cases hdue
      · exact Nat.pos_of_ne_zero ‹_›
    · refine iff_of_false Bool.false_ne_true ?_
      exact fun h => h.elim (fun hmem => by cases hmem) hnot
    · intro due
      constructor
      · intro hdue
        exact ⟨(Option.some.inj hdue).symm, rfl, hnot⟩
      · rintro ⟨rfl, _⟩
        rfl
    · exact (and_iff_left id).symm
  | false =>
    refine ⟨rfl, hopen, rfl, nofun, ?_, ?_, fun _ owner => ?_⟩
    · refine iff_of_false Bool.false_ne_true ?_
      exact fun h => h.elim (fun hmem => by cases hmem) hnot
    · exact fun due => ⟨nofun, fun h => by cases h.2.1⟩
    · exact (and_iff_left id).symm

/-! ## The grace period -/

/-- The window is open until it is closed, and then for as long as the store waits for somebody. -/
theorem exec_inGrace (s : Server) :
    inGrace.exec s =
      (if s.running then
        if s.graceOver then .ok false
        else (s.callStore .waitingForReclaim (·.waitingForReclaim)).mapError .recovery
      else .error .notRunning, s) := by
  unfold inGrace
  rw [exec_bind, exec_ensureRunning]
  by_cases hrunning : s.running = true
  · rw [if_pos hrunning, if_pos hrunning]
    dsimp only
    rw [exec_get_bind]
    split
    · rfl
    · rw [exec_askStore]
  · rw [if_neg hrunning, if_neg hrunning]

/-- The window decides whether clients may reclaim. -/
theorem Window.exec_inGrace (hs : Window timers config first actions s)
    (hrunning : s.running = true) :
    ∃ grace, inGrace.exec s = (.ok grace, s) ∧
      (grace = true ↔ ¬ GraceClosed timers config first.now actions s.now ∧
        ∃ owner, first.store.tables.recovering owner = true ∧ ¬ Reclaimed owner first actions) := by
  rw [Server.exec_inGrace, if_pos hrunning, ← hs.graceOver_iff]
  by_cases hover : s.graceOver = true
  · refine ⟨false, by rw [if_pos hover], ?_⟩
    exact iff_of_false Bool.false_ne_true fun h => h.1 hover
  -- as long as the window is open, the store is asked
  · obtain ⟨waits, hwaits, hiff⟩ := s.store.waitingForReclaim_iff
    refine ⟨waits, ?_, ?_⟩
    · rw [if_neg hover, hs.spared.callStore_eq, hwaits,
        Recovery.Tables.whileOpen_eq_ok_iff.2 ⟨hs.opened, rfl⟩]
      rfl
    · rw [hiff, and_iff_right hover]
      exact exists_congr (hs.recovering (Bool.eq_false_iff.2 hover))

/-- The clock never goes back during a run. -/
theorem now_le_performAll (s : Server) (actions : List Action) :
    s.now ≤ (s.performAll actions).now := by
  induction actions generalizing s with
  | nil => exact Nat.le_refl _
  | cons a rest ih => exact Nat.le_trans (chain_perform s a).now_le (ih _)

/-- While a server runs over a store whose calls do not fail, the grace period lasts exactly until
it is closed by a caller or by its timer, or every owner that was to reclaim at the start has done
so; and once it is over it stays so. -/
theorem grace_window (timers : Bool) (config : Config) (store : Recovery.Store) (wall : WallTime)
    (now : Nat) (hopen : store.tables.closed = false) (actions : List Action)
    (h : ∀ a ∈ actions, a.Spares)
    (hrunning : ((start timers config store wall now).performAll actions).running = true) :
    let first := start timers config store wall now
    let s := first.performAll actions
    (∃ grace, inGrace.exec s = (.ok grace, s) ∧
      (grace = true ↔ ¬ GraceClosed timers config now actions s.now ∧
        ∃ owner, store.tables.recovering owner = true ∧ ¬ Reclaimed owner first actions)) ∧
    (inGrace.exec s = (.ok false, s) → ∀ more, (∀ a ∈ more, a.Spares) →
      (s.performAll more).running = true →
        inGrace.exec (s.performAll more) = (.ok false, s.performAll more)) := by
  intro first s
  have hstore : first.store = store := by
    show (start timers config store wall now).store = store
    cases timers <;> rfl
  have hfirst := window_start timers config wall now hopen
  have hs : Window timers config first actions s := window_performAll hfirst rfl h hrunning
  obtain ⟨grace, hexec, hiff⟩ := hs.exec_inGrace hrunning
  have hnow : first.now = now := by
    show (start timers config store wall now).now = now
    cases timers <;> rfl
  rw [hstore, hnow] at hiff
  refine ⟨⟨grace, hexec, hiff⟩, fun hfalse more hmore hlater => ?_⟩
  have ht := window_performAll hs rfl hmore hlater
  obtain ⟨grace', hexec', hiff'⟩ := ht.exec_inGrace hlater
  cases grace' with
  | false => exact hexec'
  | true =>
    -- what closed the window by then, or emptied the list, has happened still
    obtain ⟨hclosed, owner, howner, hreclaimed⟩ := hiff'.1 rfl
    rw [hstore] at howner
    rw [hnow] at hclosed
    have hgrace : grace = true := by
      refine hiff.2 ⟨fun hbefore => hclosed ?_, owner, howner, fun hbefore => hreclaimed ?_⟩
      · rcases hbefore with hend | ⟨htimers, hdue, nanos, hmem⟩
        · exact .inl (List.mem_append_left _ hend)
        · exact .inr ⟨htimers, Nat.le_trans hdue (now_le_performAll s more), nanos,
            List.mem_append_left _ hmem⟩
      · rw [reclaimed_append_iff]
        exact .inl hbefore
    rw [hexec, hgrace] at hfalse
    cases hfalse

/-- One owner is waited for, and reclaims. -/
theorem grace_window_until_reclaimed :
    let store : Recovery.Store := .durable (.openOn ⟨Table.empty.insert [1] [], .empty⟩)
    let before : List Action := [.register (.ofOwner [2]), .register (.ofOwner [1])]
    let s := (start true {} store ⟨0⟩).performAll before
    let reclaimed := (start true {} store ⟨0⟩).performAll (before ++ [.reclaimComplete ⟨1⟩])
    (inGrace.exec s).1.toOption = some true ∧
    (∃ owner, store.tables.recovering owner = true ∧
      ¬ Reclaimed owner (start true {} store ⟨0⟩) before) ∧
    ∀ more, (∀ a ∈ more, a.Spares) → (reclaimed.performAll more).running = true →
      inGrace.exec (reclaimed.performAll more) = (.ok false, reclaimed.performAll more) := by
  intro store before s reclaimed
  obtain ⟨⟨grace, hexec, hiff⟩, _⟩ := grace_window true {} store ⟨0⟩ 0 (by decide +kernel) before
    (by simp [before, Action.Spares]) (by decide +kernel)
  obtain ⟨⟨ended, hexec', _⟩, hstays⟩ := grace_window true {} store ⟨0⟩ 0 (by decide +kernel)
    (before ++ [.reclaimComplete ⟨1⟩]) (by simp [before, Action.Spares]) (by decide +kernel)
  have hgrace : (inGrace.exec s).1.toOption = some true := by decide +kernel
  have hstands := hgrace
  have hover : (inGrace.exec reclaimed).1.toOption = some false := by decide +kernel
  rw [hexec] at hgrace
  rw [hexec'] at hover
  have hfalse : ended = false := Option.some.inj hover
  refine ⟨hstands, (hiff.1 (Option.some.inj hgrace)).2, hstays ?_⟩
  rw [hexec', hfalse]

/-- A grace period of a millisecond and a half lasts for two milliseconds of the clock. -/
example :
    let s := launch { leaseTime := .ofMillis 1, gracePeriod := some ⟨1_500_000, by decide⟩ }
      (.durable (.openOn ⟨Table.empty.insert [1] [], .empty⟩)) ⟨0⟩
    (inGrace.exec (s.elapse 1_999_999)).1.toOption = some true ∧
      (inGrace.exec (s.elapse 2_000_000)).1.toOption = some false := by
  decide +kernel

end Server

end Leasehold

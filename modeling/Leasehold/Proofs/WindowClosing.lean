import Mathlib.Control.Monad.Basic
import Leasehold.Proofs.ReclaimRights

/-!
# Proofs.WindowClosing — a window that was closed in vain

The server notes that the window is closed before it tells the store that nobody is
waited for any more. If the store fails then, the server counts the window as closed
all the same, and answers everybody who asks it to close the window again without
telling the store. The store waits on, until the server stops and after it.

* `Server.closing_carryAll` — the store of a server whose window is closed waits for
  nobody, unless the window was closed in vain;
* `Server.closed_window_waits_iff` — whom the store waits for once a server has
  answered that the window is closed, and who may reclaim ever after;
* `Server.awaited_after_closing` — so a client may come to reclaim after the end.
-/

namespace Leasehold

open Request

namespace Server

variable {s t : Server} {e : Effect} {f : Faults} {shut cause vain : Prop}

/-! ## Closing in vain -/

/-- An operation closes the window while the store fails when it is told so. -/
def ClosesInVain (s : Server) (d : Deed) : Prop :=
  s.graceOver = false ∧ (s.carry d).graceOver = true ∧ s.faults.fails .reclaimComplete = true

/-- In the course of a run the window was closed in vain. -/
def ClosedInVain : Server → List Deed → Prop
  | _, [] => False
  | s, d :: rest => s.ClosesInVain d ∨ ClosedInVain (s.carry d) rest

instance (s : Server) (d : Deed) : Decidable (s.ClosesInVain d) :=
  inferInstanceAs (Decidable (_ ∧ _ ∧ _))

instance decidableClosedInVain : (s : Server) → (deeds : List Deed) →
    Decidable (s.ClosedInVain deeds)
  | _, [] => .isFalse id
  | s, d :: rest =>
    have := decidableClosedInVain (s.carry d) rest
    inferInstanceAs (Decidable (_ ∨ _))

/-- The store of a running server is open, and once the window is closed it waits for nobody unless
there is a cause. -/
structure Closing (cause : Prop) (s : Server) : Prop where
  opened : s.running = true → s.store.tables.closed = false
  emptied : s.graceOver = true → cause ∨ ∀ owner, s.store.tables.recovering owner = false

/-- A cause for one thing may be a cause for more. -/
theorem Closing.mono (hs : s.Closing cause) (h : cause → vain) : s.Closing vain :=
  ⟨hs.opened, fun hover => (hs.emptied hover).imp_left h⟩

/-- A closed window stays closed. -/
theorem graceOver_carry (d : Deed) (hover : s.graceOver = true) : (s.carry d).graceOver = true := by
  refine (chain_carry s d).preserve (I := fun t => t.graceOver = true) (fun {e a b} _ h ha => ?_) hover
  refine Bool.not_eq_false _ ▸ fun hopen => ?_
  rw [h.graceOver_eq_false hopen] at ha
  cases ha

/-- The window has been closed if it was closed in vain. -/
theorem graceOver_of_closedInVain {deeds : List Deed} (h : s.ClosedInVain deeds) :
    (s.carryAll deeds).graceOver = true := by
  have hstays {t : Server} (rest : List Deed) (ht : t.graceOver = true) :
      (t.carryAll rest).graceOver = true :=
    carryAll_keeps (I := fun t => t.graceOver = true) (fun d _ {_} hover => graceOver_carry d hover) ht
  induction deeds generalizing s with
  | nil => cases h
  | cons d rest ih =>
    rcases h with hnow | hlater
    · exact hstays rest hnow.2.1
    · exact ih hlater

/-! ## What an operation does to the window -/

/-- The same while certain calls fail, and since a time when the window was closed or not. -/
structure ClosingWhile (f : Faults) (shut cause : Prop) (s : Server) : Prop
    extends Closing cause s where
  faults_eq : s.faults = f
  stays : shut → s.graceOver = true

/-- Only the end of grace and the calls of the store bear on this. -/
theorem closing_update (h : Update e s t) (he : e ∉ [.recorded, .graceClosed, .faultsSet])
    (hs : s.ClosingWhile f shut cause) : t.ClosingWhile f shut cause := by
  simp only [List.mem_cons, List.not_mem_nil, or_false, not_or] at he
  obtain ⟨hrecorded, hclosed, hfaults⟩ := he
  have hstore := h.store_eq hrecorded
  have hover : t.graceOver = s.graceOver := by
    cases h with
    | graceClosed => exact absurd rfl hclosed
    | _ => rfl
  refine ⟨⟨fun hrunning => ?_, ?_⟩, (h.faults_eq hfaults).trans hs.faults_eq, fun h => ?_⟩
  · rw [hstore]
    exact hs.opened (h.running_of_running hrunning)
  · rw [hover, hstore]
    exact hs.emptied
  · rw [hover]
    exact hs.stays h

/-- Whoever is waited for after a call was waited for before. -/
theorem closing_store (hs : s.ClosingWhile f shut cause) {store : Recovery.Store}
    (hstep : s.store.Step store) (hopen : s.running = true → store.tables.closed = false) :
    { s with store }.ClosingWhile f shut cause := by
  refine ⟨⟨hopen, fun hover => ?_⟩, hs.faults_eq, hs.stays⟩
  refine (hs.emptied hover).imp_right fun hempty owner => Bool.eq_false_iff.2 fun hawaited => ?_
  have hbefore := recovering_of_step hstep hawaited
  rw [hempty owner] at hbefore
  cases hbefore

/-- A call that is answered leaves the store open. -/
theorem closing_call {call : Recovery.Call}
    {update : Recovery.Store → Except RecoveryError Recovery.Store}
    (htables : ∀ store, ∃ after, (update store).map Recovery.Store.tables =
      store.tables.whileOpen after ∧ after.closed = store.tables.closed)
    (hstep : ∀ {store store' : Recovery.Store}, update store = .ok store' → store.Step store') :
    Keeps (ClosingWhile f shut cause) (updateStore call update) :=
  keeps_updateStore fun s store hcall hs => by
    have hanswer := callStore_eq_ok hcall
    obtain ⟨after, hcalled, hclosed⟩ := htables s.store
    obtain ⟨hopen, hafter⟩ := Recovery.Store.tables_of_ok hcalled hanswer
    refine closing_store hs (hstep hanswer) fun _ => ?_
    rw [hafter, hclosed]
    exact hopen

/-- The end of clients tells the store nothing. -/
theorem closing_ending {r : Request Unit} (h : Does Effect.ending r) :
    Keeps (ClosingWhile f shut cause) r := by
  have hending : ∀ e ∈ Effect.ending, e ∉ [Effect.recorded, .graceClosed, .faultsSet] := by decide
  exact keeps_of_does h fun e he {_ _} hupdate => closing_update hupdate (hending e he)

/-- Whoever is recorded or forgotten, nobody is waited for again. -/
theorem keepsParts_closing : KeepsParts (ClosingWhile f shut cause) where
  unregistered h := closing_update h (by decide)
  endClient client := closing_ending (does_endClient (List.Subset.refl _) client)
  endClientLeniently client := closing_ending (does_endClientLeniently (List.Subset.refl _) client)
  removeClient owner :=
    closing_call (fun store => ⟨_, store.map_tables_removeClient owner, rfl⟩) .removeClient
  enrolled h := closing_update h (by decide)
  renewed h := closing_update h (by decide)
  addClient now owner :=
    closing_call (fun store => ⟨_, store.map_tables_addClient now owner, rfl⟩) .addClient

/-- The window is closed for good, and the store waits for nobody unless it failed to hear of it. -/
theorem closing_endGrace (hcause : f.fails .reclaimComplete = true → ¬ shut → cause) :
    Keeps (ClosingWhile f shut cause) endGrace := by
  intro s hs
  rw [exec_endGrace]
  split
  · rename_i hrunning
    split
    · exact hs
    · rename_i hopen
      split
      · rename_i store hcall
        obtain ⟨hopened, hstore⟩ := Recovery.Store.tables_of_ok s.store.map_tables_reclaimComplete
          (callStore_eq_ok hcall)
        -- the store gave up waiting, so nobody is waited for
        refine ⟨⟨fun _ => ?_, fun _ => .inr fun owner => ?_⟩, hs.faults_eq, fun _ => rfl⟩
        · rw [hstore]
          exact hopened
        · rw [hstore]
          rfl
      · rename_i err hcall
        -- the call can only have failed because it was set to
        have hfails : f.fails .reclaimComplete = true := by
          rw [← hs.faults_eq]
          exact fails_of_opened hcall s.store.map_tables_reclaimComplete (hs.opened hrunning)
        exact ⟨⟨hs.opened, fun _ => .inl (hcause hfails fun h => hopen (hs.stays h))⟩, hs.faults_eq,
          fun _ => rfl⟩
  · exact hs

/-- A server that has stopped promises nothing. -/
theorem closing_shutdown : Keeps (ClosingWhile f shut cause) shutdown := by
  refine keeps_shutdown (fun h => closing_update h (by decide))
    keepsParts_closing.endClientLeniently fun s store hstopped hcall hs => ?_
  have hstore : Except.ok s.store.close = .ok store := callStore_eq_ok hcall
  injection hstore with hstore
  refine closing_store hs (hstore ▸ .close) fun hrunning => ?_
  rw [hstopped] at hrunning
  cases hrunning

/-- Operations keep it, and a closing while the call fails is the cause. -/
theorem keepsOperations_closing (hcause : f.fails .reclaimComplete = true → ¬ shut → cause) :
    KeepsOperations (ClosingWhile f shut cause) where
  update h he := closing_update h fun hmem =>
    he ((by decide : [Effect.recorded, .graceClosed, .faultsSet] ⊆ Effect.governing) hmem)
  enrol := keeps_enrol keepsParts_closing
  removeClient := keeps_removeClient keepsParts_closing.toKeepsEviction
  evicted client hs := evicted_keeps keepsParts_closing.toKeepsEviction client hs
  reclaimComplete {s client} _ hs :=
    keeps_reclaimComplete (fun h => closing_update h (by decide)) (fun owner =>
      closing_call (fun store => ⟨_, store.map_tables_reclaimClient owner, rfl⟩) .reclaimClient)
      client s hs
  endGrace := closing_endGrace hcause
  shutdown := closing_shutdown

/-- The store goes on waiting after an operation only if the window was closed in vain, by then or
now. -/
theorem closing_carry (hs : s.Closing vain) {d : Deed} (hentered : .entered ∉ d.effects) :
    (s.carry d).Closing (vain ∨ s.ClosesInVain d) := by
  have hstarts (cause : Prop) (h : vain → cause) :
      s.ClosingWhile s.faults (s.graceOver = true) cause :=
    ⟨hs.mono h, rfl, id⟩
  cases d with
  | act a =>
    by_cases hset : ∃ faults, a = .setFaults faults
    · obtain ⟨faults, rfl⟩ := hset
      exact ⟨hs.opened, fun hover => (hs.emptied hover).imp_left .inl⟩
    -- for this one deed: the window was open, and the closing call was set to fail
    · let cause := vain ∨ s.graceOver = false ∧ s.faults.fails .reclaimComplete = true
      have hcause (hfails : s.faults.fails .reclaimComplete = true) (hopen : ¬ s.graceOver = true) :
          cause := .inr ⟨Bool.eq_false_iff.2 hopen, hfails⟩
      have hcarried := (keepsOperations_closing hcause).keeps_perform hentered
        (fun faults ha _ => absurd ⟨faults, ha⟩ hset) (hstarts cause .inl)
      refine ⟨hcarried.opened, fun hover => (hcarried.emptied hover).imp_left ?_⟩
      exact Or.imp_right fun ⟨hopen, hfails⟩ => ⟨hopen, hover, hfails⟩
  | sweepFailing failing =>
    refine Closing.mono ?_ .inl
    refine sweepFailing_keeps (fun {t} client ht => ?_) hs
    -- a sweep comes with its own failing calls, none of which closes the window
    have hwhile : { t with faults := failing client }.ClosingWhile (failing client) False vain :=
      ⟨⟨ht.opened, ht.emptied⟩, rfl, False.elim⟩
    exact (evicted_keeps keepsParts_closing.toKeepsEviction client hwhile).toClosing

/-- After a run the store of a server whose window is closed waits for nobody, unless the window was
closed in vain. -/
theorem closing_carryAll (hs : s.Closing vain) {deeds : List Deed}
    (hentered : ∀ d ∈ deeds, .entered ∉ d.effects) :
    (s.carryAll deeds).Closing (vain ∨ s.ClosedInVain deeds) := by
  induction deeds generalizing s vain with
  | nil => exact hs.mono .inl
  | cons d rest ih =>
    have hrest := ih (closing_carry hs (hentered d List.mem_cons_self))
      fun d hd => hentered d (List.mem_cons_of_mem _ hd)
    exact hrest.mono or_assoc.1

/-- At the start the store is open, and so is the window. -/
theorem closing_start (timers : Bool) (config : Config) {store : Recovery.Store} (wall : WallTime)
    (now : Nat)
    (hopen : store.tables.closed = false) : (start timers config store wall now).Closing False := by
  obtain ⟨sweepDue, graceDue, hstart⟩ := start_eq timers config store wall now
  rw [hstart]
  exact ⟨fun _ => hopen, nofun⟩

/-! ## After the end -/

/-- The next server waits for everybody whom the store knows, if the store lasts. -/
theorem recovering_successor (hlasting : s.store.tables.lasting = true) (config : Config)
    (timers : Bool) : (s.successor config timers).store.tables.recovering = s.store.tables.knows := by
  obtain ⟨sweepDue, graceDue, hstart⟩ := start_eq timers config s.store.reopen s.wall s.now
  rw [successor_eq_start, hstart]
  exact congrArg Recovery.Tables.recovering (s.store.tables_reopen hlasting)

/-- A window that is closed now leaves nobody to wait for; one that was closed before leaves those for
whom it was closed in vain. -/
theorem recovering_closed_iff (hs : s.Closing vain) (hvain : vain → s.graceOver = true)
    (hclosed : endGrace.exec s = (.ok (), t)) (owner : Bytes) :
    t.store.tables.recovering owner = true ↔ s.store.tables.recovering owner = true ∧ vain := by
  rw [exec_endGrace] at hclosed
  split at hclosed
  · split at hclosed
    · rename_i hover
      rw [← (Prod.mk.inj hclosed).2]
      -- closed already: either in vain, or with nobody left to wait for
      rcases hs.emptied hover with hcause | hempty
      · exact (and_iff_left hcause).symm
      · rw [hempty owner]
        exact iff_of_false Bool.false_ne_true fun h => Bool.false_ne_true h.1
    · rename_i hopen
      split at hclosed
      · rename_i store hcall
        -- closed now, and not in vain
        have hstore := Recovery.Store.tables_of_ok s.store.map_tables_reclaimComplete
          (callStore_eq_ok hcall)
        rw [← (Prod.mk.inj hclosed).2]
        refine iff_of_false (fun hawaited => ?_) fun h => hopen (hvain h.2)
        rw [show store.tables = s.store.tables.giveUp from hstore.2] at hawaited
        cases hawaited
      · cases hclosed
  · cases hclosed

/-- After a server on a durable store has answered that the window is closed, the store waits for
nobody if the window was never closed in vain, and for everybody for whom it waited before if it was.
A client made later may reclaim only if the store still waited for its owner then, and the next
server waits for no owner but for such and for those on record. -/
theorem closed_window_waits_iff (timers : Bool) (config : Config) (db : Recovery.Database)
    (wall : WallTime) (now : Nat) {deeds : List Deed} (hentered : ∀ d ∈ deeds, .entered ∉ d.effects)
    (hclosed : endGrace.exec ((start timers config (.durable (.openOn db)) wall now).carryAll deeds) =
      (.ok (), t)) :
    let first := start timers config (.durable (.openOn db)) wall now
    (∀ owner, t.store.tables.recovering owner = true ↔
      (first.carryAll deeds).store.tables.recovering owner = true ∧ first.ClosedInVain deeds) ∧
    ∀ more, (∀ d ∈ more, .entered ∉ d.effects) →
      (∀ no : ClientNo, t.clients.size ≤ no.value → no.value < (t.carryAll more).clients.size →
        ((t.carryAll more).client no).needReclaim = true →
          t.store.tables.recovering ((t.carryAll more).client no).owner = true) ∧
      ∀ inOrder config' timers' owner,
        (((t.carryAll more).stop inOrder).successor config' timers').store.tables.recovering owner =
          true → (t.carryAll more).store.tables.current owner = true ∨
            t.store.tables.recovering owner = true := by
  intro first
  have hclosing : (first.carryAll deeds).Closing (False ∨ first.ClosedInVain deeds) :=
    closing_carryAll (closing_start timers config wall now rfl) hentered
  have hlasting : (first.carryAll deeds).store.tables.lasting = true := by
    rw [lasting_carryAll]
    cases timers <;> rfl
  constructor
  · exact recovering_closed_iff (hclosing.mono (or_iff_right not_false).1) graceOver_of_closedInVain
      hclosed
  · intro more hmore
    -- from the closing on, it is known who may be waited for
    have hawaits : (t.carryAll more).Awaits t.store.tables.recovering t.clients.size := by
      refine keepsOperations_awaits.keeps_carryAll (fun _ hs => ⟨hs.awaited, hs.entitled⟩) hmore ?_
      exact ⟨fun _ h => h, fun no hsince hno => absurd hno (Nat.not_lt_of_le hsince)⟩
    refine ⟨hawaits.entitled, fun inOrder config' timers' owner hwaits => ?_⟩
    have hlasts : (t.carryAll more).store.tables.lasting = true := by
      have hperformed : (first.carryAll deeds).perform .endGrace = t := after_of_exec hclosed
      rw [lasting_carryAll, ← hperformed, lasting_perform, hlasting]
    rw [recovering_successor ((lasting_stop _ inOrder).trans hlasts), knows_stop] at hwaits
    exact (Bool.or_eq_true_iff.1 hwaits).imp_right (hawaits.awaited owner)

/-- The store could not take an owner that came back too early; it hears of the end of the window,
and when the owner comes again it has nothing to reclaim. -/
theorem closed_window_waits_for_nobody :
    let first := start false {} (.durable (.openOn ⟨Table.empty.insert [1] [], .empty⟩)) ⟨0⟩
    let deeds : List Deed := [.act (.setFaults { store := [(.addClient, .database "down")] }),
      .act (.register (.ofOwner [1])), .act (.setFaults {})]
    let ended := endGrace.exec (first.carryAll deeds)
    let later := ended.2.carryAll [.act (.register (.ofOwner [1]))]
    (first.carryAll deeds).store.tables.recovering [1] = true ∧ ended.1 = .ok () ∧
      ended.2.store.tables.recovering [1] = false ∧ later.registered.values = [⟨1⟩] ∧
      (later.client ⟨1⟩).needReclaim = false := by
  intro first deeds ended later
  have hentered : ∀ d ∈ deeds, .entered ∉ d.effects := by decide +kernel
  have hmore : ∀ d ∈ [Deed.act (.register (.ofOwner [1]))], .entered ∉ d.effects := by
    decide +kernel
  have hanswer : ended.1 = .ok () := by decide +kernel
  have hnever : ¬ first.ClosedInVain deeds := by decide +kernel
  have hmade : ended.2.clients.size ≤ 1 ∧ 1 < later.clients.size := by decide +kernel
  have howner : (later.client ⟨1⟩).owner = [1] := by decide +kernel
  have hvalues : later.registered.values = [⟨1⟩] := by decide +kernel
  have hbefore : (first.carryAll deeds).store.tables.recovering [1] = true := by decide +kernel
  have hexec : endGrace.exec (first.carryAll deeds) = ended := rfl
  clear_value ended
  obtain ⟨hiff, hlater⟩ := closed_window_waits_iff false {} _ ⟨0⟩ 0 hentered
    (hexec.trans (Prod.ext hanswer rfl))
  have hnobody : ended.2.store.tables.recovering [1] = false :=
    Bool.eq_false_iff.2 fun hawaited => hnever ((hiff [1]).1 hawaited).2
  refine ⟨hbefore, hanswer, hnobody, hvalues, Bool.eq_false_iff.2 fun hneeds => ?_⟩
  have hawaited := (hlater _ hmore).1 ⟨1⟩ hmade.1 hmade.2 hneeds
  rw [howner, hnobody] at hawaited
  cases hawaited

/-- The store failed when the window was closed. The server is told again, and answers that the window
is closed; but the owner of the server before may reclaim when it comes, and would be waited for
after a restart if it did not. -/
theorem awaited_after_closing :
    let first := start false {} (.durable (.openOn ⟨Table.empty.insert [1] [], .empty⟩)) ⟨0⟩
    let closed := first.carryAll [.act (.setFaults { store := [(.reclaimComplete, .database "down")] }),
      .act .endGrace, .act (.setFaults {})]
    let ended := endGrace.exec closed
    ended.1 = .ok () ∧ ended.2.store.tables.recovering [1] = true ∧
      ((ended.2.perform (.register (.ofOwner [1]))).client ⟨0⟩).needReclaim = true ∧
      ended.2.store.tables.current [1] = false ∧
      ((ended.2.stop true).successor {} false).store.tables.recovering [1] = true := by
  decide +kernel

end Server

end Leasehold

import Mathlib.Control.Monad.Basic
import Leasehold.Proofs.Attachment

/-!
# Proofs.FailedCloses — a close that fails has forgotten the open

A state owes first the step that it was made with, and an open is forgotten by the
first step of its state. The locks taken through the open are given back later, and
that can fail. So a close that fails leaves a state that has not ended, under the key
that the client knows, while the file has lost its reservation.

* `Server.ForgetsFirst` — only the first step that is owed forgets an open;
* `Course.state_eq_of_older` — work on states leaves older ones alone;
* `Course.lives_of_failed` — a state whose end fails has not ended;
* `Server.failed_close_forgets` — after every run in which no counter wraps, a close
  that fails keeps the state and loses the open;
* `Server.conflicting_open_after_close` — so somebody else gets the file next.
-/

namespace Leasehold

open Request

/-! ## The first step forgets the open -/

/-- No step but the first one forgets an open. -/
def ReleaseStep.ForgetsFirst (steps : List ReleaseStep) : Prop :=
  ∀ step ∈ steps.tail, ∀ file, step ≠ .forgetOpen file

namespace ReleaseStep.ForgetsFirst

variable {step : ReleaseStep} {steps rest : List ReleaseStep}

theorem nil : ForgetsFirst [] := fun _ hmem => absurd hmem List.not_mem_nil

theorem singleton (step : ReleaseStep) : ForgetsFirst [step] :=
  fun _ hmem => absurd hmem List.not_mem_nil

/-- What is left after the first step forgets nothing. -/
theorem tail (h : ForgetsFirst (step :: rest)) : ForgetsFirst rest :=
  fun other hmem => h other (List.mem_of_mem_tail hmem)

/-- The first step may be any. -/
theorem cons (h : ForgetsFirst (step :: rest)) (other : ReleaseStep) :
    ForgetsFirst (other :: rest) := h

/-- A step that forgets nothing may come behind all others. -/
theorem append (h : ForgetsFirst steps) (hstep : ∀ file, step ≠ .forgetOpen file) :
    ForgetsFirst (steps ++ [step]) := by
  cases steps with
  | nil => exact singleton step
  | cons first rest =>
    intro other hmem
    rcases List.mem_append.1 (show other ∈ rest ++ [step] from hmem) with hold | hnew
    · exact h other hold
    · rw [List.mem_singleton.1 hnew]
      exact hstep

/-- The step that forgets an open stands in front. -/
theorem eq_cons (h : ForgetsFirst steps) {file : FileId} (hmem : .forgetOpen file ∈ steps) :
    ∃ rest, steps = .forgetOpen file :: rest := by
  cases steps with
  | nil => cases hmem
  | cons first rest =>
    rcases List.mem_cons.1 hmem with rfl | hrest
    · exact ⟨rest, rfl⟩
    · exact absurd rfl (h _ hrest file)

end ReleaseStep.ForgetsFirst

namespace Server

variable {e : Effect} {s t : Server} {client : ClientNo}

/-- Whatever a state owes, only the first step forgets an open. -/
def ForgetsFirst (s : Server) : Prop := ∀ no, ReleaseStep.ForgetsFirst (s.state no).owed

theorem ForgetsFirst.congr (hs : s.ForgetsFirst) (h : t.states = s.states) : t.ForgetsFirst := by
  intro no
  unfold state
  rw [h]
  exact hs no

/-- A state may owe other things if these forget at most first, too. -/
theorem ForgetsFirst.amendState (hs : s.ForgetsFirst) (no : StateNo) {f : HeldState → HeldState}
    (hf : ReleaseStep.ForgetsFirst (f (s.state no)).owed) : (s.amendState no f).ForgetsFirst := by
  intro other
  rw [state_amendState]
  split
  · rename_i hsame
    rw [hsame.1]
    exact hf
  · exact hs other

/-- What fails is owed again in the place that it had. -/
theorem ForgetsFirst.course {ending : Ending} {attempts : List Attempt}
    {answer : Except Error Unit} (hs : s.ForgetsFirst) (h : Course ending s attempts answer t)
    (hleft : ending.Leaves fun _ => ReleaseStep.ForgetsFirst) : t.ForgetsFirst :=
  h.leaves (fun _ => .nil) (fun hsteps => hsteps.tail) (fun hsteps => hsteps.cons _) hs hleft

/-- A new state owes one thing, and its parent one thing more at the end. -/
theorem ForgetsFirst.withHeld (hs : s.ForgetsFirst) (hclient : client.value < s.clients.size)
    (owner : OwnerNo) (kind : StateKind) {parent : Option StateNo}
    (hparent : parent ≠ some s.states.nextNo) (step : ReleaseStep) :
    (s.withHeld client owner kind parent step).ForgetsFirst := by
  intro no
  rcases Nat.lt_or_ge no.value (s.withHeld client owner kind parent step).states.size with
    hmade | hnone
  -- the new state owes its one step; its parent, at the very end, that the new one ends
  · rcases eq_or_lt_of_lt_withHeld hmade with rfl | hold
    · rw [state_withHeld_new hclient owner kind hparent step]
      exact .singleton step
    · rw [state_withHeld_old hclient owner kind parent step hold]
      dsimp only
      split
      · exact (hs no).append nofun
      · rw [List.append_nil]
        exact hs no
  · intro other hmem
    -- a state that was not made owes nothing
    exact absurd (lt_of_mem_owed (List.mem_of_mem_tail hmem)) (Nat.not_lt_of_le hnone)

/-- A state that is released owes nothing new. -/
theorem ForgetsFirst.releases {id : StateId} (hs : s.ForgetsFirst) (h : s.Releases client id t) :
    t.ForgetsFirst := by
  cases h with
  | unknown => exact hs
  | kept _ h => exact hs.course h trivial
  | released _ h =>
    have hended := hs.course h trivial
    exact hended.congr rfl

/-- Whatever is done for a client, only the first thing that a state owes forgets an open. -/
theorem ForgetsFirst.serves (hs : s.ForgetsFirst) (hheld : s.Held) (h : Serves client s t) :
    t.ForgetsFirst := by
  have hall : ∀ e ∈ Effect.besideStates, e ≠ .stateMade ∧ e ≠ .stateAmended := by decide
  refine h.preserve
    (fun e he _ _ hupdate hs => hs.congr (hupdate.records_eq (hall e he).1 (hall e he).2))
    (fun _ no hs => hs.amendState no (hs no)) ?_ (fun _ h hs => hs.releases h) hs
  rintro _ no _ _ file hget _ rfl hs
  have hne := Ledger.ne_nextNo (hheld _ _ _ hget).1
  exact hs.withHeld (lt_of_states_get? hget) _ _ (fun h => hne (Option.some.inj h)) _

/-- Whatever happens, a state owes first what it was made with. -/
theorem keepsHappenings_forgetsFirst (P : Server → Action → Prop) :
    KeepsHappenings P fun s => s.Grounded ∧ s.ForgetsFirst where
  grounded := And.left
  update e he _ _ h hs := by
    have hall : ∀ e ∈ Effect.administering ++ [.recorded, .faultsSet, .openForgotten],
        e ≠ .stateMade ∧ e ≠ .stateAmended := by decide
    exact ⟨(keepsHappenings_grounded P).update e he h hs.1,
      hs.2.congr (h.records_eq (hall e he).1 (hall e he).2)⟩
  client h hs := ⟨hs.1.course h trivial, hs.2.course h trivial⟩
  serves _ h hs := ⟨hs.1.serves h, hs.2.serves hs.1.held h⟩
  opened _ hclient _ _ _ hs := by
    have hparent {made : StateNo} : (none : Option StateNo) ≠ some made := nofun
    exact ⟨hs.1.withOpen hclient _ _ _, hs.2.withHeld hclient _ .share hparent _⟩
  observed no label refusals hs :=
    ⟨hs.1.observed no label refusals, hs.2.amendState no ((hs.2 no).append nofun)⟩
  calledBack client hasCallback hs := ⟨hs.1.calledBack client hasCallback, hs.2⟩

theorem forgetsFirst_start (timers : Bool) (config : Config) (store : Recovery.Store)
    (wall : WallTime) (now : Nat) : (start timers config store wall now).ForgetsFirst := by
  intro no step hmem
  have hno := lt_of_mem_owed (List.mem_of_mem_tail hmem)
  obtain ⟨sweepDue, graceDue, hstart⟩ := start_eq timers config store wall now
  rw [hstart] at hno
  exact absurd hno (Nat.not_lt_zero _)

end Server

/-! ## What a failing end leaves -/

/-- A state is older than all that the work ends. -/
def Ending.After (older : StateNo) : Ending → Prop
  | .step _ one => ∀ younger x, one = .endDerived younger x → older.value < younger.value
  | .steps _ no _ left => older.value < no.value ∧
    ∀ younger x, .endDerived younger x ∈ left → older.value < younger.value
  | .state _ no => older.value < no.value
  | .states _ _ order => ∀ no ∈ order, older.value < no.value
  | .client .. => False

/-- What is older than the work on some steps is older than the first of them and the others. -/
theorem Ending.After.of_cons {older no : StateNo} {strict : Bool} {st : HeldState}
    {step : ReleaseStep} {rest : List ReleaseStep}
    (h : (Ending.steps strict no st (step :: rest)).After older) :
    (Ending.step st step).After older ∧ (Ending.steps strict no st rest).After older :=
  ⟨fun younger x hstep => h.2 younger x (List.mem_cons.2 (.inl hstep.symm)), h.1,
    fun younger x hmem => h.2 younger x (List.mem_cons_of_mem _ hmem)⟩

/-- What is older than a state is older than all that the end of the state ends. -/
theorem Server.Descending.after {s : Server} (hs : s.Descending) {older no : StateNo}
    (h : older.value < no.value) (strict : Bool) (st : HeldState) :
    (Ending.steps strict no st (s.state no).owed).After older :=
  ⟨h, fun younger x hmem => Nat.lt_trans h (hs no younger x hmem).1⟩

namespace Course

open Server

variable {ending : Ending} {s t : Server} {attempts : List Attempt} {answer : Except Error Unit}
  {no : StateNo} {st : HeldState} {left : List ReleaseStep} {e : Error}

/-- The work leaves older states as they are, for derivation goes on to younger ones. -/
theorem state_eq_of_older (h : Course ending s attempts answer t) (hs : s.Descending)
    {older : StateNo} (hafter : ending.After older) : t.state older = s.state older := by
  have hamended {s : Server} {no : StateNo} {f : HeldState → HeldState}
      (hlt : older.value < no.value) : (s.amendState no f).state older = s.state older := by
    rw [state_amendState, if_neg fun h => Nat.lt_irrefl _ (h.1 ▸ hlt)]
  -- on the course: what it goes on to is younger than what it has begun with
  induction h with
  | forgotten s state file =>
    unfold Server.forgetOpen
    split <;> rfl
  | unlocked => rfl
  | unlockFailed => rfl
  | derived _ client _ ih => exact ih hs (hafter _ client rfl)
  | derivedKept _ client _ ih => exact ih hs (hafter _ client rfl)
  | notified => rfl
  | refused => rfl
  | finished => exact hamended hafter.1
  | done h _ ih ihrest =>
    exact (ihrest (h.descending hs trivial) hafter.of_cons.2).trans (ih hs hafter.of_cons.1)
  | failed _ ih => exact (hamended hafter.1).trans (ih hs hafter.of_cons.1)
  | dropped h _ ih ihrest =>
    exact (ihrest (h.descending hs trivial) hafter.of_cons.2).trans (ih hs hafter.of_cons.1)
  | ended => rfl
  | state _ _ ih => exact ih hs (hs.after hafter _ _)
  | none => rfl
  | next h _ ih ihrest =>
    have hrest := ihrest (h.descending hs trivial)
      fun other hmem => hafter other (List.mem_cons_of_mem _ hmem)
    exact hrest.trans (ih hs (hafter _ List.mem_cons_self))
  | stopped _ ih => exact ih hs (hafter _ List.mem_cons_self)
  | gone => rfl
  | client => exact hafter.elim
  | kept => exact hafter.elim

/-- The work attempts nothing for an older state. -/
theorem older_of_mem (h : Course ending s attempts answer t) (hs : s.Descending)
    {older : StateNo} (hafter : ending.After older) :
    ∀ a ∈ attempts, older.value < a.state.value := by
  -- on the course, as before: what it goes on to is younger than what it has begun with
  induction h with
  | derived _ client _ ih => exact ih hs (hafter _ client rfl)
  | derivedKept _ client _ ih => exact ih hs (hafter _ client rfl)
  | done h _ ih ihrest =>
    exact List.forall_mem_append.2 ⟨List.forall_mem_cons.2 ⟨hafter.1, ih hs hafter.of_cons.1⟩,
      ihrest (h.descending hs trivial) hafter.of_cons.2⟩
  | failed _ ih => exact List.forall_mem_cons.2 ⟨hafter.1, ih hs hafter.of_cons.1⟩
  | dropped h _ ih ihrest =>
    exact List.forall_mem_append.2 ⟨List.forall_mem_cons.2 ⟨hafter.1, ih hs hafter.of_cons.1⟩,
      ihrest (h.descending hs trivial) hafter.of_cons.2⟩
  | state _ _ ih => exact ih hs (hs.after hafter _ _)
  | next h _ ih ihrest =>
    exact List.forall_mem_append.2 ⟨ih hs (hafter _ List.mem_cons_self),
      ihrest (h.descending hs trivial) fun other hmem => hafter other (List.mem_cons_of_mem _ hmem)⟩
  | stopped _ ih => exact ih hs (hafter _ List.mem_cons_self)
  | client => exact hafter.elim
  | kept => exact hafter.elim
  | _ => exact fun _ hmem => absurd hmem List.not_mem_nil

/-- The strict loop over the steps of a state ends the state only if it answers. -/
theorem lives_of_failed_steps (h : Course (.steps true no st left) s attempts (.error e) t)
    (hs : s.Descending) (hlives : (s.state no).disposed = false)
    (hbelow : ∀ younger x, .endDerived younger x ∈ left → no.value < younger.value) :
    (t.state no).disposed = false := by
  -- on what is still owed; the step that fails puts the rest back and ends nobody but younger
  -- states
  induction left generalizing s attempts with
  | nil => cases h
  | cons step rest ih =>
    have hafter : (Ending.step st step).After no := fun younger x hstep =>
      hbelow younger x (List.mem_cons.2 (.inl hstep.symm))
    cases h with
    | done h hrest =>
      refine ih hrest (h.descending hs trivial) ?_ fun younger x hmem =>
        hbelow younger x (List.mem_cons_of_mem _ hmem)
      rw [h.state_eq_of_older hs hafter]
      exact hlives
    | failed h =>
      rw [state_amendState]
      split
      · show (Server.state _ no).disposed = false
        rw [h.state_eq_of_older hs hafter]
        exact hlives
      · rw [h.state_eq_of_older hs hafter]
        exact hlives

/-- A state whose end fails has not ended. -/
theorem lives_of_failed (h : Course (.state true no) s attempts (.error e) t) (hs : s.Descending) :
    (t.state no).disposed = false := by
  cases h with
  | state hlives h =>
    exact h.lives_of_failed_steps hs hlives fun younger x hmem => (hs no younger x hmem).1

/-- Once the loop has begun with the step that forgets an open, the file has no open under the
key, however the loop goes on. -/
theorem forgotten_of_steps {strict : Bool} {file : FileId}
    (h : Course (.steps strict no st (.forgetOpen file :: left)) s attempts answer t)
    (hs : s.Rooted) {r : OpenRecord} (hr : r ∈ t.opens.opens file) : r.key ≠ st.id.key := by
  have hcore : r.core ∈ t.opens.cores file := List.mem_map_of_mem hr
  cases h with
  | done h hrest =>
    cases h with
    | forgotten =>
      have hstill := (hrest.cores_sublist file).subset hcore
      exact (hs.forgetOpen file st.id.key).2 r.core hstill
  | failed h => cases h
  | dropped h => cases h

end Course

/-! ## Closes that fail -/

namespace Server

variable {s t : Server} {client : ClientNo} {id : StateId} {no : StateNo} {file : FileId}

/-- A state of a client has not ended and can be named, but the file has no open for it. -/
structure Unreserved (s : Server) (client : ClientNo) (id : StateId) (no : StateNo)
    (file : FileId) : Prop where
  attached : (s.client client).states.get? id.key = some no
  lives : (s.state no).disposed = false
  forgotten : ∀ r ∈ s.opens.opens file, r.key ≠ id.key

/-- However the end of an open fails, the open is forgotten and its state stays. -/
theorem unreserved_of_failed (hs : s.Anchored) (hbound : s.StatesBounded) (hfirst : s.ForgetsFirst)
    (hget : (s.client client).states.get? id.key = some no) {r : OpenRecord}
    (hr : r ∈ s.opens.opens file) (hstate : r.state = no) {attempts : List Attempt} {e : Error}
    (h : Course (.state true no) s attempts (.error e) t) : t.Unreserved client id no file := by
  have htraced := hs.traced hbound
  have hrooted := hs.rooted hbound
  obtain ⟨hmade, hkey, hid⟩ := hs.tracked.held client id.key no hget
  have hmade' : no.value < t.states.size := Nat.lt_of_lt_of_eq hmade h.states_size_eq.symm
  have hkey' : (t.state no).id.key = id.key := (h.state_key_eq hmade).trans hkey
  have hlives := h.lives_of_failed hs.grounded.descending
  refine ⟨?_, hlives, fun other hmem => ?_⟩
  · -- what has not ended is attached to a client, and its key says to which
    have hattached := h.attached htraced hs.derives (hs.attached hbound) hmade
    obtain ⟨holder, hheld⟩ := hattached.held no hmade' hlives
    rw [hkey'] at hheld
    obtain ⟨_, _, hid'⟩ := (h.traced htraced).held holder id.key no hheld
    have hclient := lt_of_states_get? hget
    have hsame : holder = client := by
      refine (h.traced htraced).client_ext (lt_of_states_get? hheld)
        (Nat.lt_of_lt_of_le hclient h.chain_ending.clients_size_le) ?_
      rw [← hid', hid, h.chain_ending.client_id_eq hclient]
    rw [← hsame]
    exact hheld
  · have howes : .forgetOpen file ∈ (s.state no).owed := by
      have hroot := hrooted.rooted file r.core (List.mem_map_of_mem hr)
      rw [← hstate]
      exact hroot.owes
    obtain ⟨rest, howed⟩ := (hfirst no).eq_cons howes
    cases h with
    | state _ h =>
      rw [howed] at h
      rw [← hkey]
      exact h.forgotten_of_steps hrooted hmem

/-- After every run in which no counter wraps, a close that fails, whichever calls of the lock table
and whichever watchers made it fail, has forgotten the open of the file, while the state of the
client has not ended. That is so for every course that the end of the state can take, and for the
one that the server takes by itself. -/
theorem failed_close_forgets {timers : Bool} {config : Config} {store : Recovery.Store}
    {wall : WallTime} {now : Nat}
    (hrun : Run (fun _ a => a.served = true) (start timers config store wall now) s)
    (hbound : s.StatesBounded)
    (hget : (s.client client).states.get? id.key = some no) {r : OpenRecord}
    (hr : r ∈ s.opens.opens file) (hstate : r.state = no) :
    (∀ attempts e t, Course (.state true no) s attempts (.error e) t →
      t.Unreserved client id no file) ∧
    ∀ e t, (releaseState client id).exec s = (.error e, t) → t.Unreserved client id no file := by
  have hs : s.Anchored :=
    (keepsHappenings_anchored _).run (fun _ _ h => h) hrun
      (anchored_start timers config store wall now)
  have hfirst : s.Grounded ∧ s.ForgetsFirst := (keepsHappenings_forgetsFirst _).run
    (fun _ _ h => h) hrun
    ⟨grounded_start timers config store wall now, forgetsFirst_start timers config store wall now⟩
  have hfailed {attempts : List Attempt} {e : Error} {t : Server}
      (h : Course (.state true no) s attempts (.error e) t) : t.Unreserved client id no file :=
    unreserved_of_failed hs hbound hfirst.2 hget hr hstate h
  refine ⟨fun attempts e t h => hfailed h, fun e t hexec => ?_⟩
  -- the request fails as the end of the state does
  have hmade := (hs.tracked.held client id.key no hget).1
  obtain ⟨attempts, hcourse⟩ := follows_endState hs.grounded.descending hmade
  unfold releaseState stateOf at hexec
  rw [exec_bind, exec_get_bind, hget] at hexec
  dsimp only at hexec
  rw [exec_pure] at hexec
  dsimp only at hexec
  rw [exec_bind] at hexec
  rcases hend : (endState no).exec s with ⟨_ | _, u⟩
  · rw [hend] at hexec hcourse
    injection hexec with _ hserver
    rw [← hserver]
    exact hfailed hcourse
  · rw [hend] at hexec
    cases hexec

/-- The lock that was taken through an open cannot be given back when the open is closed. -/
theorem failed_close_forgets_locked :
    let file : FileId := ⟨[9]⟩
    let openId : StateId := .ofParts ⟨1⟩ 1 .share
    let actions : List Action := [.register (.ofOwner [1]), .nameOwner ⟨0⟩ [7] 0,
      .openFile ⟨0⟩ ⟨0⟩ file 3 0, .lock ⟨0⟩ file ⟨.write, 0, 10⟩ false (.newOwner openId 0 [8] 0),
      .setFaults { locks := [(.unlock, .backend "down")] }]
    let s := (start false {} default ⟨0⟩).performAll actions
    let close := (releaseState ⟨0⟩ openId).exec s
    close.1 = .error (.ofLock (.backend "down")) ∧ (s.opens.opens file).length = 1 ∧
      close.2.Unreserved ⟨0⟩ openId ⟨0⟩ file := by
  intro file openId actions s close
  have hrun : Run (fun _ a => a.served = true) (start false {} default ⟨0⟩) s :=
    run_performAll fun a ha _ => by revert a; decide
  have hbound : s.StatesBounded := .of_size (by decide +kernel) (by decide +kernel)
  have hget : (s.client ⟨0⟩).states.get? openId.key = some ⟨0⟩ := by decide +kernel
  have hopens : s.opens.opens file =
      [⟨⟨0⟩, ⟨1⟩, [7], ⟨0⟩, openId.key, ⟨3, 0⟩, .ofMode ⟨3, 0⟩⟩] := by decide +kernel
  have hfails : close.1 = .error (.ofLock (.backend "down")) := by decide +kernel
  have hopen : ⟨⟨0⟩, ⟨1⟩, [7], ⟨0⟩, openId.key, ⟨3, 0⟩, .ofMode ⟨3, 0⟩⟩ ∈ s.opens.opens file := by
    rw [hopens]
    exact List.mem_cons_self
  have hlost := (failed_close_forgets hrun hbound hget hopen rfl).2
  have hexec : (releaseState ⟨0⟩ openId).exec s = close := rfl
  -- the answer is computed, so what comes of it is taken from the theorem and not looked at again
  clear_value close
  exact ⟨hfails, congrArg List.length hopens, hlost _ close.2 (hexec.trans (Prod.ext hfails rfl))⟩

/-- Somebody else who asks for all access is refused as long as an open denies it, and is let in
once the close of that open has failed, though the state of the open has not ended. -/
theorem conflicting_open_after_close :
    let file : FileId := ⟨[9]⟩
    let openId : StateId := .ofParts ⟨1⟩ 1 .share
    let opened := (start false {} default ⟨0⟩).performAll [.register (.ofOwner [1]),
      .register (.ofOwner [2]), .nameOwner ⟨0⟩ [7] 0, .nameOwner ⟨1⟩ [7] 0,
      .openFile ⟨0⟩ ⟨0⟩ file 3 3, .lock ⟨0⟩ file ⟨.write, 0, 10⟩ false (.newOwner openId 0 [8] 0),
      .setFaults { locks := [(.unlock, .backend "down")] }]
    let close := (releaseState ⟨0⟩ openId).exec opened
    let rival := openFile ⟨1⟩ ⟨1⟩ file 3 3
    close.1 = .error (.ofLock (.backend "down")) ∧
      ((opened.after rival).opens.opens file).map (·.client) = [⟨0⟩] ∧
      ((close.2.after rival).opens.opens file).map (·.client) = [⟨1⟩] ∧
      ((close.2.after rival).client ⟨0⟩).states.get? openId.key = some ⟨0⟩ ∧
      ((close.2.after rival).state ⟨0⟩).disposed = false := by
  decide +kernel

end Server

end Leasehold

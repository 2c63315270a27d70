import Leasehold.Proofs.Registration
import Leasehold.Proofs.StateMaking

/-!
# Proofs.Course — how states and clients come to their end

When states and clients end, each call of the lock table may fail on its own, and
states of one rank may end in any order. `Course` has one constructor for
everything that can happen on the way, and keeps the attempts that were made at
what the states owe. What a server does by itself, with the calls that are set to
fail and in the order of the keys, is one of the courses.

* `Course.chain` — a course does the updates that the end of states and clients
  does, and no others;
* `Course.descending` — what a state owes the end of stays younger than the state;
* `Course.endState`, `Course.endClient`, `Course.endClientLeniently` — what a server
  does is a course.
-/

namespace Leasehold

/-- One attempt at a step that a state owes. -/
structure Attempt where
  state : StateNo
  step : ReleaseStep
  /-- The server as the attempt found it. -/
  before : Server
  done : Bool

/-- Work by which states and clients end. Strict work stops at the first failure. -/
inductive Ending where
  /-- One step that is owed for a state. -/
  | step (state : HeldState) (step : ReleaseStep)
  /-- The steps that are left of what a state owed when its end began. -/
  | steps (strict : Bool) (no : StateNo) (state : HeldState) (steps : List ReleaseStep)
  | state (strict : Bool) (no : StateNo)
  /-- States that are ended one after the other and taken from their client. -/
  | states (strict : Bool) (client : ClientNo) (states : List StateNo)
  | client (strict : Bool) (client : ClientNo)

/-- The states that a client holds, in an order in which they may end: derived ones first. -/
structure Server.EndsInOrder (s : Server) (client : ClientNo) (order : List StateNo) : Prop where
  perm : order.Perm (s.client client).states.values
  derivedFirst : order.Pairwise fun a b => (s.state b).isDerived = true → (s.state a).isDerived = true

/-- One way in which the work can go: the attempts that were made, the answer, and the server after
it. -/
inductive Course : Ending → Server → List Attempt → Except Error Unit → Server → Prop where
  -- one step
  | forgotten (s : Server) (state : HeldState) (file : FileId) :
      Course (.step state (.forgetOpen file)) s [] (.ok ()) (s.forgetOpen file state.id.key)
  | unlocked {s : Server} {locks : LockTable} (state : HeldState) {file : FileId}
      {holder : LockOwner} (h : s.locks.unlockIfHeld file (.everything holder) = .ok locks) :
      Course (.step state (.unlockAll file holder)) s [] (.ok ()) { s with locks }
  | unlockFailed (s : Server) (state : HeldState) (file : FileId) (holder : LockOwner)
      (e : LockError) :
      Course (.step state (.unlockAll file holder)) s [] (.error (.ofLock e)) s
  | derived {s t : Server} {attempts : List Attempt} (state : HeldState) {no : StateNo}
      (client : ClientNo) (h : Course (.state true no) s attempts (.ok ()) t) :
      Course (.step state (.endDerived no client)) s attempts (.ok ())
        (t.amendClient client (·.detach (t.state no).id.key))
  | derivedKept {s t : Server} {attempts : List Attempt} {e : Error} (state : HeldState)
      {no : StateNo} (client : ClientNo) (h : Course (.state true no) s attempts (.error e) t) :
      Course (.step state (.endDerived no client)) s attempts (.error e) t
  | notified (s : Server) (state : HeldState) (label : String) :
      Course (.step state (.notify label 0)) s [] (.ok ())
        (s.tell (.released label state.id state.isDerived))
  | refused (s : Server) (state : HeldState) (label : String) (refusals : Nat) :
      Course (.step state (.notify label (refusals + 1))) s [] (.error (.serverFault label))
        (s.tell (.released label state.id state.isDerived))
  -- the steps of one state
  | finished (s : Server) (strict : Bool) (no : StateNo) (state : HeldState) :
      Course (.steps strict no state []) s [] (.ok ()) (s.amendState no .finish)
  | done {s t u : Server} {strict : Bool} {no : StateNo} {state : HeldState} {step : ReleaseStep}
      {rest : List ReleaseStep} {attempts later : List Attempt} {answer : Except Error Unit}
      (h : Course (.step state step) s attempts (.ok ()) t)
      (hrest : Course (.steps strict no state rest) t later answer u) :
      Course (.steps strict no state (step :: rest)) s
        (⟨no, step, s, true⟩ :: attempts ++ later) answer u
  | failed {s t : Server} {no : StateNo} {state : HeldState} {step : ReleaseStep}
      {rest : List ReleaseStep} {attempts : List Attempt} {e : Error}
      (h : Course (.step state step) s attempts (.error e) t) :
      Course (.steps true no state (step :: rest)) s (⟨no, step, s, false⟩ :: attempts)
        (.error e) (t.amendState no ({ · with owed := step.afterFailure :: rest }))
  | dropped {s t u : Server} {no : StateNo} {state : HeldState} {step : ReleaseStep}
      {rest : List ReleaseStep} {attempts later : List Attempt} {e : Error}
      {answer : Except Error Unit} (h : Course (.step state step) s attempts (.error e) t)
      (hrest : Course (.steps false no state rest) t later answer u) :
      Course (.steps false no state (step :: rest)) s
        (⟨no, step, s, false⟩ :: attempts ++ later) answer u
  -- one state
  | ended {s : Server} (strict : Bool) {no : StateNo} (h : (s.state no).disposed = true) :
      Course (.state strict no) s [] (.ok ()) s
  | state {s t : Server} {strict : Bool} {no : StateNo} {attempts : List Attempt}
      {answer : Except Error Unit} (hlives : (s.state no).disposed = false)
      (h : Course (.steps strict no (s.state no) (s.state no).owed) s attempts answer t) :
      Course (.state strict no) s attempts answer t
  -- the states of a client
  | none (s : Server) (strict : Bool) (client : ClientNo) :
      Course (.states strict client []) s [] (.ok ()) s
  | next {s t u : Server} {strict : Bool} {client : ClientNo} {no : StateNo} {rest : List StateNo}
      {attempts later : List Attempt} {answer : Except Error Unit}
      (h : Course (.state strict no) s attempts (.ok ()) t)
      (hrest : Course (.states strict client rest)
        (t.amendClient client (·.detach (t.state no).id.key)) later answer u) :
      Course (.states strict client (no :: rest)) s (attempts ++ later) answer u
  | stopped {s t : Server} {strict : Bool} {client : ClientNo} {no : StateNo}
      {rest : List StateNo} {attempts : List Attempt} {e : Error}
      (h : Course (.state strict no) s attempts (.error e) t) :
      Course (.states strict client (no :: rest)) s attempts (.error e) t
  -- one client
  | gone {s : Server} (strict : Bool) {client : ClientNo} (h : (s.client client).disposed = true) :
      Course (.client strict client) s [] (.ok ()) s
  | client {s t : Server} {strict : Bool} {client : ClientNo} {order : List StateNo}
      {attempts : List Attempt} (hlives : (s.client client).disposed = false)
      (horder : s.EndsInOrder client order)
      (h : Course (.states strict client order) s attempts (.ok ()) t) :
      Course (.client strict client) s attempts (.ok ()) (t.amendClient client .finish)
  | kept {s t : Server} {strict : Bool} {client : ClientNo} {order : List StateNo}
      {attempts : List Attempt} {e : Error} (hlives : (s.client client).disposed = false)
      (horder : s.EndsInOrder client order)
      (h : Course (.states strict client order) s attempts (.error e) t) :
      Course (.client strict client) s attempts (.error e) t

/-! ## What a course does -/

/-- The kinds of updates that the work does. -/
def Ending.effects : Ending → List Effect
  | .client .. => Effect.ending
  | _ => Effect.releasing

namespace Course

open Server

variable {ending : Ending} {s t : Server} {attempts : List Attempt} {answer : Except Error Unit}

/-- The end of a state or client does no updates but those of its kinds. -/
theorem chain (h : Course ending s attempts answer t) : Chain ending.effects s t := by
  have hdetached (t : Server) (client : ClientNo) (key : StateKey) :
      Chain Effect.releasing t (t.amendClient client (·.detach key)) :=
    .single (by decide) (.client t client _ (.detached _ _))
  have hamended (t : Server) (no : StateNo) (f : HeldState → HeldState)
      (hf : ∀ st, (f st).id.key = st.id.key ∧ (f st).owner = st.owner ∧ (f st).parent = st.parent) :
      Chain Effect.releasing t (t.amendState no f) :=
    .single (by decide) (.stateAmended t no f hf)
  have hwider {a b : Server} (h : Chain Effect.releasing a b) : Chain Effect.ending a b :=
    h.mono (by decide)
  have hsingle {e : Effect} {a b : Server} (he : e ∈ Effect.releasing) (h : Update e a b) :
      Chain Effect.releasing a b := .single he h
  -- one case for each way in which the work goes on
  induction h with
  | forgotten s state file => exact Request.does_forgetOpen (E := Effect.releasing) (by decide) file _ s
  | unlocked => exact hsingle (by decide) (.locked _ _)
  | unlockFailed => exact .refl
  | derived _ client _ ih => exact ih.trans (hdetached _ client _)
  | derivedKept _ _ _ ih => exact ih
  | notified => exact hsingle (by decide) (.told _ _)
  | refused => exact hsingle (by decide) (.told _ _)
  | finished s _ no => exact hamended s no _ fun _ => ⟨rfl, rfl, rfl⟩
  | done _ _ ih ihrest => exact ih.trans ihrest
  | failed _ ih => exact ih.trans (hamended _ _ _ fun _ => ⟨rfl, rfl, rfl⟩)
  | dropped _ _ ih ihrest => exact ih.trans ihrest
  | ended => exact .refl
  | state _ _ ih => exact ih
  | none => exact .refl
  | next _ _ ih ihrest => exact (ih.trans (hdetached _ _ _)).trans ihrest
  | stopped _ ih => exact ih
  | gone => exact .refl
  | client _ _ _ ih =>
    exact (hwider ih).trans (.single (E := Effect.ending) (by decide) (.client _ _ _ (.ended _)))
  | kept _ _ _ ih => exact hwider ih

/-- Taken together, these are updates that end clients. -/
theorem chain_ending (h : Course ending s attempts answer t) : Chain Effect.ending s t := by
  refine h.chain.mono ?_
  cases ending with
  | client => exact List.Subset.refl _
  | _ => exact List.subset_cons_self ..

/-- No state is made while others end. -/
theorem states_size_eq (h : Course ending s attempts answer t) : t.states.size = s.states.size := by
  refine h.chain_ending.eq_of_updates (f := fun s => s.states.size) fun e he {a b} hupdate => ?_
  refine hupdate.states_size_eq ?_
  rintro rfl
  exact absurd he (by decide)

/-- Attached states are recorded ones while states end, too. -/
theorem held (h : Course ending s attempts answer t) (hs : s.Held) : t.Held := by
  refine h.chain_ending.preserve (fun {e a b} he hupdate => held_update hupdate ?_) hs
  rintro rfl
  exact absurd he (by decide)

end Course

/-! ## What states owe -/

/-- The steps that are left of the end of a state have a property. -/
def Ending.Owes (Q : StateNo → ReleaseStep → Prop) : Ending → Prop
  | .steps _ no _ left => ∀ step ∈ left, Q no step
  | _ => True

namespace Server

variable {s : Server} {Q : StateNo → ReleaseStep → Prop}

/-- Every step that is owed has a property. -/
def Owes (s : Server) (Q : StateNo → ReleaseStep → Prop) : Prop :=
  ∀ no, ∀ step ∈ (s.state no).owed, Q no step

theorem Owes.amendState (h : s.Owes Q) {no : StateNo} {f : HeldState → HeldState}
    (hf : ∀ step ∈ (f (s.state no)).owed, Q no step) : (s.amendState no f).Owes Q := by
  intro other step hmem
  rw [state_amendState] at hmem
  split at hmem
  · rename_i hsame
    rw [hsame.1] at hmem ⊢
    exact hf step hmem
  · exact h other step hmem

end Server

/-- The steps that are left of the end of a state have a property as a list. -/
def Ending.Leaves (Q : StateNo → List ReleaseStep → Prop) : Ending → Prop
  | .steps _ no _ left => Q no left
  | _ => True

/-- The steps that a state owes go from the front of the list, and one that fails comes back there:
what such lists keep, the end of states keeps. -/
theorem Course.leaves {ending : Ending} {s t : Server} {attempts : List Attempt}
    {answer : Except Error Unit} {Q : StateNo → List ReleaseStep → Prop} (hnil : ∀ no, Q no [])
    (htail : ∀ {no step rest}, Q no (step :: rest) → Q no rest)
    (hagain : ∀ {no step rest}, Q no (step :: rest) → Q no (step.afterFailure :: rest))
    (h : Course ending s attempts answer t) (hs : ∀ no, Q no (s.state no).owed)
    (hleft : ending.Leaves Q) : ∀ no, Q no (t.state no).owed := by
  have hamended {s : Server} {no : StateNo} {f : HeldState → HeldState}
      (hs : ∀ no, Q no (s.state no).owed) (hf : Q no (f (s.state no)).owed) (other : StateNo) :
      Q other ((s.amendState no f).state other).owed := by
    rw [Server.state_amendState]
    split
    · rename_i hsame
      rw [hsame.1]
      exact hf
    · exact hs other
  induction h with
  | forgotten s state file =>
    -- the states are as they were, and that is all that matters
    have hsame : (s.forgetOpen file state.id.key).states = s.states := by
      unfold Server.forgetOpen
      split <;> rfl
    intro no
    unfold Server.state
    rw [hsame]
    exact hs no
  | unlocked => exact hs
  | unlockFailed => exact hs
  | derived _ _ _ ih => exact ih hs trivial
  | derivedKept _ _ _ ih => exact ih hs trivial
  | notified => exact hs
  | refused => exact hs
  | finished s _ no => exact hamended hs (hnil no)
  | done _ _ ih ihrest => exact ihrest (ih hs trivial) (htail hleft)
  | failed _ ih => exact hamended (ih hs trivial) (hagain hleft)
  | dropped _ _ ih ihrest => exact ihrest (ih hs trivial) (htail hleft)
  | ended => exact hs
  | @state _ _ _ no _ _ _ _ ih => exact ih hs (hs no)
  | none => exact hs
  | next _ _ ih ihrest => exact ihrest (ih hs trivial) trivial
  | stopped _ ih => exact ih hs trivial
  | gone => exact hs
  | client _ _ _ ih => exact ih hs trivial
  | kept _ _ _ ih => exact ih hs trivial

/-- What is left to do is what was owed, and what failed is owed again. -/
theorem Course.owes {ending : Ending} {s t : Server} {attempts : List Attempt}
    {answer : Except Error Unit} {Q : StateNo → ReleaseStep → Prop}
    (hQ : ∀ no step, Q no step → Q no step.afterFailure)
    (h : Course ending s attempts answer t) (hs : s.Owes Q) (hleft : ending.Owes Q) : t.Owes Q := by
  refine h.leaves (Q := fun no steps => ∀ step ∈ steps, Q no step)
    (fun _ _ hmem => absurd hmem List.not_mem_nil)
    (fun hall step hmem => hall step (List.mem_cons_of_mem _ hmem)) (fun hall step hmem => ?_) hs ?_
  · rcases List.mem_cons.1 hmem with rfl | hrest
    · exact hQ _ _ (hall _ List.mem_cons_self)
    · exact hall step (List.mem_cons_of_mem _ hrest)
  · cases ending with
    | steps => exact hleft
    | _ => trivial

/-! ## Derivation goes on from older to younger states -/

/-- What a state owes the end of is younger than the state. -/
def Server.Descending (s : Server) : Prop :=
  ∀ (no younger : StateNo) (client : ClientNo), .endDerived younger client ∈ (s.state no).owed →
    no.value < younger.value ∧ younger.value < s.states.size

/-- The steps end states that are younger than one, and none that was not made. -/
def ReleaseStep.Below (no : StateNo) (size : Nat) (steps : List ReleaseStep) : Prop :=
  ∀ (younger : StateNo) (client : ClientNo), .endDerived younger client ∈ steps →
    no.value < younger.value ∧ younger.value < size

theorem ReleaseStep.Below.tail {no : StateNo} {size : Nat} {step : ReleaseStep}
    {rest : List ReleaseStep} (h : Below no size (step :: rest)) : Below no size rest :=
  fun younger client hmem => h younger client (List.mem_cons_of_mem _ hmem)

namespace Server

variable {s : Server}

/-- What a state owes leads to younger states only. -/
theorem Descending.below (h : s.Descending) (no : StateNo) :
    ReleaseStep.Below no s.states.size (s.state no).owed := h no

/-- One state may come to owe something else, as long as it is younger. -/
theorem Descending.amendState (h : s.Descending) {no : StateNo} {f : HeldState → HeldState}
    (hf : ReleaseStep.Below no s.states.size (f (s.state no)).owed) :
    (s.amendState no f).Descending := by
  intro other younger client hmem
  rw [state_amendState] at hmem
  rw [show (s.amendState no f).states.size = s.states.size from Ledger.size_modify ..]
  split at hmem
  · rename_i hsame
    rw [hsame.1] at hmem ⊢
    exact hf younger client hmem
  · exact h other younger client hmem

end Server

/-- What is left to do of the end of a state ends only younger ones. -/
def Ending.Below (size : Nat) : Ending → Prop
  | .steps _ no _ left => ReleaseStep.Below no size left
  | _ => True

/-- While states end, what they owe still leads to younger states only. -/
theorem Course.descending {ending : Ending} {s t : Server} {attempts : List Attempt}
    {answer : Except Error Unit} (h : Course ending s attempts answer t) (hs : s.Descending)
    (hbelow : ending.Below s.states.size) : t.Descending := by
  -- said of all that is owed, it is known of what was owed before and of what failed
  have hyounger : t.Owes fun no step => ∀ younger client, step = .endDerived younger client →
      no.value < younger.value ∧ younger.value < s.states.size := by
    refine h.owes (fun no step hstep younger client hfailed => ?_) ?_ ?_
    · cases step with
      | notify => cases hfailed
      | _ => exact hstep younger client hfailed
    · rintro no _ hmem younger client rfl
      exact hs no younger client hmem
    · cases ending with
      | steps =>
        rintro _ hmem younger client rfl
        exact hbelow younger client hmem
      | _ => trivial
  intro no younger client hmem
  rw [h.states_size_eq]
  exact hyounger no _ hmem younger client rfl

/-! ## What a server does by itself -/

namespace Request

open Server

variable {s : Server}

/-- What the request does is one of the courses of the work. -/
def Follows (ending : Ending) (r : Request Unit) (s : Server) : Prop :=
  ∃ attempts, Course ending s attempts (r.exec s).1 (r.exec s).2

/-- One thing that is owed, given that younger states end as they should. -/
theorem follows_releaseStep {endState : StateNo → Request Unit} (state : HeldState)
    {step : ReleaseStep} (hend : ∀ no client, step = .endDerived no client →
      Follows (.state true no) (endState no) s) :
    Follows (.step state step) (releaseStep endState state step) s := by
  unfold Follows releaseStep
  cases step with
  | forgetOpen file => exact ⟨[], .forgotten s state file⟩
  | unlockAll file holder =>
    dsimp only
    rw [exec_updateLocks]
    cases hcall : s.callLocks .unlock (·.unlockIfHeld file (.everything holder)) with
    | ok locks => exact ⟨[], .unlocked state (callLocks_eq_ok hcall)⟩
    | error e => exact ⟨[], .unlockFailed s state file holder e⟩
  | endDerived no client =>
    obtain ⟨attempts, hcourse⟩ := hend no client rfl
    dsimp only
    rw [exec_bind]
    -- the younger state stays attached if it does not end
    rcases hexec : (endState no).exec s with ⟨_ | _, t⟩
    · rw [hexec] at hcourse
      exact ⟨attempts, .derivedKept state client hcourse⟩
    · rw [hexec] at hcourse
      exact ⟨attempts, .derived state client hcourse⟩
  | notify label refusals =>
    cases refusals with
    | zero => exact ⟨[], .notified s state label⟩
    | succ refusals => exact ⟨[], .refused s state label refusals⟩

/-- What ends the states that are younger than one follows a course. -/
def EndsYounger (endState : StateNo → Request Unit) (no : StateNo) (size : Nat) : Prop :=
  ∀ (younger : StateNo) (s : Server), no.value < younger.value → younger.value < size →
    s.states.size = size → s.Descending → Follows (.state true younger) (endState younger) s

section Steps

variable {endState : StateNo → Request Unit} {no : StateNo} {size : Nat}
  (hend : EndsYounger endState no size) (state : HeldState) (hsize : s.states.size = size)
  (hs : s.Descending)

include hend hsize hs

theorem follows_firstStep {step : ReleaseStep} {rest : List ReleaseStep}
    (hbelow : ReleaseStep.Below no size (step :: rest)) :
    Follows (.step state step) (releaseStep endState state step) s := by
  refine follows_releaseStep state fun younger client hstep => ?_
  obtain ⟨hyounger, hmade⟩ := hbelow younger client (List.mem_cons.2 (.inl hstep.symm))
  exact hend younger s hyounger hmade hsize hs

/-- Whatever ends the younger states, a strict loop over what a state owes follows a course. -/
theorem follows_releaseStrictly {steps : List ReleaseStep}
    (hbelow : ReleaseStep.Below no size steps) :
    Follows (.steps true no state steps) (releaseStrictly endState no state steps) s := by
  induction steps generalizing s with
  | nil => exact ⟨[], .finished s true no state⟩
  | cons step rest ih =>
    obtain ⟨attempts, hcourse⟩ := follows_firstStep hend state hsize hs hbelow
    unfold Follows releaseStrictly
    rw [exec_tryCatch_bind _ fun _ _ => rfl]
    -- at the first failure the rest stays owed
    rcases hexec : (releaseStep endState state step).exec s with ⟨_ | _, t⟩
    · rw [hexec] at hcourse
      exact ⟨_, .failed hcourse⟩
    · rw [hexec] at hcourse
      obtain ⟨later, hrest⟩ := ih (hcourse.states_size_eq.trans hsize)
        (hcourse.descending hs trivial) hbelow.tail
      exact ⟨_, .done hcourse hrest⟩

/-- What is owed is worked off to the end, whatever fails on the way. -/
theorem follows_releaseLeniently {steps : List ReleaseStep}
    (hbelow : ReleaseStep.Below no size steps) :
    Follows (.steps false no state steps) (releaseLeniently endState no state steps) s := by
  induction steps generalizing s with
  | nil => exact ⟨[], .finished s false no state⟩
  | cons step rest ih =>
    obtain ⟨attempts, hcourse⟩ := follows_firstStep hend state hsize hs hbelow
    obtain ⟨later, hrest⟩ := ih (hcourse.states_size_eq.trans hsize)
      (hcourse.descending hs trivial) hbelow.tail
    unfold Follows releaseLeniently
    rw [exec_bind, exec_tryCatch]
    -- the rest is worked off after a failure as after a success
    rcases hexec : (releaseStep endState state step).exec s with ⟨_ | _, t⟩
    · rw [hexec] at hcourse hrest
      exact ⟨_, .dropped hcourse hrest⟩
    · rw [hexec] at hcourse hrest
      exact ⟨_, .done hcourse hrest⟩

end Steps

/-- Chains of derived states are followed to their ends: each is younger than the one before. -/
theorem follows_endStateWithin {depth : Nat} {no : StateNo} (hs : s.Descending)
    (hno : no.value < s.states.size) (hdepth : s.states.size ≤ no.value + depth) :
    Follows (.state true no) (endStateWithin depth no) s := by
  -- on the depth, which is enough since each derivation leads to a younger state
  induction depth generalizing no s with
  | zero => omega
  | succ depth ih =>
    unfold Follows endStateWithin
    rw [exec_get_bind]
    dsimp only
    cases hdisposed : (s.state no).disposed with
    | true => exact ⟨[], .ended true hdisposed⟩
    | false =>
      have hend : EndsYounger (endStateWithin depth) no s.states.size :=
        fun younger t hyounger hmade hsize ht => ih ht (by omega) (by omega)
      obtain ⟨attempts, hcourse⟩ :=
        follows_releaseStrictly hend (s.state no) rfl hs (hs.below no)
      exact ⟨attempts, .state hdisposed hcourse⟩

/-- A state ends by a course, with as many derivations in reach as there are states. -/
theorem follows_endState {no : StateNo} (hs : s.Descending) (hno : no.value < s.states.size) :
    Follows (.state true no) (endState no) s :=
  follows_endStateWithin hs hno (Nat.le_add_left ..)

theorem follows_endStateLeniently {no : StateNo} (hs : s.Descending) :
    Follows (.state false no) (endStateLeniently no) s := by
  unfold Follows endStateLeniently
  rw [exec_get_bind]
  dsimp only
  cases hdisposed : (s.state no).disposed with
  | true => exact ⟨[], .ended false hdisposed⟩
  | false =>
    have hend : EndsYounger (endStateWithin s.states.size) no s.states.size :=
      fun younger t _ hmade hsize ht => follows_endStateWithin ht (by omega) (by omega)
    obtain ⟨attempts, hcourse⟩ :=
      follows_releaseLeniently hend (s.state no) rfl hs (hs.below no)
    exact ⟨attempts, .state hdisposed hcourse⟩

/-- The states of a client are ended one after the other, by whatever ends one of them. -/
theorem follows_states {strict : Bool} {endOne : StateNo → Request Unit}
    {loop : List StateNo → Request Unit} {client : ClientNo}
    (hend : ∀ (no : StateNo) (s : Server), s.Descending → no.value < s.states.size →
      Follows (.state strict no) (endOne no) s)
    (hnil : loop [] = pure ())
    (hcons : ∀ no rest, loop (no :: rest) =
      (endOne no >>= fun _ => detachState client no >>= fun _ => loop rest))
    {states : List StateNo} (hs : s.Descending) (hstates : ∀ no ∈ states, no.value < s.states.size) :
    Follows (.states strict client states) (loop states) s := by
  induction states generalizing s with
  | nil =>
    rw [hnil]
    exact ⟨[], .none s strict client⟩
  | cons no rest ih =>
    obtain ⟨attempts, hcourse⟩ := hend no s hs (hstates no List.mem_cons_self)
    unfold Follows
    rw [hcons, exec_bind]
    -- a state that does not end stops the loop, if ending it can fail at all
    rcases hexec : (endOne no).exec s with ⟨_ | _, t⟩
    · rw [hexec] at hcourse
      exact ⟨attempts, .stopped hcourse⟩
    · rw [hexec] at hcourse
      have hsize := hcourse.states_size_eq
      obtain ⟨later, hrest⟩ := ih (s := t.amendClient client (·.detach (t.state no).id.key))
        (hcourse.descending hs trivial)
        fun other hother => Nat.lt_of_lt_of_eq (hstates other (List.mem_cons_of_mem _ hother)) hsize.symm
      exact ⟨_, .next hcourse hrest⟩

end Request

namespace Server

variable {s : Server} {client : ClientNo}

/-- The order of the keys is one of the orders in which the states of a client may end. -/
theorem endsInOrder_endingOrder (s : Server) (client : ClientNo) :
    s.EndsInOrder client (s.endingOrder client) := by
  constructor
  · unfold endingOrder
    dsimp only
    -- every attached state is in the order once
    refine (List.filter_append_perm _ _).trans ?_
    exact (List.mergeSort_perm _ _).map Prod.snd
  · unfold endingOrder
    dsimp only
    -- derived states come first, and the others after them
    rw [List.pairwise_append]
    refine ⟨List.pairwise_iff_forall_sublist.2 fun hsub _ => ?_,
      List.pairwise_iff_forall_sublist.2 fun hsub hderived => ?_, fun a ha b _ _ => ?_⟩
    · exact (List.mem_filter.1 (hsub.subset List.mem_cons_self)).2
    · have hmem := (List.mem_filter.1 (hsub.subset (List.mem_cons_of_mem _ List.mem_cons_self))).2
      rw [hderived] at hmem
      cases hmem
    · exact (List.mem_filter.1 ha).2

/-- What a client may end is what its table leads to. -/
theorem EndsInOrder.mem_iff {order : List StateNo} (h : s.EndsInOrder client order) {no : StateNo} :
    no ∈ order ↔ ∃ key, (s.client client).states.get? key = some no :=
  h.perm.mem_iff.trans Table.mem_values_iff

end Server

namespace Request

open Server

variable {s : Server} {client : ClientNo}

/-- A client ends by the loop over its states, strictly or not. -/
theorem follows_client {strict : Bool} {endOne : StateNo → Request Unit}
    (loop : List StateNo → Request Unit)
    (hend : ∀ (no : StateNo) (s : Server), s.Descending → no.value < s.states.size →
      Follows (.state strict no) (endOne no) s)
    (hnil : loop [] = pure ())
    (hcons : ∀ no rest, loop (no :: rest) =
      (endOne no >>= fun _ => detachState client no >>= fun _ => loop rest))
    (hs : s.Descending) (hheld : s.Held) :
    Follows (.client strict client) (do
      let s ← get
      if (s.client client).disposed then pure ()
      else do
        loop (s.endingOrder client)
        modify (Server.amendClient client .finish)) s := by
  have horder := s.endsInOrder_endingOrder client
  have hmade (no : StateNo) (hno : no ∈ s.endingOrder client) : no.value < s.states.size := by
    obtain ⟨key, hget⟩ := horder.mem_iff.1 hno
    exact (hheld client key no hget).1
  obtain ⟨attempts, hcourse⟩ := follows_states hend hnil hcons hs hmade
  unfold Follows
  rw [exec_get_bind]
  cases hdisposed : (s.client client).disposed with
  | true => exact ⟨[], .gone strict hdisposed⟩
  | false =>
    rw [if_neg Bool.false_ne_true, exec_bind]
    -- a client is marked only if the loop comes to its end
    rcases hexec : (loop (s.endingOrder client)).exec s with ⟨_ | _, t⟩
    · rw [hexec] at hcourse
      exact ⟨attempts, .kept hdisposed horder hcourse⟩
    · rw [hexec] at hcourse
      exact ⟨attempts, .client hdisposed horder hcourse⟩

/-- A client ends by a course: its states in their order, and then itself. -/
theorem follows_endClient (hs : s.Descending) (hheld : s.Held) (client : ClientNo) :
    Follows (.client true client) (endClient client) s :=
  follows_client (endStatesOf client) (fun _ _ ht hno => follows_endState ht hno) rfl
    (fun _ _ => rfl) hs hheld

/-- A client that ends leniently ends by a course, its states each to their end. -/
theorem follows_endClientLeniently (hs : s.Descending) (hheld : s.Held) (client : ClientNo) :
    Follows (.client false client) (endClientLeniently client) s :=
  follows_client (endStatesLenientlyOf client) (fun _ _ ht _ => follows_endStateLeniently ht) rfl
    (fun _ _ => rfl) hs hheld

end Request

end Leasehold

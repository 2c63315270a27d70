import Mathlib.Data.List.Nodup
import Leasehold.Proofs.Serving

/-!
# Proofs.Removal — how far a removal gets

A removal ends the states of a client strictly, derived ones first: at the first step
that fails it stops, and the client stays with what it still holds. Whatever calls fail
and in whatever order states of one rank end, what was completed of the steps of a state
and what is still owed make up what was owed in the beginning, and no state that is not
derived is worked on while a derived one is attached.

* `Course.handled_state` — the end of one state touches no other state, since those
  that it would end have ended by then;
* `Server.Removable.resumed` — after a part of the work the rest of it can be done;
* `Course.resumes_states`, `Course.resumes_client` — the loop over the states of a
  client keeps the account, and the end of the client does.
-/

namespace Leasehold

/-- The step, however often an observer still refuses it. -/
def ReleaseStep.settled : ReleaseStep → ReleaseStep
  | .notify label _ => .notify label 0
  | step => step

/-- The steps of a state that were done, in the order in which they were done. -/
def completed (no : StateNo) (attempts : List Attempt) : List ReleaseStep :=
  (attempts.filter fun a => a.state = no && a.done).map (·.step.settled)

/-- A table without a key stays as it is when the key is forgotten. -/
theorem Table.erase_of_get?_eq_none {κ α : Type} [DecidableEq κ] {t : Table κ α} {k : κ}
    (h : t.get? k = none) : t.erase k = t := by
  have hentries : t.entries.filter (fun p => ¬ p.1 = k) = t.entries := by
    rw [List.filter_eq_self]
    rintro ⟨j, v⟩ hmem
    have hne : j ≠ k := by
      rintro rfl
      rw [t.get?_of_mem_entries hmem] at h
      cases h
    exact decide_eq_true hne
  unfold Table.erase
  cases t
  congr

namespace Server

/-- The steps that are still owed for a state. -/
def left (s : Server) (no : StateNo) : List ReleaseStep := (s.state no).owed.map (·.settled)

/-- A client has a state in its table. -/
def Holds (s : Server) (client : ClientNo) (no : StateNo) : Prop :=
  ∃ key, (s.client client).states.get? key = some no

/-- It is a state's turn to end: it is derived, or no derived state is attached. -/
def InTurn (s : Server) (client : ClientNo) (no : StateNo) : Prop :=
  (s.state no).isDerived = false → ∀ other, s.Holds client other → (s.state other).isDerived = false

end Server

/-- The attempt was made when it was the turn of its state. -/
def Attempt.InTurn (client : ClientNo) (a : Attempt) : Prop := a.before.InTurn client a.state

/-- A registered client, and states of which none has ended, where parents have no parents. -/
structure Server.Removable (s : Server) (id : ClientId) (client : ClientNo) : Prop where
  running : s.running = true
  listed : s.registered.get? id = some client
  own : (s.client client).id = id
  made : client.value < s.clients.size
  lives : (s.client client).disposed = false
  /-- The table leads to states that bear their keys and live. -/
  attached : ∀ key no, (s.client client).states.get? key = some no →
    no.value < s.states.size ∧ (s.state no).id.key = key ∧ (s.state no).disposed = false
  parents : ∀ no parent, s.Holds client no → (s.state no).parent = some parent →
    (s.state parent).parent = none
  /-- What an attached state owes the end of is attached and derived from it, or has ended and stands
  under no key. -/
  derived : ∀ no younger x, s.Holds client no → .endDerived younger x ∈ (s.state no).owed →
    s.Holds client younger ∧ (s.state younger).parent = some no ∨
      (s.state younger).disposed = true ∧
        (s.client client).states.get? (s.state younger).id.key = none

/-! ## Accounts -/

/-- A failure leaves the same step to do. -/
theorem ReleaseStep.settled_afterFailure (step : ReleaseStep) :
    step.afterFailure.settled = step.settled := by
  cases step with
  | notify => rfl
  | _ => rfl

section completed

variable {no : StateNo} {attempts : List Attempt}

/-- Of two courses, what was done in the first one comes first. -/
theorem completed_append (no : StateNo) (attempts later : List Attempt) :
    completed no (attempts ++ later) = completed no attempts ++ completed no later := by
  unfold completed
  rw [List.filter_append, List.map_append]

/-- Attempts at other states complete nothing of this one. -/
theorem completed_of_ne (h : ∀ a ∈ attempts, a.state ≠ no) : completed no attempts = [] := by
  unfold completed
  rw [List.filter_eq_nil_iff.2, List.map_nil]
  intro a ha
  simp [h a ha]

theorem completed_cons_done (no : StateNo) (step : ReleaseStep) (s : Server)
    (attempts : List Attempt) :
    completed no (⟨no, step, s, true⟩ :: attempts) = step.settled :: completed no attempts := by
  simp [completed]

/-- An attempt that fails completes nothing. -/
theorem completed_cons_failed (no other : StateNo) (step : ReleaseStep) (s : Server)
    (attempts : List Attempt) :
    completed no (⟨other, step, s, false⟩ :: attempts) = completed no attempts := by
  simp [completed]

end completed

namespace Server

variable {s t u : Server} {client : ClientNo} {no : StateNo} {attempts later : List Attempt}

/-! ## What a removal leaves as it is -/

/-- What is the same before and after, and does not come back. -/
structure Steady (client : ClientNo) (s t : Server) : Prop where
  registered : t.registered = s.registered
  running : t.running = s.running
  clients_size : t.clients.size = s.clients.size
  states_size : t.states.size = s.states.size
  owners : t.owners = s.owners
  sessions : t.sessions = s.sessions
  record : ∃ states, t.client client = { s.client client with states }
  key : ∀ no, (t.state no).id.key = (s.state no).id.key
  parent : ∀ no, (t.state no).parent = (s.state no).parent
  ended : ∀ no, (s.state no).disposed = true → (t.state no).disposed = true
  /-- No state comes to owe the end of another. -/
  derived : ∀ no younger x, .endDerived younger x ∈ (t.state no).owed →
    .endDerived younger x ∈ (s.state no).owed

theorem Steady.refl (client : ClientNo) (s : Server) : Steady client s s where
  registered := rfl
  running := rfl
  clients_size := rfl
  states_size := rfl
  owners := rfl
  sessions := rfl
  record := ⟨(s.client client).states, rfl⟩
  key _ := rfl
  parent _ := rfl
  ended _ := id
  derived _ _ _ := id

/-- What is the same twice is the same. -/
theorem Steady.trans (h : Steady client s t) (h' : Steady client t u) : Steady client s u where
  registered := h'.registered.trans h.registered
  running := h'.running.trans h.running
  clients_size := h'.clients_size.trans h.clients_size
  states_size := h'.states_size.trans h.states_size
  owners := h'.owners.trans h.owners
  sessions := h'.sessions.trans h.sessions
  record := by
    obtain ⟨states, hrecord⟩ := h.record
    obtain ⟨states', hrecord'⟩ := h'.record
    refine ⟨states', ?_⟩
    rw [hrecord', hrecord]
  key no := (h'.key no).trans (h.key no)
  parent no := (h'.parent no).trans (h.parent no)
  ended no hdisposed := h'.ended no (h.ended no hdisposed)
  derived no younger x hmem := h.derived no younger x (h'.derived no younger x hmem)

/-- States stay derived from what they were derived from. -/
theorem Steady.isDerived_eq (h : Steady client s t) (no : StateNo) :
    (t.state no).isDerived = (s.state no).isDerived :=
  congrArg Option.isSome (h.parent no)

/-- An update of one state that keeps key and parent, and lets it owe no more. -/
theorem Steady.amendState (client : ClientNo) (s : Server) (no : StateNo) {f : HeldState → HeldState}
    (hf : ∀ st, (f st).id.key = st.id.key ∧ (f st).parent = st.parent ∧
      (st.disposed = true → (f st).disposed = true))
    (howed : ∀ younger x, .endDerived younger x ∈ (f (s.state no)).owed →
      .endDerived younger x ∈ (s.state no).owed) : Steady client s (s.amendState no f) := by
  have hcases (other : StateNo) : (s.amendState no f).state other = s.state other ∨
      other = no ∧ (s.amendState no f).state other = f (s.state no) := by
    rw [state_amendState]
    split
    · rename_i hsame
      rw [hsame.1]
      exact .inr ⟨rfl, rfl⟩
    · exact .inl rfl
  refine ⟨rfl, rfl, rfl, Ledger.size_modify .., rfl, rfl, ⟨_, rfl⟩, fun other => ?_, fun other => ?_,
    fun other hdisposed => ?_, fun other younger x hmem => ?_⟩
  · rcases hcases other with hsame | ⟨rfl, hnew⟩
    · rw [hsame]
    · rw [hnew]
      exact (hf _).1
  · rcases hcases other with hsame | ⟨rfl, hnew⟩
    · rw [hsame]
    · rw [hnew]
      exact (hf _).2.1
  · rcases hcases other with hsame | ⟨rfl, hnew⟩
    · rw [hsame]
      exact hdisposed
    · rw [hnew]
      exact (hf _).2.2 hdisposed
  · rcases hcases other with hsame | ⟨rfl, hnew⟩
    · rwa [hsame] at hmem
    · rw [hnew] at hmem
      exact howed younger x hmem

/-- The records of the states and that of the client are untouched. -/
structure Beside (client : ClientNo) (s t : Server) : Prop where
  registered : t.registered = s.registered
  running : t.running = s.running
  clients_size : t.clients.size = s.clients.size
  states : t.states = s.states
  owners : t.owners = s.owners
  sessions : t.sessions = s.sessions
  record : t.client client = s.client client

theorem Beside.refl (client : ClientNo) (s : Server) : Beside client s s :=
  ⟨rfl, rfl, rfl, rfl, rfl, rfl, rfl⟩

theorem Beside.state_eq (h : Beside client s t) (no : StateNo) : t.state no = s.state no :=
  congrArg (·.get no) h.states

/-- What leaves the records alone leaves them steady. -/
theorem Beside.steady (h : Beside client s t) : Steady client s t where
  registered := h.registered
  running := h.running
  clients_size := h.clients_size
  states_size := congrArg Ledger.size h.states
  owners := h.owners
  sessions := h.sessions
  record := ⟨_, h.record⟩
  key no := congrArg (·.id.key) (h.state_eq no)
  parent no := congrArg HeldState.parent (h.state_eq no)
  ended no hdisposed := (congrArg HeldState.disposed (h.state_eq no)).trans hdisposed
  derived no younger x hmem := by
    rwa [h.state_eq] at hmem

/-- Forgetting what stands under a free key changes nothing for the client. -/
theorem beside_detach (s : Server) {client : ClientNo} (x : ClientNo) {key : StateKey}
    (hfree : (s.client client).states.get? key = none) :
    Beside client s (s.amendClient x (·.detach key)) := by
  refine ⟨rfl, rfl, Ledger.size_modify .., rfl, rfl, rfl, ?_⟩
  rw [client_amendClient]
  split
  · unfold Client.detach
    rw [Table.erase_of_get?_eq_none hfree]
  · rfl

/-- Turns stay turns: parents never change, and the client's table is the same. -/
theorem Beside.inTurn (h : Beside client s t) (hturn : s.InTurn client no) : t.InTurn client no := by
  intro hderived other ⟨key, hget⟩
  rw [h.state_eq] at hderived ⊢
  rw [h.record] at hget
  exact hturn hderived other ⟨key, hget⟩

/-- The states that are still to be ended by some steps have ended, and stand under no key. -/
def EndedBelow (client : ClientNo) (s : Server) (left : List ReleaseStep) : Prop :=
  ∀ younger x, .endDerived younger x ∈ left → (s.state younger).disposed = true ∧
    (s.client client).states.get? (s.state younger).id.key = none

theorem Beside.endedBelow {left : List ReleaseStep} (h : Beside client s t)
    (hs : s.EndedBelow client left) : t.EndedBelow client left := by
  intro younger x hmem
  rw [h.state_eq, h.record]
  exact hs younger x hmem

/-- What holds of all steps that are left holds of the later ones. -/
theorem EndedBelow.tail {step : ReleaseStep} {rest : List ReleaseStep}
    (hs : s.EndedBelow client (step :: rest)) : s.EndedBelow client rest :=
  fun younger x hmem => hs younger x (List.mem_cons_of_mem _ hmem)

end Server

/-! ## The end of one state -/

/-- One state was worked on, and no other one: what was done of its steps and what is left of them
make up what was to do, and it has ended if nothing failed. -/
structure Server.Handled (client : ClientNo) (no : StateNo) (left : List ReleaseStep) (s : Server)
    (attempts : List Attempt) (answer : Except Error Unit) (t : Server) : Prop where
  steady : Steady client s t
  record : t.client client = s.client client
  still : ∀ other, other ≠ no → t.state other = s.state other
  worked : ∀ a ∈ attempts, a.state = no ∧ a.InTurn client
  account : completed no attempts ++ t.left no = left.map (·.settled)
  ended : (t.state no).disposed = true ↔ answer = .ok ()
  nothing : answer = .ok () → t.left no = []

namespace Server

variable {s t : Server} {client : ClientNo} {no : StateNo} {attempts : List Attempt}
  {answer : Except Error Unit}

/-- The accounts of the other states are as they were. -/
theorem Handled.account_all (h : Handled client no (s.state no).owed s attempts answer t)
    (other : StateNo) : completed other attempts ++ t.left other = s.left other := by
  by_cases hsame : other = no
  · rw [hsame]
    exact h.account
  · have hnone : completed other attempts = [] :=
      completed_of_ne fun a ha heq => hsame (heq.symm.trans (h.worked a ha).1)
    unfold left
    rw [hnone, h.still other hsame]
    rfl

end Server

namespace Course

open Server

variable {s t : Server} {client : ClientNo} {no : StateNo} {attempts : List Attempt}
  {answer : Except Error Unit} {st : HeldState} {step : ReleaseStep} {left : List ReleaseStep}

/-- To end a state that has ended is nothing to do. -/
theorem eq_of_disposed {strict : Bool} (h : Course (.state strict no) s attempts answer t)
    (hdisposed : (s.state no).disposed = true) : attempts = [] ∧ answer = .ok () ∧ t = s := by
  cases h with
  | ended => exact ⟨rfl, rfl, rfl⟩
  | state hlives =>
    rw [hdisposed] at hlives
    cases hlives

/-- One step of a state leaves the states themselves to the loop over the steps. -/
theorem beside_step (h : Course (.step st step) s attempts answer t)
    (hended : s.EndedBelow client [step]) : attempts = [] ∧ Beside client s t := by
  cases h with
  | forgotten _ _ file =>
    refine ⟨rfl, ?_⟩
    unfold Server.forgetOpen
    split
    · exact ⟨rfl, rfl, rfl, rfl, rfl, rfl, rfl⟩
    · exact .refl client s
  | unlocked => exact ⟨rfl, rfl, rfl, rfl, rfl, rfl, rfl, rfl⟩
  | unlockFailed => exact ⟨rfl, .refl client s⟩
  | notified => exact ⟨rfl, rfl, rfl, rfl, rfl, rfl, rfl, rfl⟩
  | refused => exact ⟨rfl, rfl, rfl, rfl, rfl, rfl, rfl, rfl⟩
  | @derivedKept _ _ _ _ _ younger x h =>
    -- what is derived has ended already, so this cannot fail
    obtain ⟨_, hok, _⟩ := h.eq_of_disposed (hended younger x List.mem_cons_self).1
    cases hok
  | @derived _ _ _ _ younger x h =>
    obtain ⟨hdisposed, hfree⟩ := hended younger x List.mem_cons_self
    obtain ⟨rfl, _, rfl⟩ := h.eq_of_disposed hdisposed
    exact ⟨rfl, beside_detach _ x hfree⟩

/-- The strict loop over the steps of a state, once the states that it ends have ended. -/
theorem handled_steps (h : Course (.steps true no st left) s attempts answer t)
    (hmade : no.value < s.states.size) (hlives : (s.state no).disposed = false)
    (hturn : s.InTurn client no) (hended : s.EndedBelow client left)
    (howed : ∀ younger x, .endDerived younger x ∈ left → .endDerived younger x ∈ (s.state no).owed) :
    Handled client no left s attempts answer t := by
  induction left generalizing s attempts with
  | nil =>
    cases h with
    | finished =>
      -- nothing is left to do but to mark the end
      have hfinished : (s.amendState no .finish).state no = (s.state no).finish := by
        rw [state_amendState, if_pos ⟨rfl, hmade⟩]
      have hnothing : (s.amendState no .finish).left no = [] := by
        unfold Server.left
        rw [hfinished]
        rfl
      refine ⟨.amendState client s no (fun _ => ⟨rfl, rfl, fun _ => rfl⟩)
        fun _ _ hmem => absurd hmem List.not_mem_nil, rfl, fun other hne => ?_,
        fun a ha => absurd ha List.not_mem_nil, hnothing, ?_, fun _ => hnothing⟩
      · rw [state_amendState, if_neg fun h => hne h.1]
      · rw [hfinished]
        exact iff_of_true rfl rfl
  | cons step rest ih =>
    have hfirst : s.EndedBelow client [step] := fun younger x hmem =>
      hended younger x (List.mem_cons.2 (.inl (List.mem_singleton.1 hmem)))
    cases h with
    | @done _ u _ _ _ _ _ _ _ later _ h hrest =>
      -- the step is done and noted; the rest is the induction's
      obtain ⟨rfl, hbeside⟩ := h.beside_step hfirst
      have hsame := hbeside.state_eq no
      have hrested := ih hrest (Nat.lt_of_lt_of_eq hmade hbeside.steady.states_size.symm)
        (by rw [hsame]; exact hlives) (hbeside.inTurn hturn) (hbeside.endedBelow hended.tail)
        (fun younger x hmem => by rw [hsame]; exact howed younger x (List.mem_cons_of_mem _ hmem))
      refine ⟨hbeside.steady.trans hrested.steady, hrested.record.trans hbeside.record,
        fun other hne => (hrested.still other hne).trans (hbeside.state_eq other), fun a ha => ?_, ?_,
        hrested.ended, hrested.nothing⟩
      · rcases List.mem_cons.1 ha with rfl | hmem
        · exact ⟨rfl, hturn⟩
        · exact hrested.worked a hmem
      · rw [List.cons_append, List.nil_append, completed_cons_done, List.cons_append, hrested.account]
        rfl
    | @failed _ u _ _ _ _ _ e h =>
      obtain ⟨rfl, hbeside⟩ := h.beside_step hfirst
      have hsame := hbeside.state_eq no
      -- the step that failed is put back with the rest, and so nothing is lost from the account
      have hkept : (u.amendState no ({ · with owed := step.afterFailure :: rest })).state no =
          { s.state no with owed := step.afterFailure :: rest } := by
        rw [state_amendState,
          if_pos ⟨rfl, Nat.lt_of_lt_of_eq hmade hbeside.steady.states_size.symm⟩, hsame]
      refine ⟨hbeside.steady.trans (.amendState client u no (fun _ => ⟨rfl, rfl, id⟩)
        fun younger x hmem => ?_), hbeside.record, fun other hne => ?_, fun a ha => ?_, ?_, ?_, nofun⟩
      · rw [hsame]
        refine howed younger x ?_
        rcases List.mem_cons.1 hmem with hagain | hrest
        · refine List.mem_cons.2 (.inl ?_)
          cases step with
          | notify => cases hagain
          | _ => exact hagain
        · exact List.mem_cons_of_mem _ hrest
      · rw [state_amendState, if_neg fun h => hne h.1]
        exact hbeside.state_eq other
      · rw [List.mem_singleton.1 ha]
        exact ⟨rfl, hturn⟩
      · unfold Server.left
        rw [hkept, completed_cons_failed]
        exact congrArg (· :: rest.map (·.settled)) step.settled_afterFailure
      · rw [hkept]
        exact iff_of_false (by rw [hlives]; exact Bool.false_ne_true) nofun

end Course

/-- When it is the turn of a state, the derived states that it ends have ended. -/
theorem Server.Removable.endedBelow {s : Server} {id : ClientId} {client : ClientNo} {no : StateNo}
    (hs : s.Removable id client) (hholds : s.Holds client no) (hturn : s.InTurn client no) :
    s.EndedBelow client (s.state no).owed := by
  intro younger x hmem
  refine (hs.derived no younger x hholds hmem).resolve_left ?_
  rintro ⟨hyounger, hparent⟩
  have htop : (s.state no).isDerived = false :=
    congrArg Option.isSome (hs.parents younger no hyounger hparent)
  have hderived : (s.state younger).isDerived = true := congrArg Option.isSome hparent
  rw [hturn htop younger hyounger] at hderived
  cases hderived

/-- One state that is worked on does its steps in order, as far as it gets. -/
theorem Course.handled_state {s t : Server} {id : ClientId} {client : ClientNo} {no : StateNo}
    {attempts : List Attempt} {answer : Except Error Unit}
    (h : Course (.state true no) s attempts answer t) (hs : s.Removable id client)
    (hholds : s.Holds client no) (hturn : s.InTurn client no) :
    Server.Handled client no (s.state no).owed s attempts answer t := by
  have hended := hs.endedBelow hholds hturn
  obtain ⟨key, hget⟩ := hholds
  obtain ⟨hmade, _, hlives⟩ := hs.attached key no hget
  cases h with
  | ended _ hdisposed =>
    rw [hlives] at hdisposed
    cases hdisposed
  | state _ h => exact h.handled_steps hmade hlives hturn hended fun _ _ hmem => hmem

/-! ## The end of the states of a client -/

namespace Server

variable {s t u : Server} {id : ClientId} {client : ClientNo} {no : StateNo}
  {attempts later : List Attempt} {answer : Except Error Unit}

/-- States of a client have ended, and those that have not are attached; nothing was done twice, and
nothing is lost. -/
structure Resumes (client : ClientNo) (s : Server) (attempts : List Attempt) (t : Server) :
    Prop where
  steady : Steady client s t
  attached : ∀ key no, (t.client client).states.get? key = some no ↔
    (s.client client).states.get? key = some no ∧ (t.state no).disposed = false
  account : ∀ no, completed no attempts ++ t.left no = s.left no
  nothing : ∀ no, s.Holds client no → (t.state no).disposed = true → t.left no = []
  inTurn : ∀ a ∈ attempts, a.InTurn client

theorem Removable.resumes_refl (hs : s.Removable id client) : Resumes client s [] s where
  steady := .refl client s
  attached key no := ⟨fun hget => ⟨hget, (hs.attached key no hget).2.2⟩, And.left⟩
  account _ := rfl
  nothing no hholds hdisposed := by
    obtain ⟨key, hget⟩ := hholds
    rw [(hs.attached key no hget).2.2] at hdisposed
    cases hdisposed
  inTurn _ ha := absurd ha List.not_mem_nil

/-- A removal that is taken up again goes on where it stopped. -/
theorem Resumes.trans (h : Resumes client s attempts t) (h' : Resumes client t later u) :
    Resumes client s (attempts ++ later) u where
  steady := h.steady.trans h'.steady
  attached key no := by
    rw [h'.attached, h.attached]
    constructor
    · rintro ⟨⟨hget, _⟩, hlives⟩
      exact ⟨hget, hlives⟩
    · rintro ⟨hget, hlives⟩
      refine ⟨⟨hget, ?_⟩, hlives⟩
      -- what had ended by then would have ended for good
      cases hdisposed : (t.state no).disposed with
      | false => rfl
      | true =>
        rw [h'.steady.ended no hdisposed] at hlives
        cases hlives
  account no := by
    rw [completed_append, List.append_assoc, h'.account, h.account]
  nothing no hholds hdisposed := by
    cases hbefore : (t.state no).disposed with
    | false =>
      obtain ⟨key, hget⟩ := hholds
      exact h'.nothing no ⟨key, (h.attached key no).2 ⟨hget, hbefore⟩⟩ hdisposed
    | true =>
      have haccount := h'.account no
      rw [h.nothing no hholds hbefore] at haccount
      exact (List.append_eq_nil_iff.1 haccount).2
  inTurn a ha := (List.mem_append.1 ha).elim (h.inTurn a) (h'.inTurn a)

/-- Nothing is attached in the course of a removal. -/
theorem Resumes.holds (h : Resumes client s attempts t) (hholds : t.Holds client no) :
    s.Holds client no :=
  hholds.imp fun key hget => ((h.attached key no).1 hget).1

/-- A client holds a state under its own key and no other. -/
theorem Removable.holds_iff (hs : s.Removable id client) :
    s.Holds client no ↔ (s.client client).states.get? (s.state no).id.key = some no := by
  refine ⟨fun ⟨key, hget⟩ => ?_, fun hget => ⟨_, hget⟩⟩
  rw [(hs.attached key no hget).2.1]
  exact hget

/-- After a part of the work, the rest can be done. -/
theorem Removable.resumed (hs : s.Removable id client) (h : Resumes client s attempts t) :
    t.Removable id client := by
  obtain ⟨states, hrecord⟩ := h.steady.record
  constructor
  case running => exact h.steady.running.trans hs.running
  case listed =>
    rw [h.steady.registered]
    exact hs.listed
  case own =>
    rw [hrecord]
    exact hs.own
  case made => exact Nat.lt_of_lt_of_eq hs.made h.steady.clients_size.symm
  case lives =>
    rw [hrecord]
    exact hs.lives
  case attached =>
    intro key no hget
    obtain ⟨hbefore, hlives⟩ := (h.attached key no).1 hget
    obtain ⟨hmade, hkey, _⟩ := hs.attached key no hbefore
    exact ⟨Nat.lt_of_lt_of_eq hmade h.steady.states_size.symm, (h.steady.key no).trans hkey, hlives⟩
  case parents =>
    intro no parent hholds hparent
    rw [h.steady.parent] at hparent ⊢
    exact hs.parents no parent (h.holds hholds) hparent
  case derived =>
    intro no younger x hholds hmem
    rw [h.steady.parent, h.steady.key]
    -- what was derived and held may have ended in between; what had ended has not come back
    rcases hs.derived no younger x (h.holds hholds) (h.steady.derived no younger x hmem) with
      ⟨hyounger, hparent⟩ | ⟨hdisposed, hfree⟩
    · have hown := hs.holds_iff.1 hyounger
      cases hdisposed : (t.state younger).disposed with
      | false => exact .inl ⟨⟨_, (h.attached _ younger).2 ⟨hown, hdisposed⟩⟩, hparent⟩
      | true =>
        refine .inr ⟨rfl, Option.eq_none_iff_forall_ne_some.2 fun other hget => ?_⟩
        obtain ⟨hbefore, hlives⟩ := (h.attached _ other).1 hget
        rw [Option.some.inj (hbefore.symm.trans hown), hdisposed] at hlives
        cases hlives
    · refine .inr ⟨h.steady.ended younger hdisposed,
        Option.eq_none_iff_forall_ne_some.2 fun other hget => ?_⟩
      rw [((h.attached _ other).1 hget).1] at hfree
      cases hfree

/-- The other states are attached still. -/
theorem Removable.lives_of_ne (hs : s.Removable id client) {left : List ReleaseStep}
    (h : Handled client no left s attempts answer t) {other : StateNo} (hne : other ≠ no)
    (hother : s.Holds client other) : (t.state other).disposed = false := by
  obtain ⟨key, hget⟩ := hother
  rw [h.still other hne]
  exact (hs.attached key other hget).2.2

/-- A state that failed to end stays attached, with what is left of its steps. -/
theorem Removable.resumes_failed (hs : s.Removable id client) {e : Error}
    (h : Handled client no (s.state no).owed s attempts (.error e) t) :
    Resumes client s attempts t := by
  have hlives {other : StateNo} (hother : s.Holds client other) :
      (t.state other).disposed = false := by
    by_cases hsame : other = no
    · rw [hsame, ← Bool.not_eq_true, h.ended]
      exact nofun
    · exact hs.lives_of_ne h hsame hother
  refine ⟨h.steady, fun key other => ?_, h.account_all, fun other hother hdisposed => ?_,
    fun a ha => (h.worked a ha).2⟩
  · rw [h.record]
    exact ⟨fun hget => ⟨hget, hlives ⟨key, hget⟩⟩, And.left⟩
  · rw [hlives hother] at hdisposed
    cases hdisposed

/-- A state that has ended is taken from its client. -/
theorem Removable.resumes_ended (hs : s.Removable id client) (hholds : s.Holds client no)
    (h : Handled client no (s.state no).owed s attempts (.ok ()) t) :
    Resumes client s attempts (t.amendClient client (·.detach (t.state no).id.key)) := by
  have hmade : client.value < t.clients.size :=
    Nat.lt_of_lt_of_eq hs.made h.steady.clients_size.symm
  have hdetached : (t.amendClient client (·.detach (t.state no).id.key)).client client =
      (s.client client).detach (s.state no).id.key := by
    rw [client_amendClient, if_pos ⟨rfl, hmade⟩, h.record, h.steady.key]
  have hsteady : Steady client t (t.amendClient client (·.detach (t.state no).id.key)) := by
    refine ⟨rfl, rfl, Ledger.size_modify .., rfl, rfl, rfl, ?_, fun _ => rfl, fun _ => rfl,
      fun _ hended => hended, fun _ _ _ hmem => hmem⟩
    rw [hdetached, h.record]
    exact ⟨_, rfl⟩
  refine ⟨h.steady.trans hsteady, fun key other => ?_, h.account_all,
    fun other hother hdisposed => ?_, fun a ha => (h.worked a ha).2⟩
  · rw [hdetached, Client.detach, Table.get?_erase]
    show _ ↔ _ ∧ (t.state other).disposed = false
    by_cases hkey : (s.state no).id.key = key
    · rw [if_pos hkey]
      constructor
      · intro hget
        cases hget
      -- only the state that has ended stood under that key
      · rintro ⟨hget, hlives⟩
        rw [← hkey, hs.holds_iff.1 hholds] at hget
        injection hget with hsame
        rw [← hsame, h.ended.2 rfl] at hlives
        cases hlives
    · rw [if_neg hkey]
      refine ⟨fun hget => ⟨hget, hs.lives_of_ne h (fun hsame => hkey ?_) ⟨key, hget⟩⟩, And.left⟩
      rw [← hsame]
      exact (hs.attached key other hget).2.1
  · by_cases hsame : other = no
    · rw [hsame]
      exact h.nothing rfl
    · cases (hs.lives_of_ne h hsame hother).symm.trans hdisposed

/-- States that are all that a client holds, each once, derived ones first. -/
structure Covers (client : ClientNo) (s : Server) (rest : List StateNo) : Prop where
  nodup : rest.Nodup
  mem_iff : ∀ no, no ∈ rest ↔ s.Holds client no
  derivedFirst : rest.Pairwise fun a b => (s.state b).isDerived = true → (s.state a).isDerived = true

/-- The first state in the order may end: no derived one is left if it is not derived itself. -/
theorem Covers.inTurn {rest : List StateNo} (hs : s.Covers client (no :: rest)) :
    s.InTurn client no := by
  intro htop other hholds
  rcases List.mem_cons.1 ((hs.mem_iff other).2 hholds) with rfl | hmem
  · exact htop
  · cases hderived : (s.state other).isDerived with
    | false => rfl
    | true =>
      rw [(List.pairwise_cons.1 hs.derivedFirst).1 other hmem hderived] at htop
      cases htop

/-- Once the first state has ended, the rest is what the client holds. -/
theorem Covers.tail {rest : List StateNo} (hs : s.Covers client (no :: rest))
    (h : Resumes client s attempts t)
    (hheld : ∀ other, t.Holds client other ↔ s.Holds client other ∧ other ≠ no) :
    t.Covers client rest := by
  obtain ⟨hnot, hnodup⟩ := List.nodup_cons.1 hs.nodup
  refine ⟨hnodup, fun other => ?_, (List.pairwise_cons.1 hs.derivedFirst).2.imp fun {a b} hab => ?_⟩
  · rw [hheld, ← hs.mem_iff, List.mem_cons]
    constructor
    · exact fun hmem => ⟨.inr hmem, fun hsame => hnot (hsame ▸ hmem)⟩
    · exact fun ⟨hmem, hne⟩ => hmem.resolve_left hne
  · rw [h.steady.isDerived_eq, h.steady.isDerived_eq]
    exact hab

/-- The order in which a client's states end has each of them once, derived ones first. -/
theorem Removable.covers (hs : s.Removable id client) {order : List StateNo}
    (h : s.EndsInOrder client order) : s.Covers client order := by
  refine ⟨h.perm.nodup_iff.2 ?_, fun no => h.mem_iff, h.derivedFirst⟩
  -- a state stands under its own key only
  refine List.Nodup.of_map (fun no => (s.state no).id.key) ?_
  have hkeys : (s.client client).states.values.map (fun no => (s.state no).id.key) =
      (s.client client).states.entries.map Prod.fst := by
    unfold Table.values
    rw [List.map_map]
    refine List.map_congr_left fun p hmem => ?_
    exact (hs.attached p.1 p.2 (Table.get?_of_mem_entries _ hmem)).2.1
  rw [hkeys]
  exact (s.client client).states.nodup

end Server

namespace Course

open Server

variable {s t : Server} {id : ClientId} {client : ClientNo} {attempts : List Attempt}
  {answer : Except Error Unit}

/-- The loop over the states of a client goes as far as nothing fails, and then they are all gone. -/
theorem resumes_states {rest : List StateNo} (h : Course (.states true client rest) s attempts answer t)
    (hs : s.Removable id client) (hcovers : s.Covers client rest) :
    Resumes client s attempts t ∧ (answer = .ok () → ∀ no, ¬ t.Holds client no) := by
  induction rest generalizing s attempts with
  | nil =>
    cases h with
    | none =>
      exact ⟨hs.resumes_refl, fun _ no hholds =>
        List.not_mem_nil ((hcovers.mem_iff no).2 hholds)⟩
  | cons no rest ih =>
    have hholds : s.Holds client no := (hcovers.mem_iff no).1 List.mem_cons_self
    cases h with
    | @next _ u _ _ _ _ _ attempts later _ h hrest =>
      have hhandled := h.handled_state hs hholds hcovers.inTurn
      have hresumes := hs.resumes_ended hholds hhandled
      -- the state that has ended is no longer held, and the others still are
      have hheld (other : StateNo) :
          (u.amendClient client (·.detach (u.state no).id.key)).Holds client other ↔
            s.Holds client other ∧ other ≠ no := by
        constructor
        · rintro ⟨key, hget⟩
          obtain ⟨hbefore, hlives⟩ := (hresumes.attached key other).1 hget
          refine ⟨⟨key, hbefore⟩, fun hsame => ?_⟩
          rw [hsame] at hlives
          cases (hhandled.ended.2 rfl).symm.trans hlives
        · rintro ⟨⟨key, hget⟩, hne⟩
          exact ⟨key, (hresumes.attached key other).2
            ⟨hget, hs.lives_of_ne hhandled hne ⟨key, hget⟩⟩⟩
      obtain ⟨hrested, hnone⟩ := ih hrest (hs.resumed hresumes) (hcovers.tail hresumes hheld)
      exact ⟨hresumes.trans hrested, hnone⟩
    | stopped h =>
      exact ⟨hs.resumes_failed (h.handled_state hs hholds hcovers.inTurn), nofun⟩

/-- The strict end of a client that can be removed. -/
theorem resumes_client (h : Course (.client true client) s attempts answer t)
    (hs : s.Removable id client) :
    (∃ e, answer = .error e ∧ Resumes client s attempts t) ∨
      answer = .ok () ∧ ∃ u, Resumes client s attempts u ∧ (∀ no, ¬ u.Holds client no) ∧
        t = u.amendClient client .finish := by
  cases h with
  | gone _ hdisposed =>
    rw [hs.lives] at hdisposed
    cases hdisposed
  | client _ horder h =>
    obtain ⟨hresumes, hnone⟩ := h.resumes_states hs (hs.covers horder)
    exact .inr ⟨rfl, _, hresumes, hnone rfl, rfl⟩
  | kept _ horder h => exact .inl ⟨_, rfl, (h.resumes_states hs (hs.covers horder)).1⟩

end Course

end Leasehold

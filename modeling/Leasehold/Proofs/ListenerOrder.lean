import Mathlib.Data.List.Chain
import Leasehold.Proofs.FailedCloses

/-!
# Proofs.ListenerOrder — what a state owes is done in order

Each step that a state owes is a listener to its end. An attempt to end the state takes
the listeners that wait, and runs one after the other; others may be added meanwhile. A
strict attempt stops with the first that fails and puts back what is left in front of
those; a lenient one goes on. The log of all this numbers the listeners as they were
added.

* `Queue`, `Queue.Step`, `Queue.Run` — every way in which listeners can be added and
  attempts can go;
* `Orderly` — what the order of a log is; `Tells` — a queue beside its log, with
  `Tells.of_lives` and `Tells.step` as its beginning and its step;
* `Dealt` — what is done with one state of a server, `run_of_steps` and `run_of_dealt` —
  its attempts are runs of a queue;
* `listeners_in_order` — every log is orderly, in general and on a server.
-/

namespace Leasehold.Listening

/-! ## Listeners, and what becomes of them -/

/-- A step that a state owes, and as which one it was added. -/
structure Listener where
  number : Nat
  step : ReleaseStep

/-- The listener once it has failed. -/
def Listener.again (l : Listener) : Listener := { l with step := l.step.afterFailure }

/-- How a listener came out of a run. -/
inductive Verdict where
  | done
  /-- It failed, and the attempt stopped with it. -/
  | stopped
  /-- It failed, and the attempt went on. -/
  | skipped
  deriving DecidableEq

/-- What is noted of a state. -/
inductive Entry where
  | added (l : Listener)
  | ran (l : Listener) (verdict : Verdict)
  /-- A strict attempt has succeeded, or a lenient one has returned. -/
  | ended

/-- What a state is at. An attempt has the listeners that it took and has not run. -/
inductive Phase where
  | resting
  | ending (strict : Bool) (taken : List Listener)
  | disposed

/-- The listeners of one state. -/
structure Queue where
  /-- How many were added. -/
  added : Nat
  waiting : List Listener
  phase : Phase

namespace Queue

/-- Listeners that were added in an order. -/
def numbered (steps : List ReleaseStep) : List Listener :=
  steps.zipIdx.map fun p => ⟨p.2, p.1⟩

/-- The queue of a state that is not about to end. -/
def of (st : HeldState) : Queue :=
  ⟨st.owed.length, numbered st.owed, if st.disposed then .disposed else .resting⟩

/-- One thing that can happen. Listeners may be added at any time; there is one attempt at a
time. -/
inductive Step : Queue → List Entry → Queue → Prop where
  | add (n : Nat) (waiting : List Listener) (phase : Phase) (step : ReleaseStep) :
      Step ⟨n, waiting, phase⟩ [.added ⟨n, step⟩] ⟨n + 1, waiting ++ [⟨n, step⟩], phase⟩
  | take (n : Nat) (waiting : List Listener) (strict : Bool) :
      Step ⟨n, waiting, .resting⟩ [] ⟨n, [], .ending strict waiting⟩
  | done (n : Nat) (waiting : List Listener) (strict : Bool) (l : Listener) (rest : List Listener) :
      Step ⟨n, waiting, .ending strict (l :: rest)⟩ [.ran l .done] ⟨n, waiting, .ending strict rest⟩
  | stop (n : Nat) (waiting : List Listener) (l : Listener) (rest : List Listener) :
      Step ⟨n, waiting, .ending true (l :: rest)⟩ [.ran l .stopped]
        ⟨n, l.again :: rest ++ waiting, .resting⟩
  | skip (n : Nat) (waiting : List Listener) (l : Listener) (rest : List Listener) :
      Step ⟨n, waiting, .ending false (l :: rest)⟩ [.ran l .skipped]
        ⟨n, waiting, .ending false rest⟩
  | finish (n : Nat) (waiting : List Listener) (strict : Bool) :
      Step ⟨n, waiting, .ending strict []⟩ [.ended] ⟨n, [], .disposed⟩
  /-- An attempt on a state that has ended. -/
  | pass (n : Nat) (waiting : List Listener) :
      Step ⟨n, waiting, .disposed⟩ [.ended] ⟨n, waiting, .disposed⟩

/-- One thing after the other, with the log of it. -/
inductive Run : Queue → List Entry → Queue → Prop where
  | refl (q : Queue) : Run q [] q
  | step {q q' q'' : Queue} {log entries : List Entry} (h : Run q log q')
      (hstep : Step q' entries q'') : Run q (log ++ entries) q''

theorem Step.run {q q' : Queue} {entries : List Entry} (h : Step q entries q') : Run q entries q' :=
  (Run.refl q).step h

/-- One run after another is a run, and its log is both logs. -/
theorem Run.trans {q q' q'' : Queue} {log later : List Entry} (h : Run q log q')
    (h' : Run q' later q'') : Run q (log ++ later) q'' := by
  induction h' with
  | refl => rwa [List.append_nil]
  | step _ hstep ih =>
    rw [← List.append_assoc]
    exact ih.step hstep

/-- The listeners that have not come to their end, in the order in which they are to run. -/
def left (q : Queue) : List Listener :=
  match q.phase with
  | .resting => q.waiting
  | .ending _ taken => taken ++ q.waiting
  | .disposed => []

/-- The listeners that the next attempt takes, or that the one under way has taken. -/
def due (q : Queue) : List Listener :=
  match q.phase with
  | .resting => q.waiting
  | .ending _ taken => taken
  | .disposed => []

/-- Listeners that are there from the beginning are numbered from nought. -/
theorem numbers_numbered (steps : List ReleaseStep) :
    (numbered steps).map (·.number) = List.range' 0 steps.length := by
  unfold numbered
  rw [List.map_map]
  exact List.zipIdx_map_snd 0 steps

theorem steps_numbered (steps : List ReleaseStep) : (numbered steps).map (·.step) = steps := by
  unfold numbered
  rw [List.map_map]
  exact List.zipIdx_map_fst 0 steps

end Queue

/-! ## The order of a log -/

/-- The runs of a log: which listener, and how it came out. -/
def runs (log : List Entry) : List (Nat × Verdict) :=
  log.filterMap fun
    | .ran l verdict => some (l.number, verdict)
    | _ => none

/-- A log without what was added. -/
def turns (log : List Entry) : List Entry :=
  log.filter fun
    | .added _ => false
    | _ => true

/-- What may come next in a log: after an attempt has stopped with a listener, only a run of it. -/
def Resumes (a b : Entry) : Prop :=
  ∀ l, a = .ran l .stopped → ∃ l' verdict, b = .ran l' verdict ∧ l'.number = l.number

/-- Listeners run in the order in which they were added, each until it has come to its end. -/
structure Orderly (log : List Entry) : Prop where
  /-- Only a listener with which an attempt stopped runs again. -/
  once : (runs log).Pairwise fun a b => a.2 ≠ .stopped → b.1 ≠ a.1
  /-- Those that were added before a listener have run before it. -/
  inOrder : ∀ before run, before ++ [run] <+: runs log → ∀ n < run.1, n ∈ before.map Prod.fst
  /-- The listener with which an attempt stopped is the next one to run; until then nothing has
  ended. -/
  resumes : (turns log).IsChain Resumes
  /-- Once an attempt has succeeded no listener runs. -/
  ended : log.Pairwise fun a b => a = .ended → ∀ l verdict, b ≠ .ran l verdict

/-- The listeners below a number have come to their end, and it is this one's turn. -/
structure Reaches (log : List Entry) (k : Nat) : Prop where
  before : ∀ n < k, n ∈ (runs log).map Prod.fst
  settled : ∀ run ∈ runs log, run.2 ≠ .stopped → run.1 < k
  stopped : ∀ l, (turns log).getLast? = some (.ran l .stopped) → l.number = k

section snoc

variable {log : List Entry} {l : Listener} {verdict : Verdict} {k : Nat}

theorem runs_added (log : List Entry) (l : Listener) : runs (log ++ [.added l]) = runs log := by
  unfold runs
  rw [List.filterMap_append]
  exact List.append_nil _

theorem runs_ended (log : List Entry) : runs (log ++ [.ended]) = runs log := by
  unfold runs
  rw [List.filterMap_append]
  exact List.append_nil _

/-- A listener that runs is noted. -/
theorem runs_ran (log : List Entry) (l : Listener) (verdict : Verdict) :
    runs (log ++ [.ran l verdict]) = runs log ++ [(l.number, verdict)] :=
  List.filterMap_append

theorem turns_added (log : List Entry) (l : Listener) : turns (log ++ [.added l]) = turns log := by
  unfold turns
  rw [List.filter_append]
  exact List.append_nil _

theorem turns_ended (log : List Entry) : turns (log ++ [.ended]) = turns log ++ [.ended] :=
  List.filter_append ..

theorem turns_ran (log : List Entry) (l : Listener) (verdict : Verdict) :
    turns (log ++ [.ran l verdict]) = turns log ++ [.ran l verdict] :=
  List.filter_append ..

theorem Reaches.nil : Reaches [] 0 := ⟨nofun, nofun, nofun⟩

theorem Reaches.added (h : Reaches log k) (l : Listener) : Reaches (log ++ [.added l]) k := by
  refine ⟨?_, ?_, ?_⟩
  · rw [runs_added]
    exact h.before
  · rw [runs_added]
    exact h.settled
  · rw [turns_added]
    exact h.stopped

/-- A listener that has come to its end makes room for the next one. -/
theorem Reaches.settle (h : Reaches log l.number) (hverdict : verdict ≠ .stopped) :
    Reaches (log ++ [.ran l verdict]) (l.number + 1) := by
  refine ⟨fun n hn => ?_, fun run hrun hsettled => ?_, fun l' hlast => ?_⟩
  · rw [runs_ran, List.map_append]
    rcases Nat.lt_succ_iff_lt_or_eq.1 hn with hlt | rfl
    · exact List.mem_append_left _ (h.before n hlt)
    · exact List.mem_append_right _ List.mem_cons_self
  · rw [runs_ran] at hrun
    rcases List.mem_append.1 hrun with hold | hnew
    · exact Nat.lt_succ_of_lt (h.settled run hold hsettled)
    · rw [List.mem_singleton.1 hnew]
      exact Nat.lt_succ_self _
  -- the last turn is this one, which did not stop
  · rw [turns_ran, List.getLast?_concat] at hlast
    injection hlast with hlast
    injection hlast with _ hstopped
    exact absurd hstopped hverdict

/-- A listener that stops an attempt keeps its turn. -/
theorem Reaches.stop (h : Reaches log l.number) : Reaches (log ++ [.ran l .stopped]) l.number := by
  refine ⟨fun n hn => ?_, fun run hrun hsettled => ?_, fun l' hlast => ?_⟩
  · rw [runs_ran, List.map_append]
    exact List.mem_append_left _ (h.before n hn)
  · rw [runs_ran] at hrun
    rcases List.mem_append.1 hrun with hold | hnew
    · exact h.settled run hold hsettled
    · rw [List.mem_singleton.1 hnew] at hsettled
      exact absurd rfl hsettled
  · rw [turns_ran, List.getLast?_concat] at hlast
    injection hlast with hlast
    injection hlast with hsame _
    rw [hsame]

namespace Orderly

theorem nil : Orderly [] where
  once := .nil
  inOrder before run hprefix := by
    have hnil := List.prefix_nil.1 hprefix
    exact absurd hnil (List.append_ne_nil_of_right_ne_nil _ (List.cons_ne_nil _ _))
  resumes := .nil
  ended := .nil

/-- Only runs of listeners have to keep to an order. -/
theorem quiet (h : Orderly log) {entry : Entry} (hruns : runs (log ++ [entry]) = runs log)
    (hturns : (turns (log ++ [entry])).IsChain Resumes)
    (hentry : ∀ l verdict, entry ≠ .ran l verdict) : Orderly (log ++ [entry]) where
  once := by
    rw [hruns]
    exact h.once
  inOrder := by
    rw [hruns]
    exact h.inOrder
  resumes := hturns
  ended := by
    refine List.pairwise_append.2 ⟨h.ended, List.pairwise_singleton _ _, fun a _ b hb _ => ?_⟩
    rw [List.mem_singleton.1 hb]
    exact hentry

/-- A listener may be added at any time without harm to the order. -/
theorem added (h : Orderly log) (l : Listener) : Orderly (log ++ [.added l]) := by
  refine h.quiet (runs_added log l) ?_ nofun
  rw [turns_added]
  exact h.resumes

/-- An attempt cannot succeed before the listener with which the last one stopped has run. -/
theorem finish (h : Orderly log) (hlast : ∀ l, (turns log).getLast? ≠ some (.ran l .stopped)) :
    Orderly (log ++ [.ended]) := by
  refine h.quiet (runs_ended log) ?_ nofun
  rw [turns_ended, List.isChain_append]
  refine ⟨h.resumes, .singleton _, fun a ha b _ l hstopped => ?_⟩
  rw [hstopped] at ha
  exact absurd ha (hlast l)

/-- A listener that runs in its turn, before the end, is in order. -/
theorem ran (h : Orderly log) (hturn : Reaches log l.number) (hlives : .ended ∉ log)
    (verdict : Verdict) : Orderly (log ++ [.ran l verdict]) where
  once := by
    rw [runs_ran]
    refine List.pairwise_append.2 ⟨h.once, List.pairwise_singleton _ _, fun a ha b hb => ?_⟩
    rw [List.mem_singleton.1 hb]
    intro hsettled
    exact (Nat.ne_of_lt (hturn.settled a ha hsettled)).symm
  inOrder before run hprefix := by
    -- the run in question is the new one or an earlier one
    rw [runs_ran, List.prefix_concat_iff] at hprefix
    rcases hprefix with hwhole | hold
    · obtain ⟨rfl, hrun⟩ := List.append_inj' hwhole rfl
      injection hrun with hrun
      rw [hrun]
      exact hturn.before
    · exact h.inOrder before run hold
  resumes := by
    rw [turns_ran, List.isChain_append]
    refine ⟨h.resumes, .singleton _, fun a ha b hb l' hstopped => ?_⟩
    injection hb with hb
    -- after a stop it is the turn of the one that stopped
    rw [hstopped] at ha
    exact ⟨l, verdict, hb.symm, (hturn.stopped l' ha).symm⟩
  ended := by
    refine List.pairwise_append.2 ⟨h.ended, List.pairwise_singleton _ _, fun a ha b _ hended => ?_⟩
    rw [hended] at ha
    exact absurd ha hlives

end Orderly

end snoc

/-! ## A queue beside its log -/

/-- A queue after what a log tells of it. -/
structure Tells (q : Queue) (log : List Entry) : Prop where
  orderly : Orderly log
  ended : .ended ∈ log ↔ q.phase = .disposed
  /-- The listeners that are left are those from some number on, in order. -/
  left : q.phase ≠ .disposed → ∃ k n, Reaches log k ∧ q.added = k + n ∧
    q.left.map (·.number) = List.range' k n
  /-- An attempt that begins after another one has stopped finds listeners. -/
  due : ∀ l, (turns log).getLast? = some (.ran l .stopped) → q.due ≠ []

namespace Tells

variable {q q' : Queue} {log entries : List Entry}

/-- The listeners of a living state, when nothing has been noted yet. -/
theorem of_lives {st : HeldState} (hlives : st.disposed = false) : Tells (.of st) [] := by
  have hphase : (Queue.of st).phase = .resting := if_neg (Bool.not_eq_true _ ▸ hlives)
  refine ⟨.nil, ⟨nofun, fun h => nomatch hphase.symm.trans h⟩, fun _ => ?_, nofun⟩
  refine ⟨0, st.owed.length, .nil, (Nat.zero_add _).symm, ?_⟩
  unfold Queue.left
  rw [hphase]
  exact Queue.numbers_numbered st.owed

/-- A new listener waits behind all others. -/
theorem add {n : Nat} {waiting : List Listener} {phase : Phase} (h : Tells ⟨n, waiting, phase⟩ log)
    (step : ReleaseStep) :
    Tells ⟨n + 1, waiting ++ [⟨n, step⟩], phase⟩ (log ++ [.added ⟨n, step⟩]) := by
  refine ⟨h.orderly.added _, ?_, fun hphase => ?_, fun l hlast => ?_⟩
  · have hnew : .ended ∉ [Entry.added ⟨n, step⟩] := fun hmem => nomatch List.mem_singleton.1 hmem
    rw [List.mem_append, or_iff_left hnew]
    exact h.ended
  · obtain ⟨k, m, hreaches, hadded, hleft⟩ := h.left hphase
    refine ⟨k, m + 1, hreaches.added _, congrArg (· + 1) hadded, ?_⟩
    -- whether an attempt is under way or not, the new one is the last of those that are left
    have hleft' : Queue.left ⟨n + 1, waiting ++ [⟨n, step⟩], phase⟩ =
        Queue.left ⟨n, waiting, phase⟩ ++ [⟨n, step⟩] := by
      cases phase with
      | resting => rfl
      | ending strict taken => exact (List.append_assoc ..).symm
      | disposed => exact absurd rfl hphase
    rw [hleft', List.map_append, hleft, List.range'_concat, Nat.one_mul]
    exact congrArg (List.range' k m ++ [·]) hadded
  · rw [turns_added] at hlast
    have hdue := h.due l hlast
    cases phase with
    | resting => exact List.append_ne_nil_of_left_ne_nil hdue _
    | ending strict taken => exact hdue
    | disposed => exact hdue

/-- The first of the listeners that an attempt has taken is the one whose turn it is. -/
theorem first {n : Nat} {waiting rest : List Listener} {strict : Bool} {l : Listener}
    (h : Tells ⟨n, waiting, .ending strict (l :: rest)⟩ log) :
    Reaches log l.number ∧ .ended ∉ log ∧ ∃ m, n = l.number + (m + 1) ∧
      (rest ++ waiting).map (·.number) = List.range' (l.number + 1) m := by
  obtain ⟨k, m, hreaches, hadded, hleft⟩ := h.left nofun
  have hcons : l.number :: (rest ++ waiting).map (·.number) = List.range' k m := hleft
  cases m with
  | zero => cases hcons
  | succ m =>
    rw [List.range'_succ] at hcons
    injection hcons with hnumber hrest
    subst hnumber
    exact ⟨hreaches, fun hended => (nomatch h.ended.1 hended), m, hadded, hrest⟩

/-- While there are listeners left in an attempt, the state has not ended. -/
theorem not_ended {n : Nat} {waiting rest : List Listener} {strict : Bool} {l : Listener}
    (h : Tells ⟨n, waiting, .ending strict (l :: rest)⟩ log) (verdict : Verdict) :
    .ended ∉ log ++ [.ran l verdict] := by
  intro hmem
  rcases List.mem_append.1 hmem with hold | hnew
  · exact h.first.2.1 hold
  · cases List.mem_singleton.1 hnew

/-- A listener has come to its end, and the attempt goes on. -/
theorem goOn {n : Nat} {waiting rest : List Listener} {strict : Bool} {l : Listener}
    (h : Tells ⟨n, waiting, .ending strict (l :: rest)⟩ log) {verdict : Verdict}
    (hverdict : verdict ≠ .stopped) :
    Tells ⟨n, waiting, .ending strict rest⟩ (log ++ [.ran l verdict]) := by
  obtain ⟨hreaches, hlives, m, hadded, hrest⟩ := h.first
  refine ⟨h.orderly.ran hreaches hlives verdict,
    ⟨fun hmem => absurd hmem (h.not_ended verdict), nofun⟩, fun _ => ?_, fun l' hlast => ?_⟩
  · exact ⟨l.number + 1, m, hreaches.settle hverdict, hadded.trans (by omega), hrest⟩
  · rw [turns_ran, List.getLast?_concat] at hlast
    injection hlast with hlast
    injection hlast with _ hstopped
    exact absurd hstopped hverdict

/-- A strict attempt stops, and what is left of it goes before what was added meanwhile. -/
theorem stop {n : Nat} {waiting rest : List Listener} {l : Listener}
    (h : Tells ⟨n, waiting, .ending true (l :: rest)⟩ log) :
    Tells ⟨n, l.again :: rest ++ waiting, .resting⟩ (log ++ [.ran l .stopped]) := by
  obtain ⟨hreaches, hlives, m, hadded, hrest⟩ := h.first
  refine ⟨h.orderly.ran hreaches hlives .stopped,
    ⟨fun hmem => absurd hmem (h.not_ended .stopped), nofun⟩, fun _ => ?_, fun _ _ => nofun⟩
  refine ⟨l.number, m + 1, hreaches.stop, hadded, ?_⟩
  rw [List.range'_succ, ← hrest]
  rfl

/-- An attempt succeeds only once it has run what it took. -/
theorem finish (h : Tells q log) (hdue : q.due = []) {q' : Queue} (hphase : q'.phase = .disposed) :
    Tells q' (log ++ [.ended]) := by
  have horderly := h.orderly.finish fun l hlast => h.due l hlast hdue
  refine ⟨horderly, ?_, fun hlives => ?_, fun l hlast => ?_⟩
  · exact ⟨fun _ => hphase, fun _ => List.mem_append_right _ List.mem_cons_self⟩
  · exact absurd hphase hlives
  · rw [turns_ended, List.getLast?_concat] at hlast
    cases hlast

/-- Whatever happens, the log tells of the queue. -/
theorem step (h : Tells q log) (hstep : Queue.Step q entries q') : Tells q' (log ++ entries) := by
  cases hstep with
  | add n waiting phase step => exact h.add step
  | take n waiting strict =>
    -- to take the queue notes nothing
    rw [List.append_nil]
    refine ⟨h.orderly, ⟨fun hended => (nomatch h.ended.1 hended), nofun⟩, fun _ => ?_, h.due⟩
    obtain ⟨k, m, hreaches, hadded, hleft⟩ := h.left nofun
    refine ⟨k, m, hreaches, hadded, ?_⟩
    show (waiting ++ []).map _ = _
    rw [List.append_nil]
    exact hleft
  | done => exact h.goOn nofun
  | stop => exact h.stop
  | skip => exact h.goOn nofun
  | finish => exact h.finish rfl rfl
  | pass => exact h.finish rfl rfl

/-- From an empty log on, a run tells of itself in order. -/
theorem run (h : Tells q []) (hrun : Queue.Run q log q') : Tells q' log := by
  induction hrun with
  | refl => exact h
  | step _ hstep ih => exact ih.step hstep

end Tells

/-! ## Attempts on a server -/

/-- What is noted of a state on a server, where nobody numbers the steps. -/
inductive Mark where
  | added (step : ReleaseStep)
  | ran (step : ReleaseStep) (verdict : Verdict)
  | ended
  deriving DecidableEq

/-- The entry without the number. -/
def Entry.mark : Entry → Mark
  | .added l => .added l.step
  | .ran l verdict => .ran l.step verdict
  | .ended => .ended

/-- How a step came out of an attempt. -/
def verdictOf (strict done : Bool) : Verdict :=
  if done then .done else if strict then .stopped else .skipped

/-- The attempts at the steps of one state; those at the steps of derived states are not its own. -/
def runMarks (strict : Bool) (no : StateNo) (attempts : List Attempt) : List Mark :=
  (attempts.filter (·.state = no)).map fun a => .ran a.step (verdictOf strict a.done)

/-- What is noted of an attempt to end a state. -/
def endMarks (strict : Bool) (no : StateNo) (attempts : List Attempt) (answer : Except Error Unit) :
    List Mark :=
  runMarks strict no attempts ++ if !strict || answer.isOk then [.ended] else []

/-- What is done with one state of a server. Steps may be added, attempts may go in every way in
which they can, and between them anything may happen that leaves alone what the state owes. -/
inductive Dealt (no : StateNo) (s : Server) : List Mark → Server → Prop where
  | start : Dealt no s [] s
  | meanwhile {marks : List Mark} {t u : Server} (h : Dealt no s marks t)
      (howed : (u.state no).owed = (t.state no).owed)
      (hdisposed : (u.state no).disposed = (t.state no).disposed)
      (hsize : t.states.size ≤ u.states.size) (hu : u.Descending) : Dealt no s marks u
  | added {marks : List Mark} {t : Server} {step : ReleaseStep} (h : Dealt no s marks t)
      (hbelow : ReleaseStep.Below no t.states.size [step]) :
      Dealt no s (marks ++ [.added step]) (t.amendState no (·.owe step))
  | ended {marks : List Mark} {t u : Server} {strict : Bool} {attempts : List Attempt}
      {answer : Except Error Unit} (h : Dealt no s marks t)
      (hcourse : Course (.state strict no) t attempts answer u) :
      Dealt no s (marks ++ endMarks strict no attempts answer) u

/-- A queue of what a state owes, while no attempt is under way. -/
structure Queue.Shows (q : Queue) (st : HeldState) : Prop where
  phase : q.phase = if st.disposed then .disposed else .resting
  steps : q.waiting.map (·.step) = st.owed

/-- Between attempts, the queue is what the state owes. -/
theorem Queue.shows_of (st : HeldState) : (Queue.of st).Shows st :=
  ⟨rfl, steps_numbered st.owed⟩

/-- The end of a state is seen without numbers, too. -/
theorem mark_ended_mem_iff {log : List Entry} : .ended ∈ log.map Entry.mark ↔ .ended ∈ log := by
  rw [List.mem_map]
  constructor
  · rintro ⟨entry, hmem, hmark⟩
    cases entry with
    | ended => exact hmem
    | added => cases hmark
    | ran => cases hmark
  · exact fun hmem => ⟨.ended, hmem, rfl⟩

section server

open Server Request

variable {s t : Server} {no : StateNo} {strict : Bool} {attempts later : List Attempt}
  {answer : Except Error Unit} {marks : List Mark}

/-- An attempt at a step of the state is noted; what it attempts for other states is not. -/
theorem endMarks_cons (hothers : ∀ a ∈ attempts, no.value < a.state.value) (strict : Bool)
    (step : ReleaseStep) (s : Server) (done : Bool) (later : List Attempt)
    (answer : Except Error Unit) :
    endMarks strict no (⟨no, step, s, done⟩ :: attempts ++ later) answer =
      .ran step (verdictOf strict done) :: endMarks strict no later answer := by
  have hnone : attempts.filter (·.state = no) = [] := by
    rw [List.filter_eq_nil_iff]
    intro a ha
    rw [decide_eq_true_iff]
    exact fun hsame => Nat.lt_irrefl _ (hsame ▸ hothers a ha)
  unfold endMarks runMarks
  rw [List.filter_append, List.filter_cons_of_pos (by simp), hnone]
  rfl

/-- The loop over the steps of a state is the loop of an attempt over the listeners that it took. -/
theorem run_of_steps {n : Nat} {st : HeldState} {listeners : List Listener}
    (h : Course (.steps strict no st (listeners.map (·.step))) s attempts answer t)
    (hs : s.Descending) (hmade : no.value < s.states.size) (hlives : (s.state no).disposed = false)
    (hafter : ∀ younger x, .endDerived younger x ∈ listeners.map (·.step) →
      no.value < younger.value) :
    ∃ log q, Queue.Run ⟨n, [], .ending strict listeners⟩ log q ∧ q.Shows (t.state no) ∧
      log.map Entry.mark = endMarks strict no attempts answer := by
  -- on the listeners: what is left of the loop is what is left of the attempt
  induction listeners generalizing s attempts with
  | nil =>
    cases h with
    | finished =>
      refine ⟨_, _, (Queue.Step.finish n [] strict).run, ?_, ?_⟩
      · rw [state_amendState, if_pos ⟨rfl, hmade⟩]
        exact ⟨rfl, rfl⟩
      · cases strict <;> rfl
  | cons l rest ih =>
    have hfirst : (Ending.step st l.step).After no := fun younger x hstep =>
      hafter younger x (List.mem_cons.2 (.inl hstep.symm))
    -- whatever the first step does, the state itself is as it was
    have hnext {attempts later : List Attempt} {r : Except Error Unit} {u : Server}
        (h : Course (.step st l.step) s attempts r u)
        (hrest : Course (.steps strict no st (rest.map (·.step))) u later answer t) :
        ∃ log q, Queue.Run ⟨n, [], .ending strict rest⟩ log q ∧ q.Shows (t.state no) ∧
          log.map Entry.mark = endMarks strict no later answer := by
      refine ih hrest (h.descending hs trivial) (Nat.lt_of_lt_of_eq hmade h.states_size_eq.symm) ?_
        fun younger x hmem => hafter younger x (List.mem_cons_of_mem _ hmem)
      rw [h.state_eq_of_older hs hfirst]
      exact hlives
    cases h with
    | done h hrest =>
      obtain ⟨log, q, hrun, hshows, hmarks⟩ := hnext h hrest
      refine ⟨_, q, (Queue.Step.done n [] strict l rest).run.trans hrun, hshows, ?_⟩
      rw [endMarks_cons (h.older_of_mem hs hfirst), ← hmarks]
      rfl
    | dropped h hrest =>
      obtain ⟨log, q, hrun, hshows, hmarks⟩ := hnext h hrest
      refine ⟨_, q, (Queue.Step.skip n [] l rest).run.trans hrun, hshows, ?_⟩
      rw [endMarks_cons (h.older_of_mem hs hfirst), ← hmarks]
      rfl
    | failed h =>
      refine ⟨_, _, (Queue.Step.stop n [] l rest).run, ?_, ?_⟩
      · have hmade' := Nat.lt_of_lt_of_eq hmade h.states_size_eq.symm
        rw [state_amendState, if_pos ⟨rfl, hmade'⟩, h.state_eq_of_older hs hfirst]
        refine ⟨(if_neg (Bool.not_eq_true _ ▸ hlives)).symm, ?_⟩
        show _ :: (rest ++ []).map _ = _
        rw [List.append_nil]
        rfl
      · have hmarks := endMarks_cons (h.older_of_mem hs hfirst) true l.step s false []
        rw [List.append_nil] at hmarks
        rw [hmarks]
        rfl

/-- An attempt to end a state is an attempt of its queue. -/
theorem run_of_state (h : Course (.state strict no) s attempts answer t) (hs : s.Descending)
    (hmade : no.value < s.states.size) {q : Queue} (hq : q.Shows (s.state no)) :
    ∃ log q', q.Run log q' ∧ q'.Shows (t.state no) ∧
      log.map Entry.mark = endMarks strict no attempts answer := by
  obtain ⟨n, waiting, phase⟩ := q
  obtain ⟨hphase, hsteps⟩ := hq
  cases h with
  | ended _ hdisposed =>
    rw [if_pos hdisposed] at hphase
    -- an attempt on a state that has ended passes at once
    subst hphase
    refine ⟨_, _, (Queue.Step.pass n waiting).run, ⟨(if_pos hdisposed).symm, hsteps⟩, ?_⟩
    cases strict <;> rfl
  | state hlives h =>
    rw [if_neg (Bool.not_eq_true _ ▸ hlives)] at hphase
    subst hphase
    rw [← hsteps] at h
    obtain ⟨log, q', hrun, hshows, hmarks⟩ := run_of_steps h hs hmade hlives fun younger x hmem =>
      (hs no younger x (hsteps ▸ hmem)).1
    exact ⟨_, q', (Queue.Step.take n waiting strict).run.trans hrun, hshows, hmarks⟩

/-- All that is done with a state is one run of its queue. -/
theorem run_of_dealt (h : Dealt no s marks t) (hs : s.Descending)
    (hmade : no.value < s.states.size) :
    t.Descending ∧ no.value < t.states.size ∧ ∃ log q, (Queue.of (s.state no)).Run log q ∧
      q.Shows (t.state no) ∧ log.map Entry.mark = marks := by
  -- on what is done: between the attempts the queue shows what the state owes
  induction h with
  | start => exact ⟨hs, hmade, [], _, .refl _, Queue.shows_of _, rfl⟩
  | meanwhile _ howed hdisposed hsize hu ih =>
    obtain ⟨_, hmade', log, q, hrun, hshows, hmarks⟩ := ih
    refine ⟨hu, Nat.lt_of_lt_of_le hmade' hsize, log, q, hrun, ⟨?_, ?_⟩, hmarks⟩
    · rw [hdisposed]
      exact hshows.phase
    · rw [howed]
      exact hshows.steps
  | @added marks t step _ hbelow ih =>
    obtain ⟨ht, hmade', log, q, hrun, hshows, hmarks⟩ := ih
    obtain ⟨n, waiting, phase⟩ := q
    refine ⟨ht.amendState fun younger x hmem => ?_, ?_, _, _, hrun.step (.add n waiting phase step),
      ?_, ?_⟩
    · rcases List.mem_append.1 hmem with hold | hnew
      · exact ht no younger x hold
      · exact hbelow younger x hnew
    · exact Nat.lt_of_lt_of_eq hmade' (Ledger.size_modify ..).symm
    · rw [state_amendState, if_pos ⟨rfl, hmade'⟩]
      refine ⟨hshows.phase, ?_⟩
      rw [List.map_append, show waiting.map (·.step) = _ from hshows.steps]
      rfl
    · rw [List.map_append, hmarks]
      rfl
  | ended _ hcourse ih =>
    obtain ⟨ht, hmade', log, q, hrun, hshows, hmarks⟩ := ih
    obtain ⟨later, q', hattempt, hshows', hmarks'⟩ := run_of_state hcourse ht hmade' hshows
    refine ⟨hcourse.descending ht trivial, Nat.lt_of_lt_of_eq hmade' hcourse.states_size_eq.symm,
      _, q', hrun.trans hattempt, hshows', ?_⟩
    rw [List.map_append, hmarks, hmarks']

/-- However steps are added to a state, also while an attempt to end it is under way, and however
the attempts go: what the state owes is done in the order in which it was added, each step until it
has come to its end, and the state has ended as soon as an attempt has succeeded. The attempts on a
state of a server are such attempts, and those that the server makes by itself are among them. -/
theorem listeners_in_order :
    (∀ {st : HeldState} {log : List Entry} {q : Queue}, st.disposed = false →
      (Queue.of st).Run log q → Orderly log ∧ (q.phase = .disposed ↔ .ended ∈ log)) ∧
    ∀ {s : Server} {no : StateNo}, s.Descending → no.value < s.states.size →
      Follows (.state true no) (endState no) s ∧
      Follows (.state false no) (endStateLeniently no) s ∧
      ((s.state no).disposed = false → ∀ {marks : List Mark} {t : Server}, Dealt no s marks t →
        ∃ log q, (Queue.of (s.state no)).Run log q ∧ q.Shows (t.state no) ∧
          log.map Entry.mark = marks ∧ Orderly log ∧
          ((t.state no).disposed = true ↔ .ended ∈ marks)) := by
  refine ⟨fun hlives hrun => ?_, fun hs hmade => ?_⟩
  · have htells := (Tells.of_lives hlives).run hrun
    exact ⟨htells.orderly, htells.ended.symm⟩
  · refine ⟨follows_endState hs hmade, follows_endStateLeniently hs, fun hlives marks t h => ?_⟩
    obtain ⟨_, _, log, q, hrun, hshows, hmarks⟩ := run_of_dealt h hs hmade
    have htells := (Tells.of_lives hlives).run hrun
    refine ⟨log, q, hrun, hshows, hmarks, htells.orderly, ?_⟩
    -- the end is noted in the log exactly if the queue has come to it
    rw [← hmarks, mark_ended_mem_iff, htells.ended, hshows.phase]
    cases (t.state _).disposed with
    | true => exact iff_of_true rfl rfl
    | false => exact iff_of_false Bool.false_ne_true nofun

/-- An observer refuses once, another one comes while the attempt is under way, and the next attempt
ends the state; and an open of which one observer refuses once. -/
theorem listeners_in_order_refusing_once :
    let a : Listener := ⟨0, .notify "a" 1⟩
    let b : Listener := ⟨1, .notify "b" 0⟩
    let file : FileId := ⟨[9]⟩
    let s := (start false {} default ⟨0⟩).performAll
      [.register (.ofOwner [1]), .nameOwner ⟨0⟩ [7] 0, .openFile ⟨0⟩ ⟨0⟩ file 3 0]
    Orderly [.added a, .added b, .ran a .stopped, .ran a.again .done, .ran b .done, .ended] ∧
    ∃ t : Server, ∃ log q, (Queue.of (s.state ⟨0⟩)).Run log q ∧ q.Shows (t.state ⟨0⟩) ∧
      log.map Entry.mark = [.added (.notify "a" 1), .ran (.forgetOpen file) .done,
        .ran (.notify "a" 1) .stopped, .added (.notify "b" 0), .ran (.notify "a" 0) .done,
        .ran (.notify "b" 0) .done, .ended] ∧
      Orderly log ∧ (t.state ⟨0⟩).disposed = true := by
  intro a b file s
  constructor
  · have hrun : (Queue.of (.new default ⟨0⟩ none)).Run
        [.added a, .added b, .ran a .stopped, .ran a.again .done, .ran b .done, .ended]
        ⟨2, [], .disposed⟩ :=
      (Queue.Step.add 0 [] .resting (.notify "a" 1)).run
        |>.step (.take 1 [a] true)
        |>.step (.add 1 [] _ (.notify "b" 0))
        |>.step (.stop 2 [b] a [])
        |>.step (.take 2 [a.again, b] true)
        |>.step (.done 2 [] true a.again [b])
        |>.step (.done 2 [] true b [])
        |>.step (.finish 2 [] true)
    exact (listeners_in_order.1 rfl hrun).1
  · have hrun : Run (fun _ a => a.served = true) (start false {} default ⟨0⟩) s :=
      run_performAll fun a ha _ => by revert a; decide
    have hs : s.Descending := ((keepsHappenings_grounded _).run (fun _ _ => id) hrun
      (grounded_start false {} default ⟨0⟩ 0)).descending
    have hmade : (⟨0⟩ : StateNo).value < s.states.size := by decide +kernel
    have hbelow (label : String) (refusals size : Nat) :
        ReleaseStep.Below ⟨0⟩ size [.notify label refusals] :=
      fun younger x hmem => nomatch List.mem_singleton.1 hmem
    -- the first attempt forgets the open and stops with the observer
    let watched := s.amendState ⟨0⟩ (·.owe (.notify "a" 1))
    obtain ⟨attempts, t, hcourse, hmarks, howed, hlives⟩ : ∃ attempts t,
        Course (.state true ⟨0⟩) watched attempts (.error (.serverFault "a")) t ∧
        endMarks true ⟨0⟩ attempts (.error (.serverFault "a")) =
          [.ran (.forgetOpen file) .done, .ran (.notify "a" 1) .stopped] ∧
        (t.state ⟨0⟩).owed = [.notify "a" 0] ∧ (t.state ⟨0⟩).disposed = false := by
      have howed : (watched.state ⟨0⟩).owed = [.forgetOpen file, .notify "a" 1] := by
        decide +kernel
      have hsteps : Course (.steps true ⟨0⟩ (watched.state ⟨0⟩) [.forgetOpen file, .notify "a" 1])
          watched _ _ _ := .done (.forgotten _ _ file) (.failed (.refused _ _ "a" 0))
      rw [← howed] at hsteps
      exact ⟨_, _, .state (by decide +kernel) hsteps, rfl, by decide +kernel, by decide +kernel⟩
    have hadded : Dealt ⟨0⟩ s [.added (.notify "a" 1)] watched := Dealt.start.added (hbelow "a" 1 _)
    have hstopped := (hadded.ended hcourse).added (hbelow "b" 0 _)
    have hmade' := (run_of_dealt (hadded.ended hcourse) hs hmade).2.1
    -- the second one finds that observer first, and the one that came after it
    have hstate : (t.amendState ⟨0⟩ (·.owe (.notify "b" 0))).state ⟨0⟩ =
        (t.state ⟨0⟩).owe (.notify "b" 0) := by
      rw [state_amendState, if_pos ⟨rfl, hmade'⟩]
    have hsteps : Course (.steps true ⟨0⟩ ((t.state ⟨0⟩).owe (.notify "b" 0))
        [.notify "a" 0, .notify "b" 0]) (t.amendState ⟨0⟩ (·.owe (.notify "b" 0))) _ _ _ :=
      .done (.notified _ _ "a") (.done (.notified _ _ "b") (.finished _ true _ _))
    have howed' : ((t.state ⟨0⟩).owe (.notify "b" 0)).owed = [.notify "a" 0, .notify "b" 0] := by
      show (t.state ⟨0⟩).owed ++ _ = _
      rw [howed]
      rfl
    rw [← howed', ← hstate] at hsteps
    have hdealt := hstopped.ended (.state (hstate ▸ hlives) hsteps)
    rw [hmarks] at hdealt
    obtain ⟨log, q, hrun, hshows, hlog, horderly, hended⟩ :=
      (listeners_in_order.2 hs hmade).2.2 (by decide +kernel) hdealt
    refine ⟨_, log, q, hrun, hshows, hlog, horderly, hended.2 ?_⟩
    exact List.mem_append_right _ (List.mem_append_right _ List.mem_cons_self)

end server

end Leasehold.Listening

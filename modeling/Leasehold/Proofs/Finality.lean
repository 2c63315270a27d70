import Mathlib.Control.Monad.Basic
import Leasehold.Proofs.Teardown

/-!
# Proofs.Finality — what becomes of the record of a client that has ended

Callers keep the record of a client after its end. The end leaves nothing on it, and
most of what can be asked for later finds nothing to work with: a lock needs a state,
and a session a registered client. Two requests do not look whether the client has
ended. An owner is named for it as for any other, and a file is opened for it; what
they leave stays, for a client that has ended does not end again.

* `Server.endedBare_happens` — whatever happens, the record of a client that has ended
  is bare, unless one of the two requests is made for it;
* `Server.ended_emptied_iff` — after every run without them nothing is left of a client
  that has ended, and an action leaves it so if and only if it is none of the two;
* `Server.reserved_after_end` — a file that is opened for a client that has ended is
  denied to others for good.
-/

namespace Leasehold

open Request

/-! ## Clients that have ended -/

namespace Server

variable {s t : Server} {client other : ClientNo} {e : Effect} {E : List Effect}

/-- A record that is bare stays so while nothing is put on it. -/
theorem bare_chain (h : Chain E s t) (hE : ∀ e ∈ E, e ∉ Effect.furnishing)
    (hclient : client.value < s.clients.size) (hs : (s.client client).Bare) :
    (t.client client).Bare := by
  refine h.preserve_of_made (I := fun t => (t.client client).Bare) hclient ?_ hs
  intro e he a b hupdate hmade hbare
  rcases hupdate.client_update hmade with hsame | hchanged | ⟨rfl, _⟩
  · rw [hsame]
    exact hbare
  · exact hbare.update hchanged (hE e he)
  · exact absurd (by decide) (hE _ he)

/-- Only a client that was made can have ended. -/
theorem lt_of_disposed (h : (s.client client).disposed = true) : client.value < s.clients.size := by
  refine Nat.lt_of_not_le fun hnone => ?_
  rw [client_eq_default hnone] at h
  cases h

/-- Nobody comes back to life. -/
theorem disposed_chain (h : Chain E s t) (hs : (s.client client).disposed = true) :
    (t.client client).disposed = true := by
  refine h.preserve (I := fun s => (s.client client).disposed = true) ?_ hs
  intro e a b _ hupdate ha
  rcases hupdate.client_update (lt_of_disposed ha) with hsame | hchanged | ⟨rfl, _⟩
  · rw [hsame]
    exact ha
  · exact hchanged.disposed_of_disposed ha
  · rw [hupdate.disposed_eq nofun]
    exact ha

/-- If the client has ended and no counter has wrapped, its record is bare. -/
def EndedBare (client : ClientNo) (s : Server) : Prop :=
  s.StatesBounded → (s.client client).disposed = true → (s.client client).Bare

/-- As long as nothing is put on records and no client ends, those that have ended stay bare. -/
theorem EndedBare.chain (hs : s.EndedBare client) (h : Chain E s t)
    (hE : ∀ e ∈ E, e ∉ .ended :: Effect.furnishing) : t.EndedBare client := by
  intro hbound hended
  rw [disposed_eq_of_chain h fun hmem => hE _ hmem List.mem_cons_self] at hended
  exact bare_chain h (fun e he hmem => hE e he (List.mem_cons_of_mem _ hmem))
    (lt_of_disposed hended) (hs (.of_chain h hbound) hended)

/-- What does not end the client, and leaves its record as it is if it has ended. -/
theorem EndedBare.of_client_eq (hs : s.EndedBare client) (h : Chain E s t)
    (hsame : t.client client = s.client client) : t.EndedBare client := by
  intro hbound
  rw [hsame]
  exact hs (.of_chain h hbound)

/-- A client that lives and does not end has not ended. -/
theorem EndedBare.of_living (h : Chain E s t) (hE : .ended ∉ E)
    (hlives : (s.client client).disposed = false) : t.EndedBare client := by
  intro _ hended
  rw [disposed_eq_of_chain h hE, hlives] at hended
  cases hended

/-- Whoever ends, its record is bare, and those who have ended before stay bare. -/
theorem EndedBare.course {strict : Bool} {attempts : List Attempt} {answer : Except Error Unit}
    (hs : s.EndedBare client) (hestablished : s.Established)
    (h : Course (.client strict other) s attempts answer t) : t.EndedBare client := by
  intro hbound hended
  have hbefore := StatesBounded.of_chain h.chain_ending hbound
  -- it had ended before, and an end puts nothing on a record; or it ends now and is left with nothing
  cases hdisposed : (s.client client).disposed with
  | true =>
    exact bare_chain h.chain_ending (by decide) (lt_of_disposed hdisposed) (hs hbefore hdisposed)
  | false =>
    obtain rfl : client = other := by
      refine Decidable.byContradiction fun hne => ?_
      rw [h.disposed_eq_of_ne hne, hdisposed] at hended
      cases hended
    rcases h.client_cases with hchain | ⟨rfl, _⟩
    · rw [disposed_eq_of_chain hchain (by decide), hdisposed] at hended
      cases hended
    · have hsize : t.clients.size = s.clients.size := by
        have hall : ∀ e ∈ Effect.ending, e ≠ .enrolled ∧ e ≠ .entered := by decide
        exact h.chain_ending.eq_of_updates (f := fun s => s.clients.size) fun e he {_ _} hupdate =>
          hupdate.clients_size_eq (hall e he).1 (hall e he).2
      have hclient := Nat.lt_of_lt_of_eq (lt_of_disposed hended) hsize
      have hvacated := h.vacated (hestablished.traced hbefore) hestablished.grounded
        (hestablished.rooted hbefore) hclient hdisposed
      exact hvacated.bare

/-- Ends of clients leave bare records, and ends of states put nothing on any. -/
theorem keepsEndings_endedBare (client : ClientNo) :
    KeepsEndings fun s => s.Established ∧ s.EndedBare client where
  grounded hs := hs.1.grounded
  update e he _ _ h hs := by
    have hall : ∀ e ∈ Effect.housekeeping, e ∉ .ended :: Effect.furnishing := by decide
    refine ⟨(keepsHappenings_established fun _ _ => True).endings.update e he h hs.1, ?_⟩
    refine hs.2.chain (.single (E := [e]) List.mem_cons_self h) fun e' he' => ?_
    rw [List.mem_singleton.1 he']
    exact hall e he
  client h hs := ⟨(keepsHappenings_established fun _ _ => True).client h hs.1, hs.2.course hs.1 h⟩

/-- What is done for somebody else, or for a client that lives. -/
theorem EndedBare.serving (hs : s.EndedBare client) (h : Serving other s t)
    (hlives : client = other → (s.client client).disposed = false) : t.EndedBare client := by
  by_cases hsame : client = other
  · exact .of_living h.chain (by decide) (hlives hsame)
  · clear hlives
    induction h with
    | refl => exact hs
    | tail _ hlast ih =>
      rcases hlast.client_eq_of_ne hsame with hsame | hreleased
      · exact ih.of_client_eq hlast.chain hsame
      · exact ih.chain hreleased (by decide)

end Server

/-! ## The two requests -/

/-- Whether the action puts something on the record of a client that has ended: it names an owner,
or it opens a file in a way that is granted. -/
def Action.furnishes (client : ClientNo) (s : Server) : Action → Bool
  | .nameOwner other _ _ => other = client && (s.client client).disposed
  | .openFile other owner file access deny =>
    let mode := ShareMode.ofRequest access deny
    other = client && (s.client client).disposed && owner.value < s.owners.size &&
      mode.access ≠ 0 && (s.opens.conflict? file s.leaseValid (s.client client).id
        (s.owner owner).name mode).isNone
  | _ => false

section Furnishing

variable {s : Server} {client other : ClientNo}

/-- An owner is put on the record of a client that has ended whenever one is named for it. -/
theorem furnishes_nameOwner_iff {name : Bytes} {seqid : UInt32} :
    (Action.nameOwner other name seqid).furnishes client s = true ↔
      other = client ∧ (s.client client).disposed = true := by
  rw [Action.furnishes, Bool.and_eq_true, decide_eq_true_iff]

/-- A state is put there by an open that passes all checks, of which none looks at the client. -/
theorem furnishes_openFile_iff {owner : OwnerNo} {file : FileId} {access deny : UInt32} :
    (Action.openFile other owner file access deny).furnishes client s = true ↔
      other = client ∧ (s.client client).disposed = true ∧ owner.value < s.owners.size ∧
        (ShareMode.ofRequest access deny).access ≠ 0 ∧
        s.opens.conflict? file s.leaseValid (s.client client).id (s.owner owner).name
          (.ofRequest access deny) = none := by
  simp only [Action.furnishes, Bool.and_eq_true, decide_eq_true_iff, Option.isNone_iff_eq_none,
    and_assoc]

end Furnishing

namespace Server

variable {s t : Server} {client other : ClientNo}

/-- For a client with no state, a request for a lock does no more than to renew the lease: there is
neither an open to lock through nor a lock to go on with. -/
theorem chain_lock_of_stateless (hs : s.Tracked) (hclient : client.value < s.clients.size)
    (hnone : (s.client client).states = .empty) (file : FileId) (r : LockRequest) (reclaim : Bool)
    (locker : Locker) : Chain [.renewed] s (s.after (lock client file r reclaim locker)) := by
  rw [after_eq_exec]
  obtain ⟨t, hchain, ⟨e, hexec⟩ | ⟨no, isNew, u, hbasis, _⟩⟩ :=
    lock_cases hs hclient file r reclaim locker
  · rw [hexec]
    exact hchain
  -- until the state is looked up only a lease can have been renewed
  · have hstill : (t.client client).states = .empty := by
      refine Eq.trans ?_ hnone
      exact hchain.eq_of_updates (f := fun s => (s.client client).states) fun e he {_ _} hupdate =>
        hupdate.states_eq (by rw [List.mem_singleton.1 he]; decide) client
    cases hbasis with
    | existing hget =>
      rw [hstill] at hget
      cases hget
    | made hget =>
      rw [hstill] at hget
      cases hget

/-- A lock puts nothing on a bare record, which has no open to go by. -/
theorem EndedBare.lock (hs : s.EndedBare client) (hestablished : s.Established)
    (hother : other.value < s.clients.size) (file : FileId) (r : LockRequest) (reclaim : Bool)
    (locker : Locker) : (s.after (Request.lock other file r reclaim locker)).EndedBare client := by
  have hserving := serving_lock hestablished.grounded other file r reclaim locker
  by_cases hended : client = other ∧ (s.client client).disposed = true
  · obtain ⟨rfl, hdisposed⟩ := hended
    intro hbound hended
    have hbefore := hs (.of_chain hserving.chain hbound) hdisposed
    exact bare_chain (chain_lock_of_stateless hestablished.tracked hother hbefore.states file r
      reclaim locker) (by decide) hother hbefore
  · refine hs.serving hserving fun hsame => ?_
    exact eq_false_of_ne_true fun hdisposed => hended ⟨hsame, hdisposed⟩

/-- An open that is not granted puts nothing there. -/
theorem EndedBare.openFile (hs : s.EndedBare client) {owner : OwnerNo}
    (hother : other.value < s.clients.size) (howner : owner.value < s.owners.size) {file : FileId}
    {access deny : UInt32}
    (hnot : (Action.openFile other owner file access deny).furnishes client s = false) :
    (s.after (Request.openFile other owner file access deny)).EndedBare client := by
  have hchain := doesFrom_openFile (List.Subset.refl _) hother owner file access deny
  unfold DoesFrom at hchain
  rw [← after_eq_exec] at hchain
  by_cases hlives : (s.client client).disposed = false
  · exact .of_living hchain (by decide) hlives
  · refine hs.of_client_eq hchain ?_
    rw [after_openFile hother]
    dsimp only
    split
    · rfl
    · rename_i haccess
      split
      · rfl
      · rename_i hcheck
        split
        · rfl
        -- an open is added, and so for somebody else
        · have hne : client ≠ other := by
            rintro rfl
            exact Bool.eq_false_iff.1 hnot (furnishes_openFile_iff.2
              ⟨rfl, eq_true_of_ne_false hlives, howner, haccess, hcheck⟩)
          unfold withOpen
          refine (client_withHeld ..).trans ?_
          rw [client_withState hother, if_neg hne]

/-- Whoever releases an owner puts nothing there. -/
theorem EndedBare.releaseOwner (hs : s.EndedBare client) (name : Bytes) :
    (s.after (Request.releaseOwner other name)).EndedBare client := by
  have hchain : Chain [.ownersNamed] s (s.after (Request.releaseOwner other name)) :=
    does_releaseOwner List.mem_cons_self other name s
  intro hbound hended
  rw [disposed_eq_of_chain hchain (by decide)] at hended
  obtain ⟨hstates, hsessions, howners⟩ := hs (.of_chain hchain hbound) hended
  rw [after_eq_exec]
  unfold Request.releaseOwner
  rw [exec_modify]
  show (Server.client _ client).Bare
  rw [client_amendClient]
  -- the record may be that of the client, which has one owner less, or another one
  split
  · refine ⟨hstates, hsessions, ?_⟩
    dsimp only
    rw [howners, Table.erase_empty]
  · exact ⟨hstates, hsessions, howners⟩

/-- An action that is none of the two leaves the record bare. -/
theorem endedBare_perform (hs : s.EndedBare client) (hestablished : s.Established)
    (hstanding : s.Standing) {a : Action} (ha : a.served = true)
    (hnot : a.furnishes client s = false) : (s.perform a).EndedBare client := by
  unfold perform
  split
  · rename_i hknown
    have hends (hmay : a.mayEnd = true) : (s.carryOut a).EndedBare client :=
      ((keepsEndings_endedBare client).carryOut hmay ⟨hestablished, hs⟩).2
    cases a with
    | register => exact hends rfl
    | createClient => exact hends rfl
    | removeClient => exact hends rfl
    | sweep => exact hends rfl
    | shutdown => exact hends rfl
    | elapse => exact hends rfl
    | createSession id sequence asked =>
      -- sessions are for registered clients, and these live
      rcases serving_createSession id sequence asked s with hsame | ⟨other, hget, hserving⟩
      · show EndedBare client (s.after _)
        rw [hsame]
        exact hs
      · exact hs.serving hserving fun hsame => hsame ▸ hstanding.live id other hget
    | nameOwner other name seqid =>
      refine hs.serving (serving_nameOwner other name seqid s) fun hsame => ?_
      refine eq_false_of_ne_true fun hdisposed => Bool.eq_false_iff.1 hnot ?_
      exact furnishes_nameOwner_iff.2 ⟨hsame.symm, hdisposed⟩
    | releaseOwner other name => exact hs.releaseOwner name
    | openFile other owner file access deny =>
      rw [Action.known, Bool.and_eq_true] at hknown
      exact hs.openFile (of_decide_eq_true hknown.1) (of_decide_eq_true hknown.2) hnot
    | lock other file r reclaim locker =>
      exact hs.lock hestablished (of_decide_eq_true hknown) file r reclaim locker
    | unlock other file lockId seqid r =>
      exact hs.chain (does_unlock (List.Subset.refl _) other file lockId seqid r s) (by decide)
    | enter => cases ha
    | endClient => cases ha
    | endClientLeniently => cases ha
    | _ => exact hs.chain (chain_carryOut s _ hknown) (by dsimp only [Action.effects]; decide)
  · exact hs

/-! ## Every run -/

/-- Whatever happens but the two requests, the record of a client that has ended is bare. -/
theorem endedBare_happens (hs : s.EndedBare client) (hestablished : s.Established)
    (hstanding : s.Standing)
    (h : Happens (fun s a => a.served = true ∧ a.furnishes client s = false) s t) :
    t.EndedBare client := by
  have hkeeps := keepsEndings_endedBare client
  cases h with
  | performed h => exact endedBare_perform hs hestablished hstanding h.1 h.2
  | released h => exact hs.chain h.chain (by decide)
  | removed h => exact (hkeeps.removes h ⟨hestablished, hs⟩).2
  | swept h => exact (hkeeps.sweeps h ⟨hestablished, hs⟩).2
  | replaced h => exact (hkeeps.replaces h ⟨hestablished, hs⟩).2
  | stopped h => exact (hkeeps.stops h ⟨hestablished, hs⟩).2
  | @passed later hlater sweepDue graceDue =>
    have hpassed : Chain [.passed, .timerSet] s { s.passTo later with sweepDue, graceDue } :=
      (Chain.single (by decide) (.passed s later hlater)).trans
        (.single (by decide) (.timerSet _ sweepDue graceDue))
    exact hs.chain hpassed (by decide)
  | observed no label refusals =>
    have howed : Chain [.stateAmended] s (s.amendState no (·.owe (.notify label refusals))) :=
      .single (by decide) (.stateAmended s no _ fun _ => ⟨rfl, rfl, rfl⟩)
    exact hs.chain howed (by decide)
  | calledBack other hasCallback =>
    -- a channel is none of the things that are on a bare record
    intro hbound hended
    rw [client_calledBack Client.disposed fun _ _ => rfl] at hended
    obtain ⟨hstates, hsessions, howners⟩ := hs (.of_calledBack hbound) hended
    refine ⟨?_, ?_, ?_⟩
    · rw [client_calledBack Client.states fun _ _ => rfl]
      exact hstates
    · rw [client_calledBack Client.sessions fun _ _ => rfl]
      exact hsessions
    · rw [client_calledBack Client.owners fun _ _ => rfl]
      exact howners

/-- Nothing of a client is left: its record is bare, and no file has an open of it. -/
structure Emptied (s : Server) (client : ClientNo) : Prop extends
    Client.Bare (s.client client) where
  opens : ∀ file, ∀ r ∈ s.opens.opens file,
    r.client ≠ client ∧ r.clientId ≠ (s.client client).id

/-- A bare record has no opens, for every open stands for a state. -/
theorem EndedBare.emptied (hs : s.EndedBare client) (hestablished : s.Established)
    (hbound : s.StatesBounded) (hended : (s.client client).disposed = true) : s.Emptied client := by
  have hbare := hs hbound hended
  exact ⟨hbare, (hestablished.rooted hbound).no_opens (hestablished.traced hbound)
    (lt_of_disposed hended) hbare.states⟩

/-- With a new owner, the record is not bare. -/
theorem owners_withOwner_ne_empty (hclient : client.value < s.clients.size) (name : Bytes)
    (seqid : UInt32) : ((s.withOwner client name seqid).client client).owners ≠ .empty := by
  rw [client_withOwner, if_pos ⟨rfl, hclient⟩]
  dsimp only
  intro hnone
  have hget := Table.get?_insert (s.client client).owners name s.owners.nextNo name
  rw [hnone, if_pos rfl] at hget
  cases hget

/-- With a new open, the record is not bare. -/
theorem states_withOpen_ne_empty (hclient : client.value < s.clients.size) (owner : OwnerNo)
    (file : FileId) (mode : ShareMode) :
    ((s.withOpen client owner file mode).client client).states ≠ .empty := by
  intro hnone
  have hget := get?_withHeld hclient owner .share none (.forgetOpen file) client
    ((s.client client).nextStateKey .share)
  rw [if_pos ⟨rfl, rfl⟩] at hget
  exact absurd (hnone ▸ hget) nofun

/-- The two requests do put something on a record on which there is nothing. -/
theorem Emptied.furnished (hs : s.Emptied client) {a : Action}
    (ha : a.furnishes client s = true) : ¬ (s.perform a).Emptied client := by
  unfold perform
  cases a with
  | nameOwner other name seqid =>
    obtain ⟨rfl, hended⟩ := furnishes_nameOwner_iff.1 ha
    have hclient := lt_of_disposed hended
    -- the name is unknown, for there are no names
    have hnone : (s.client other).owners.get? name = none := by
      rw [hs.owners]
      rfl
    have hnamed : s.carryOut (.nameOwner other name seqid) = s.withOwner other name seqid := by
      show s.after (ownerNamed other name seqid) = _
      rw [after_eq_exec, exec_ownerNamed, hnone]
    have hknown : (Action.nameOwner other name seqid).known s = true := decide_eq_true hclient
    rw [if_pos hknown, hnamed]
    exact fun hafter => owners_withOwner_ne_empty hclient name seqid hafter.owners
  | openFile other owner file access deny =>
    obtain ⟨rfl, hended, howner, haccess, hcheck⟩ := furnishes_openFile_iff.1 ha
    have hclient := lt_of_disposed hended
    have hknown : (Action.openFile other owner file access deny).known s = true := by
      rw [Action.known, Bool.and_eq_true]
      exact ⟨decide_eq_true hclient, decide_eq_true howner⟩
    -- no open is there to be widened, so one is added
    have hnone : s.opens.openOf? file (s.client other).id (s.owner owner).name = none := by
      refine List.find?_eq_none.2 fun r hmem hof => ?_
      unfold OpenRecord.isOf at hof
      rw [Bool.and_eq_true, beq_iff_eq] at hof
      exact (hs.opens file r hmem).2 hof.1
    have hadded : s.carryOut (.openFile other owner file access deny) =
        s.withOpen other owner file (.ofRequest access deny) := by
      show s.after (Request.openFile other owner file access deny) = _
      rw [after_openFile hclient]
      dsimp only
      rw [if_neg haccess, hcheck, hnone]
    rw [if_pos hknown, hadded]
    exact fun hafter => states_withOpen_ne_empty hclient owner file _ hafter.states
  | _ => cases ha

/-- The record of a client that has ended is bare after every run without the two requests. -/
theorem endedBare_run (hs : s.Established ∧ s.Standing ∧ s.EndedBare client)
    (h : Run (fun s a => a.served = true ∧ a.furnishes client s = false) s t) :
    t.Established ∧ t.Standing ∧ t.EndedBare client := by
  induction h with
  | refl => exact hs
  | tail _ hlast ih =>
    obtain ⟨hestablished, hstanding, hbare⟩ := ih
    exact ⟨(keepsHappenings_established _).keeps (fun _ _ h => h.1) hlast hestablished,
      standing_happens (fun _ _ h => h.1) hstanding hestablished.grounded hlast,
      endedBare_happens hbare hestablished hstanding hlast⟩

/-- At first there are no clients. -/
theorem endedBare_start (timers : Bool) (config : Config) (store : Recovery.Store)
    (wall : WallTime) (now : Nat) (client : ClientNo) :
    (start timers config store wall now).EndedBare client := by
  intro _ hended
  have hclient := lt_of_disposed hended
  obtain ⟨sweepDue, graceDue, hstart⟩ := start_eq timers config store wall now
  rw [hstart] at hclient
  exact absurd hclient (Nat.not_lt_zero _)

/-- After every run in which no counter wraps and neither of the two requests is made for a client
that has ended: nothing of the client is left once it has ended, whatever calls of the lock table
and the store failed and whoever refused to be told. The end is never taken back, and an action
leaves nothing of the client as before if and only if it is none of the two. -/
theorem ended_emptied_iff {timers : Bool} {config : Config} {store : Recovery.Store}
    {wall : WallTime} {now : Nat}
    (hrun : Run (fun s a => a.served = true ∧ a.furnishes client s = false)
      (start timers config store wall now) s)
    (hbound : s.StatesBounded) (hended : (s.client client).disposed = true) :
    s.Emptied client ∧ ∀ a : Action, a.served = true → (s.perform a).StatesBounded →
      ((s.perform a).client client).disposed = true ∧
        ((s.perform a).Emptied client ↔ a.furnishes client s = false) := by
  obtain ⟨hestablished, hstanding, hbare⟩ := endedBare_run
    ⟨established_start timers config store wall now, standing_start timers config store wall now,
      endedBare_start timers config store wall now client⟩ hrun
  have hemptied := hbare.emptied hestablished hbound hended
  refine ⟨hemptied, fun a ha hbound' => ?_⟩
  have hended' := disposed_chain (chain_perform s a) hended
  refine ⟨hended', fun hafter => ?_, fun hnot => ?_⟩
  -- what is furnished is not empty, whatever was there before
  · exact eq_false_of_ne_true fun hfurnishes => hemptied.furnished hfurnishes hafter
  -- an action that does not furnish is one more of the run
  · have hlast : Happens (fun s a => a.served = true ∧ a.furnishes client s = false) s
        (s.perform a) := .performed ⟨ha, hnot⟩
    obtain ⟨hestablished', _, hbare'⟩ :=
      endedBare_run ⟨hestablished, hstanding, hbare⟩ (.single hlast)
    exact hbare'.emptied hestablished' hbound' hended'

/-- A client that has a file open is removed; a request for a lock through the open then finds
nothing, and another open leaves something of the client again. -/
theorem ended_emptied_after_removal :
    let file : FileId := ⟨[9]⟩
    let openId : StateId := .ofParts ⟨1⟩ 1 .share
    let locking : Action :=
      .lock ⟨0⟩ file ⟨.write, 0, 10⟩ false (.newOwner openId 0 [8] 0)
    let s := (start false {} default ⟨0⟩).performAll [.register (.ofOwner [1]),
      .nameOwner ⟨0⟩ [7] 0, .openFile ⟨0⟩ ⟨0⟩ file 3 3, .removeClient ⟨1⟩]
    (s.client ⟨0⟩).disposed = true ∧ s.Emptied ⟨0⟩ ∧ (s.perform locking).Emptied ⟨0⟩ ∧
      ¬ (s.perform (.openFile ⟨0⟩ ⟨0⟩ file 3 3)).Emptied ⟨0⟩ := by
  intro file openId locking s
  have hrun : Run (fun s a => a.served = true ∧ a.furnishes ⟨0⟩ s = false)
      (start false {} default ⟨0⟩) s :=
    run_performAll_of_steps (by decide +kernel)
  have hbound : s.StatesBounded := .of_size (by decide +kernel) (by decide +kernel)
  have hended : (s.client ⟨0⟩).disposed = true := by decide +kernel
  obtain ⟨hemptied, hnext⟩ := ended_emptied_iff hrun hbound hended
  have hlocking : (s.perform locking).StatesBounded :=
    .of_size (by decide +kernel) (by decide +kernel)
  have hopening : (s.perform (.openFile ⟨0⟩ ⟨0⟩ file 3 3)).StatesBounded :=
    .of_size (by decide +kernel) (by decide +kernel)
  have hgranted : (Action.openFile ⟨0⟩ ⟨0⟩ file 3 3).furnishes ⟨0⟩ s = true := by decide +kernel
  refine ⟨hended, hemptied, (hnext locking rfl hlocking).2.2 rfl, fun hafter => ?_⟩
  exact Bool.eq_false_iff.1 ((hnext _ rfl hopening).2.1 hafter) hgranted

/-- A client has been removed when a file is opened for it and an owner is named. It has a state, an
owner and an open from then on, which neither a sweep nor the end of the server takes away, and
while they stand another client is refused the file. -/
theorem reserved_after_end :
    let file : FileId := ⟨[9]⟩
    let ended := (start false {} default ⟨0⟩).performAll [.register (.ofOwner [1]),
      .register (.ofOwner [2]), .nameOwner ⟨0⟩ [7] 0, .nameOwner ⟨1⟩ [7] 0, .removeClient ⟨1⟩]
    let s := ended.performAll [.openFile ⟨0⟩ ⟨0⟩ file 3 3, .nameOwner ⟨0⟩ [8] 0]
    let stopped := s.performAll [.removeClient ⟨1⟩, .sweep, .shutdown]
    (ended.client ⟨0⟩).disposed = true ∧ (ended.client ⟨0⟩).states.values = [] ∧
      (s.client ⟨0⟩).disposed = true ∧ (s.client ⟨0⟩).states.values = [⟨0⟩] ∧
      (s.client ⟨0⟩).owners.get? [8] = some ⟨2⟩ ∧
      (s.opens.opens file).map (·.client) = [⟨0⟩] ∧
      ((openFile ⟨1⟩ ⟨1⟩ file 1 0).exec s).1 = .error (.shareDenied (.ofParts ⟨1⟩ 1 .share) 3 3) ∧
      stopped.running = false ∧ (stopped.client ⟨0⟩).states.values = [⟨0⟩] ∧
      (stopped.opens.opens file).map (·.client) = [⟨0⟩] := by
  decide +kernel

end Server

end Leasehold

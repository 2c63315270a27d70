import Mathlib.Control.Monad.Basic
import Leasehold.Proofs.FailedCloses
import Leasehold.Proofs.Presenting

/-!
# Proofs.LockFiles — the file of a lock state

A lock owner's first lock on a file makes a lock state that goes by the state of an open
of the file, and that state owes to forget this open and no other. A request for a lock
looks for an open of the file that it names, so it takes a lock state on its own file
only. A request that gives a range back takes the lock state that it names and the file
that it names, and never looks whether they belong together.

* `Server.LocksOn` — a lock state goes by a state that stands for opens of one file only;
* `Server.keepsHappenings_locksOn` — it does so whatever happens;
* `Server.lock_state_of_one_file` — on another file a lock through the lock state is refused
  and leaves everything alone, and a range is given back exactly if it would be on the
  file of the lock state: then it is taken from the owner's locks on the other file;
* `Server.unlocked_elsewhere` — such a loss on a small run.
-/

namespace Leasehold

open Request

/-- If the step is owed by the state of an open, it forgets no open but one of the file. -/
def ReleaseStep.ForgetsOnly (opened : StateNo) (file : FileId) (no : StateNo)
    (step : ReleaseStep) : Prop :=
  no = opened → ∀ other, step = .forgetOpen other → other = file

namespace Server

variable {e : Effect} {E : List Effect} {s t u : Server} {client : ClientNo}
  {no opened : StateNo} {key : StateKey} {file : FileId}

/-! ## What a lock state goes by -/

/-- A state with a key is derived from one that forgets no open but one of a file. -/
structure LocksOn (s : Server) (no : StateNo) (key : StateKey) (opened : StateNo) (file : FileId) :
    Prop where
  made : no.value < s.states.size
  bears : (s.state no).id.key = key
  derived : (s.state no).parent = some opened
  openMade : opened.value < s.states.size
  forgets : s.Owes (ReleaseStep.ForgetsOnly opened file)

theorem LocksOn.congr (hs : s.LocksOn no key opened file) (h : t.states = s.states) :
    t.LocksOn no key opened file := by
  have hstate := state_congr h
  obtain ⟨hmade, hbears, hderived, hopen, hforgets⟩ := hs
  refine ⟨?_, ?_, ?_, ?_, fun other step hmem => ?_⟩
  · rw [h]
    exact hmade
  · rw [hstate]
    exact hbears
  · rw [hstate]
    exact hderived
  · rw [h]
    exact hopen
  · rw [hstate] at hmem
    exact hforgets other step hmem

/-- Keys and descent stay, so that it depends on what is owed. -/
theorem LocksOn.chain (hs : s.LocksOn no key opened file) (h : Chain E s t)
    (hforgets : t.Owes (ReleaseStep.ForgetsOnly opened file)) : t.LocksOn no key opened file := by
  have hderived : no.value < t.states.size ∧ (t.state no).parent = some opened := by
    refine h.preserve (I := fun t => no.value < t.states.size ∧ (t.state no).parent = some opened)
      (fun _ hupdate ha => ⟨Nat.lt_of_lt_of_le ha.1 hupdate.states_size_le, ?_⟩)
      ⟨hs.made, hs.derived⟩
    rw [hupdate.state_parent_eq ha.1]
    exact ha.2
  refine ⟨hderived.1, ?_, hderived.2, Nat.lt_of_lt_of_le hs.openMade h.states_size_le, hforgets⟩
  rw [h.state_key_eq hs.made]
  exact hs.bears

/-- A state may owe less, or nothing that forgets an open, and stays bound to its file. -/
theorem LocksOn.amendState (hs : s.LocksOn no key opened file) (other : StateNo)
    {f : HeldState → HeldState}
    (hf : ∀ st, (f st).id.key = st.id.key ∧ (f st).owner = st.owner ∧ (f st).parent = st.parent)
    (howed : ∀ step ∈ (f (s.state other)).owed, step ∈ (s.state other).owed ∨
      ∀ another, step ≠ .forgetOpen another) :
    (s.amendState other f).LocksOn no key opened file := by
  have hamended : Chain [.stateAmended] s (s.amendState other f) :=
    .single List.mem_cons_self (.stateAmended s other f hf)
  refine hs.chain hamended (hs.forgets.amendState fun step hmem => ?_)
  rcases howed step hmem with hold | hnew
  · exact hs.forgets other step hold
  · exact fun _ another hstep => absurd hstep (hnew another)

/-- What fails is owed again, and nothing else comes to be owed when states end. -/
theorem LocksOn.course {ending : Ending} {attempts : List Attempt} {answer : Except Error Unit}
    (hs : s.LocksOn no key opened file) (h : Course ending s attempts answer t)
    (hleft : ending.Owes (ReleaseStep.ForgetsOnly opened file)) : t.LocksOn no key opened file := by
  refine hs.chain h.chain_ending (h.owes (fun other step hstep hsame another hfile => ?_) hs.forgets
    hleft)
  cases step with
  | forgetOpen one => exact hstep hsame another hfile
  | _ => cases hfile

/-- A new state owes its step itself, and an older one no more than the end of the new one. -/
theorem LocksOn.withHeld (hs : s.LocksOn no key opened file)
    (hclient : client.value < s.clients.size) (owner : OwnerNo) (kind : StateKind)
    {parent : Option StateNo} (hparent : parent ≠ some s.states.nextNo) (step : ReleaseStep) :
    (s.withHeld client owner kind parent step).LocksOn no key opened file := by
  refine hs.chain (s.chain_making ..) fun other step' hmem => ?_
  rcases owed_withHeld hclient hparent hmem with hold | ⟨rfl, -⟩ | ⟨-, -, rfl⟩
  · exact hs.forgets other step' hold
  · exact fun hsame => absurd hsame.symm (Ledger.ne_nextNo hs.openMade)
  · exact fun _ _ hfile => ReleaseStep.noConfusion hfile

/-- The release of a state, this one or another, leaves it bound to its file. -/
theorem LocksOn.releases {id : StateId} (hs : s.LocksOn no key opened file)
    (h : s.Releases client id t) : t.LocksOn no key opened file := by
  cases h with
  | unknown => exact hs
  | kept _ h => exact hs.course h trivial
  | released _ h =>
    have hended := hs.course h trivial
    exact hended.congr rfl

/-- Whatever is done for a client, a lock state stays bound to its file. -/
theorem LocksOn.serves (hs : s.LocksOn no key opened file) (hheld : s.Held)
    (h : Serves client s t) : t.LocksOn no key opened file := by
  have hall : ∀ e ∈ Effect.besideStates, e ≠ .stateMade ∧ e ≠ .stateAmended := by decide
  refine h.preserve (I := fun s => s.LocksOn no key opened file)
    (fun e he _ _ hupdate hs => hs.congr (hupdate.records_eq (hall e he).1 (hall e he).2))
    (fun _ other hs => hs.amendState other (fun _ => ⟨rfl, rfl, rfl⟩) fun _ => .inl) ?_
    (fun _ h hs => hs.releases h) hs
  rintro _ parent _ _ on hget _ rfl hs
  have hne := Ledger.ne_nextNo (hheld _ _ _ hget).1
  exact hs.withHeld (lt_of_states_get? hget) _ _ (fun h => hne (Option.some.inj h)) _

/-- Whatever happens, a lock state goes on to stand for a lock on its file. -/
theorem keepsHappenings_locksOn (P : Server → Action → Prop) (no : StateNo) (key : StateKey)
    (opened : StateNo) (file : FileId) :
    KeepsHappenings P fun s => s.Grounded ∧ s.LocksOn no key opened file where
  grounded := And.left
  update e he _ _ h hs := by
    have hall : ∀ e ∈ Effect.administering ++ [.recorded, .faultsSet, .openForgotten],
        e ≠ .stateMade ∧ e ≠ .stateAmended := by decide
    exact ⟨(keepsHappenings_grounded P).update e he h hs.1,
      hs.2.congr (h.records_eq (hall e he).1 (hall e he).2)⟩
  client h hs := ⟨hs.1.course h trivial, hs.2.course h trivial⟩
  serves _ h hs := ⟨hs.1.serves h, hs.2.serves hs.1.held h⟩
  opened {_ _ owner on _ _ _} _ hclient _ _ _ hs := by
    have hparent {made : StateNo} : (none : Option StateNo) ≠ some made := nofun
    have hmade := hs.2.withHeld hclient owner .share hparent (.forgetOpen on)
    exact ⟨hs.1.withOpen hclient _ _ _, hmade.congr rfl⟩
  observed other label refusals hs := by
    refine ⟨hs.1.observed other label refusals,
      hs.2.amendState other (fun _ => ⟨rfl, rfl, rfl⟩) fun step hmem => ?_⟩
    -- what it owed before, and to notify, which forgets no open
    rcases List.mem_append.1 hmem with hold | hnew
    · exact .inl hold
    · rw [List.mem_singleton.1 hnew]
      exact .inr nofun
  calledBack client hasCallback hs := ⟨hs.1.calledBack client hasCallback, hs.2.congr rfl⟩

/-- No counter has wrapped at the start of a run if none has at its end. -/
theorem statesBounded_of_run (hs : s.Grounded) (hrun : Run (fun _ a => a.served = true) s t)
    (hbound : t.StatesBounded) : s.StatesBounded := by
  have hkeeps := (keepsHappenings_grounded fun _ a => a.served = true).beside
    (J := fun t => t.StatesBounded → s.StatesBounded)
    (fun _ hupdate hbefore hbound => hbefore (.of_update hupdate hbound))
    (fun _ hbefore hbound => hbefore ⟨hbound.clients, hbound.states⟩)
    (fun _ _ hbefore hbound => hbefore (.of_calledBack hbound))
  exact (hkeeps.run (fun _ _ h => h) hrun ⟨hs, id⟩).2 hbound

/-! ## The state of an open -/

/-- A state whose key an open bears owes to forget that open. -/
theorem owes_forgetOpen (hs : s.Established) (hbound : s.StatesBounded)
    (hno : no.value < s.states.size) (hopen : ∃ m, (m, (s.state no).id.key) ∈ s.opens.states file) :
    .forgetOpen file ∈ (s.state no).owed := by
  obtain ⟨m, hmem⟩ := hopen
  obtain ⟨r, hr, hsame⟩ := List.mem_map.1 hmem
  have hrooted := (hs.rooted hbound).rooted file r.core (List.mem_map_of_mem hr)
  have hkey : (s.state r.core.state).id.key = (s.state no).id.key :=
    hrooted.key.trans (congrArg Prod.snd hsame)
  rw [← (hs.traced hbound).key_ext hrooted.made hno hkey]
  exact hrooted.owes

/-- What goes by the state of an open of a file locks on that file. -/
theorem locksOn_of_firstLock {openId id : StateId} {openSeqid lockSeqid : UInt32} {name : Bytes}
    {owner : OwnerNo} (hs : s.Established) (hbound : s.StatesBounded) (hfirst : s.ForgetsFirst)
    (h : FirstLock s client file openId openSeqid name lockSeqid id t opened owner) :
    t.LocksOn s.states.nextNo id.key opened file := by
  obtain ⟨u, v, hpresents, -, -⟩ := h.named
  have hopened : opened.value < s.states.size := (hs.tracked.held _ _ _ hpresents.attached).1
  obtain ⟨rest, howed⟩ := (hfirst opened).eq_cons (owes_forgetOpen hs hbound hopened h.onFile)
  have honly := hfirst opened
  rw [howed] at honly
  refine ⟨?_, congrArg StateId.key h.bears, h.parent, ?_,
    fun other step hmem hsame another hstep => ?_⟩
  · rw [h.size]
    exact Nat.lt_succ_self _
  · rw [h.size]
    exact Nat.lt_succ_of_lt hopened
  -- the open that is forgotten first is the one on the file, and what follows forgets none
  · rw [hsame, h.old opened hopened, howed, if_pos rfl] at hmem
    rw [hstep] at hmem
    rcases List.mem_cons.1 hmem with hfile | hmem
    · exact ReleaseStep.forgetOpen.inj hfile
    · rcases List.mem_append.1 hmem with hrest | hend
      · exact absurd rfl (honly _ hrest another)
      · cases List.mem_singleton.1 hend

/-- A request for a lock is something that happens. -/
theorem run_lock (hclient : client.value < s.clients.size) {r : LockRequest} {reclaim : Bool}
    {locker : Locker} {answer : Except Error StateId}
    (h : (lock client file r reclaim locker).exec s = (answer, t)) :
    Run (fun _ a => a.served = true) s t := by
  have hknown : (Action.lock client file r reclaim locker).known s = true := decide_eq_true hclient
  have hstep : s.perform (.lock client file r reclaim locker) = t := by
    unfold perform
    rw [if_pos hknown]
    exact after_of_exec h
  rw [← hstep]
  exact .single (.performed rfl)

/-! ## On another file -/

/-- A lock state that a client presents is the one that bears the key. -/
theorem LocksOn.eq_of_attached (hs : s.LocksOn no key opened file) (htraced : s.Traced)
    {other : StateNo} (hget : (s.client client).states.get? key = some other) : other = no := by
  obtain ⟨hmade, hkey, -⟩ := htraced.held _ _ _ hget
  exact htraced.key_ext hmade hs.made (hkey.trans hs.bears.symm)

/-- A lock through a lock state is refused on every file but its own. -/
theorem LocksOn.refused (hs : s.LocksOn no key opened file) (hestablished : s.Established)
    (hbound : s.StatesBounded) {other : FileId} (hne : other ≠ file) {lockId : StateId}
    (hkey : lockId.key = key) (client : ClientNo) (r : LockRequest) (reclaim : Bool)
    (seqid : UInt32) :
    ∃ e u, s.Intact u ∧
      (lock client other r reclaim (.existing lockId seqid)).exec s = (.error e, u) := by
  rcases lock_existing_cases client other r reclaim lockId seqid s with
    hrefused | ⟨found, u, locks, hpresents, hopen, -⟩
  · exact hrefused
  · have hget := hpresents.attached
    rw [hkey] at hget
    obtain rfl := hs.eq_of_attached (hestablished.traced hbound) hget
    rw [hs.derived, Option.getD_some] at hopen
    -- the state of an open that the other file has owes to forget it there
    have howes := owes_forgetOpen hestablished hbound hs.openMade hopen
    exact absurd (hs.forgets opened _ howes rfl other rfl) hne

/-- Whatever happened before and after a lock owner's first lock on a file, as long as no counter
wraps: whoever presents its lock state with another file is refused a lock there, and everything is
left alone. A range is given back without a look at the file: the request is refused on every file,
and everything is left alone, or it is granted on every file, and takes the range from the locks
that the lock owner has on the file that is named. -/
theorem lock_state_of_one_file {timers : Bool} {config : Config} {store : Recovery.Store}
    {wall : WallTime} {now : Nat}
    (hrun : Run (fun _ a => a.served = true) (start timers config store wall now) s)
    {r : LockRequest} {reclaim : Bool} {openId id : StateId} {openSeqid lockSeqid : UInt32}
    {name : Bytes} (hgranted : (lock client file r reclaim
      (.newOwner openId openSeqid name lockSeqid)).exec s = (.ok id, t))
    (hafter : Run (fun _ a => a.served = true) t u) (hbound : u.StatesBounded) {lockId : StateId}
    (hkey : lockId.key = id.key) (presenter : ClientNo) (r' : LockRequest) (seqid : UInt32) :
    (∀ other reclaim', other ≠ file → ∃ e v, u.Intact v ∧
        (lock presenter other r' reclaim' (.existing lockId seqid)).exec u = (.error e, v)) ∧
      ((∃ e v, u.Intact v ∧
          ∀ other, (unlock presenter other lockId seqid r').exec u = (.error e, v)) ∨
        ∃ no v, (u.client presenter).states.get? id.key = some no ∧ u.Intact v ∧
          ∀ other, ∃ locks,
            u.locks.unlockIfHeld other (r'.toLock (u.lockOwner presenter no)) = .ok locks ∧
              (unlock presenter other lockId seqid r').exec u =
                (.ok ((v.relock locks no).state no).id, v.relock locks no)) := by
  have hserved (s : Server) (a : Action) (h : a.served = true) := h
  have hs : s.Established := (keepsHappenings_established _).run hserved hrun
    (established_start timers config store wall now)
  have hfirst : s.Grounded ∧ s.ForgetsFirst := (keepsHappenings_forgetsFirst _).run hserved hrun
    ⟨grounded_start timers config store wall now, forgetsFirst_start timers config store wall now⟩
  obtain ⟨opened, owner, hlock⟩ := lock_newOwner_eq_ok hs.grounded.held hgranted
  obtain ⟨_, _, hpresents, -⟩ := hlock.named
  have hgrant := run_lock hpresents.client_lt hgranted
  have ht : t.Established := (keepsHappenings_established _).run hserved hgrant hs
  -- counters only grow, so none had wrapped when the lock was granted, nor before
  have hbound' := statesBounded_of_run ht.grounded hafter hbound
  have hbound'' := statesBounded_of_run hs.grounded hgrant hbound'
  have hlocks := locksOn_of_firstLock hs hbound'' hfirst.2 hlock
  have hu : u.Established := (keepsHappenings_established _).run hserved hafter ht
  have hkept : u.Grounded ∧ u.LocksOn s.states.nextNo id.key opened file :=
    (keepsHappenings_locksOn _ _ _ _ _).run hserved hafter ⟨ht.grounded, hlocks⟩
  refine ⟨fun other reclaim' hne =>
    hkept.2.refused hu hbound hne hkey presenter r' reclaim' seqid, ?_⟩
  rcases unlock_cases presenter lockId seqid r' u with hrefused | ⟨no, v, hpresents, hgiven⟩
  · exact .inl hrefused
  · refine .inr ⟨no, v, ?_, hpresents.upToOwners.intact, hgiven⟩
    rw [← hkey]
    exact hpresents.attached

/-- The lock state for one of two open files is refused for locks on the other, and gives back
ranges on both alike. -/
theorem lock_state_of_one_file_of_two :
    let actions : List Action := [.register (.ofOwner [1]), .nameOwner ⟨0⟩ [7] 0,
      .openFile ⟨0⟩ ⟨0⟩ ⟨[9]⟩ 3 0, .openFile ⟨0⟩ ⟨0⟩ ⟨[10]⟩ 3 0]
    let s := (start false {} default ⟨0⟩).performAll actions
    let range : LockRequest := ⟨.write, 0, 10⟩
    let outcome := (lock ⟨0⟩ ⟨[9]⟩ range false (.newOwner (.ofParts ⟨1⟩ 1 .share) 0 [8] 0)).exec s
    let id : StateId := ⟨.ofParts ⟨1⟩ 3 .byteLock, 1⟩
    outcome.1 = .ok id ∧
      (∃ e t, outcome.2.Intact t ∧
        (lock ⟨0⟩ ⟨[10]⟩ range false (.existing id 0)).exec outcome.2 = (.error e, t)) ∧
      ((unlock ⟨0⟩ ⟨[10]⟩ id 0 range).exec outcome.2).1 =
        ((unlock ⟨0⟩ ⟨[9]⟩ id 0 range).exec outcome.2).1 := by
  intro actions s range outcome id
  have hrun : Run (fun _ a => a.served = true) (start false {} default ⟨0⟩) s :=
    run_performAll fun a ha _ => by revert a; decide
  have hgranted : outcome.1 = .ok id := by decide +kernel
  have hbound : outcome.2.StatesBounded := .of_size (by decide +kernel) (by decide +kernel)
  have hgranted' : (lock ⟨0⟩ ⟨[9]⟩ range false (.newOwner (.ofParts ⟨1⟩ 1 .share) 0 [8] 0)).exec s =
      (.ok id, outcome.2) := Prod.ext hgranted rfl
  have hsame : id.key = id.key := rfl
  obtain ⟨hlock, hunlock⟩ := lock_state_of_one_file hrun hgranted' .refl hbound hsame ⟨0⟩ range 0
  refine ⟨hgranted, hlock ⟨[10]⟩ false (by decide), ?_⟩
  rcases hunlock with ⟨e, _, _, hrefused⟩ | ⟨no, _, _, _, hgiven⟩
  · rw [hrefused, hrefused]
  -- whatever file is named, the answer is the same
  · obtain ⟨_, _, hother⟩ := hgiven ⟨[10]⟩
    obtain ⟨_, _, hown⟩ := hgiven ⟨[9]⟩
    rw [hother, hown]
    rfl

/-- An owner that has locks on two files loses the lock on one of them by giving the range back
through the lock state for the other. -/
theorem unlocked_elsewhere :
    let range : LockRequest := ⟨.write, 0, 10⟩
    let actions : List Action := [.register (.ofOwner [1]), .nameOwner ⟨0⟩ [7] 0,
      .openFile ⟨0⟩ ⟨0⟩ ⟨[9]⟩ 3 0, .openFile ⟨0⟩ ⟨0⟩ ⟨[10]⟩ 3 0,
      .lock ⟨0⟩ ⟨[9]⟩ range false (.newOwner (.ofParts ⟨1⟩ 1 .share) 0 [8] 0),
      .lock ⟨0⟩ ⟨[10]⟩ range false (.newOwner (.ofParts ⟨1⟩ 2 .share) 0 [8] 0)]
    let s := (start false {} default ⟨0⟩).performAll actions
    let lockKey : StateKey := .ofParts ⟨1⟩ 3 .byteLock
    let outcome := (unlock ⟨0⟩ ⟨[10]⟩ ⟨lockKey, 1⟩ 0 range).exec s
    (s.locks.locks ⟨[10]⟩).length = 1 ∧ outcome.1 = .ok ⟨lockKey, 2⟩ ∧
      outcome.2.locks.locks ⟨[9]⟩ = s.locks.locks ⟨[9]⟩ ∧ outcome.2.locks.locks ⟨[10]⟩ = [] := by
  decide +kernel

end Server

end Leasehold

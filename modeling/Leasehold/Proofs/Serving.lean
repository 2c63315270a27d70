import Leasehold.Proofs.Happening
import Leasehold.Proofs.SlotReplay

/-!
# Proofs.Serving — what is done for a client

A request for a client amends the client's record, makes states and owners for it,
accepts a request number for one of its owners, changes one of its opens, or has the
lock table do something for one of its lock owners. `Server.Serves` has one
constructor for each of these things. A request that opens, downgrades, locks,
unlocks or releases does nothing else, so that what they keep has to be shown once
for each constructor.

* `Server.openFile_outcome` — an open is refused, widened or added;
* `Server.serving_lock`, `Server.serving_unlock`, `Server.serving_downgrade` — what the
  other requests do;
* `KeepsHappenings.run` — what the courses and the requests for clients keep is kept
  whatever happens;
* `Server.keepsHappenings_grounded` — among it that the tables lead to the states that
  bear their keys, and that states owe the end of younger ones.
-/

namespace Leasehold

open Request

namespace Effect

/-- What is done for a client whose owners keep their names and who comes to hold no state. -/
def amending : List Effect :=
  [confirmed, reclaimed, renewed, revived, sessionMade, sessionDropped, slotUsed, connected,
    ownerAmended, openWidened, openLowered] ++ releasing

/-- What is done for a client without touching owners, and without making a state for one. -/
def besideOwners : List Effect :=
  [confirmed, reclaimed, renewed, revived, sessionMade, sessionDropped, slotUsed, connected,
    openWidened, openLowered] ++ releasing

/-- What is done for a client is done by these kinds of updates. -/
def serving : List Effect := [ownerMade, ownersNamed] ++ making ++ amending

/-- What is done for a client without touching the record of a state, or the tables that lead to
states. -/
def besideStates : List Effect :=
  [confirmed, reclaimed, renewed, revived, ownerMade, ownerAmended, ownersNamed, sessionMade,
    sessionDropped, slotUsed, connected, openWidened, openLowered, locked]

end Effect

namespace Server

/-- The server with one more open of a file, and a new state that it stands for. -/
def withOpen (s : Server) (client : ClientNo) (owner : OwnerNo) (file : FileId)
    (mode : ShareMode) : Server :=
  { s.withHeld client owner .share none (.forgetOpen file) with
    opens := s.opens.add file ⟨client, (s.client client).id, (s.owner owner).name,
      s.states.nextNo, (s.client client).nextStateKey .share, mode, .ofMode mode⟩ }

/-- One thing that is done for a client. -/
inductive Serves (client : ClientNo) (s : Server) : Server → Prop where
  /-- The client's record is amended, and the states and owners on it stay. -/
  | amended {e : Effect} (f : Client → Client)
      (he : e ∈ [.confirmed, .reclaimed, .renewed, .revived, .sessionDropped])
      (h : Client.Update s.now e (s.client client) (f (s.client client))) :
      Serves client s (s.amendClient client f)
  | named {name : Bytes} (seqid : UInt32) (hnew : (s.client client).owners.get? name = none) :
      Serves client s (s.withOwner client name seqid)
  | unnamed (name : Bytes) :
      Serves client s (s.amendClient client fun c => { c with owners := c.owners.erase name })
  | accepted {key : StateKey} {no : StateNo} {seqid : UInt32} {owner : Owner}
      (hget : (s.client client).states.get? key = some no)
      (h : (s.owner (s.state no).owner).accept seqid = .ok owner) :
      Serves client s (s.amendOwner (s.state no).owner fun _ => owner)
  | sessionMade {id : ClientId} (attributes : ChannelAttributes)
      (hget : s.registered.get? id = some client) : Serves client s (s.withSession client attributes)
  | sessionUsed {e : Effect} {id : SessionId} {no : SessionNo} (f : Session → Session)
      (he : e ∈ [.slotUsed, .connected]) (hget : (s.client client).sessions.get? id = some no)
      (h : Session.Update e (s.session no) (f (s.session no))) :
      Serves client s (s.amendSession no f)
  | bumped {key : StateKey} {no : StateNo} (hget : (s.client client).states.get? key = some no) :
      Serves client s (s.amendState no .bump)
  | widened {file : FileId} {name : Bytes} {r : OpenRecord} {mode : ShareMode}
      (hopen : s.opens.openOf? file (s.client client).id name = some r)
      (hcheck : s.opens.conflict? file s.leaseValid (s.client client).id name mode = none) :
      Serves client s (({ s with opens := s.opens.widen file (s.client client).id name mode }).amendState
        r.state .bump)
  | lowered {file : FileId} {key : StateKey} {mode : ShareMode} {state : StateNo}
      {opens : OpenTable}
      (h : s.opens.downgrade file (s.client client).id key mode = .ok (state, opens)) :
      Serves client s (({ s with opens }).amendState state .bump)
  /-- A lock state is made, derived from a state of the client. -/
  | derived {key : StateKey} {no : StateNo} {name : Bytes} {owner : OwnerNo} (file : FileId)
      (hget : (s.client client).states.get? key = some no)
      (hname : (s.client client).owners.get? name = some owner) :
      Serves client s (s.withHeld client owner .byteLock (some no)
        (.unlockAll file ⟨(s.client client).id, name⟩))
  | locked {file : FileId} {l : RangeLock} {locks : LockTable}
      (howner : l.owner.client = (s.client client).id) (h : s.locks.lock file l = .ok locks) :
      Serves client s { s with locks }
  | unlocked {file : FileId} {l : RangeLock} {locks : LockTable}
      (howner : l.owner.client = (s.client client).id)
      (h : s.locks.unlockIfHeld file l = .ok locks) : Serves client s { s with locks }
  | released {id : StateId} {t : Server} (h : s.Releases client id t) : Serves client s t

/-- Things are done for a client, one after the other. -/
def Serving (client : ClientNo) : Server → Server → Prop :=
  Relation.ReflTransGen (Serves client)

/-- What is done for a client leaves owners alone, gives a name to a new one, takes a name from one,
has one accept a number, or makes a lock state for one that the client has a name for. -/
theorem Serves.owner_cases {client : ClientNo} {s t : Server} (h : Serves client s t) :
    Chain Effect.besideOwners s t ∨
      (∃ name seqid, (s.client client).owners.get? name = none ∧
        t = s.withOwner client name seqid) ∨
      (∃ name, t = s.amendClient client fun c => { c with owners := c.owners.erase name }) ∨
      (∃ key no seqid owner, (s.client client).states.get? key = some no ∧
        (s.owner (s.state no).owner).accept seqid = .ok owner ∧
        t = s.amendOwner (s.state no).owner fun _ => owner) ∨
      ∃ key no name owner file, (s.client client).states.get? key = some no ∧
        (s.client client).owners.get? name = some owner ∧
        t = s.withHeld client owner .byteLock (some no)
          (.unlockAll file ⟨(s.client client).id, name⟩) := by
  -- most of what is done for a client ends by counting on a state
  have hbumped (s : Server) (no : StateNo) : Chain Effect.besideOwners s (s.amendState no .bump) :=
    .single (by decide) (.stateAmended s no _ fun _ => ⟨rfl, rfl, rfl⟩)
  cases h with
  | amended f he h =>
    have hall : ∀ e ∈ [Effect.confirmed, .reclaimed, .renewed, .revived, .sessionDropped],
        e ∈ Effect.besideOwners := by decide
    exact .inl (.single (hall _ he) (.client s client f h))
  | named seqid hnew => exact .inr (.inl ⟨_, seqid, hnew, rfl⟩)
  | unnamed name => exact .inr (.inr (.inl ⟨name, rfl⟩))
  | accepted hget h => exact .inr (.inr (.inr (.inl ⟨_, _, _, _, hget, h, rfl⟩)))
  | sessionMade attributes hget =>
    exact .inl (.single (by decide) (.sessionMade s _ client attributes hget))
  | sessionUsed f he _ h =>
    have hall : ∀ e ∈ [Effect.slotUsed, .connected], e ∈ Effect.besideOwners := by decide
    exact .inl (.single (hall _ he) (.session s _ f h))
  | bumped => exact .inl (hbumped s _)
  | widened _ hcheck =>
    exact .inl ((Chain.single (by decide) (.openWidened s _ _ _ _ hcheck)).trans (hbumped _ _))
  | lowered h =>
    exact .inl ((Chain.single (by decide) (.openLowered s _ _ _ _ _ _ h)).trans (hbumped _ _))
  | derived file hget hname =>
    exact .inr (.inr (.inr (.inr ⟨_, _, _, _, file, hget, hname, rfl⟩)))
  | locked => exact .inl (.single (by decide) (.locked s _))
  | unlocked => exact .inl (.single (by decide) (.locked s _))
  | released h => exact .inl (h.chain.mono (by decide))

/-- An owner comes to have a name or loses it, a lock state is made, or nothing of the kind
happens. -/
theorem Serves.cases_chain {client : ClientNo} {s t : Server} (h : Serves client s t) :
    Chain Effect.amending s t ∨
      (∃ name seqid, (s.client client).owners.get? name = none ∧ t = s.withOwner client name seqid) ∨
      (∃ name, t = s.amendClient client fun c => { c with owners := c.owners.erase name }) ∨
      ∃ key no name owner file, (s.client client).states.get? key = some no ∧
        (s.client client).owners.get? name = some owner ∧
        t = s.withHeld client owner .byteLock (some no)
          (.unlockAll file ⟨(s.client client).id, name⟩) := by
  rcases h.owner_cases with hchain | hnamed | hunnamed | ⟨_, no, _, _, _, haccept, rfl⟩ | hderived
  · exact .inl (hchain.mono (by decide))
  · exact .inr (.inl hnamed)
  · exact .inr (.inr (.inl hunnamed))
  -- an owner that takes a number keeps its name
  · exact .inl (.single (by decide) (.ownerAmended s _ _ (name_of_accept haccept)))
  · exact .inr (.inr (.inr hderived))

/-- With what it is to owe, a new state is made by updates that make states. -/
theorem chain_making (s : Server) (client : ClientNo) (owner : OwnerNo) (kind : StateKind)
    (parent : Option StateNo) (step : ReleaseStep) :
    Chain Effect.making s (s.withHeld client owner kind parent step) :=
  (s.chain_withState client owner kind parent).trans
    ((s.chain_withHeld client owner kind parent step).mono (by decide))

/-- What is done for a client is done by updates of its kinds. -/
theorem Serves.chain {client : ClientNo} {s t : Server} (h : Serves client s t) :
    Chain Effect.serving s t := by
  rcases h.cases_chain with hchain | ⟨name, seqid, _, rfl⟩ | ⟨name, rfl⟩ |
    ⟨_, no, _, owner, _, _, _, rfl⟩
  · exact hchain.mono (by decide)
  · exact (s.chain_withOwner client name seqid).mono (by decide)
  · exact .single (e := .ownersNamed) (by decide) (.client s client _ (.ownersNamed _ _))
  · exact (s.chain_making client owner .byteLock (some no) _).mono (by decide)

theorem Serving.chain {client : ClientNo} {s t : Server} (h : Serving client s t) :
    Chain Effect.serving s t := by
  induction h with
  | refl => exact .refl
  | tail _ hlast ih => exact ih.trans hlast.chain

/-- What is done for a client leaves the records of the others as they are, unless a state is
released. -/
theorem Serves.client_eq_of_ne {client : ClientNo} {s t : Server} (h : Serves client s t)
    {other : ClientNo} (hne : other ≠ client) :
    t.client other = s.client other ∨ Chain Effect.releasing s t := by
  -- no record but the client's own is amended
  have hamended (f : Client → Client) :
      (s.amendClient client f).client other = s.client other := by
    rw [client_amendClient, if_neg fun h => hne h.1]
  cases h with
  | amended f => exact .inl (hamended f)
  | named seqid =>
    refine .inl ?_
    rw [client_withOwner, if_neg fun h => hne h.1]
  | unnamed name => exact .inl (hamended _)
  | sessionMade attributes =>
    refine .inl ?_
    rw [client_withSession, if_neg fun h => hne h.1]
  | derived file hget =>
    refine .inl ?_
    rw [client_withHeld, client_withState (lt_of_states_get? hget), if_neg hne]
  | released h => exact .inr h.chain
  | _ => exact .inl rfl

/-- What the updates beside the states keep, and what bumps, new lock states and releases do, is kept
by all that is done for a client. -/
theorem Serves.preserve {client : ClientNo} {s t : Server} {I : Server → Prop}
    (h : Serves client s t)
    (hupdate : ∀ e ∈ Effect.besideStates, ∀ {s t}, Update e s t → I s → I t)
    (hbump : ∀ (s : Server) (no : StateNo), I s → I (s.amendState no .bump))
    (hderived : ∀ {key no name owner} (file : FileId), (s.client client).states.get? key = some no →
      (s.client client).owners.get? name = some owner → t = s.withHeld client owner .byteLock
        (some no) (.unlockAll file ⟨(s.client client).id, name⟩) → I s → I t)
    (hreleased : ∀ id, s.Releases client id t → I s → I t) (hs : I s) : I t := by
  have hchain {E : List Effect} {u : Server} (h : Chain E s u)
      (hE : ∀ e ∈ E, e ∈ Effect.besideStates) : I u :=
    h.preserve (fun he hstep => hupdate _ (hE _ he) hstep) hs
  cases h with
  | amended f he h =>
    have hall : ∀ e ∈ [Effect.confirmed, .reclaimed, .renewed, .revived, .sessionDropped],
        e ∈ Effect.besideStates := by decide
    exact hupdate _ (hall _ he) (.client s client f h) hs
  | named seqid => exact hchain (s.chain_withOwner client _ seqid) (by decide)
  | unnamed => exact hupdate _ (by decide) (.client s client _ (.ownersNamed _ _)) hs
  | accepted _ h => exact hupdate _ (by decide) (.ownerAmended s _ _ (name_of_accept h)) hs
  | sessionMade attributes hget =>
    exact hupdate _ (by decide) (.sessionMade s _ client attributes hget) hs
  | sessionUsed f he _ h =>
    have hall : ∀ e ∈ [Effect.slotUsed, .connected], e ∈ Effect.besideStates := by decide
    exact hupdate _ (hall _ he) (.session s _ f h) hs
  | bumped => exact hbump _ _ hs
  | widened _ hcheck =>
    exact hbump _ _ (hupdate _ (by decide) (.openWidened s _ _ _ _ hcheck) hs)
  | lowered h => exact hbump _ _ (hupdate _ (by decide) (.openLowered s _ _ _ _ _ _ h) hs)
  | derived file hget hname => exact hderived file hget hname rfl hs
  | locked => exact hupdate _ (by decide) (.locked s _) hs
  | unlocked => exact hupdate _ (by decide) (.locked s _) hs
  | released h => exact hreleased _ h hs

/-! ## The tables and the ledger of states -/

/-- The tables lead to the states that bear their keys, and states owe the end of younger ones. -/
structure Grounded (s : Server) : Prop where
  held : s.Held
  descending : s.Descending

variable {s t : Server} {client : ClientNo} {e : Effect}

theorem Descending.congr (hs : s.Descending) (h : t.states = s.states) : t.Descending := by
  intro no younger client hmem
  unfold state at hmem
  rw [h] at hmem ⊢
  exact hs no younger client hmem

/-- Updates that neither make nor amend a state leave the ledger of states as it is. -/
theorem Update.records_eq (h : Update e s t) (hmade : e ≠ .stateMade) (hamended : e ≠ .stateAmended) :
    t.states = s.states := by
  cases h with
  | stateMade => exact absurd rfl hmade
  | stateAmended => exact absurd rfl hamended
  | _ => rfl

/-- Only new or amended states, and newly attached ones, bear on this. -/
theorem grounded_update (h : Update e s t) (he : e ∉ [.stateMade, .stateAmended, .attached])
    (hs : s.Grounded) : t.Grounded := by
  simp only [List.mem_cons, List.not_mem_nil, or_false, not_or] at he
  exact ⟨held_update h he.2.2 hs.held, hs.descending.congr (h.records_eq he.1 he.2.1)⟩

theorem grounded_chain {E : List Effect} (h : Chain E s t)
    (hE : ∀ e ∈ E, e ∉ [Effect.stateMade, .stateAmended, .attached]) (hs : s.Grounded) : t.Grounded :=
  h.preserve (fun he hupdate => grounded_update hupdate (hE _ he)) hs

/-- A state may be amended, as long as it keeps its key and owes the end of younger ones. -/
theorem Grounded.amendState (hs : s.Grounded) {no : StateNo} {f : HeldState → HeldState}
    (hf : ∀ st, (f st).id.key = st.id.key ∧ (f st).owner = st.owner ∧ (f st).parent = st.parent)
    (howed : ReleaseStep.Below no s.states.size (f (s.state no)).owed) :
    (s.amendState no f).Grounded :=
  ⟨held_update (.stateAmended s no f hf) (by decide) hs.held, hs.descending.amendState howed⟩

theorem Grounded.bump (hs : s.Grounded) (no : StateNo) : (s.amendState no .bump).Grounded :=
  hs.amendState (fun _ => ⟨rfl, rfl, rfl⟩) (hs.descending.below no)

/-- While states end, tables lead to the states that bear their keys. -/
theorem Grounded.course {ending : Ending} {attempts : List Attempt} {answer : Except Error Unit}
    (hs : s.Grounded) (h : Course ending s attempts answer t) (hbelow : ending.Below s.states.size) :
    t.Grounded :=
  ⟨h.held hs.held, h.descending hs.descending hbelow⟩

/-- The new state is younger than all the others. -/
theorem Grounded.withHeld (hs : s.Grounded) (hclient : client.value < s.clients.size)
    (owner : OwnerNo) (kind : StateKind) {parent : Option StateNo}
    (hparent : ∀ no, parent = some no → no.value < s.states.size) {step : ReleaseStep}
    (hstep : ∀ younger client, step ≠ .endDerived younger client) :
    (s.withHeld client owner kind parent step).Grounded := by
  have hne : parent ≠ some s.states.nextNo := fun h => Nat.lt_irrefl _ (hparent _ h)
  constructor
  · have hheld := held_withState hs.held hclient owner kind parent
    have howed {t : Server} (ht : t.Held) (no : StateNo) (step : ReleaseStep) :
        (t.amendState no (·.owe step)).Held :=
      held_update (.stateAmended t no _ fun _ => ⟨rfl, rfl, rfl⟩) (by decide) ht
    cases parent with
    | none => exact howed hheld _ _
    | some no => exact howed (howed hheld _ _) _ _
  · intro no younger c hmem
    rw [states_size_withHeld]
    rcases owed_withHeld hclient hne hmem with hold | ⟨_, hnew⟩ | ⟨hof, _, hderived⟩
    · obtain ⟨hyounger, hmade⟩ := hs.descending no younger c hold
      exact ⟨hyounger, Nat.lt_succ_of_lt hmade⟩
    · exact absurd hnew.symm (hstep younger c)
    · injection hderived with hnewest
      rw [hnewest]
      exact ⟨hparent no hof, Nat.lt_succ_self _⟩

/-- A new open stands for a state that is made in its place. -/
theorem Grounded.withOpen (hs : s.Grounded) (hclient : client.value < s.clients.size)
    (owner : OwnerNo) (file : FileId) (mode : ShareMode) :
    (s.withOpen client owner file mode).Grounded := by
  have hmade : (s.withHeld client owner .share none (.forgetOpen file)).Grounded :=
    hs.withHeld hclient owner .share (by rintro _ ⟨⟩) nofun
  exact ⟨hmade.held, hmade.descending⟩

/-- A state that is released is taken from its client's table, or stays in it. -/
theorem Grounded.releases {id : StateId} (hs : s.Grounded) (h : s.Releases client id t) :
    t.Grounded := by
  cases h with
  | unknown => exact hs
  | kept _ h => exact hs.course h trivial
  | released _ h =>
    exact grounded_update (.client _ client _ (.detached _ _)) (by decide) (hs.course h trivial)

/-- Whatever is done for a client, its tables lead to its states. -/
theorem Grounded.serves (hs : s.Grounded) (h : Serves client s t) : t.Grounded := by
  have hall : ∀ e ∈ Effect.besideStates, e ∉ [Effect.stateMade, .stateAmended, .attached] := by
    decide
  refine h.preserve (fun e he _ _ hupdate => grounded_update hupdate (hall e he))
    (fun _ no hs => hs.bump no) ?_ (fun _ h hs => hs.releases h) hs
  rintro _ no _ _ file hget _ rfl hs
  have hno := (hs.held _ _ _ hget).1
  exact hs.withHeld (lt_of_states_get? hget) _ _ (by rintro _ ⟨⟩; exact hno) nofun

theorem Grounded.serving (hs : s.Grounded) (h : Serving client s t) : t.Grounded := by
  induction h with
  | refl => exact hs
  | tail _ hlast ih => exact ih.serves hlast

/-! ## What requests do for their client -/

/-- A request for an open that asks for no access or is in conflict is refused and changes nothing; any
other widens the open of the client and the owner, or adds one with a new state, and answers the
identifier of its state. -/
theorem exec_openFile (hclient : client.value < s.clients.size) (owner : OwnerNo)
    (file : FileId) (access deny : UInt32) :
    (openFile client owner file access deny).exec s =
      let mode := ShareMode.ofRequest access deny
      let id := (s.client client).id
      let name := (s.owner owner).name
      if mode.access = 0 then (.error .emptyAccess, s)
      else match s.opens.conflict? file s.leaseValid id name mode with
        | some r => (.error (.shareDenied (s.state r.state).id r.mode.access r.mode.deny), s)
        | none => match s.opens.openOf? file id name with
          | some r =>
            let t := ({ s with opens := s.opens.widen file id name mode }).amendState r.state .bump
            (.ok (t.state r.state).id, t)
          | none => (.ok ⟨(s.client client).nextStateKey .share, 0⟩,
              s.withOpen client owner file mode) := by
  unfold openFile
  dsimp only
  by_cases haccess : (ShareMode.ofRequest access deny).access = 0
  · rw [if_pos haccess, if_pos haccess]
    rfl
  · rw [if_neg haccess, if_neg haccess, exec_get_bind]
    cases s.opens.conflict? file s.leaseValid (s.client client).id (s.owner owner).name
        (.ofRequest access deny) with
    | some r => rfl
    | none =>
      dsimp only
      cases s.opens.openOf? file (s.client client).id (s.owner owner).name with
      | some r => rfl
      | none =>
        have hfresh : (none : Option StateNo) ≠ some s.states.nextNo := nofun
        have hid := congrArg (·.id) (state_withHeld_new hclient owner .share hfresh (.forgetOpen file))
        have hkey := congrArg (·.key) hid
        unfold withOpen
        rw [show (⟨(s.client client).nextStateKey .share, 0⟩ : StateId) = _ from hid.symm,
          show (s.client client).nextStateKey .share = _ from hkey.symm]
        rfl

/-- The server that opening a file leaves, without the answer. -/
theorem after_openFile (hclient : client.value < s.clients.size) (owner : OwnerNo)
    (file : FileId) (access deny : UInt32) :
    s.after (openFile client owner file access deny) =
      let mode := ShareMode.ofRequest access deny
      let id := (s.client client).id
      let name := (s.owner owner).name
      if mode.access = 0 then s
      else match s.opens.conflict? file s.leaseValid id name mode with
        | some _ => s
        | none => match s.opens.openOf? file id name with
          | some r =>
            ({ s with opens := s.opens.widen file id name mode }).amendState r.state .bump
          | none => s.withOpen client owner file mode := by
  rw [after_eq_exec, exec_openFile hclient]
  dsimp only
  split
  · rfl
  · split
    · rfl
    · split
      · rfl
      · rfl

/-- An open is refused, the one that is there is widened, or one is added with a new state. -/
theorem openFile_outcome (hclient : client.value < s.clients.size) (owner : OwnerNo)
    (file : FileId) (access deny : UInt32) :
    s.after (openFile client owner file access deny) = s ∨
      Serves client s (s.after (openFile client owner file access deny)) ∨
      ∃ mode, s.opens.conflict? file s.leaseValid (s.client client).id (s.owner owner).name mode = none ∧
        s.opens.openOf? file (s.client client).id (s.owner owner).name = none ∧
        s.after (openFile client owner file access deny) = s.withOpen client owner file mode := by
  rw [after_openFile hclient]
  dsimp only
  split
  · exact .inl rfl
  · split
    · exact .inl rfl
    · rename_i hcheck
      split
      · rename_i hopen
        exact .inr (.inl (.widened hopen hcheck))
      · rename_i hopen
        exact .inr (.inr ⟨_, hcheck, hopen, rfl⟩)

/-- What comes after a request that serves the client starts from the server that it leaves. -/
theorem serving_bind {α β : Type} {r : Request α} {f : α → Request β}
    (hr : Serving client s (s.after r))
    (hf : ∀ a t, r.exec s = (.ok a, t) → Serving client t (t.after (f a))) :
    Serving client s (s.after (r >>= f)) := by
  rw [after_eq_exec] at hr ⊢
  rw [exec_bind]
  rcases hexec : r.exec s with ⟨_ | a, t⟩
  · rw [hexec] at hr
    exact hr
  · rw [hexec] at hr
    exact hr.trans (hf a t hexec)

/-- A request that does no updates leaves the server as it is. -/
theorem eq_of_chain_nil (h : Chain [] s t) : t = s :=
  h.eq_of_updates (f := fun s => s) fun _ he => absurd he List.not_mem_nil

/-- A downgrade that is granted counts on the state of the open. -/
theorem exec_downgrade (client : ClientNo) (id : StateId) (file : FileId) (access deny : UInt32)
    (s : Server) :
    (downgrade client id file access deny).exec s =
      match s.opens.downgrade file (s.client client).id id.key (.ofRequest access deny) with
      | .error fault => (.error (fault.toError id), s)
      | .ok (state, opens) =>
        let t := ({ s with opens }).amendState state .bump
        (.ok (t.state state).id, t) := by
  unfold downgrade
  rw [exec_get_bind]
  cases s.opens.downgrade file (s.client client).id id.key (.ofRequest access deny) with
  | error fault => rfl
  | ok lowered => rfl

/-- A downgrade lowers the open and counts on its state, or does nothing. -/
theorem serving_downgrade (client : ClientNo) (id : StateId) (file : FileId)
    (access deny : UInt32) (s : Server) :
    Serving client s (s.after (downgrade client id file access deny)) := by
  rw [after_eq_exec, exec_downgrade]
  split
  · exact .refl
  · rename_i h
    exact .single (.lowered h)

theorem serving_renewLease (client : ClientNo) (s : Server) :
    Serving client s (s.after (renewLease client)) := by
  rw [after_eq_exec]
  unfold renewLease
  rw [exec_get_bind]
  split
  · rename_i hvalid
    exact .single (.amended _ (by decide) (.renewed _ hvalid))
  · exact .refl

theorem serving_renewIfSessionless (client : ClientNo) (s : Server) :
    Serving client s (s.after (renewIfSessionless client)) := by
  rw [after_eq_exec]
  unfold renewIfSessionless
  rw [exec_get_bind]
  split
  · exact .refl
  · exact serving_renewLease client s

/-- A request for a current state and the next number of its owner serves the client. -/
theorem acceptSeqid_outcome {key : StateKey} {no : StateNo} (seqid : UInt32)
    (hget : (s.client client).states.get? key = some no) :
    (∃ e, (acceptSeqid (s.state no).owner seqid).exec s = (.error e, s)) ∨
      ∃ t, (acceptSeqid (s.state no).owner seqid).exec s = (.ok (), t) ∧ Serves client s t ∧
        t.client = s.client ∧ t.states = s.states := by
  rw [exec_acceptSeqid]
  cases haccept : (s.owner (s.state no).owner).accept seqid with
  | error e => exact .inl ⟨e, rfl⟩
  | ok owner => exact .inr ⟨_, rfl, .accepted hget haccept, rfl, rfl⟩

/-- The owner of a name is there, or is made. -/
theorem ownerNamed_outcome (hclient : client.value < s.clients.size) (name : Bytes)
    (seqid : UInt32) :
    ∃ owner t, (ownerNamed client name seqid).exec s = (.ok owner, t) ∧ Serving client s t ∧
      (t.client client).owners.get? name = some owner ∧
      (t.client client).states = (s.client client).states := by
  rw [exec_ownerNamed]
  cases hget : (s.client client).owners.get? name with
  | some no => exact ⟨no, s, rfl, .refl, hget, rfl⟩
  | none =>
    refine ⟨s.owners.nextNo, _, rfl, .single (.named seqid hget), ?_, ?_⟩
    · rw [client_withOwner, if_pos ⟨rfl, hclient⟩]
      exact (Table.get?_insert ..).trans (if_pos rfl)
    · rw [client_withOwner, if_pos ⟨rfl, hclient⟩]

/-- The lock state of a request is one of the client's by the time that it is used. -/
theorem lockStateFor_outcome (file : FileId) (locker : Locker) :
    (∃ e t, (lockStateFor client file locker).exec s = (.error e, t) ∧ Serving client s t) ∨
      ∃ no isNew t key, (lockStateFor client file locker).exec s = (.ok (no, isNew), t) ∧
        Serving client s t ∧ (t.client client).states.get? key = some no := by
  cases locker with
  | newOwner openId openSeqid name lockSeqid =>
    unfold lockStateFor makeLockState
    rw [exec_bind, exec_bind]
    rcases currentStateOf_cases client openId s with ⟨e, hexec⟩ | ⟨no, hget, hexec⟩
    · rw [hexec]
      exact .inl ⟨e, s, rfl, .refl⟩
    rw [hexec]
    dsimp only
    rw [exec_get_bind, exec_bind]
    rcases acceptSeqid_outcome openSeqid hget with ⟨e, hexec⟩ | ⟨t, hexec, hserves, hclients, _⟩
    · rw [hexec]
      exact .inl ⟨e, s, rfl, .refl⟩
    rw [hexec]
    dsimp only
    rw [← hclients] at hget
    -- the number is taken; next the owner is looked up or made, and then the state
    have hclient := lt_of_states_get? hget
    obtain ⟨owner, u, hexec, hserving, hname, hstates⟩ := ownerNamed_outcome hclient name lockSeqid
    rw [exec_bind, hexec]
    rw [← hstates] at hget
    have hclient' := lt_of_states_get? hget
    -- the new state is found under its key by whoever goes on
    have hnext := (get?_withHeld hclient' owner .byteLock (some no)
      (.unlockAll file ⟨(u.client client).id, name⟩) client
      ((u.client client).nextStateKey .byteLock)).trans (if_pos ⟨rfl, rfl⟩)
    refine .inr ⟨u.states.nextNo, true, _, _, ?_,
      (hserving.head hserves).tail (.derived file hget hname), hnext⟩
    rw [← (u.chain_withState client owner .byteLock (some no)).client_id_eq hclient']
    rfl
  | existing lockId lockSeqid =>
    unfold lockStateFor
    rw [exec_bind]
    rcases currentStateOf_cases client lockId s with ⟨e, hexec⟩ | ⟨no, hget, hexec⟩
    · rw [hexec]
      exact .inl ⟨e, s, rfl, .refl⟩
    rw [hexec]
    dsimp only
    rw [exec_get_bind, exec_bind]
    rcases acceptSeqid_outcome lockSeqid hget with ⟨e, hexec⟩ | ⟨t, hexec, hserves, hclients, _⟩
    · rw [hexec]
      exact .inl ⟨e, s, rfl, .refl⟩
    · rw [hexec]
      rw [← hclients] at hget
      exact .inr ⟨no, false, t, _, rfl, .single hserves, hget⟩

/-- The lock is granted and the state counts one more change, or a state made for it is released. -/
theorem serving_lockThrough (hs : s.Grounded) (file : FileId) (r : LockRequest) {no : StateNo}
    (isNew : Bool) {key : StateKey} (hget : (s.client client).states.get? key = some no) :
    Serving client s (s.after (lockThrough client file r no isNew)) := by
  rw [after_eq_exec]
  have houtcome := outcome_lockThrough client file r no isNew s
  generalize (lockThrough client file r no isNew).exec s = outcome at houtcome
  cases houtcome with
  | granted _ hlock => exact (Relation.ReflTransGen.single (.locked rfl hlock)).tail (.bumped hget)
  | refused => exact .refl
  | released =>
    exact .single (.released (releases_releaseState hs.descending hs.held client (s.state no).id))

/-- A lock, whatever comes of it, is a sequence of things that are done for the client. -/
theorem serving_lock (hs : s.Grounded) (client : ClientNo) (file : FileId) (r : LockRequest)
    (reclaim : Bool) (locker : Locker) :
    Serving client s (s.after (lock client file r reclaim locker)) := by
  rw [lock_eq]
  refine serving_bind .refl fun _ t hexec => ?_
  obtain rfl : s = t := congrArg Prod.snd hexec
  refine serving_bind ?_ fun _ t hexec => ?_
  · rw [after_eq_exec, eq_of_chain_nil (does_checkGrace client reclaim s)]
    exact .refl
  · obtain rfl : t = s := by
      rw [← eq_of_chain_nil (does_checkGrace client reclaim s), hexec]
    -- the checks leave the server, and the lease is renewed before anything is presented
    have hrenewed := serving_renewIfSessionless client t
    refine serving_bind hrenewed fun _ u hexec => ?_
    rw [after_of_exec hexec] at hrenewed
    have hu := hs.serving hrenewed
    rcases lockStateFor_outcome file locker with ⟨e, v, hexec, hserving⟩ | ⟨no, isNew, v, key, hexec, hserving, hget⟩
    · refine serving_bind ?_ fun _ w hok => ?_
      · rw [after_of_exec hexec]
        exact hserving
      · rw [hexec] at hok
        cases hok
    · refine serving_bind ?_ fun _ w hok => ?_
      · rw [after_of_exec hexec]
        exact hserving
      · rw [hexec] at hok
        cases hok
        exact serving_lockThrough (hu.serving hserving) file r isNew hget

/-- A range is given back by serving the client that asks. -/
theorem serving_unlock (client : ClientNo) (file : FileId) (lockId : StateId) (seqid : UInt32)
    (r : LockRequest) (s : Server) :
    Serving client s (s.after (unlock client file lockId seqid r)) := by
  unfold unlock
  refine serving_bind .refl fun _ t hexec => ?_
  obtain rfl : s = t := congrArg Prod.snd hexec
  refine serving_bind (serving_renewIfSessionless client s) fun _ t _ => ?_
  rw [after_eq_exec, exec_bind]
  rcases currentStateOf_cases client lockId t with ⟨e, hexec⟩ | ⟨no, hget, hexec⟩
  · rw [hexec]
    exact .refl
  rw [hexec]
  dsimp only
  rw [exec_get_bind, exec_bind]
  rcases acceptSeqid_outcome seqid hget with ⟨e, hexec⟩ | ⟨u, hexec, hserves, hclients, _⟩
  · rw [hexec]
    exact .refl
  rw [hexec]
  dsimp only
  -- the locks are those of the state's own owner, whatever file is named
  have howner : (lockOwnerOf client no).exec u =
      (.ok ⟨(u.client client).id, (u.owner (u.state no).owner).name⟩, u) := rfl
  rw [exec_bind, howner]
  dsimp only
  rw [exec_bind, exec_updateLocks]
  cases hcall : u.callLocks .unlock (·.unlockIfHeld file
      (r.toLock ⟨(u.client client).id, (u.owner (u.state no).owner).name⟩)) with
  | error e => exact .single hserves
  | ok locks =>
    rw [← hclients] at hget
    exact ((Relation.ReflTransGen.single hserves).tail
      (.unlocked rfl (callLocks_eq_ok hcall))).tail (.bumped hget)

theorem serving_testLock (client : ClientNo) (file : FileId) (owner : Bytes) (r : LockRequest)
    (s : Server) : Serving client s (s.after (testLock client file owner r)) := by
  unfold testLock
  refine serving_bind .refl fun _ t hexec => ?_
  obtain rfl : s = t := congrArg Prod.snd hexec
  refine serving_bind (serving_renewIfSessionless client s) fun _ t _ => ?_
  rw [after_eq_exec, exec_get_bind]
  dsimp only
  rw [exec_askLocks]
  exact .refl

theorem serving_nameOwner (client : ClientNo) (name : Bytes) (seqid : UInt32) (s : Server) :
    Serving client s (s.after (ownerNamed client name seqid)) := by
  rw [after_eq_exec, exec_ownerNamed]
  cases hget : (s.client client).owners.get? name with
  | some no => exact .refl
  | none => exact .single (.named seqid hget)

/-- A state is released by serving the client that holds it. -/
theorem serving_releaseState (hs : s.Grounded) (client : ClientNo) (id : StateId) :
    Serving client s (s.after (releaseState client id)) :=
  .single (.released (releases_releaseState hs.descending hs.held client id))

/-! ## Sessions -/

/-- A request that finds its client in the table serves that client, and changes nothing if it finds
none. -/
def ServesListed (id : ClientId) (s t : Server) : Prop :=
  t = s ∨ ∃ client, s.registered.get? id = some client ∧ Serving client s t

/-- A session is made for the client that is registered, if it asks in turn. -/
theorem serving_createSession (id : ClientId) (sequence : UInt32) (asked : ChannelAttributes)
    (s : Server) : ServesListed id s (s.after (createSession id sequence asked)) := by
  rw [after_eq_exec, exec_createSession]
  split
  · split
    · exact .inl rfl
    · rename_i client hget
      split
      · exact .inl rfl
      · exact .inr ⟨client, hget, (Relation.ReflTransGen.single (.sessionMade _ hget)).tail
          (.amended _ (by decide) (.revived _))⟩
  · exact .inl rfl

/-- A session is taken from its client, or nothing happens. -/
theorem exec_destroySession (id : SessionId) (connection : Connection) (s : Server) :
    s.after (destroySession id connection) = s ∨ ∃ client, s.registered.get? id.client = some client ∧
      s.after (destroySession id connection) =
        s.amendClient client fun c => { c with sessions := c.sessions.erase id } := by
  rw [after_eq_exec]
  unfold destroySession clientBySession sessionOf removeSession ensureRunning sessionOf
  simp only [exec_bind, exec_get]
  cases s.running with
  | false => exact .inl rfl
  | true =>
    cases hclient : s.registered.get? id.client with
    | none => simp [hclient]
    | some client =>
      cases hno : (s.client client).sessions.get? id with
      | none => simp [hclient, hno, exec_bind]
      | some no =>
        simp only [exec_pure, hclient, if_true, exec_bind, exec_get, hno]
        split
        · exact .inr ⟨client, rfl, by simp [exec_bind, hno]⟩
        · exact .inl rfl

theorem serving_destroySession (id : SessionId) (connection : Connection) (s : Server) :
    ServesListed id.client s (s.after (destroySession id connection)) := by
  rcases exec_destroySession id connection s with hsame | ⟨client, hget, hafter⟩
  · exact .inl hsame
  · rw [hafter]
    exact .inr ⟨client, hget, .single (.amended _ (by decide) (.sessionDropped _ id))⟩

/-- A request in a session serves the client that the session leads to. -/
theorem serving_sequence (id : SessionId) (slot seq operations : UInt32) (connection : Connection)
    (s : Server) :
    ServesListed id.client s (s.after (sequence id slot seq operations connection)) := by
  rw [after_eq_exec]
  rcases sequence_cases id slot seq operations connection s with
    ⟨e, hexec⟩ | ⟨client, no, _, hget, hsession, _, hvalid, houtcome⟩
  · rw [hexec]
    exact .inl rfl
  · refine .inr ⟨client, hget, ?_⟩
    have hused (t : Session) (answer : Except Error Admission)
        (h : (s.session no).acquire slot seq = (answer, t)) :
        Serves client s (s.amendSession no fun _ => t) := by
      have hslots := slotUsed_acquire (s.session no) slot seq
      rw [h] at hslots
      exact .sessionUsed _ (by decide) hsession hslots
    rcases houtcome with ⟨e, t, hacquire, hexec⟩ | ⟨admission, t, hacquire, hexec⟩
    · rw [hexec]
      exact .single (hused t _ hacquire)
    · rw [hexec]
      have hrenewed : Serves client (s.amendSession no fun _ => t)
          ((s.amendSession no fun _ => t).amendClient client (·.refreshLease s.now)) :=
        .amended _ (by decide) (.renewed _ hvalid)
      -- the renewal leaves the table of sessions as it is
      have hstill : (((s.amendSession no fun _ => t).amendClient client
          (·.refreshLease s.now)).client client).sessions.get? id = some no := by
        rw [client_amendClient]
        split
        · exact hsession
        · exact hsession
      have hbound : Serves client
          ((s.amendSession no fun _ => t).amendClient client (·.refreshLease s.now))
          (s.letThrough client no t connection) := by
        refine .sessionUsed (·.bindIfNone connection) (List.mem_cons_of_mem _ List.mem_cons_self)
          hstill ?_
        rw [bindIfNone_eq]
        exact .connected _ _
      exact ((Relation.ReflTransGen.single (hused t _ hacquire)).tail hrenewed).tail hbound

end Server

/-! ## Removals, sweeps, replacements and the end of the server -/

/-- What is done to the table, the store and the clock while clients end. -/
def Effect.housekeeping : List Effect :=
  [enrolled, unregistered, revived, recorded, graceClosed, stopped, passed, timerSet]

/-- Whether the action, which goes through the registry, may end clients. -/
def Action.mayEnd : Action → Bool
  | .register _ | .createClient _ | .removeClient _ | .sweep | .shutdown | .elapse _ => true
  | _ => false

/-- What has to be known of the parts of everything that ends clients. -/
structure KeepsEndings (I : Server → Prop) : Prop where
  grounded : ∀ {s : Server}, I s → s.Grounded
  update : ∀ e ∈ Effect.housekeeping, ∀ {s t}, Server.Update e s t → I s → I t
  client : ∀ {s t : Server} {strict : Bool} {client : ClientNo} {attempts : List Attempt}
    {answer : Except Error Unit}, Course (.client strict client) s attempts answer t → I s → I t

namespace KeepsEndings

open Server

variable {I : Server → Prop} {s t : Server} {client : ClientNo}

theorem chain {E : List Effect} (h : KeepsEndings I) (hchain : Chain E s t)
    (hE : ∀ e ∈ E, e ∈ Effect.housekeeping) (hs : I s) : I t :=
  hchain.preserve (fun he hupdate => h.update _ (hE _ he) hupdate) hs

theorem setStore (h : KeepsEndings I) (store : Recovery.Store) (hs : I s) : I { s with store } :=
  h.update _ (by decide) (.recorded s store) hs

theorem without (h : KeepsEndings I) (store : Recovery.Store) (hs : I s) :
    I (s.without client store) := by
  unfold Server.without
  refine h.setStore store ?_
  exact h.chain (does_unregister (E := [.unregistered]) List.mem_cons_self client s) (by decide) hs

/-- A removal keeps it, however far it gets. -/
theorem removes (h : KeepsEndings I) {id : ClientId} {attempts : List Attempt}
    {answer : Except Error Unit} (hremoves : s.Removes id attempts answer t) (hs : I s) : I t := by
  cases hremoves with
  | refused => exact hs
  | unknown => exact hs
  | kept _ _ hcourse => exact h.client hcourse hs
  | removed _ _ hcourse => exact h.without _ (h.client hcourse hs)
  | unforgotten _ _ hcourse => exact h.without _ (h.client hcourse hs)

/-- Evictions keep it, one after the other. -/
theorem evicts (h : KeepsEndings I) {clients : List ClientNo} (hevicts : Evicts clients s t)
    (hs : I s) : I t := by
  -- on those who are still to be evicted
  induction hevicts with
  | nil => exact hs
  | cons hcourse store _ ih => exact ih (h.without store (h.client hcourse hs))

theorem sweeps (h : KeepsEndings I) (hsweeps : s.Sweeps t) (hs : I s) : I t := by
  cases hsweeps with
  | idle => exact hs
  | swept _ _ hevicts => exact h.evicts hevicts hs

/-- A replacement takes the old client out, makes the new one, and ends the old one. -/
theorem replaces (h : KeepsEndings I) {r : Registration} (hreplaces : s.Replaces r t)
    (hs : I s) : I t := by
  have hmade (old : ClientNo) (needReclaim : Bool) : I ((s.unlist old).withClient r needReclaim) :=
    h.update _ (by decide) (.enrolled _ r needReclaim)
      (h.update _ (by decide) (.unregistered s _) hs)
  cases hreplaces with
  | recorded _ hcourse store => exact h.setStore store (h.client hcourse (hmade _ _))
  | unrecorded _ hcourse =>
    exact h.update _ (by decide) (.unregistered _ _) (h.client hcourse (hmade _ _))

theorem endsEach (h : KeepsEndings I) {clients : List ClientNo}
    (hends : EndsEach clients s t) (hs : I s) : I t := by
  -- on those who are still to end
  induction hends with
  | nil => exact hs
  | cons hcourse _ ih => exact ih (h.client hcourse hs)

/-- Everybody ends once the server has stopped. -/
theorem stops (h : KeepsEndings I) (hstops : s.Stops t) (hs : I s) : I t := by
  cases hstops with
  | idle => exact hs
  | stopped _ _ hends store =>
    exact h.setStore store (h.endsEach hends (h.update _ (by decide) (.stopped s) hs))

/-- What is kept while time passes is kept while the clock goes on. -/
theorem elapse (h : KeepsEndings I) (nanos : Nat) (hs : I s) : I (s.elapse nanos) := by
  refine elapse_keeps (h.update _ (by decide)) (h.update _ (by decide)) ?_ ?_ nanos hs
  · intro s hs
    have hgrounded := h.grounded hs
    exact h.sweeps (sweeps_sweep hgrounded.descending hgrounded.held) hs
  · exact keeps_of_does (E := [.graceClosed, .recorded]) (does_endGrace (by decide) (by decide))
      fun e he => h.update e (by revert e; decide)

/-- A registration ends the old client of its owner, or nobody. -/
theorem enrols (h : KeepsEndings I) (r : Registration) (reuse : Bool) (hs : I s) :
    I (s.after (enrol r reuse)) := by
  have hgrounded := h.grounded hs
  rcases enrol_cases hgrounded.descending hgrounded.held r reuse with hreplaces | hchain
  · exact h.replaces hreplaces hs
  · exact h.chain hchain (by decide) hs

/-- An action that may end clients keeps what the ends of clients keep. -/
theorem carryOut (h : KeepsEndings I) {a : Action} (ha : a.mayEnd = true) (hs : I s) :
    I (s.carryOut a) := by
  have hgrounded := h.grounded hs
  cases a with
  | register r => exact h.enrols r true hs
  | createClient r =>
    show I (s.after (createClient r))
    rw [after_createClient]
    exact h.enrols r false hs
  | removeClient id =>
    obtain ⟨attempts, hremoves⟩ := removes_removeClient hgrounded.descending hgrounded.held id
    exact h.removes hremoves hs
  | sweep => exact h.sweeps (sweeps_sweep hgrounded.descending hgrounded.held) hs
  | shutdown => exact h.stops (stops_shutdown hgrounded.descending hgrounded.held) hs
  | elapse nanos => exact h.elapse nanos hs
  | _ => cases ha

end KeepsEndings

/-! ## Whatever happens -/

/-- What has to be known of the parts of whatever happens. -/
structure KeepsHappenings (P : Server → Action → Prop) (I : Server → Prop) : Prop where
  grounded : ∀ {s : Server}, I s → s.Grounded
  update : ∀ e ∈ Effect.administering ++ [.recorded, .faultsSet, .openForgotten],
    ∀ {s t}, Server.Update e s t → I s → I t
  client : ∀ {s t : Server} {strict : Bool} {client : ClientNo} {attempts : List Attempt}
    {answer : Except Error Unit}, Course (.client strict client) s attempts answer t → I s → I t
  serves : ∀ {s t : Server} {client : ClientNo}, client.value < s.clients.size →
    s.Serves client t → I s → I t
  opened : ∀ {s : Server} {client : ClientNo} {owner : OwnerNo} {file : FileId} {access deny : UInt32}
    {mode : ShareMode}, P s (.openFile client owner file access deny) →
      client.value < s.clients.size → owner.value < s.owners.size →
        s.opens.conflict? file s.leaseValid (s.client client).id (s.owner owner).name mode = none →
          s.opens.openOf? file (s.client client).id (s.owner owner).name = none → I s →
            I (s.withOpen client owner file mode)
  observed : ∀ {s : Server} (no : StateNo) (label : String) (refusals : Nat), I s →
    I (s.amendState no (·.owe (.notify label refusals)))
  calledBack : ∀ {s : Server} (client : ClientNo) (hasCallback : Bool), I s →
    I (s.amendClient client ({ · with hasCallback }))

namespace KeepsHappenings

open Server

variable {P : Server → Action → Prop} {I : Server → Prop} {s t : Server} {client : ClientNo}

theorem serving (h : KeepsHappenings P I) (hserving : Serving client s t)
    (hclient : client.value < s.clients.size) (hs : I s) : I t := by
  have hkept : I t ∧ client.value < t.clients.size := by
    induction hserving with
    | refl => exact ⟨hs, hclient⟩
    | tail _ hlast ih => exact ⟨h.serves ih.2 hlast ih.1, Nat.lt_of_lt_of_le ih.2 hlast.chain.clients_size_le⟩
  exact hkept.1

theorem chain {E : List Effect} (h : KeepsHappenings P I) (hchain : Chain E s t)
    (hE : ∀ e ∈ E, e ∈ Effect.administering ++ [.recorded, .faultsSet, .openForgotten])
    (hs : I s) : I t :=
  hchain.preserve (fun he hupdate => h.update _ (hE _ he) hupdate) hs

/-- Whatever keeps the parts of all that happens keeps those of the end of clients. -/
theorem endings (h : KeepsHappenings P I) : KeepsEndings I where
  grounded := h.grounded
  update e he := h.update e (by revert e; decide)
  client := h.client

/-- An action that is served keeps what its parts keep. -/
theorem action (h : KeepsHappenings P I) {a : Action} (hP : P s a) (ha : a.served = true)
    (hs : I s) : I (s.perform a) := by
  have hgrounded := h.grounded hs
  unfold Server.perform
  split
  · rename_i hknown
    have hchain (hE : ∀ e ∈ a.effects,
        e ∈ Effect.administering ++ [.recorded, .faultsSet, .openForgotten]) : I (s.carryOut a) :=
      h.chain (chain_carryOut s a hknown) hE hs
    have hends (hmay : a.mayEnd = true) : I (s.carryOut a) := h.endings.carryOut hmay hs
    -- what ends somebody or is done for a client is one of the parts; all else is a chain
    cases a with
    | register => exact hends rfl
    | createClient => exact hends rfl
    | removeClient => exact hends rfl
    | sweep => exact hends rfl
    | shutdown => exact hends rfl
    | elapse => exact hends rfl
    | nameOwner client name seqid =>
      exact h.serving (serving_nameOwner client name seqid s) (of_decide_eq_true hknown) hs
    | releaseOwner client name =>
      exact h.serves (of_decide_eq_true hknown) (.unnamed name) hs
    | releaseState client id =>
      exact h.serving (serving_releaseState hgrounded client id) (of_decide_eq_true hknown) hs
    | openFile client owner file access deny =>
      rw [Action.known, Bool.and_eq_true] at hknown
      have hclient := of_decide_eq_true hknown.1
      rcases openFile_outcome hclient owner file access deny with hsame | hserves |
        ⟨mode, hcheck, hnone, hadded⟩
      · show I (s.after _)
        rw [hsame]
        exact hs
      · exact h.serves hclient hserves hs
      · show I (s.after _)
        rw [hadded]
        exact h.opened hP hclient (of_decide_eq_true hknown.2) hcheck hnone hs
    | downgrade client id file access deny =>
      exact h.serving (serving_downgrade client id file access deny s) (of_decide_eq_true hknown) hs
    | lock client file r reclaim locker =>
      exact h.serving (serving_lock hgrounded client file r reclaim locker)
        (of_decide_eq_true hknown) hs
    | unlock client file lockId seqid r =>
      exact h.serving (serving_unlock client file lockId seqid r s) (of_decide_eq_true hknown) hs
    | enter => cases ha
    | endClient => cases ha
    | endClientLeniently => cases ha
    | _ => exact hchain (by dsimp only [Action.effects]; decide)
  · exact hs

/-- Whatever happens keeps what its parts keep. -/
theorem keeps (h : KeepsHappenings P I) (hP : ∀ s a, P s a → a.served = true)
    (hhappens : Happens P s t) (hs : I s) : I t := by
  cases hhappens with
  | performed hallowed => exact h.action hallowed (hP _ _ hallowed) hs
  | released hreleases =>
    cases hreleases with
    | unknown => exact hs
    | kept hget hcourse => exact h.serves (lt_of_states_get? hget) (.released (.kept hget hcourse)) hs
    | released hget hcourse =>
      exact h.serves (lt_of_states_get? hget) (.released (.released hget hcourse)) hs
  | removed hremoves => exact h.endings.removes hremoves hs
  | swept hsweeps => exact h.endings.sweeps hsweeps hs
  | replaced hreplaces => exact h.endings.replaces hreplaces hs
  | stopped hstops => exact h.endings.stops hstops hs
  | passed hlater sweepDue graceDue =>
    exact h.update .timerSet (by decide) (.timerSet _ sweepDue graceDue)
      (h.update _ (by decide) (.passed s _ hlater) hs)
  | observed no label refusals => exact h.observed no label refusals hs
  | calledBack client hasCallback => exact h.calledBack client hasCallback hs

/-- Every run keeps what is kept whatever happens. -/
theorem run (h : KeepsHappenings P I) (hP : ∀ s a, P s a → a.served = true) (hrun : Run P s t)
    (hs : I s) : I t := by
  induction hrun with
  | refl => exact hs
  | tail _ hlast ih => exact h.keeps hP hlast ih

/-- What every update keeps that makes no record outside the table, and what has nothing to do with
opens and callbacks, is kept beside all else. -/
theorem beside {J : Server → Prop} (h : KeepsHappenings P I)
    (hupdate : ∀ {e s t}, e ≠ .entered → Update e s t → J s → J t)
    (hopens : ∀ {s} (opens : OpenTable), J s → J { s with opens })
    (hcalledBack : ∀ {s} (client : ClientNo) (hasCallback : Bool), J s →
      J (s.amendClient client ({ · with hasCallback }))) :
    KeepsHappenings P fun s => I s ∧ J s where
  grounded hs := h.grounded hs.1
  update e he _ _ hstep hs := by
    have hall : ∀ e ∈ Effect.administering ++ [.recorded, .faultsSet, .openForgotten],
        e ≠ .entered := by decide
    exact ⟨h.update e he hstep hs.1, hupdate (hall e he) hstep hs.2⟩
  client hcourse hs := by
    have hall : ∀ e ∈ Effect.ending, e ≠ .entered := by decide
    exact ⟨h.client hcourse hs.1,
      hcourse.chain_ending.preserve (fun he hstep => hupdate (hall _ he) hstep) hs.2⟩
  serves hclient hserves hs := by
    have hall : ∀ e ∈ Effect.serving, e ≠ .entered := by decide
    exact ⟨h.serves hclient hserves hs.1,
      hserves.chain.preserve (fun he hstep => hupdate (hall _ he) hstep) hs.2⟩
  opened hP hclient howner hcheck hnone hs := by
    -- an open is a state made by updates, and an entry in the table of opens
    have hall : ∀ e ∈ Effect.making, e ≠ .entered := by decide
    refine ⟨h.opened hP hclient howner hcheck hnone hs.1, hopens _ ?_⟩
    exact (chain_making ..).preserve (fun he hstep => hupdate (hall _ he) hstep) hs.2
  observed no label refusals hs :=
    ⟨h.observed no label refusals hs.1,
      hupdate (by decide) (.stateAmended _ no _ fun _ => ⟨rfl, rfl, rfl⟩) hs.2⟩
  calledBack client hasCallback hs :=
    ⟨h.calledBack client hasCallback hs.1, hcalledBack client hasCallback hs.2⟩

end KeepsHappenings

namespace Server

variable {s : Server}

/-- Whether a client can be called back is all that changes. -/
theorem client_calledBack {γ : Type} (f : Client → γ) (hf : ∀ c b, f { c with hasCallback := b } = f c)
    (s : Server) (client : ClientNo) (hasCallback : Bool) (no : ClientNo) :
    f ((s.amendClient client ({ · with hasCallback })).client no) = f (s.client no) := by
  rw [client_amendClient]
  split
  · exact hf _ _
  · rfl

theorem Grounded.calledBack (hs : s.Grounded) (client : ClientNo) (hasCallback : Bool) :
    (s.amendClient client ({ · with hasCallback })).Grounded := by
  refine ⟨fun c key no hget => ?_, hs.descending⟩
  rw [client_calledBack Client.states fun _ _ => rfl] at hget
  rw [client_calledBack Client.id fun _ _ => rfl]
  exact hs.held c key no hget

theorem Grounded.observed (hs : s.Grounded) (no : StateNo) (label : String) (refusals : Nat) :
    (s.amendState no (·.owe (.notify label refusals))).Grounded := by
  refine hs.amendState (fun _ => ⟨rfl, rfl, rfl⟩) fun younger client hmem => ?_
  rcases List.mem_append.1 hmem with hold | hnew
  · exact hs.descending no younger client hold
  · cases List.mem_singleton.1 hnew

/-- Whatever happens, tables lead to the states that bear their keys. -/
theorem keepsHappenings_grounded (P : Server → Action → Prop) : KeepsHappenings P Grounded where
  grounded := id
  update e he _ _ h hs := by
    have hall : ∀ e ∈ Effect.administering ++ [.recorded, .faultsSet, .openForgotten],
        e ∉ [Effect.stateMade, .stateAmended, .attached] := by decide
    exact grounded_update h (hall e he) hs
  client h hs := hs.course h trivial
  serves _ h hs := hs.serves h
  opened _ hclient _ _ _ hs := hs.withOpen hclient _ _ _
  observed no label refusals hs := hs.observed no label refusals
  calledBack client hasCallback hs := hs.calledBack client hasCallback

theorem grounded_start (timers : Bool) (config : Config) (store : Recovery.Store)
    (wall : WallTime) (now : Nat) : (start timers config store wall now).Grounded := by
  have htracked := tracked_start timers config store wall now
  refine ⟨htracked.held, fun no younger client hmem => ?_⟩
  have hno := lt_of_mem_owed hmem
  obtain ⟨sweepDue, graceDue, hstart⟩ := start_eq timers config store wall now
  rw [hstart] at hno
  exact absurd hno (Nat.not_lt_zero _)

end Server

end Leasehold

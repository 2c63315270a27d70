import Leasehold.Proofs.StateIdentity

/-!
# Proofs.StateMaking — how states come about

A state is made for an open, or derived from one for the locks of a lock owner. It
is recorded, attached to its client under the next key of the client, and made to
owe the step with which it ends; a derived one is from then on owed by its open.

* `Request.exec_createState`, `Request.exec_ownerNamed` — what making a state and
  naming an owner come to;
* `Server.state_withHeld_new`, `Server.state_withHeld_old` — what is on record once
  the new state owes its step;
* `Request.makeLockState_cases`, `Request.openFile_cases`, `Request.lock_cases` — what
  becomes of the requests that make states;
* `Server.tracked_performAll` — what is known of keys and names is kept by every run
  in which no record is made outside the table.
-/

namespace Leasehold

/-! ## Making states and naming owners -/

/-- The key of a client's next state. -/
def Client.nextStateKey (c : Client) (kind : StateKind) : StateKey :=
  .ofParts c.id (c.stateCounter + 1) kind

namespace Server

/-- The server with one more state of a client. -/
def withState (s : Server) (client : ClientNo) (owner : OwnerNo) (kind : StateKind)
    (parent : Option StateNo) : Server :=
  let made := (s.client client).nextStateId kind
  let t := s.amendClient client fun _ => made.2
  ({ t with
      states := t.states.add { HeldState.new made.1 owner parent with
        confirmed := (t.client client).isSessionBased } }).amendClient client
    (·.attach made.1.key s.states.nextNo)

/-- The server with one more owner of a client, under a name. -/
def withOwner (s : Server) (client : ClientNo) (name : Bytes) (seqid : UInt32) : Server :=
  let c := s.client client
  ({ s with owners := s.owners.add ⟨c.id, name, c.isSessionBased, seqid⟩ }).amendClient client
    fun c => { c with owners := c.owners.insert name s.owners.nextNo }

end Server

namespace Request

/-- A state that is asked for is always made. -/
theorem exec_createState (client : ClientNo) (owner : OwnerNo) (kind : StateKind)
    (parent : Option StateNo) (s : Server) :
    (createState client owner kind parent).exec s =
      (.ok s.states.nextNo, s.withState client owner kind parent) := rfl

/-- An owner is made only if the client has no name for it. -/
theorem exec_ownerNamed (client : ClientNo) (name : Bytes) (seqid : UInt32) (s : Server) :
    (ownerNamed client name seqid).exec s = match (s.client client).owners.get? name with
      | some no => (.ok no, s)
      | none => (.ok s.owners.nextNo, s.withOwner client name seqid) := by
  unfold ownerNamed
  rw [exec_get_bind]
  cases (s.client client).owners.get? name with
  | some no => rfl
  | none => rfl

/-- A state is found under its key, and compared with the identifier. -/
theorem exec_currentStateOf (client : ClientNo) (id : StateId) (s : Server) :
    (currentStateOf client id).exec s = match (s.client client).states.get? id.key with
      | none => (.error (.badStateId id), s)
      | some no => match (s.state no).id.check id with
        | .ok _ => (.ok no, s)
        | .error e => (.error e, s) := by
  unfold currentStateOf stateOf
  rw [exec_bind, exec_get_bind]
  cases (s.client client).states.get? id.key with
  | none => rfl
  | some no =>
    dsimp only
    rw [exec_pure]
    dsimp only
    rw [exec_get_bind, exec_bind, exec_ofExcept]
    cases (s.state no).id.check id with
    | error e => rfl
    | ok _ => rfl

/-- The owner takes the number, or the request is refused. -/
theorem exec_acceptSeqid (no : OwnerNo) (seqid : UInt32) (s : Server) :
    (acceptSeqid no seqid).exec s = match (s.owner no).accept seqid with
      | .ok owner => (.ok (), s.amendOwner no fun _ => owner)
      | .error e => (.error e, s) := by
  unfold acceptSeqid
  rw [exec_get_bind, exec_bind, exec_ofExcept]
  cases (s.owner no).accept seqid with
  | ok owner => rfl
  | error e => rfl

end Request

namespace Server

variable {e : Effect} {s t : Server} {client : ClientNo} {owner : OwnerNo} {kind : StateKind}
  {parent : Option StateNo}

/-- A new state is attached to its client under the next key, and counted. -/
theorem client_withState (hclient : client.value < s.clients.size) (owner : OwnerNo)
    (kind : StateKind) (parent : Option StateNo) (other : ClientNo) :
    (s.withState client owner kind parent).client other =
      if other = client then { s.client client with
        stateCounter := (s.client client).stateCounter + 1
        states := (s.client client).states.insert ((s.client client).nextStateKey kind)
          s.states.nextNo }
      else s.client other := by
  -- the counter is written first, then the table; both on the same record
  have hsize : client.value < (s.amendClient client fun _ =>
      ((s.client client).nextStateId kind).2).clients.size :=
    Nat.lt_of_lt_of_eq hclient (Ledger.size_modify ..).symm
  refine (client_amendClient _ client _ other).trans ?_
  by_cases hother : other = client
  · rw [if_pos ⟨hother, hsize⟩, if_pos hother, hother]
    refine (congrArg (Client.attach · _ _) (client_amendClient s client _ client)).trans ?_
    rw [if_pos ⟨rfl, hclient⟩]
    rfl
  · rw [if_neg fun h => hother h.1, if_neg hother]
    refine (client_amendClient s client _ other).trans ?_
    rw [if_neg fun h => hother h.1]

theorem clients_size_withState (s : Server) (client : ClientNo) (owner : OwnerNo)
    (kind : StateKind) (parent : Option StateNo) :
    (s.withState client owner kind parent).clients.size = s.clients.size := by
  refine (Ledger.size_modify ..).trans ?_
  exact Ledger.size_modify ..

theorem states_size_withState (s : Server) (client : ClientNo) (owner : OwnerNo)
    (kind : StateKind) (parent : Option StateNo) :
    (s.withState client owner kind parent).states.size = s.states.size + 1 :=
  Ledger.size_add ..

/-- A new state takes the next number; the earlier ones stay. -/
theorem state_withState (hclient : client.value < s.clients.size) (owner : OwnerNo)
    (kind : StateKind) (parent : Option StateNo) (no : StateNo) :
    (s.withState client owner kind parent).state no =
      if no = s.states.nextNo then
        { HeldState.new ⟨(s.client client).nextStateKey kind, 0⟩ owner parent with
          confirmed := (s.client client).isSessionBased }
      else s.state no := by
  have hcounted : (s.amendClient client fun _ => ((s.client client).nextStateId kind).2).client
      client = ((s.client client).nextStateId kind).2 := by
    rw [client_amendClient, if_pos ⟨rfl, hclient⟩]
  unfold withState
  dsimp only
  rw [hcounted]
  exact Ledger.get_add ..

/-- A new owner is named on the record of its client. -/
theorem client_withOwner (s : Server) (client : ClientNo) (name : Bytes) (seqid : UInt32)
    (other : ClientNo) :
    (s.withOwner client name seqid).client other =
      if other = client ∧ client.value < s.clients.size then
        { s.client other with owners := (s.client other).owners.insert name s.owners.nextNo }
      else s.client other :=
  Ledger.get_modify ..

theorem owners_size_withOwner (s : Server) (client : ClientNo) (name : Bytes) (seqid : UInt32) :
    (s.withOwner client name seqid).owners.size = s.owners.size + 1 :=
  Ledger.size_add ..

/-- A new owner is of the client's kind. -/
theorem owner_withOwner (s : Server) (client : ClientNo) (name : Bytes) (seqid : UInt32)
    (no : OwnerNo) :
    (s.withOwner client name seqid).owner no =
      if no = s.owners.nextNo then
        ⟨(s.client client).id, name, (s.client client).isSessionBased, seqid⟩
      else s.owner no :=
  Ledger.get_add ..

/-! ## What new states and owners keep of them -/

/-- A new state is counted, recorded and attached, and nothing else. -/
theorem chain_withState (s : Server) (client : ClientNo) (owner : OwnerNo) (kind : StateKind)
    (parent : Option StateNo) : Chain Effect.making s (s.withState client owner kind parent) := by
  have hdoes := Request.does_createState (List.Subset.refl _) client owner kind parent s
  exact Request.chain_of_exec hdoes (Request.exec_createState client owner kind parent s)

/-- Attached states are recorded ones, the new one included. -/
theorem held_withState (hs : s.Held) (hclient : client.value < s.clients.size) (owner : OwnerNo)
    (kind : StateKind) (parent : Option StateNo) :
    (s.withState client owner kind parent).Held := by
  have hid {c : ClientNo} (hc : c.value < s.clients.size) :=
    (s.chain_withState client owner kind parent).client_id_eq hc
  intro c key no hget
  rw [states_size_withState, state_withState hclient]
  -- an entry from before is for an older state
  have hold (hget : (s.client c).states.get? key = some no) :
      no.value < s.states.size + 1 ∧
        (if no = s.states.nextNo then { HeldState.new ⟨(s.client client).nextStateKey kind, 0⟩ owner
            parent with confirmed := (s.client client).isSessionBased }
          else s.state no).id.key = key ∧
        key.client = ((s.withState client owner kind parent).client c).id := by
    obtain ⟨hno, hkey, hsame⟩ := hs c key no hget
    rw [if_neg (Ledger.ne_nextNo hno), hid (lt_of_states_get? hget)]
    exact ⟨Nat.lt_succ_of_lt hno, hkey, hsame⟩
  by_cases hc : c = client
  · subst hc
    rw [client_withState hclient, if_pos rfl] at hget
    dsimp only at hget
    rw [Table.get?_insert] at hget
    split at hget
    · rename_i hkey
      injection hget with hget
      subst hget hkey
      rw [if_pos rfl, hid hclient]
      exact ⟨Nat.lt_succ_self _, rfl, rfl⟩
    · exact hold hget
  · rw [client_withState hclient, if_neg hc] at hget
    exact hold hget

/-- The identifier of the client has one more state to its name. -/
theorem statesOf_withState (hclient : client.value < s.clients.size) (owner : OwnerNo)
    (kind : StateKind) (parent : Option StateNo) (id : ClientId) :
    (s.withState client owner kind parent).statesOf id =
      s.statesOf id + if (s.client client).id = id then 1 else 0 := by
  have hbefore : (s.withState client owner kind parent).statesBefore id s.states.size =
      s.statesBefore id s.states.size := by
    refine statesBefore_congr (fun no hno => ?_) id
    rw [state_withState hclient, if_neg (Ledger.ne_nextNo hno)]
  unfold statesOf
  rw [states_size_withState, statesBefore_succ, hbefore, state_withState hclient,
    if_pos (show (⟨s.states.size⟩ : StateNo) = s.states.nextNo from rfl)]
  rfl

/-- The keys of states stay apart as long as the counter does not come round. -/
theorem keyed_withState (hs : s.Keyed) (hnumbered : s.Numbered)
    (hbound : s.clients.size < 0x100_0000) (hclient : client.value < s.clients.size)
    (owner : OwnerNo) (kind : StateKind) (parent : Option StateNo) :
    (s.withState client owner kind parent).Keyed := by
  have hsize := s.clients_size_withState client owner kind parent
  have hid {c : ClientNo} (hc : c.value < s.clients.size) :=
    (s.chain_withState client owner kind parent).client_id_eq hc
  have hbefore (id : ClientId) {n : Nat} (hn : n ≤ s.states.size) :
      (s.withState client owner kind parent).statesBefore id n = s.statesBefore id n := by
    refine statesBefore_congr (fun no hno => ?_) id
    rw [state_withState hclient, if_neg (Ledger.ne_nextNo (Nat.lt_of_lt_of_le hno hn))]
  constructor
  · intro no hno
    rw [state_withState hclient]
    split
    · exact ⟨client, Nat.lt_of_lt_of_eq hclient hsize.symm, (hid hclient).symm⟩
    · rename_i hne
      rw [states_size_withState] at hno
      obtain ⟨c, hc, hsame⟩ := hs.owned no (Ledger.lt_of_ne_nextNo hno hne)
      exact ⟨c, Nat.lt_of_lt_of_eq hc hsize.symm, hsame.trans (hid hc).symm⟩
  · intro no hno
    rw [state_withState hclient]
    split
    -- the counter of the client says how many states it has made
    · rename_i hnew
      refine ⟨kind, ?_⟩
      rw [hnew]
      show StateKey.ofParts (s.client client).id ((s.client client).stateCounter + 1) kind =
        .ofParts (s.client client).id (UInt32.ofNat
          ((s.withState client owner kind parent).statesBefore (s.client client).id s.states.size + 1))
          kind
      rw [hbefore _ (Nat.le_refl _), hs.counter client hclient]
      exact congrArg (StateKey.ofParts _ · kind) (UInt32.ofNat_add _ 1).symm
    · rename_i hne
      rw [states_size_withState] at hno
      have hold := Ledger.lt_of_ne_nextNo hno hne
      rw [hbefore _ (Nat.le_of_lt hold)]
      exact hs.numbered no hold
  · intro c hc
    rw [hsize] at hc
    rw [hid hc, statesOf_withState hclient, client_withState hclient]
    by_cases hsame : c = client
    · rw [if_pos hsame, hsame, if_pos rfl]
      show (s.client client).stateCounter + 1 = _
      rw [hs.counter client hclient]
      exact (UInt32.ofNat_add _ 1).symm
    -- the count of another client stays, for its identifier is another one
    · have hother : (s.client client).id ≠ (s.client c).id := fun heq =>
        hsame (hnumbered.client_ext hbound hc hclient heq.symm)
      rw [if_neg hsame, if_neg hother]
      exact hs.counter c hc

/-- With a new state, everything is in its place. -/
theorem tracked_withState (hs : s.Tracked) (hclient : client.value < s.clients.size)
    (owner : OwnerNo) (kind : StateKind) (parent : Option StateNo) :
    (s.withState client owner kind parent).Tracked := by
  have hchain := s.chain_withState client owner kind parent
  have hmaking : ∀ e ∈ Effect.making, e ≠ .entered ∧ e ≠ .openAdded ∧ e ≠ .ownersNamed := by decide
  constructor
  · exact hchain.preserve (fun he h => numbered_update h (hmaking _ he).1) hs.numbered
  · exact held_withState hs.held hclient owner kind parent
  · exact hchain.preserve (fun he h => opened_update h (hmaking _ he).2.1) hs.opened
  · exact hchain.preserve (fun he h => named_update h (hmaking _ he).2.2) hs.named
  · intro hbound
    rw [clients_size_withState] at hbound
    exact keyed_withState (hs.keyed hbound) hs.numbered hbound hclient owner kind parent

theorem chain_withOwner (s : Server) (client : ClientNo) (name : Bytes) (seqid : UInt32) :
    Chain [.ownerMade, .ownersNamed] s (s.withOwner client name seqid) := by
  have hmade := Update.ownerMade s
    ⟨(s.client client).id, name, (s.client client).isSessionBased, seqid⟩
  exact (Chain.single (by decide) hmade).trans
    (.single (by decide) (.client _ client _ (.ownersNamed _ _)))

/-- With a new owner, names stand for recorded owners. -/
theorem named_withOwner (hs : s.Named) (client : ClientNo) (name : Bytes) (seqid : UInt32) :
    (s.withOwner client name seqid).Named := by
  intro c other no hget
  rw [owners_size_withOwner, owner_withOwner]
  -- an entry from before is for an older owner
  have hold (hget : (s.client c).owners.get? other = some no) :
      no.value < s.owners.size + 1 ∧ (if no = s.owners.nextNo then
        ⟨(s.client client).id, name, (s.client client).isSessionBased, seqid⟩
      else s.owner no).name = other := by
    obtain ⟨hno, hname⟩ := hs c other no hget
    rw [if_neg (Ledger.ne_nextNo hno)]
    exact ⟨Nat.lt_succ_of_lt hno, hname⟩
  rw [client_withOwner] at hget
  split at hget
  · rw [Table.get?_insert] at hget
    split at hget
    · rename_i hname
      injection hget with hget
      subst hget
      rw [if_pos rfl]
      exact ⟨Nat.lt_succ_self _, hname⟩
    · exact hold hget
  · exact hold hget

/-- The server with one more state of a client, which owes a step; if it is derived from another
one, that one owes its end. -/
def withHeld (s : Server) (client : ClientNo) (owner : OwnerNo) (kind : StateKind)
    (parent : Option StateNo) (step : ReleaseStep) : Server :=
  let t := (s.withState client owner kind parent).amendState s.states.nextNo (·.owe step)
  match parent with
  | none => t
  | some no => t.amendState no (·.owe (.endDerived s.states.nextNo client))

theorem states_size_withHeld (s : Server) (client : ClientNo) (owner : OwnerNo) (kind : StateKind)
    (parent : Option StateNo) (step : ReleaseStep) :
    (s.withHeld client owner kind parent step).states.size = s.states.size + 1 := by
  rw [← s.states_size_withState client owner kind parent]
  cases parent with
  | none => exact Ledger.size_modify ..
  | some no => exact (Ledger.size_modify ..).trans (Ledger.size_modify ..)

theorem nextNo_lt_withHeld (s : Server) (client : ClientNo) (owner : OwnerNo) (kind : StateKind)
    (parent : Option StateNo) (step : ReleaseStep) :
    s.states.nextNo.value < (s.withHeld client owner kind parent step).states.size := by
  rw [states_size_withHeld]
  exact Nat.lt_succ_self _

/-- A state is the new one, or was there before. -/
theorem eq_or_lt_of_lt_withHeld {step : ReleaseStep} {no : StateNo}
    (hno : no.value < (s.withHeld client owner kind parent step).states.size) :
    no = s.states.nextNo ∨ no.value < s.states.size := by
  rw [states_size_withHeld] at hno
  exact (Decidable.em _).imp_right (Ledger.lt_of_ne_nextNo hno)

/-- What the new state and its parent owe is not on the record of the client. -/
theorem client_withHeld (s : Server) (client : ClientNo) (owner : OwnerNo) (kind : StateKind)
    (parent : Option StateNo) (step : ReleaseStep) (other : ClientNo) :
    (s.withHeld client owner kind parent step).client other =
      (s.withState client owner kind parent).client other := by
  cases parent with
  | none => rfl
  | some no => rfl

/-- Nothing but the records of clients and states is touched. -/
theorem withState_eq (s : Server) (client : ClientNo) (owner : OwnerNo) (kind : StateKind)
    (parent : Option StateNo) :
    ∃ clients states, s.withState client owner kind parent = { s with clients, states } := by
  unfold withState amendClient
  exact ⟨_, _, rfl⟩

/-- Owners, opens and locks stay as they are when a state is made. -/
theorem rest_withHeld (s : Server) (client : ClientNo) (owner : OwnerNo) (kind : StateKind)
    (parent : Option StateNo) (step : ReleaseStep) :
    (s.withHeld client owner kind parent step).owners = s.owners ∧
      (s.withHeld client owner kind parent step).opens = s.opens ∧
      (s.withHeld client owner kind parent step).locks = s.locks ∧
      (s.withHeld client owner kind parent step).faults = s.faults := by
  obtain ⟨clients, states, h⟩ := s.withState_eq client owner kind parent
  unfold withHeld
  rw [h]
  cases parent with
  | none => exact ⟨rfl, rfl, rfl, rfl⟩
  | some no => exact ⟨rfl, rfl, rfl, rfl⟩

/-- The new state owes one step. -/
theorem state_withHeld_new (hclient : client.value < s.clients.size) (owner : OwnerNo)
    (kind : StateKind) (hparent : parent ≠ some s.states.nextNo) (step : ReleaseStep) :
    (s.withHeld client owner kind parent step).state s.states.nextNo =
      { HeldState.new ⟨(s.client client).nextStateKey kind, 0⟩ owner parent with
        confirmed := (s.client client).isSessionBased, owed := [step] } := by
  have hnew : s.states.nextNo.value < (s.withState client owner kind parent).states.size := by
    rw [states_size_withState]
    exact Nat.lt_succ_self _
  -- before the parent is told, which is another state
  have howed : ((s.withState client owner kind parent).amendState s.states.nextNo
      (·.owe step)).state s.states.nextNo = { HeldState.new ⟨(s.client client).nextStateKey kind, 0⟩
        owner parent with confirmed := (s.client client).isSessionBased, owed := [step] } := by
    rw [state_amendState, if_pos ⟨rfl, hnew⟩, state_withState hclient, if_pos rfl]
    rfl
  cases parent with
  | none => exact howed
  | some no =>
    refine (state_amendState ..).trans ?_
    rw [if_neg fun h => hparent (congrArg some h.1.symm)]
    exact howed

/-- A state from before stays as it was, but that one from which the new state is derived owes its
end. -/
theorem state_withHeld_old (hclient : client.value < s.clients.size) (owner : OwnerNo)
    (kind : StateKind) (parent : Option StateNo) (step : ReleaseStep) {no : StateNo}
    (hno : no.value < s.states.size) :
    (s.withHeld client owner kind parent step).state no = { s.state no with
      owed := (s.state no).owed ++
        if parent = some no then [.endDerived s.states.nextNo client] else [] } := by
  have hne := Ledger.ne_nextNo hno
  -- what the new state owes is not written on an older one
  have hsame : ((s.withState client owner kind parent).amendState s.states.nextNo
      (·.owe step)).state no = s.state no := by
    rw [state_amendState, if_neg fun h => hne h.1, state_withState hclient, if_neg hne]
  cases parent with
  | none =>
    rw [if_neg nofun, List.append_nil]
    exact hsame
  | some parent =>
    refine (state_amendState ..).trans ?_
    rw [hsame]
    by_cases hparent : no = parent
    · have hmade : parent.value < ((s.withState client owner kind (some parent)).amendState
          s.states.nextNo (·.owe step)).states.size := by
        refine Nat.lt_of_lt_of_eq ?_ (Ledger.size_modify ..).symm
        rw [states_size_withState, ← hparent]
        exact Nat.lt_succ_of_lt hno
      rw [if_pos ⟨hparent, hmade⟩, if_pos (congrArg some hparent.symm)]
      rfl
    · rw [if_neg fun h => hparent h.1, if_neg fun h => hparent (Option.some.inj h).symm,
        List.append_nil]

/-- The client has the new state under its key, and everything else as before. -/
theorem get?_withHeld (hclient : client.value < s.clients.size) (owner : OwnerNo)
    (kind : StateKind) (parent : Option StateNo) (step : ReleaseStep) (c : ClientNo)
    (key : StateKey) :
    ((s.withHeld client owner kind parent step).client c).states.get? key =
      if c = client ∧ (s.client client).nextStateKey kind = key then some s.states.nextNo
      else (s.client c).states.get? key := by
  rw [client_withHeld, client_withState hclient]
  by_cases hc : c = client
  · rw [if_pos hc, Table.get?_insert, hc]
    simp only [true_and]
  · rw [if_neg hc, if_neg fun h => hc h.1]

/-- Only states that were made owe something. -/
theorem lt_of_mem_owed {no : StateNo} {step : ReleaseStep} (h : step ∈ (s.state no).owed) : no.value < s.states.size := by
  refine Nat.lt_of_not_le fun hnone => ?_
  unfold state Ledger.get at h
  rw [Array.getElem?_eq_none hnone] at h
  cases h

/-- What a state owes after it, it owed before, or it comes with the new state. -/
theorem owed_withHeld (hclient : client.value < s.clients.size)
    (hparent : parent ≠ some s.states.nextNo) {step step' : ReleaseStep} {no : StateNo}
    (h : step' ∈ ((s.withHeld client owner kind parent step).state no).owed) :
    step' ∈ (s.state no).owed ∨ no = s.states.nextNo ∧ step' = step ∨
      parent = some no ∧ no.value < s.states.size ∧ step' = .endDerived s.states.nextNo client := by
  have hno := lt_of_mem_owed h
  rw [states_size_withHeld] at hno
  by_cases hnew : no = s.states.nextNo
  · rw [hnew, state_withHeld_new hclient owner kind hparent] at h
    exact .inr (.inl ⟨hnew, List.mem_singleton.1 h⟩)
  -- an older state owes what it owed, and its parent the end of the new one
  · have hbefore := Ledger.lt_of_ne_nextNo hno hnew
    rw [state_withHeld_old hclient owner kind parent step hbefore] at h
    rcases List.mem_append.1 h with hmem | hmem
    · exact .inl hmem
    · split at hmem
      · rename_i hderived
        exact .inr (.inr ⟨hderived, hbefore, List.mem_singleton.1 hmem⟩)
      · cases hmem

theorem chain_withHeld (s : Server) (client : ClientNo) (owner : OwnerNo) (kind : StateKind)
    (parent : Option StateNo) (step : ReleaseStep) :
    Chain [.stateAmended] (s.withState client owner kind parent)
      (s.withHeld client owner kind parent step) := by
  have howed : Chain [.stateAmended] (s.withState client owner kind parent)
      ((s.withState client owner kind parent).amendState s.states.nextNo (·.owe step)) :=
    .single (by decide) (.stateAmended _ _ _ fun _ => ⟨rfl, rfl, rfl⟩)
  cases parent with
  | none => exact howed
  | some no => exact howed.trans (.single (by decide) (.stateAmended _ _ _ fun _ => ⟨rfl, rfl, rfl⟩))

theorem tracked_withHeld (hs : s.Tracked) (hclient : client.value < s.clients.size)
    (owner : OwnerNo) (kind : StateKind) (parent : Option StateNo) (step : ReleaseStep) :
    (s.withHeld client owner kind parent step).Tracked :=
  tracked_chain (s.chain_withHeld client owner kind parent step) (by decide)
    (tracked_withState hs hclient owner kind parent)

end Server

/-! ## What becomes of requests -/

namespace Request

variable {s : Server}

/-- A current state of a client is one that its table leads to. -/
theorem currentStateOf_cases (client : ClientNo) (id : StateId) (s : Server) :
    (∃ e, (currentStateOf client id).exec s = (.error e, s)) ∨
      ∃ no, (s.client client).states.get? id.key = some no ∧
        (currentStateOf client id).exec s = (.ok no, s) := by
  rw [exec_currentStateOf]
  cases hget : (s.client client).states.get? id.key with
  | none => exact .inl ⟨_, rfl⟩
  | some no =>
    dsimp only
    cases (s.state no).id.check id with
    | error e => exact .inl ⟨e, rfl⟩
    | ok _ => exact .inr ⟨no, rfl, rfl⟩

/-- An owner that accepts a request number keeps its name. -/
theorem acceptSeqid_cases (owner : OwnerNo) (seqid : UInt32) (s : Server) :
    (∃ e, (acceptSeqid owner seqid).exec s = (.error e, s)) ∨
      ∃ t, Chain [.ownerAmended] s t ∧ (acceptSeqid owner seqid).exec s = (.ok (), t) := by
  rw [exec_acceptSeqid]
  cases haccept : (s.owner owner).accept seqid with
  | error e => exact .inl ⟨e, rfl⟩
  | ok accepted =>
    have hupdate : Server.Update .ownerAmended s (s.amendOwner owner fun _ => accepted) :=
      .ownerAmended s owner _ (name_of_accept haccept)
    exact .inr ⟨_, .single List.mem_cons_self hupdate, rfl⟩

/-- The owner that is named bears the name. -/
theorem ownerNamed_cases (hs : s.Tracked) (client : ClientNo) (name : Bytes) (seqid : UInt32) :
    ∃ owner t, (ownerNamed client name seqid).exec s = (.ok owner, t) ∧
      Chain [.ownerMade, .ownersNamed] s t ∧ t.Tracked ∧
      owner.value < t.owners.size ∧ (t.owner owner).name = name := by
  rw [exec_ownerNamed]
  cases hget : (s.client client).owners.get? name with
  | some no =>
    obtain ⟨hno, hname⟩ := hs.named client name no hget
    exact ⟨no, s, rfl, .refl, hs, hno, hname⟩
  | none =>
    have hchain := s.chain_withOwner client name seqid
    -- the owner is made, which has nothing to do with opens
    have hopened : (s.withOwner client name seqid).Opened := by
      have hall : ∀ e ∈ [Effect.ownerMade, .ownersNamed], e ≠ .openAdded := by decide
      exact hchain.preserve (fun he h => Server.opened_update h (hall _ he)) hs.opened
    refine ⟨s.owners.nextNo, s.withOwner client name seqid, rfl, hchain, ?_, ?_, ?_⟩
    · exact .of_chain hchain (by decide) hs hopened
        (Server.named_withOwner hs.named client name seqid)
    · rw [Server.owners_size_withOwner]
      exact Nat.lt_succ_self _
    · rw [Server.owner_withOwner, if_pos rfl]

/-- A lock state is derived from a state that the client's table leads to, and owes the locks of
the lock owner on the file. -/
theorem makeLockState_cases (hs : s.Tracked) {client : ClientNo}
    (hclient : client.value < s.clients.size) (file : FileId) (openId : StateId)
    (openSeqid : UInt32) (name : Bytes) (lockSeqid : UInt32) :
    (∃ e, (makeLockState client file openId openSeqid name lockSeqid).exec s = (.error e, s)) ∨
      ∃ no owner t, (s.client client).states.get? openId.key = some no ∧
        Chain [.ownerAmended, .ownerMade, .ownersNamed] s t ∧ t.Tracked ∧
        owner.value < t.owners.size ∧ (t.owner owner).name = name ∧
        (makeLockState client file openId openSeqid name lockSeqid).exec s =
          (.ok t.states.nextNo, t.withHeld client owner .byteLock (some no)
            (.unlockAll file ⟨(t.client client).id, name⟩)) := by
  unfold makeLockState
  rw [exec_bind]
  rcases currentStateOf_cases client openId s with ⟨e, hexec⟩ | ⟨no, hget, hexec⟩
  · rw [hexec]
    exact .inl ⟨e, rfl⟩
  · rw [hexec]
    dsimp only
    rw [exec_get_bind, exec_bind]
    -- the number may be refused, which changes nothing; after it nothing is refused
    rcases acceptSeqid_cases (s.state no).owner openSeqid s with ⟨e, hexec⟩ | ⟨s₁, hchain₁, hexec⟩
    · rw [hexec]
      exact .inl ⟨e, rfl⟩
    · rw [hexec]
      dsimp only
      have hs₁ := Server.tracked_chain hchain₁ (by decide) hs
      obtain ⟨owner, t, hexec, hchain₂, ht, howner, hname⟩ :=
        ownerNamed_cases hs₁ client name lockSeqid
      rw [exec_bind, hexec]
      have hknown : client.value < t.clients.size := Nat.lt_of_lt_of_le hclient
        (Nat.le_trans hchain₁.clients_size_le hchain₂.clients_size_le)
      refine .inr ⟨no, owner, t, hget, ?_, ht, howner, hname, ?_⟩
      · exact (hchain₁.mono (by decide)).trans (hchain₂.mono (by decide))
      · rw [← (t.chain_withState client owner .byteLock (some no)).client_id_eq hknown]
        rfl

/-- An open is widened, or one is added that stands for a new state. -/
theorem openFile_cases (client : ClientNo) (owner : OwnerNo) (file : FileId) (access deny : UInt32)
    (s : Server) :
    (∃ e, (openFile client owner file access deny).exec s = (.error e, s)) ∨
      (∃ answer id name mode no, (openFile client owner file access deny).exec s = (answer,
        ({ s with opens := s.opens.widen file id name mode }).amendState no .bump)) ∨
      ∃ answer r, r.state = s.states.nextNo ∧
        r.key = ((s.withHeld client owner .share none (.forgetOpen file)).state
          s.states.nextNo).id.key ∧
        (openFile client owner file access deny).exec s = (answer,
          { s.withHeld client owner .share none (.forgetOpen file) with
            opens := s.opens.add file r }) := by
  unfold openFile
  dsimp only
  split
  · exact .inl ⟨_, rfl⟩
  · rw [exec_get_bind]
    split
    · exact .inl ⟨_, rfl⟩
    · split
      · rename_i r _
        exact .inr (.inl ⟨_, _, _, _, r.state, rfl⟩)
      · exact .inr (.inr ⟨_, _, rfl, rfl, rfl⟩)

/-! ## What becomes of a request for a lock -/

/-- The state that a request for a lock goes through, whether it was made for the request, and the
server by then. -/
inductive LockBasis (s : Server) (client : ClientNo) (file : FileId) :
    Locker → StateNo → Bool → Server → Prop where
  | existing {lockId : StateId} {lockSeqid : UInt32} {no : StateNo} {t : Server}
      (hget : (s.client client).states.get? lockId.key = some no)
      (hchain : Chain [.ownerAmended] s t) :
      LockBasis s client file (.existing lockId lockSeqid) no false t
  | made {openId : StateId} {openSeqid lockSeqid : UInt32} {name : Bytes} {no : StateNo}
      {owner : OwnerNo} {t : Server} (hget : (s.client client).states.get? openId.key = some no)
      (hchain : Chain [.ownerAmended, .ownerMade, .ownersNamed] s t) (ht : t.Tracked)
      (howner : owner.value < t.owners.size) (hname : (t.owner owner).name = name) :
      LockBasis s client file (.newOwner openId openSeqid name lockSeqid) t.states.nextNo true
        (t.withHeld client owner .byteLock (some no) (.unlockAll file ⟨(t.client client).id, name⟩))

/-- What becomes of a request that goes through a state: the lock is granted on an open of the file,
or it is refused, and a state that was made for it is released. -/
inductive LockOutcome (s : Server) (client : ClientNo) (file : FileId) (r : LockRequest)
    (no : StateNo) : Bool → Except Error StateId × Server → Prop where
  | granted {isNew : Bool} {m : StateNo} {locks : LockTable}
      (hopen : (m, (s.state ((s.state no).parent.getD no)).id.key) ∈ s.opens.states file)
      (hlock : s.locks.lock file
        (r.toLock ⟨(s.client client).id, (s.owner (s.state no).owner).name⟩) = .ok locks) :
      LockOutcome s client file r no isNew ((bumpState no).exec { s with locks })
  | refused {e : Error} : LockOutcome s client file r no false (.error e, s)
  | released {e : Error} : LockOutcome s client file r no true
      (.error e, ((releaseState client (s.state no).id).exec s).2)

/-- A lock that is granted counts on its state; one that is refused may end it. -/
theorem LockOutcome.chain {client : ClientNo} {file : FileId} {r : LockRequest} {no : StateNo}
    {isNew : Bool} {outcome : Except Error StateId × Server}
    (h : LockOutcome s client file r no isNew outcome) : Chain Effect.releasing s outcome.2 := by
  cases h with
  | granted _ _ =>
    exact (Chain.single (by decide) (.locked s _)).trans
      (.single (by decide) (.stateAmended _ no _ fun _ => ⟨rfl, rfl, rfl⟩))
  | refused => exact .refl
  | released => exact does_releaseState (List.Subset.refl _) client _ s

/-- A lock needs an open of the file that its state, or the one it is derived from, stands for. -/
theorem checkOpenMode_cases (client : ClientNo) (file : FileId) (no : StateNo) (r : LockRequest)
    (s : Server) :
    (∃ e, (checkOpenMode client file no r).exec s = (.error e, s)) ∨
      (∃ m, (m, (s.state ((s.state no).parent.getD no)).id.key) ∈ s.opens.states file) ∧
        (checkOpenMode client file no r).exec s = (.ok (), s) := by
  unfold checkOpenMode shareMode
  rw [exec_get_bind]
  dsimp only
  rw [exec_bind, exec_get_bind]
  cases hopen : s.opens.openState? file (s.client client).id
      (s.state ((s.state no).parent.getD no)).id.key with
  | none => exact .inl ⟨_, rfl⟩
  | some record =>
    dsimp only
    rw [exec_pure]
    dsimp only
    split
    · exact .inl ⟨_, rfl⟩
    -- the open that allows it is on the file, for the state derived from
    · have hfound := List.find?_some hopen
      have hkey := (record.isState_iff _ _).1 hfound
      refine .inr ⟨⟨record.state, ?_⟩, rfl⟩
      rw [← hkey.2]
      exact List.mem_map_of_mem (List.mem_of_find?_eq_some hopen)

/-- Hands a refusal on; a state that was made for the request is released first, whatever becomes
of that. -/
def refuseLock (client : ClientNo) (no : StateNo) (isNew : Bool) (e : Error) : Request Unit := do
  if isNew then
    tryCatch (releaseState client ((← get).state no).id) (fun _ => pure ())
  throw e

/-- A refused lock takes back the state that was made for it, and no other. -/
theorem exec_refuseLock (client : ClientNo) (no : StateNo) (isNew : Bool) (e : Error) (s : Server) :
    (refuseLock client no isNew e).exec s = (.error e,
      if isNew then ((releaseState client (s.state no).id).exec s).2 else s) := by
  unfold refuseLock
  cases isNew with
  | false => rfl
  | true =>
    rw [if_pos rfl, if_pos rfl, exec_get_bind, exec_bind, exec_tryCatch]
    rcases (releaseState client (s.state no).id).exec s with ⟨answer, t⟩
    cases answer with
    | error e => rfl
    | ok _ => rfl

/-- The part of a request for a lock that comes once its lock state is known. -/
def lockThrough (client : ClientNo) (file : FileId) (r : LockRequest) (no : StateNo)
    (isNew : Bool) : Request StateId := do
  let owner ← lockOwnerOf client no
  tryCatch
    (do
      checkOpenMode client file no r
      updateLocks .lock (·.lock file (r.toLock owner)))
    (refuseLock client no isNew)
  bumpState no

/-- A lock by way of a state is granted, or refused for the mode of the open or by the lock
table. -/
theorem outcome_lockThrough (client : ClientNo) (file : FileId) (r : LockRequest) (no : StateNo)
    (isNew : Bool) (s : Server) :
    LockOutcome s client file r no isNew ((lockThrough client file r no isNew).exec s) := by
  have hrefused (e : Error) : LockOutcome s client file r no isNew
      (.error e, ((refuseLock client no isNew e).exec s).2) := by
    rw [exec_refuseLock]
    cases isNew with
    | false => exact .refused
    | true => exact .released
  have howner : (lockOwnerOf client no).exec s =
      (.ok ⟨(s.client client).id, (s.owner (s.state no).owner).name⟩, s) := rfl
  unfold lockThrough
  rw [exec_bind, howner]
  dsimp only
  rw [exec_tryCatch_bind _ fun e t => congrArg Prod.fst (exec_refuseLock client no isNew e t),
    exec_bind]
  rcases checkOpenMode_cases client file no r s with ⟨e, hexec⟩ | ⟨⟨m, hopen⟩, hexec⟩
  · rw [hexec]
    exact hrefused e
  · rw [hexec]
    dsimp only
    rw [exec_updateLocks]
    -- the lock table is asked last, and a refusal of it is handled like the one before
    cases hcall : s.callLocks .lock (·.lock file
        (r.toLock ⟨(s.client client).id, (s.owner (s.state no).owner).name⟩)) with
    | error e => exact hrefused (.ofLock e)
    | ok locks => exact .granted hopen (Server.callLocks_eq_ok hcall)

/-- A lock is checked, finds its state, and goes through it. -/
theorem lock_eq (client : ClientNo) (file : FileId) (r : LockRequest) (reclaim : Bool)
    (locker : Locker) : lock client file r reclaim locker = (do
      ofExcept r.checkRange
      checkGrace client reclaim
      renewIfSessionless client
      let (no, isNew) ← lockStateFor client file locker
      lockThrough client file r no isNew) := rfl

/-- The state that a locker names is one of the client's, or is made. -/
theorem lockStateFor_cases (hs : s.Tracked) {client : ClientNo}
    (hclient : client.value < s.clients.size) (file : FileId) (locker : Locker) :
    (∃ e, (lockStateFor client file locker).exec s = (.error e, s)) ∨
      ∃ no isNew t, LockBasis s client file locker no isNew t ∧
        (lockStateFor client file locker).exec s = (.ok (no, isNew), t) := by
  cases locker with
  | newOwner openId openSeqid name lockSeqid =>
    unfold lockStateFor
    rw [exec_bind]
    rcases makeLockState_cases hs hclient file openId openSeqid name lockSeqid with
      ⟨e, hexec⟩ | ⟨no, owner, t, hget, hchain, ht, howner, hname, hexec⟩
    · rw [hexec]
      exact .inl ⟨e, rfl⟩
    · rw [hexec]
      exact .inr ⟨_, _, _, .made hget hchain ht howner hname, rfl⟩
  | existing lockId lockSeqid =>
    unfold lockStateFor
    rw [exec_bind]
    rcases currentStateOf_cases client lockId s with ⟨e, hexec⟩ | ⟨no, hget, hexec⟩
    · rw [hexec]
      exact .inl ⟨e, rfl⟩
    · rw [hexec]
      dsimp only
      rw [exec_get_bind, exec_bind]
      rcases acceptSeqid_cases (s.state no).owner lockSeqid s with ⟨e, hexec⟩ | ⟨t, hchain, hexec⟩
      · rw [hexec]
        exact .inl ⟨e, rfl⟩
      · rw [hexec]
        exact .inr ⟨no, false, t, .existing hget hchain, rfl⟩

/-- A request for a lock is refused after no more than a renewal of the lease, or it goes through a
state. -/
theorem lock_cases (hs : s.Tracked) {client : ClientNo} (hclient : client.value < s.clients.size)
    (file : FileId) (r : LockRequest) (reclaim : Bool) (locker : Locker) :
    ∃ t, Chain [.renewed] s t ∧
      ((∃ e, (lock client file r reclaim locker).exec s = (.error e, t)) ∨
        ∃ no isNew u, LockBasis t client file locker no isNew u ∧
          LockOutcome u client file r no isNew ((lock client file r reclaim locker).exec s)) := by
  rw [lock_eq, exec_bind, exec_ofExcept]
  cases r.checkRange with
  | error e => exact ⟨s, .refl, .inl ⟨e, rfl⟩⟩
  | ok _ =>
    dsimp only
    -- a refusal here is the answer; the server is as it was, or a lease was renewed
    obtain ⟨s₁, hchain₁, ⟨e, hexec⟩ | ⟨_, hexec⟩⟩ := bind_cases (does_checkGrace client reclaim) _ s
    · exact ⟨s₁, hchain₁, .inl ⟨e, hexec⟩⟩
    rw [hexec]
    obtain ⟨t, hchain₂, ⟨e, hexec⟩ | ⟨_, hexec⟩⟩ :=
      bind_cases (does_renewIfSessionless List.mem_cons_self client) _ s₁
    · exact ⟨t, hchain₁.trans hchain₂, .inl ⟨e, hexec⟩⟩
    rw [hexec, exec_bind]
    have hchain : Chain [.renewed] s t := hchain₁.trans hchain₂
    refine ⟨t, hchain, ?_⟩
    have ht := Server.tracked_chain hchain (by decide) hs
    rcases lockStateFor_cases ht (Nat.lt_of_lt_of_le hclient hchain.clients_size_le) file locker with
      ⟨e, hexec⟩ | ⟨no, isNew, u, hbasis, hexec⟩
    · rw [hexec]
      exact .inl ⟨e, rfl⟩
    · rw [hexec]
      exact .inr ⟨no, isNew, u, hbasis, outcome_lockThrough client file r no isNew u⟩

end Request

/-! ## Every run -/

namespace Server

open Request

variable {s t : Server} {client : ClientNo}

theorem Tracked.setOpens (hs : s.Tracked) {opens : OpenTable} (h : Opened { s with opens }) :
    Tracked { s with opens } where
  numbered := ⟨hs.numbered.issued, hs.numbered.client_id⟩
  held := hs.held
  opened := h
  named := hs.named
  keyed hbound :=
    ⟨(hs.keyed hbound).owned, (hs.keyed hbound).numbered, (hs.keyed hbound).counter⟩

/-- Whatever becomes of a lock, everything is in its place after it. -/
theorem tracked_lock (hs : s.Tracked) (hclient : client.value < s.clients.size) (file : FileId)
    (r : LockRequest) (reclaim : Bool) (locker : Locker) :
    (s.after (lock client file r reclaim locker)).Tracked := by
  rw [after_eq_exec]
  obtain ⟨t, hchain, ⟨e, hexec⟩ | ⟨no, isNew, u, hbasis, houtcome⟩⟩ :=
    lock_cases hs hclient file r reclaim locker
  · rw [hexec]
    exact tracked_chain hchain (by decide) hs
  · have ht := tracked_chain hchain (by decide) hs
    have hclient' := Nat.lt_of_lt_of_le hclient hchain.clients_size_le
    have hu : u.Tracked := by
      cases hbasis with
      | existing _ hchain => exact tracked_chain hchain (by decide) ht
      | made _ hchain ht =>
        exact tracked_withHeld ht (Nat.lt_of_lt_of_le hclient' hchain.clients_size_le) ..
    exact tracked_chain houtcome.chain (by decide) hu

/-- Whatever becomes of an open, everything is in its place after it. -/
theorem tracked_openFile (hs : s.Tracked) (hclient : client.value < s.clients.size)
    (owner : OwnerNo) (file : FileId) (access deny : UInt32) :
    (s.after (openFile client owner file access deny)).Tracked := by
  rw [after_eq_exec]
  rcases openFile_cases client owner file access deny s with
    ⟨e, hexec⟩ | ⟨answer, id, name, mode, no, hexec⟩ | ⟨answer, r, hstate, hkey, hexec⟩
  · rw [hexec]
    exact hs
  · rw [hexec]
    have hopened : Opened { s with opens := s.opens.widen file id name mode } := by
      intro other p hp
      rw [OpenTable.states_widen] at hp
      exact hs.opened other p hp
    have hbumped : Chain [.stateAmended] { s with opens := s.opens.widen file id name mode }
        (({ s with opens := s.opens.widen file id name mode }).amendState no .bump) :=
      .single (by decide) (.stateAmended _ no _ fun _ => ⟨rfl, rfl, rfl⟩)
    exact tracked_chain hbumped (by decide) (hs.setOpens hopened)
  · rw [hexec]
    have hheld := tracked_withHeld hs hclient owner .share none (.forgetOpen file)
    have hopened : Opened { s.withHeld client owner .share none (.forgetOpen file) with
        opens := s.opens.add file r } := by
      intro other p hp
      rw [OpenTable.states_add] at hp
      split at hp
      · rcases List.mem_append.1 hp with hmem | hmem
        · exact hheld.opened file p hmem
        · rw [List.mem_singleton.1 hmem]
          dsimp only
          rw [hstate, hkey]
          rw [states_size_withHeld]
          exact ⟨Nat.lt_succ_self _, rfl⟩
      · exact hheld.opened other p hp
    exact hheld.setOpens hopened

theorem tracked_releaseOwner (hs : s.Tracked) (client : ClientNo) (name : Bytes) :
    (s.after (releaseOwner client name)).Tracked := by
  have hchain : Chain [.ownersNamed] s (s.after (releaseOwner client name)) :=
    does_releaseOwner List.mem_cons_self client name s
  have hopened : (s.after (releaseOwner client name)).Opened := by
    refine hchain.preserve (fun he h => opened_update h ?_) hs.opened
    rw [List.mem_singleton.1 he]
    exact nofun
  refine .of_chain hchain (by decide) hs hopened fun c other no hget => ?_
  refine hs.named c other no ?_
  rw [after_eq_exec, releaseOwner, exec_modify, client_amendClient] at hget
  split at hget
  · rw [Table.get?_erase] at hget
    split at hget
    · cases hget
    · exact hget
  · exact hget

/-- Every action that enters no record from outside leaves everything in its place. -/
theorem tracked_perform (hs : s.Tracked) {a : Action} (ha : .entered ∉ a.effects) :
    (s.perform a).Tracked := by
  unfold perform
  split
  · rename_i hknown
    have hchain := chain_carryOut s a hknown
    cases a with
    | enter => exact absurd (List.mem_singleton.2 rfl) ha
    | nameOwner client name seqid =>
      obtain ⟨owner, t, hexec, _, ht, _⟩ := ownerNamed_cases hs client name seqid
      rw [carryOut, after_of_exec hexec]
      exact ht
    | releaseOwner client name => exact tracked_releaseOwner hs client name
    | openFile client owner file access deny =>
      rw [Action.known, Bool.and_eq_true] at hknown
      exact tracked_openFile hs (of_decide_eq_true hknown.1) owner file access deny
    | lock client file r reclaim locker =>
      exact tracked_lock hs (of_decide_eq_true hknown) file r reclaim locker
    | unlock client file lockId seqid r =>
      exact tracked_chain (does_unlock (List.Subset.refl _) client file lockId seqid r s) (by decide) hs
    | _ => exact tracked_chain hchain (by dsimp only [Action.effects]; decide) hs
  · exact hs

theorem tracked_start (timers : Bool) (config : Config) (store : Recovery.Store)
    (wall : WallTime) (now : Nat) : (start timers config store wall now).Tracked := by
  have hnumbered := (identified_start timers config store wall now).numbered
  obtain ⟨sweepDue, graceDue, hstart⟩ := start_eq timers config store wall now
  rw [hstart] at hnumbered ⊢
  refine ⟨hnumbered, fun client key no hget => ?_, fun file p hp => ?_, fun client name no hget => ?_,
    fun _ => ⟨fun no hno => ?_, fun no hno => ?_, fun client hclient => ?_⟩⟩
  · rw [client_eq_default (Nat.zero_le _)] at hget
    cases hget
  · cases hp
  · rw [client_eq_default (Nat.zero_le _)] at hget
    cases hget
  · exact absurd hno (Nat.not_lt_zero _)
  · exact absurd hno (Nat.not_lt_zero _)
  · exact absurd hclient (Nat.not_lt_zero _)

/-- After every run in which no record is made outside the table, keys and names lead to the records
that bear them. -/
theorem tracked_performAll (hs : s.Tracked) {actions : List Action}
    (h : ∀ a ∈ actions, .entered ∉ a.effects) : (s.performAll actions).Tracked := by
  induction actions generalizing s with
  | nil => exact hs
  | cons a rest ih =>
    have hstep := tracked_perform hs (h a List.mem_cons_self)
    exact ih hstep fun b hb => h b (List.mem_cons_of_mem _ hb)

end Server

end Leasehold

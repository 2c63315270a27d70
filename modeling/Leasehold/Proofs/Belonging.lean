import Leasehold.Proofs.OpenRoots

/-!
# Proofs.Belonging — what is a client's leads to nobody else

All clients share one table of opens, one table of locks and one ledger for each kind
of record, and files and owners may bear the same names. What keeps clients apart is
that every reference stays within one client: the sessions and owners on a client's
record bear its identifier, the owner of a state is one of its client, an open bears the
key of a state of its client, and what a state owes gives back or ends nothing of anybody
else (`Server.Belongs`). The identifiers may even coincide: what is said of a client is
said of all clients with its identifier.

* `Server.Belongs.course` — ends of states and clients keep it, whatever fails;
* `Server.Belongs.serves`, `Server.Belongs.withOpen` — and so does all that is done for a
  client, if its opens are made for owners of its own;
* `Server.keepsHappenings_belongs` — and so does whatever happens.
-/

namespace Leasehold

open Request

/-! ## Of one client -/

/-- What a step gives back or ends is of the client with an identifier. -/
def ReleaseStep.Of (s : Server) (id : ClientId) : ReleaseStep → Prop
  | .endDerived younger client =>
    younger.value < s.states.size ∧ (s.state younger).id.key.client = id ∧
      client.value < s.clients.size ∧ (s.client client).id = id
  | .unlockAll _ holder => holder.client = id
  | _ => True

/-- What is left after a failure is owed in the same name. -/
theorem ReleaseStep.Of.afterFailure {s : Server} {id : ClientId} {step : ReleaseStep}
    (h : step.Of s id) : step.afterFailure.Of s id := by
  cases step with
  | notify => trivial
  | _ => exact h

namespace Server

variable {e : Effect} {s t : Server} {id : ClientId} {step : ReleaseStep}

/-- Keys and identifiers stay. -/
theorem Update.step_of (h : Update e s t) (hof : step.Of s id) : step.Of t id := by
  cases step with
  | endDerived younger client =>
    obtain ⟨hmade, hkey, hclient, hid⟩ := hof
    exact ⟨Nat.lt_of_lt_of_le hmade h.states_size_le, (congrArg _ (h.state_key_eq hmade)).trans hkey,
      Nat.lt_of_lt_of_le hclient h.clients_size_le, (h.client_id_eq hclient).trans hid⟩
  | _ => exact hof

/-- A state that was made keeps its owner. -/
theorem Update.state_owner_eq (h : Update e s t) {no : StateNo} (hno : no.value < s.states.size) :
    (t.state no).owner = (s.state no).owner := by
  cases h with
  | stateMade =>
    exact congrArg HeldState.owner ((Ledger.get_add ..).trans (if_neg (Ledger.ne_nextNo hno)))
  | stateAmended _ _ _ hf =>
    rw [state_amendState]
    split
    · exact (hf _).2.1
    · rfl
  | _ => rfl

/-- An owner that was made keeps its client, unless it is amended. -/
theorem Update.owner_client_eq (h : Update e s t) (he : e ≠ .ownerAmended) {no : OwnerNo}
    (hno : no.value < s.owners.size) : (t.owner no).client = (s.owner no).client := by
  cases h with
  | ownerMade =>
    exact congrArg Owner.client ((Ledger.get_add ..).trans (if_neg (Ledger.ne_nextNo hno)))
  | ownerAmended => exact absurd rfl he
  | _ => rfl

/-! ## References within one client -/

/-- The owners of states are of the clients of the states. -/
def StatesOwned (s : Server) : Prop :=
  ∀ no : StateNo, no.value < s.states.size → (s.state no).owner.value < s.owners.size ∧
    (s.owner (s.state no).owner).client = (s.state no).id.key.client

/-- The names on a client's record lead to owners of the client. -/
def NamesOwned (s : Server) : Prop :=
  ∀ (client : ClientNo) name no, (s.client client).owners.get? name = some no →
    no.value < s.owners.size ∧ (s.owner no).client = (s.client client).id

/-- Opens bear the keys of their states, which are of the clients of the opens. -/
def OpensOwned (s : Server) : Prop :=
  ∀ file, ∀ r ∈ s.opens.cores file, r.state.value < s.states.size ∧
    (s.state r.state).id.key = r.key ∧ r.key.client = r.clientId

/-- Only a new state may have an owner of somebody else. -/
theorem statesOwned_update (h : Update e s t) (he : e ∉ [.stateMade, .ownerAmended])
    (hs : s.StatesOwned) : t.StatesOwned := by
  simp only [List.mem_cons, List.not_mem_nil, or_false, not_or] at he
  intro no hno
  rw [h.states_size_eq he.1] at hno
  obtain ⟨howner, hclient⟩ := hs no hno
  rw [h.state_owner_eq hno, h.state_key_eq hno, h.owner_client_eq he.2 howner]
  exact ⟨Nat.lt_of_lt_of_le howner h.owners_size_le, hclient⟩

/-- Only clients that were made have names. -/
theorem lt_of_owners_get? {client : ClientNo} {name : Bytes} {no : OwnerNo}
    (hget : (s.client client).owners.get? name = some no) : client.value < s.clients.size := by
  rcases Nat.lt_or_ge client.value s.clients.size with hlt | hge
  · exact hlt
  · rw [client_eq_default hge] at hget
    cases hget

/-- Only a new name may stand for an owner of somebody else. -/
theorem namesOwned_update (h : Update e s t) (he : e ∉ [.ownersNamed, .ownerAmended])
    (hs : s.NamesOwned) : t.NamesOwned := by
  simp only [List.mem_cons, List.not_mem_nil, or_false, not_or] at he
  intro client name no hget
  have hbefore := h.owners_get? he.1 hget
  obtain ⟨hno, hclient⟩ := hs client name no hbefore
  rw [h.owner_client_eq he.2 hno, h.client_id_eq (lt_of_owners_get? hbefore)]
  exact ⟨Nat.lt_of_lt_of_le hno h.owners_size_le, hclient⟩

/-- Only a new open may bear a key of somebody else. -/
theorem opensOwned_update (h : Update e s t) (he : e ≠ .openAdded) (hs : s.OpensOwned) :
    t.OpensOwned := by
  intro file r hmem
  obtain ⟨hmade, hkey, hclient⟩ := hs file r ((h.cores_sublist he file).subset hmem)
  rw [h.state_key_eq hmade]
  exact ⟨Nat.lt_of_lt_of_le hmade h.states_size_le, hkey, hclient⟩

/-- What every state owes is of its client. -/
def OwesOwn (s : Server) : Prop :=
  ∀ no, ∀ step ∈ (s.state no).owed, step.Of s (s.state no).id.key.client

/-- While no state is made, keys stay, and so what was owed is still of the client of its state. -/
theorem owesOwn_of_owes {E : List Effect} (h : Chain E s t) (hsize : t.states.size = s.states.size)
    (howes : t.Owes fun no step => step.Of s (s.state no).id.key.client) : t.OwesOwn := by
  intro no step hmem
  rw [h.state_key_eq (Nat.lt_of_lt_of_eq (lt_of_mem_owed hmem) hsize)]
  exact h.preserve (fun _ hupdate => hupdate.step_of) (howes no step hmem)

/-- Only a state that owes something new may owe it in another name. -/
theorem owesOwn_update (h : Update e s t) (he : e ∉ [.stateMade, .stateAmended]) (hs : s.OwesOwn) :
    t.OwesOwn := by
  simp only [List.mem_cons, List.not_mem_nil, or_false, not_or] at he
  intro no step hmem
  have hsame : t.state no = s.state no := congrArg (·.get no) (h.records_eq he.1 he.2)
  rw [hsame] at hmem ⊢
  exact h.step_of (hs no step hmem)

/-- Every reference stays within one client. -/
structure Belongs (s : Server) : Prop extends Grounded s where
  routed : s.Routed
  states : s.StatesOwned
  names : s.NamesOwned
  opens : s.OpensOwned
  owed : s.OwesOwn

/-- Updates that make nothing and attach nothing keep everything where it belongs. -/
theorem belongs_update (h : Update e s t) (he : e ∉ [.stateMade, .stateAmended, .attached,
    .ownerAmended, .ownersNamed, .openAdded]) (hs : s.Belongs) : t.Belongs := by
  simp only [List.mem_cons, List.not_mem_nil, or_false, not_or] at he
  obtain ⟨hmade, hamended, hattached, howner, hnamed, hadded⟩ := he
  exact ⟨grounded_update h (by simp [hmade, hamended, hattached]) hs.toGrounded,
    routed_update h hs.routed, statesOwned_update h (by simp [hmade, howner]) hs.states,
    namesOwned_update h (by simp [hnamed, howner]) hs.names, opensOwned_update h hadded hs.opens,
    owesOwn_update h (by simp [hmade, hamended]) hs.owed⟩

/-- A state may come to owe something else of its client. -/
theorem Belongs.amendState (hs : s.Belongs) {no : StateNo} {f : HeldState → HeldState}
    (hf : ∀ st, (f st).id.key = st.id.key ∧ (f st).owner = st.owner ∧ (f st).parent = st.parent)
    (hbelow : ReleaseStep.Below no s.states.size (f (s.state no)).owed)
    (howed : ∀ step ∈ (f (s.state no)).owed, step.Of s (s.state no).id.key.client) :
    (s.amendState no f).Belongs := by
  have hupdate := Update.stateAmended s no f hf
  refine ⟨hs.toGrounded.amendState hf hbelow, routed_update hupdate hs.routed,
    statesOwned_update hupdate (by decide) hs.states, namesOwned_update hupdate (by decide) hs.names,
    opensOwned_update hupdate (by decide) hs.opens, ?_⟩
  have hof : s.Owes fun no step => step.Of s (s.state no).id.key.client := hs.owed
  exact owesOwn_of_owes (.single (E := [.stateAmended]) List.mem_cons_self hupdate)
    (hupdate.states_size_eq (by decide)) (hof.amendState howed)

theorem Belongs.bump (hs : s.Belongs) (no : StateNo) : (s.amendState no .bump).Belongs :=
  hs.amendState (fun _ => ⟨rfl, rfl, rfl⟩) (hs.descending.below no) (hs.owed no)

/-- The end of states and clients leaves nothing that leads to anybody else. -/
theorem Belongs.course {ending : Ending} {attempts : List Attempt} {answer : Except Error Unit}
    (hs : s.Belongs) (h : Course ending s attempts answer t) (hbelow : ending.Below s.states.size)
    (hleft : ending.Owes fun no step => step.Of s (s.state no).id.key.client) : t.Belongs := by
  have hchain := h.chain_ending
  refine ⟨hs.toGrounded.course h hbelow, hchain.preserve (fun _ hupdate => routed_update hupdate) hs.routed,
    ?_, ?_, ?_, ?_⟩
  · have hall : ∀ e ∈ Effect.ending, e ∉ [Effect.stateMade, .ownerAmended] := by decide
    exact hchain.preserve (fun he hupdate => statesOwned_update hupdate (hall _ he)) hs.states
  · have hall : ∀ e ∈ Effect.ending, e ∉ [Effect.ownersNamed, .ownerAmended] := by decide
    exact hchain.preserve (fun he hupdate => namesOwned_update hupdate (hall _ he)) hs.names
  · have hall : ∀ e ∈ Effect.ending, e ≠ .openAdded := by decide
    exact hchain.preserve (fun he hupdate => opensOwned_update hupdate (hall _ he)) hs.opens
  · exact owesOwn_of_owes hchain h.states_size_eq
      (h.owes (fun _ _ hof => hof.afterFailure) hs.owed hleft)

/-! ## New states, opens and owners -/

variable {client : ClientNo} {owner : OwnerNo} {kind : StateKind} {parent : Option StateNo}

theorem opensOwned_chain {E : List Effect} (h : Chain E s t) (hE : .openAdded ∉ E)
    (hs : s.OpensOwned) : t.OpensOwned :=
  h.preserve (fun he hupdate => opensOwned_update hupdate fun hadded => hE (hadded ▸ he)) hs

/-- A new state has an owner of its client and owes what is of its client. -/
theorem Belongs.withHeld (hs : s.Belongs) (hclient : client.value < s.clients.size)
    (hmade : owner.value < s.owners.size) (howner : (s.owner owner).client = (s.client client).id)
    (kind : StateKind) (hparent : ∀ no, parent = some no → no.value < s.states.size ∧
      (s.state no).id.key.client = (s.client client).id)
    (hstep : ∀ younger client, step ≠ .endDerived younger client)
    (hof : step.Of s (s.client client).id) : (s.withHeld client owner kind parent step).Belongs := by
  have hne : parent ≠ some s.states.nextNo := fun h => Nat.lt_irrefl _ (hparent _ h).1
  have hchain := s.chain_making client owner kind parent step
  have howners := (s.rest_withHeld client owner kind parent step).1
  have hnew := state_withHeld_new hclient owner kind hne step
  refine ⟨hs.toGrounded.withHeld hclient owner kind (fun no h => (hparent no h).1) hstep,
    hchain.preserve (fun _ hupdate => routed_update hupdate) hs.routed, fun no hno => ?_, ?_,
    opensOwned_chain hchain (by decide) hs.opens, fun no step' hmem => ?_⟩
  · unfold Server.owner
    rw [howners]
    rcases eq_or_lt_of_lt_withHeld hno with rfl | hold
    · rw [hnew]
      exact ⟨hmade, howner⟩
    · rw [state_withHeld_old hclient owner kind parent step hold]
      exact hs.states no hold
  · have hall : ∀ e ∈ Effect.making, e ∉ [Effect.ownersNamed, .ownerAmended] := by decide
    exact hchain.preserve (fun he hupdate => namesOwned_update hupdate (hall _ he)) hs.names
  · have hkept {id : ClientId} {step' : ReleaseStep} (h : step'.Of s id) :
        step'.Of (s.withHeld client owner kind parent step) id :=
      hchain.preserve (fun _ hupdate => hupdate.step_of) h
    -- what was owed before, what the new state owes, and the end of the new state
    rcases owed_withHeld hclient hne hmem with hold | ⟨rfl, rfl⟩ | ⟨hof', hno, rfl⟩
    · rw [hchain.state_key_eq (lt_of_mem_owed hold)]
      exact hkept (hs.owed no step' hold)
    · rw [hnew]
      exact hkept hof
    · have hsame := (hparent no hof').2
      rw [hchain.state_key_eq hno, hsame]
      refine ⟨nextNo_lt_withHeld .., ?_, Nat.lt_of_lt_of_le hclient hchain.clients_size_le,
        hchain.client_id_eq hclient⟩
      rw [hnew]
      rfl

/-- An open of one of the client's own owners. -/
theorem Belongs.withOpen (hs : s.Belongs) (hclient : client.value < s.clients.size)
    (hmade : owner.value < s.owners.size) (howner : (s.owner owner).client = (s.client client).id)
    (file : FileId) (mode : ShareMode) : (s.withOpen client owner file mode).Belongs := by
  have hheld : (s.withHeld client owner .share none (.forgetOpen file)).Belongs :=
    hs.withHeld hclient hmade howner .share nofun nofun trivial
  have hparent : (none : Option StateNo) ≠ some s.states.nextNo := nofun
  have hnew := state_withHeld_new hclient owner .share hparent (.forgetOpen file)
  refine ⟨⟨hheld.held, hheld.descending⟩, ⟨hheld.routed.registered, hheld.routed.sessions⟩,
    hheld.states, hheld.names, fun other r hmem => ?_, hheld.owed⟩
  rw [Server.withOpen, OpenTable.cores_add] at hmem
  have hold (h : r ∈ s.opens.cores other) := hheld.opens other r h
  split at hmem
  · rename_i hfile
    -- the new open is the last one of its file
    rcases List.mem_append.1 hmem with hbefore | hadded
    · exact hold (hfile ▸ hbefore)
    · rw [List.mem_singleton.1 hadded]
      refine ⟨?_, congrArg (·.id.key) hnew, rfl⟩
      exact nextNo_lt_withHeld ..
  · exact hold hmem

/-- A client comes to have one more owner. -/
theorem Belongs.withOwner (hs : s.Belongs) (client : ClientNo) (name : Bytes) (seqid : UInt32) :
    (s.withOwner client name seqid).Belongs := by
  have hchain := s.chain_withOwner client name seqid
  have hall : ∀ e ∈ [Effect.ownerMade, .ownersNamed], e ∉ [Effect.stateMade, .ownerAmended] ∧
      e ∉ [Effect.stateMade, .stateAmended] := by decide
  refine ⟨grounded_chain hchain (by decide) hs.toGrounded,
    hchain.preserve (fun _ hupdate => routed_update hupdate) hs.routed,
    hchain.preserve (fun he hupdate => statesOwned_update hupdate (hall _ he).1) hs.states, ?_,
    opensOwned_chain hchain (by decide) hs.opens,
    hchain.preserve (fun he hupdate => owesOwn_update hupdate (hall _ he).2) hs.owed⟩
  intro c other no hget
  have hid : ((s.withOwner client name seqid).client c).id = (s.client c).id := by
    rw [client_withOwner]
    split
    · rfl
    · rfl
  rw [owners_size_withOwner, owner_withOwner, hid]
  -- an owner named before is not the new one, whatever client names it
  have hold (hget : (s.client c).owners.get? other = some no) :
      no.value < s.owners.size + 1 ∧ (if no = s.owners.nextNo then
        ⟨(s.client client).id, name, (s.client client).isSessionBased, seqid⟩
      else s.owner no).client = (s.client c).id := by
    obtain ⟨hno, hclient⟩ := hs.names c other no hget
    rw [if_neg (Ledger.ne_nextNo hno)]
    exact ⟨Nat.lt_succ_of_lt hno, hclient⟩
  rw [client_withOwner] at hget
  split at hget
  · rename_i hsame
    rw [Table.get?_insert] at hget
    split at hget
    -- the name now stands for the new owner, who is of this client
    · injection hget with hget
      subst hget
      rw [if_pos rfl, hsame.1]
      exact ⟨Nat.lt_succ_self _, rfl⟩
    · exact hold hget
  · exact hold hget

/-- A client has one owner less under a name. -/
theorem Belongs.unnamed (hs : s.Belongs) (client : ClientNo) (name : Bytes) :
    (s.amendClient client fun c => { c with owners := c.owners.erase name }).Belongs := by
  have hupdate : Update .ownersNamed s
      (s.amendClient client fun c => { c with owners := c.owners.erase name }) :=
    .client s client _ (.ownersNamed _ _)
  refine ⟨grounded_update hupdate (by decide) hs.toGrounded, routed_update hupdate hs.routed,
    statesOwned_update hupdate (by decide) hs.states, fun c other no hget => ?_,
    opensOwned_update hupdate (by decide) hs.opens, owesOwn_update hupdate (by decide) hs.owed⟩
  rw [client_amendClient] at hget ⊢
  split at hget
  · rw [if_pos ‹_›]
    dsimp only at hget
    rw [Table.get?_erase] at hget
    split at hget
    · cases hget
    · exact hs.names c other no hget
  · rw [if_neg ‹_›]
    exact hs.names c other no hget

/-- An owner that takes a number keeps its client. -/
theorem client_of_accept {o o' : Owner} {seqid : UInt32} (h : o.accept seqid = .ok o') :
    o'.client = o.client := by
  unfold Owner.accept at h
  split at h
  · injection h with h
    rw [h]
  · split at h
    · injection h with h
      rw [← h]
    · cases h

/-- An owner that accepts a number stays an owner of its client. -/
theorem Belongs.accepted (hs : s.Belongs) {no : OwnerNo} {seqid : UInt32} {o : Owner}
    (h : (s.owner no).accept seqid = .ok o) : (s.amendOwner no fun _ => o).Belongs := by
  have hupdate : Update .ownerAmended s (s.amendOwner no fun _ => o) :=
    .ownerAmended s no _ (name_of_accept h)
  -- the number of an owner changes, but not whose owner it is
  have hsame (other : OwnerNo) : ((s.amendOwner no fun _ => o).owner other).client =
      (s.owner other).client := by
    rw [owner_amendOwner]
    split
    · rename_i hno
      rw [hno.1]
      exact client_of_accept h
    · rfl
  refine ⟨grounded_update hupdate (by decide) hs.toGrounded, routed_update hupdate hs.routed,
    fun other hother => ?_, fun c name other hget => ?_,
    opensOwned_update hupdate (by decide) hs.opens, owesOwn_update hupdate (by decide) hs.owed⟩
  · obtain ⟨howner, hclient⟩ := hs.states other hother
    rw [hsame]
    exact ⟨Nat.lt_of_lt_of_le howner hupdate.owners_size_le, hclient⟩
  · obtain ⟨howner, hclient⟩ := hs.names c name other hget
    rw [hsame]
    exact ⟨Nat.lt_of_lt_of_le howner hupdate.owners_size_le, hclient⟩

/-! ## Whatever happens -/

/-- The end of a state leaves everything where it belongs, however far it gets. -/
theorem Belongs.releases {id : StateId} (hs : s.Belongs) (h : s.Releases client id t) :
    t.Belongs := by
  cases h with
  | unknown => exact hs
  | kept _ h => exact hs.course h trivial trivial
  | released _ h =>
    exact belongs_update (.client _ client _ (.detached _ _)) (by decide) (hs.course h trivial trivial)

/-- What is done for a client leads from what is the client's to what is the client's. -/
theorem Belongs.serves (hs : s.Belongs) (h : Serves client s t) : t.Belongs := by
  cases h with
  | amended f he h =>
    have hall : ∀ e ∈ [Effect.confirmed, .reclaimed, .renewed, .revived, .sessionDropped],
        e ∉ [Effect.stateMade, .stateAmended, .attached, .ownerAmended, .ownersNamed, .openAdded] := by
      decide
    exact belongs_update (.client s client f h) (hall _ he) hs
  | named seqid => exact hs.withOwner client _ seqid
  | unnamed name => exact hs.unnamed client name
  | accepted _ h => exact hs.accepted h
  | sessionMade attributes hget =>
    exact belongs_update (.sessionMade s _ client attributes hget) (by decide) hs
  | sessionUsed f he _ h =>
    have hall : ∀ e ∈ [Effect.slotUsed, .connected],
        e ∉ [Effect.stateMade, .stateAmended, .attached, .ownerAmended, .ownersNamed, .openAdded] := by
      decide
    exact belongs_update (.session s _ f h) (hall _ he) hs
  | bumped => exact hs.bump _
  | widened _ hcheck => exact (belongs_update (.openWidened s _ _ _ _ hcheck) (by decide) hs).bump _
  | lowered h => exact (belongs_update (.openLowered s _ _ _ _ _ _ h) (by decide) hs).bump _
  | derived file hget hname =>
    -- a lock state belongs to the client because its owner's name and its open do
    obtain ⟨hmade, howner⟩ := hs.names client _ _ hname
    obtain ⟨hno, hkey, hid⟩ := hs.held client _ _ hget
    refine hs.withHeld (lt_of_states_get? hget) hmade howner .byteLock ?_ nofun rfl
    rintro _ ⟨⟩
    exact ⟨hno, (congrArg _ hkey).trans hid⟩
  | locked => exact belongs_update (.locked s _) (by decide) hs
  | unlocked => exact belongs_update (.locked s _) (by decide) hs
  | released h => exact hs.releases h

end Server

/-- An open is asked for by one of the client's own owners. -/
def Action.ByOwnOwner (s : Server) : Action → Prop
  | .openFile client owner .. => (s.owner owner).client = (s.client client).id
  | _ => True

namespace Server

variable {s t : Server} {client : ClientNo}

theorem Routed.calledBack (hs : s.Routed) (client : ClientNo) (hasCallback : Bool) :
    (s.amendClient client ({ · with hasCallback })).Routed := by
  have hsize : (s.amendClient client ({ · with hasCallback })).clients.size = s.clients.size :=
    Ledger.size_modify ..
  have hid (no : ClientNo) := client_calledBack Client.id (fun _ _ => rfl) s client hasCallback no
  constructor
  · intro id no hget
    rw [hsize, hid]
    exact hs.registered id no hget
  · intro no hno id t hget
    rw [client_calledBack Client.sessions fun _ _ => rfl] at hget
    rw [hid]
    exact hs.sessions no (Nat.lt_of_lt_of_eq hno hsize) id t hget

theorem Belongs.calledBack (hs : s.Belongs) (client : ClientNo) (hasCallback : Bool) :
    (s.amendClient client ({ · with hasCallback })).Belongs := by
  have hsize : (s.amendClient client ({ · with hasCallback })).clients.size = s.clients.size :=
    Ledger.size_modify ..
  have hid (no : ClientNo) := client_calledBack Client.id (fun _ _ => rfl) s client hasCallback no
  refine ⟨hs.toGrounded.calledBack client hasCallback, hs.routed.calledBack client hasCallback,
    hs.states, fun c name no hget => ?_, hs.opens, fun no step hmem => ?_⟩
  · rw [client_calledBack Client.owners fun _ _ => rfl] at hget
    rw [hid]
    exact hs.names c name no hget
  -- only the end of a derived state is owed in the name of a client
  · have hof := hs.owed no step hmem
    cases step with
    | endDerived younger c =>
      obtain ⟨hmade, hkey, hc, hsame⟩ := hof
      exact ⟨hmade, hkey, Nat.lt_of_lt_of_eq hc hsize.symm, (hid c).trans hsame⟩
    | _ => exact hof

/-- Whatever happens, as long as opens are asked for by owners of their clients. -/
theorem keepsHappenings_belongs :
    KeepsHappenings (fun s a => a.served = true ∧ a.ByOwnOwner s) Belongs where
  grounded hs := hs.toGrounded
  update e he _ _ h hs := by
    have hall : ∀ e ∈ Effect.administering ++ [.recorded, .faultsSet, .openForgotten],
        e ∉ [Effect.stateMade, .stateAmended, .attached, .ownerAmended, .ownersNamed, .openAdded] := by
      decide
    exact belongs_update h (hall e he) hs
  client h hs := hs.course h trivial trivial
  serves _ h hs := hs.serves h
  -- the one case that needs the condition on the owner
  opened hP hclient howner _ _ hs := hs.withOpen hclient howner hP.2 _ _
  observed no label refusals hs := by
    refine hs.amendState (fun _ => ⟨rfl, rfl, rfl⟩) (fun younger client hmem => ?_) fun step hmem => ?_
    · rcases List.mem_append.1 hmem with hold | hnew
      · exact hs.descending no younger client hold
      · cases List.mem_singleton.1 hnew
    · rcases List.mem_append.1 hmem with hold | hnew
      · exact hs.owed no step hold
      · rw [List.mem_singleton.1 hnew]
        trivial
  calledBack client hasCallback hs := hs.calledBack client hasCallback

/-- A server that has just started holds nothing of anybody. -/
theorem belongs_start (timers : Bool) (config : Config) (store : Recovery.Store)
    (wall : WallTime) (now : Nat) : (start timers config store wall now).Belongs := by
  have hgrounded := grounded_start timers config store wall now
  obtain ⟨sweepDue, graceDue, hstart⟩ := start_eq timers config store wall now
  rw [hstart] at hgrounded ⊢
  refine ⟨hgrounded, routed_of_empty rfl rfl, fun no hno => absurd hno (Nat.not_lt_zero _),
    fun client name no hget => ?_, fun file r hmem => absurd hmem List.not_mem_nil,
    fun no step hmem => absurd (lt_of_mem_owed hmem) (Nat.not_lt_zero _)⟩
  exact absurd (lt_of_owners_get? hget) (Nat.not_lt_zero _)

end Server

end Leasehold

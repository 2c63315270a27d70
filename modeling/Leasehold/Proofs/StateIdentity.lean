import Leasehold.Proofs.Keeping
import Leasehold.Proofs.SessionIdentity
import Leasehold.Proofs.ShareExclusion

/-!
# Proofs.StateIdentity — a key leads to one state

A client numbers its states as it makes them, and the number goes into the key of
the state. The counter wraps, but while there are fewer than 2^24 clients and each
of them has made fewer than 2^24 states, no two states have one key
(`Server.Traced.key_ext`). The tables on a client's record lead from a key to the
state that bears it and from a name to the owner of that name, and an open of a
file bears the key of its state (`Server.Tracked`).

* `Server.tracked_chain` — most updates keep what is known of keys and names;
* `Server.traced_ending` — and so does the end of states and clients, which moves no
  counter.
-/

namespace Leasehold

/-! ## Keys -/

namespace StateKey

/-- Up to the width of its counter, a key tells which state of its client it is. -/
theorem counter_eq_of_ofParts {client : ClientId} {m n : Nat} {kind kind' : StateKind}
    (hm : m < 0x100_0000) (hn : n < 0x100_0000)
    (h : ofParts client (UInt32.ofNat m) kind = ofParts client (UInt32.ofNat n) kind') : m = n := by
  have hcounter := (ofParts_eq_iff.1 h).2.2
  rw [lowBits_ofNat, lowBits_ofNat] at hcounter
  omega

end StateKey

/-! ## Opens and their states -/

namespace OpenTable

variable {t t' : OpenTable} {file : FileId}

/-- The states that the opens of a file stand for, with their keys. -/
def states (t : OpenTable) (file : FileId) : List (StateNo × StateKey) :=
  (t.opens file).map fun r => (r.state, r.key)

/-- The opens of a file are set by themselves. -/
theorem states_setOpens (t : OpenTable) (file : FileId) (rs : List OpenRecord) (other : FileId) :
    (t.setOpens file rs).states other =
      if file = other then rs.map fun r => (r.state, r.key) else t.states other := by
  unfold states
  rw [opens_setOpens]
  split <;> rfl

/-- What an amendment does not touch is not seen to change. -/
theorem map_amendFirst {β : Type} {p : OpenRecord → Bool} {f : OpenRecord → OpenRecord}
    {g : OpenRecord → β} (hf : ∀ r, g (f r) = g r) (rs : List OpenRecord) :
    (amendFirst p f rs).map g = rs.map g := by
  induction rs with
  | nil => rfl
  | cons r rest ih =>
    unfold amendFirst
    split
    · rw [List.map_cons, List.map_cons, hf]
    · rw [List.map_cons, List.map_cons, ih]

/-- An open whose mode changes stands for the state that it stood for. -/
theorem states_amendFirst {p : OpenRecord → Bool} {f : OpenRecord → OpenRecord}
    (hf : ∀ r, ((f r).state, (f r).key) = (r.state, r.key)) :
    (t.setOpens file (amendFirst p f (t.opens file))).states = t.states := by
  funext other
  rw [states_setOpens]
  split
  · rename_i hsame
    rw [map_amendFirst hf, hsame]
    rfl
  · rfl

theorem states_widen (t : OpenTable) (file : FileId) (client : ClientId) (owner : Bytes)
    (mode : ShareMode) : (t.widen file client owner mode).states = t.states :=
  states_amendFirst fun _ => rfl

/-- An open that is lowered stands for the state that it stood for. -/
theorem states_downgrade {client : ClientId} {key : StateKey} {mode : ShareMode} {state : StateNo}
    (h : t.downgrade file client key mode = .ok (state, t')) : t'.states = t.states := by
  obtain ⟨_, _, _, _, rfl⟩ := downgrade_eq_ok h
  exact states_amendFirst fun _ => rfl

/-- A new open stands for its state, behind the others. -/
theorem states_add (t : OpenTable) (file : FileId) (r : OpenRecord) (other : FileId) :
    (t.add file r).states other =
      if file = other then t.states file ++ [(r.state, r.key)] else t.states other := by
  unfold add
  rw [states_setOpens, List.map_append]
  rfl

/-- Only opens with the key are forgotten. -/
theorem states_remove? {key : StateKey} (h : t.remove? file key = some t') (other : FileId) :
    t'.states other ⊆ t.states other ∧ ∀ p ∈ t.states other, p.2 ≠ key → p ∈ t'.states other := by
  rw [remove?_eq_some h, states_setOpens]
  split
  · rename_i hsame
    subst hsame
    -- what is left out bears the key, so whatever bears another one stays
    refine ⟨List.map_subset _ List.eraseP_subset, fun p hp hkey => ?_⟩
    obtain ⟨r, hr, rfl⟩ := List.mem_map.1 hp
    refine List.mem_map_of_mem ((List.mem_eraseP_of_neg ?_).2 hr)
    rw [beq_iff_eq]
    exact hkey
  · exact ⟨List.Subset.refl _, fun p hp _ => hp⟩

end OpenTable

namespace Server

variable {e : Effect} {s t : Server}

/-! ## How many states a client has made -/

/-- How many of the first states were made for the client with an identifier. -/
def statesBefore (s : Server) (id : ClientId) (n : Nat) : Nat :=
  (List.range n).countP fun m => (s.state ⟨m⟩).id.key.client = id

/-- How many states were made for the client with an identifier. -/
def statesOf (s : Server) (id : ClientId) : Nat := s.statesBefore id s.states.size

/-- One state more counts if it is one of the client. -/
theorem statesBefore_succ (s : Server) (id : ClientId) (n : Nat) :
    s.statesBefore id (n + 1) =
      s.statesBefore id n + if (s.state ⟨n⟩).id.key.client = id then 1 else 0 := by
  unfold statesBefore
  rw [List.range_succ, List.countP_append, List.countP_singleton]
  simp only [decide_eq_true_eq]

/-- Of more states, no fewer are the client's. -/
theorem statesBefore_mono (s : Server) (id : ClientId) {m n : Nat} (h : m ≤ n) :
    s.statesBefore id m ≤ s.statesBefore id n := by
  -- from the first state on
  induction h with
  | refl => exact Nat.le_refl _
  | step _ ih =>
    rw [statesBefore_succ]
    exact Nat.le_trans ih (Nat.le_add_right ..)

/-- A state of the client is counted by whoever counts past it. -/
theorem statesBefore_lt (s : Server) {id : ClientId} {no : StateNo}
    (hclient : (s.state no).id.key.client = id) {n : Nat}
    (hn : no.value < n) : s.statesBefore id no.value < s.statesBefore id n := by
  have hsucc := s.statesBefore_succ id no.value
  rw [if_pos hclient] at hsucc
  refine Nat.lt_of_lt_of_le ?_ (s.statesBefore_mono id (Nat.succ_le_of_lt hn))
  exact Nat.lt_of_lt_of_eq (Nat.lt_succ_self _) hsucc.symm

/-- The count looks at nothing but the keys. -/
theorem statesBefore_congr {n : Nat}
    (h : ∀ no : StateNo, no.value < n → (t.state no).id.key = (s.state no).id.key)
    (id : ClientId) : t.statesBefore id n = s.statesBefore id n := by
  refine List.countP_congr fun m hm => ?_
  rw [h ⟨m⟩ (List.mem_range.1 hm)]

/-- States keep their clients, and so the count of the first so many stays. -/
theorem Update.statesBefore_eq (h : Update e s t) (id : ClientId) {n : Nat}
    (hn : n ≤ s.states.size) : t.statesBefore id n = s.statesBefore id n :=
  statesBefore_congr (fun _ hno => h.state_key_eq (Nat.lt_of_lt_of_le hno hn)) id

/-- There are more states of a client only when one is made. -/
theorem Update.statesOf_eq (h : Update e s t) (he : e ≠ .stateMade) (id : ClientId) :
    t.statesOf id = s.statesOf id := by
  unfold statesOf
  rw [h.states_size_eq he]
  exact h.statesBefore_eq id (Nat.le_refl _)

/-- States are never lost. -/
theorem Update.statesOf_le (h : Update e s t) (id : ClientId) : s.statesOf id ≤ t.statesOf id := by
  unfold statesOf
  rw [← h.statesBefore_eq id (Nat.le_refl _)]
  exact t.statesBefore_mono id h.states_size_le

/-- No counter has wrapped. -/
structure StatesBounded (s : Server) : Prop where
  clients : s.clients.size < 0x100_0000
  states : ∀ no : ClientNo, no.value < s.clients.size → s.statesOf (s.client no).id < 0x100_0000

/-- Where few states were made in all, no client has made many. -/
theorem StatesBounded.of_size (hclients : s.clients.size < 0x100_0000)
    (hstates : s.states.size < 0x100_0000) : s.StatesBounded := by
  refine ⟨hclients, fun no _ => Nat.lt_of_le_of_lt ?_ hstates⟩
  -- a count is never more than what is counted
  unfold statesOf statesBefore
  exact Nat.le_trans List.countP_le_length (Nat.le_of_eq List.length_range)

/-- A counter that has not wrapped had not wrapped before. -/
theorem StatesBounded.of_update (h : Update e s t) (ht : t.StatesBounded) : s.StatesBounded := by
  constructor
  · exact Nat.lt_of_le_of_lt h.clients_size_le ht.clients
  · intro no hno
    have hbound := ht.states no (Nat.lt_of_lt_of_le hno h.clients_size_le)
    rw [h.client_id_eq hno] at hbound
    exact Nat.lt_of_le_of_lt (h.statesOf_le _) hbound

theorem StatesBounded.of_chain {E : List Effect} (h : Chain E s t) (ht : t.StatesBounded) :
    s.StatesBounded := by
  refine h.lift (R := fun s t => t.StatesBounded → s.StatesBounded) (fun _ h => h)
    (fun h h' hc => h (h' hc)) (fun _ hupdate => .of_update hupdate) ht

/-- While no client comes and no state is made, the counters stay as they are. -/
theorem StatesBounded.update (h : Update e s t) (he : e ∉ [.enrolled, .entered, .stateMade])
    (hs : s.StatesBounded) : t.StatesBounded := by
  simp only [List.mem_cons, List.not_mem_nil, or_false, not_or] at he
  obtain ⟨henrolled, hentered, hmade⟩ := he
  have hsize := h.clients_size_eq henrolled hentered
  constructor
  · rw [hsize]
    exact hs.clients
  · intro no hno
    rw [hsize] at hno
    rw [h.client_id_eq hno, h.statesOf_eq hmade]
    exact hs.states no hno

/-! ## What is known of keys and names -/

/-- Every state is one of a client, and bears the number that it has among the states of its
client; a client has counted as many. -/
structure Keyed (s : Server) : Prop where
  owned : ∀ no : StateNo, no.value < s.states.size →
    ∃ client : ClientNo, client.value < s.clients.size ∧
      (s.state no).id.key.client = (s.client client).id
  numbered : ∀ no : StateNo, no.value < s.states.size → ∃ kind, (s.state no).id.key =
    .ofParts (s.state no).id.key.client
      (UInt32.ofNat (s.statesBefore (s.state no).id.key.client no.value + 1)) kind
  counter : ∀ client : ClientNo, client.value < s.clients.size →
    (s.client client).stateCounter = UInt32.ofNat (s.statesOf (s.client client).id)

/-- The tables of the clients lead from a key to the state that bears it. -/
def Held (s : Server) : Prop :=
  ∀ (client : ClientNo) key no, (s.client client).states.get? key = some no →
    no.value < s.states.size ∧ (s.state no).id.key = key ∧ key.client = (s.client client).id

/-- The opens bear the keys of their states. -/
def Opened (s : Server) : Prop :=
  ∀ file, ∀ p ∈ s.opens.states file, p.1.value < s.states.size ∧ (s.state p.1).id.key = p.2

/-- The tables of the clients lead from a name to the owner of that name. -/
def Named (s : Server) : Prop :=
  ∀ (client : ClientNo) name no, (s.client client).owners.get? name = some no →
    no.value < s.owners.size ∧ (s.owner no).name = name

/-- What is known of keys and names. -/
structure Tracked (s : Server) : Prop where
  numbered : s.Numbered
  held : s.Held
  opened : s.Opened
  named : s.Named
  keyed : s.clients.size < 0x100_0000 → s.Keyed

/-- What is known of keys and names, while no counter has wrapped. -/
structure Traced (s : Server) : Prop extends Tracked s, StatesBounded s

/-- No two states have one key. -/
theorem Traced.key_ext (hs : s.Traced) {a b : StateNo} (ha : a.value < s.states.size)
    (hb : b.value < s.states.size) (hkey : (s.state a).id.key = (s.state b).id.key) : a = b := by
  have hkeyed := hs.keyed hs.clients
  obtain ⟨client, hclient, hid⟩ := hkeyed.owned a ha
  obtain ⟨kind, hkind⟩ := hkeyed.numbered a ha
  obtain ⟨kind', hkind'⟩ := hkeyed.numbered b hb
  have hbound := hs.states client hclient
  rw [← hid] at hbound
  rw [← hkey] at hkind'
  have hclient' : (s.state b).id.key.client = (s.state a).id.key.client := by rw [hkey]
  have hcounter := StateKey.counter_eq_of_ofParts
    (Nat.lt_of_le_of_lt (s.statesBefore_lt rfl ha) hbound)
    (Nat.lt_of_le_of_lt (s.statesBefore_lt hclient' hb) hbound) (hkind.symm.trans hkind')
  -- of two states of one client, the later one has the larger number
  rcases Nat.lt_trichotomy a.value b.value with hab | hab | hab
  · have hless := s.statesBefore_lt rfl hab
    omega
  · obtain ⟨m⟩ := a
    obtain ⟨n⟩ := b
    exact congrArg Serial.mk hab
  · have hless := s.statesBefore_lt hclient' hab
    omega

/-- No two clients have one identifier. -/
theorem Traced.client_ext (hs : s.Traced) {a b : ClientNo} (ha : a.value < s.clients.size)
    (hb : b.value < s.clients.size) (hid : (s.client a).id = (s.client b).id) : a = b :=
  hs.numbered.client_ext hs.clients ha hb hid

end Server

/-! ## What updates keep of them -/

namespace Client.Update

variable {now : Nat} {e : Effect} {c c' : Client}

/-- A client holds no state that it did not hold before, unless one is attached. -/
theorem states_get? (h : Update now e c c') (he : e ≠ .attached) {key : StateKey} {no : StateNo}
    (hget : c'.states.get? key = some no) : c.states.get? key = some no := by
  cases h with
  | attached => exact absurd rfl he
  | detached =>
    rw [Client.detach, Table.get?_erase] at hget
    split at hget
    · cases hget
    · exact hget
  | _ => exact hget

/-- The table of a client's states changes only by attaching and detaching. -/
theorem states_eq (h : Update now e c c') (hattached : e ≠ .attached) (hdetached : e ≠ .detached) :
    c'.states = c.states := by
  cases h with
  | attached => exact absurd rfl hattached
  | detached => exact absurd rfl hdetached
  | _ => rfl

/-- A client has new names only when its names change. -/
theorem owners_get? (h : Update now e c c') (he : e ≠ .ownersNamed) {name : Bytes} {no : OwnerNo}
    (hget : c'.owners.get? name = some no) : c.owners.get? name = some no := by
  cases h with
  | ownersNamed => exact absurd rfl he
  | ended => cases hget
  | _ => exact hget

theorem stateCounter_eq (h : Update now e c c') (he : e ≠ .counted) :
    c'.stateCounter = c.stateCounter := by
  cases h with
  | counted => exact absurd rfl he
  | _ => rfl

end Client.Update

namespace Server

variable {e : Effect} {s t : Server} {client : ClientNo}

/-- A record stays as it is, is amended in the way of the update, has one more session, or is
new. -/
theorem Update.client_cases (h : Update e s t) (no : ClientNo) :
    t.client no = s.client no ∨ Client.Update s.now e (s.client no) (t.client no) ∨
      (∃ session, t.client no = (s.client no).withSession session) ∨
      s.client no = default ∧
        ∃ id r leaseTime needReclaim, t.client no = .new id r leaseTime needReclaim s.now s.wall := by
  rcases Nat.lt_or_ge no.value s.clients.size with hold | hnew
  · rcases h.client_update hold with hsame | hupdate | ⟨_, attributes, rfl⟩
    · exact .inl hsame
    · exact .inr (.inl hupdate)
    · exact .inr (.inr (.inl ⟨_, (client_withSession ..).trans (if_pos ⟨rfl, hold⟩)⟩))
  · rcases Nat.lt_or_ge no.value t.clients.size with hmade | hnone
    · exact .inr (.inr (.inr ⟨client_eq_default hnew, h.client_new hnew hmade⟩))
    · rw [client_eq_default hnew, client_eq_default hnone]
      exact .inl rfl

/-- A state is found under a key only if it was before, unless one is attached. -/
theorem Update.states_get? (h : Update e s t) (he : e ≠ .attached) {key : StateKey} {no : StateNo}
    (hget : (t.client client).states.get? key = some no) :
    (s.client client).states.get? key = some no := by
  rcases h.client_cases client with hsame | hupdate | ⟨_, hsession⟩ | ⟨_, _, _, _, _, hnew⟩
  · rwa [hsame] at hget
  · exact hupdate.states_get? he hget
  · rwa [hsession] at hget
  · rw [hnew] at hget
    cases hget

/-- An owner is found under a name only if it was before, unless the names change. -/
theorem Update.owners_get? (h : Update e s t) (he : e ≠ .ownersNamed) {name : Bytes} {no : OwnerNo}
    (hget : (t.client client).owners.get? name = some no) :
    (s.client client).owners.get? name = some no := by
  rcases h.client_cases client with hsame | hupdate | ⟨_, hsession⟩ | ⟨_, _, _, _, _, hnew⟩
  · rwa [hsame] at hget
  · exact hupdate.owners_get? he hget
  · rwa [hsession] at hget
  · rw [hnew] at hget
    cases hget

/-- A client from whose table a key is taken holds nothing under it. -/
theorem get?_detach {client : ClientNo} (hclient : client.value < s.clients.size) (gone : StateKey)
    (c : ClientNo) (key : StateKey) :
    ((s.amendClient client (·.detach gone)).client c).states.get? key =
      if c = client ∧ gone = key then none else (s.client c).states.get? key := by
  rw [client_amendClient]
  by_cases hsame : c = client
  · rw [if_pos ⟨hsame, hclient⟩, Client.detach, Table.get?_erase]
    by_cases hkey : gone = key
    · rw [if_pos hkey, if_pos ⟨hsame, hkey⟩]
    · rw [if_neg hkey, if_neg fun h => hkey h.2]
  · rw [if_neg fun h => hsame h.1, if_neg fun h => hsame h.1]

/-- Only clients that were made hold states. -/
theorem lt_of_states_get? {key : StateKey} {no : StateNo}
    (hget : (s.client client).states.get? key = some no) : client.value < s.clients.size := by
  rcases Nat.lt_or_ge client.value s.clients.size with hlt | hge
  · exact hlt
  · rw [client_eq_default hge] at hget
    cases hget

/-- No open is new but one that is added. -/
theorem Update.opens_states_subset (h : Update e s t) (he : e ≠ .openAdded) (file : FileId) :
    t.opens.states file ⊆ s.opens.states file := by
  cases h with
  | openAdded => exact absurd rfl he
  | openForgotten _ _ _ _ h => exact (OpenTable.states_remove? h file).1
  | openWidened =>
    dsimp only
    rw [OpenTable.states_widen]
    exact List.Subset.refl _
  | openLowered _ _ _ _ _ _ _ h =>
    dsimp only
    rw [OpenTable.states_downgrade h]
    exact List.Subset.refl _
  | _ => exact List.Subset.refl _

/-- Only a state that is attached bears on where keys lead. -/
theorem held_update (h : Update e s t) (he : e ≠ .attached) (hs : s.Held) : t.Held := by
  intro client key no hget
  have hbefore := h.states_get? he hget
  obtain ⟨hno, hkey, hclient⟩ := hs client key no hbefore
  rw [h.state_key_eq hno, h.client_id_eq (lt_of_states_get? hbefore)]
  exact ⟨Nat.lt_of_lt_of_le hno h.states_size_le, hkey, hclient⟩

/-- Only a new open bears on the keys of opens. -/
theorem opened_update (h : Update e s t) (he : e ≠ .openAdded) (hs : s.Opened) : t.Opened := by
  intro file p hp
  obtain ⟨hno, hkey⟩ := hs file p (h.opens_states_subset he file hp)
  rw [h.state_key_eq hno]
  exact ⟨Nat.lt_of_lt_of_le hno h.states_size_le, hkey⟩

/-- Only a new name bears on where names lead. -/
theorem named_update (h : Update e s t) (he : e ≠ .ownersNamed) (hs : s.Named) : t.Named := by
  intro client name no hget
  obtain ⟨hno, hname⟩ := hs client name no (h.owners_get? he hget)
  rw [h.owner_name_eq hno]
  exact ⟨Nat.lt_of_lt_of_le hno h.owners_size_le, hname⟩

/-- A client that has just been made has an identifier of its own, and so no state yet. -/
theorem Keyed.statesOf_new (hs : s.Keyed) (h : Update e s t) (he : e ≠ .stateMade)
    (ht : t.Numbered) (hbound : t.clients.size < 0x100_0000) (hnew : s.clients.size ≤ client.value)
    (hclient : client.value < t.clients.size) : t.statesOf (t.client client).id = 0 := by
  rw [h.statesOf_eq he]
  refine List.countP_eq_zero.2 fun n hn hsame => ?_
  obtain ⟨owner, howner, hid⟩ := hs.owned ⟨n⟩ (List.mem_range.1 hn)
  have heq : (t.client owner).id = (t.client client).id := by
    rw [h.client_id_eq howner, ← hid]
    exact of_decide_eq_true hsame
  have hclients := ht.client_ext hbound (Nat.lt_of_lt_of_le howner h.clients_size_le) hclient heq
  rw [hclients] at howner
  omega

/-- Only new states, and identifiers that are taken, bear on the keys of states. -/
theorem keyed_update (h : Update e s t) (he : e ∉ [.counted, .stateMade]) (ht : t.Numbered)
    (hbound : t.clients.size < 0x100_0000) (hs : s.Keyed) : t.Keyed := by
  simp only [List.mem_cons, List.not_mem_nil, or_false, not_or] at he
  obtain ⟨hcounted, hmade⟩ := he
  have hsize := h.states_size_eq hmade
  constructor
  · intro no hno
    rw [hsize] at hno
    obtain ⟨client, hclient, hid⟩ := hs.owned no hno
    rw [h.state_key_eq hno]
    exact ⟨client, Nat.lt_of_lt_of_le hclient h.clients_size_le, hid.trans (h.client_id_eq hclient).symm⟩
  · intro no hno
    rw [hsize] at hno
    rw [h.state_key_eq hno, h.statesBefore_eq _ (Nat.le_of_lt hno)]
    exact hs.numbered no hno
  · intro client hclient
    rcases Nat.lt_or_ge client.value s.clients.size with hold | hnew
    · rw [h.client_id_eq hold, h.statesOf_eq hmade, ← hs.counter client hold]
      rcases h.client_update hold with hsame | hupdate | ⟨_, attributes, rfl⟩
      · rw [hsame]
      · exact hupdate.stateCounter_eq hcounted
      · rw [client_withSession, if_pos ⟨rfl, hold⟩]
        rfl
    -- a new client counts from zero, and no state bears its identifier yet
    · rw [hs.statesOf_new h hmade ht hbound hnew hclient]
      obtain ⟨_, _, _, _, hrecord⟩ := h.client_new hnew hclient
      rw [hrecord]
      rfl

/-- While no state is made and no record comes in from outside the table, there is nothing to look at
but the opens and the owners' names. -/
theorem Tracked.of_chain {E : List Effect} (h : Chain E s t)
    (hE : ∀ e ∈ E, e ∉ [Effect.entered, .counted, .stateMade, .attached]) (hs : s.Tracked)
    (hopened : t.Opened) (hnamed : t.Named) : t.Tracked := by
  have hnot {e : Effect} (he : e ∈ E) :
      e ≠ .entered ∧ e ∉ [.counted, .stateMade] ∧ e ≠ .attached := by
    have hmem := hE e he
    simp only [List.mem_cons, List.not_mem_nil, or_false, not_or] at hmem ⊢
    exact ⟨hmem.1, ⟨hmem.2.1, hmem.2.2.1⟩, hmem.2.2.2⟩
  have hkept : t.Numbered ∧ (t.clients.size < 0x100_0000 → t.Keyed) := by
    refine h.preserve (I := fun t => t.Numbered ∧ (t.clients.size < 0x100_0000 → t.Keyed)) ?_
      ⟨hs.numbered, hs.keyed⟩
    intro e a b he hupdate ⟨hnumbered, hkeyed⟩
    have hnumbered' := numbered_update hupdate (hnot he).1 hnumbered
    refine ⟨hnumbered', fun hbound => keyed_update hupdate (hnot he).2.1 hnumbered' hbound ?_⟩
    exact hkeyed (Nat.lt_of_le_of_lt hupdate.clients_size_le hbound)
  refine ⟨hkept.1, ?_, hopened, hnamed, hkept.2⟩
  exact h.preserve (fun he hupdate => held_update hupdate (hnot he).2.2) hs.held

/-- Most updates keep what is known of keys and names. -/
theorem tracked_chain {E : List Effect} (h : Chain E s t)
    (hE : ∀ e ∈ E, e ∉ [Effect.entered, .counted, .stateMade, .attached, .ownersNamed, .openAdded])
    (hs : s.Tracked) : t.Tracked := by
  refine .of_chain h (fun e he hmem => hE e he ?_) hs ?_ ?_
  · exact List.mem_append_left [.ownersNamed, .openAdded] hmem
  · refine h.preserve (fun {e _ _} he hupdate => opened_update hupdate ?_) hs.opened
    rintro rfl
    exact hE _ he (by decide)
  · refine h.preserve (fun {e _ _} he hupdate => named_update hupdate ?_) hs.named
    rintro rfl
    exact hE _ he (by decide)

/-- The end of states and clients keeps it, too, and moves no counter. -/
theorem traced_ending {E : List Effect} (h : Chain E s t) (hE : E ⊆ Effect.ending)
    (hs : s.Traced) : t.Traced := by
  refine ⟨tracked_chain h (fun e he => ?_) hs.toTracked, ?_⟩
  · have hall : ∀ e ∈ Effect.ending,
        e ∉ [Effect.entered, .counted, .stateMade, .attached, .ownersNamed, .openAdded] := by decide
    exact hall e (hE he)
  · have hall : ∀ e ∈ Effect.ending, e ∉ [Effect.enrolled, .entered, .stateMade] := by decide
    exact h.preserve (fun he hupdate => StatesBounded.update hupdate (hall _ (hE he)))
      hs.toStatesBounded

end Server

end Leasehold

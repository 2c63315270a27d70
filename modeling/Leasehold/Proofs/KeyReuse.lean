import Mathlib.Data.List.Induction
import Leasehold.Proofs.StateMaking

/-!
# Proofs.KeyReuse — when the key of a state comes round

The key of a state holds 24 bits of the counter of its client, and a state is
attached under its key whatever stands there. So a state that is still held once its
client has taken 2^24 more identifiers is replaced by the next one of its kind, and
what it owes is never done.

* `Server.attached_callAll` — the states of a record are those that calls on the
  record made;
* `Server.MadeAgo.key_eq` — and each bears the number that the counter then had;
* `Server.attached_replaced_iff` — the next state takes the place of an attached one
  just if they are of one kind and the identifiers taken from the old one on are a
  multiple of 2^24; any other one stays under its key;
* `Server.attached_replaced_after_wrap` — a run that comes round.
-/

namespace Leasehold

/-! ## Keys of one client -/

namespace StateKey

/-- Of two states of a client, the later one has the key of the earlier one just if they are of one
kind and the counter came round between them. -/
theorem ofParts_add_eq_iff (client : ClientId) (counter : UInt32) (n : Nat) (kind kind' : StateKind) :
    ofParts client (counter + UInt32.ofNat n) kind' = ofParts client counter kind ↔
      kind' = kind ∧ 0x100_0000 ∣ n := by
  rw [ofParts_eq_iff, lowBits_add]
  constructor
  · rintro ⟨-, hkind, hcounter⟩
    exact ⟨hkind, by omega⟩
  · rintro ⟨hkind, hn⟩
    exact ⟨rfl, hkind, by omega⟩

end StateKey

/-! ## Calls on the record of a client -/

/-- A call on the record of a client that takes an identifier for a state, makes a state, or ends
one. -/
inductive StateCall where
  | takeId (kind : StateKind)
  | create (owner : OwnerNo) (kind : StateKind) (parent : Option StateNo)
  | release (id : StateId)

namespace StateCall

/-- Whether the call takes the next identifier of the client. -/
def takesId : StateCall → Bool
  | takeId _ | create .. => true
  | release _ => false

/-- The call on a client's record. -/
def request (client : ClientNo) : StateCall → Request Unit
  | takeId kind => do
    let _ ← Request.takeStateId client kind
  | create owner kind parent => do
    let _ ← Request.createState client owner kind parent
  | release id => Request.releaseState client id

/-- How many identifiers calls take. -/
def idsTaken (calls : List StateCall) : Nat := calls.countP takesId

/-- Identifiers are taken by the calls of both parts. -/
theorem idsTaken_append (calls more : List StateCall) :
    idsTaken (calls ++ more) = idsTaken calls + idsTaken more :=
  List.countP_append ..

theorem idsTaken_singleton (call : StateCall) :
    idsTaken [call] = if call.takesId then 1 else 0 :=
  List.countP_singleton ..

end StateCall

namespace Server

open StateCall

/-- The server after calls on the record of a client. -/
def callAll (s : Server) (client : ClientNo) (calls : List StateCall) : Server :=
  calls.foldl (fun s call => s.after (call.request client)) s

/-- The state was made for the client by one of the calls, in a kind; by that call and those after
it, so many identifiers were taken. -/
def MadeAgo (s : Server) (client : ClientNo) (calls : List StateCall) (kind : StateKind) (n : Nat)
    (no : StateNo) : Prop :=
  ∃ before owner parent rest, calls = before ++ .create owner kind parent :: rest ∧
    no = (s.callAll client before).states.nextNo ∧ n = idsTaken (.create owner kind parent :: rest)

variable {s : Server} {client : ClientNo}

theorem callAll_append (s : Server) (client : ClientNo) (calls more : List StateCall) :
    s.callAll client (calls ++ more) = (s.callAll client calls).callAll client more :=
  List.foldl_append ..

/-- An identifier that is taken changes nothing but the counter of the client. -/
theorem after_takeId (s : Server) (client : ClientNo) (kind : StateKind) :
    s.after ((takeId kind).request client) =
      s.amendClient client fun _ => ((s.client client).nextStateId kind).2 := rfl

/-- A state that is asked for is made. -/
theorem after_create (s : Server) (client : ClientNo) (owner : OwnerNo) (kind : StateKind)
    (parent : Option StateNo) :
    s.after ((create owner kind parent).request client) = s.withState client owner kind parent :=
  rfl

/-- The release of a state does no updates but those of its kinds. -/
theorem chain_release (s : Server) (client : ClientNo) (id : StateId) :
    Chain Effect.releasing s (s.after ((release id).request client)) :=
  Request.does_releaseState (List.Subset.refl _) client id s

/-- A call makes states or ends them. -/
theorem chain_call (s : Server) (client : ClientNo) (call : StateCall) :
    Chain (Effect.making ++ Effect.releasing) s (s.after (call.request client)) := by
  cases call with
  | takeId kind => exact .single (by decide) (.client s client _ (.counted _))
  | create owner kind parent =>
    exact (s.chain_withState client owner kind parent).mono (List.subset_append_left ..)
  | release id => exact (s.chain_release client id).mono (List.subset_append_right ..)

theorem chain_callAll (s : Server) (client : ClientNo) (calls : List StateCall) :
    Chain (Effect.making ++ Effect.releasing) s (s.callAll client calls) := by
  induction calls generalizing s with
  | nil => exact .refl
  | cons call rest ih => exact (s.chain_call client call).trans (ih _)

/-! ## What the counter counts -/

/-- The counter of the client goes up with each identifier that is taken, and comes round. -/
theorem stateCounter_call (hclient : client.value < s.clients.size) (call : StateCall) :
    ((s.after (call.request client)).client client).stateCounter =
      (s.client client).stateCounter + UInt32.ofNat (idsTaken [call]) := by
  rw [idsTaken_singleton]
  cases call with
  | takeId kind =>
    rw [after_takeId, client_amendClient, if_pos ⟨rfl, hclient⟩]
    rfl
  | create owner kind parent =>
    rw [after_create, client_withState hclient, if_pos rfl]
    rfl
  | release id =>
    -- no end of a state touches the counter
    have hcounted : .counted ∉ Effect.releasing := by decide
    have hchain := s.chain_release client id
    refine (hchain.client_eq_of_updates hclient ?_).trans (UInt32.add_zero _).symm
    intro e he a b hupdate hsize
    have hne : e ≠ .counted := fun h => hcounted (h ▸ he)
    rcases hupdate.client_update hsize with hsame | hclient | ⟨rfl, _⟩
    · rw [hsame]
    · exact hclient.stateCounter_eq hne
    · exact absurd he (by decide)

/-- The counter counts the identifiers that are taken, up to its width. -/
theorem stateCounter_callAll (hclient : client.value < s.clients.size) (calls : List StateCall) :
    ((s.callAll client calls).client client).stateCounter =
      (s.client client).stateCounter + UInt32.ofNat (idsTaken calls) := by
  induction calls generalizing s with
  | nil => exact (UInt32.add_zero _).symm
  | cons call rest ih =>
    have hsize := (s.chain_call client call).clients_size_le
    have hsum : idsTaken (call :: rest) = idsTaken [call] + idsTaken rest :=
      idsTaken_append [call] rest
    rw [hsum, UInt32.ofNat_add, ← UInt32.add_assoc, ← stateCounter_call hclient call]
    exact ih (Nat.lt_of_lt_of_le hclient hsize)

/-! ## What is attached -/

/-- A state made by calls is still one that was made after one more. -/
theorem MadeAgo.snoc {calls : List StateCall} {kind : StateKind} {n : Nat} {no : StateNo}
    (h : s.MadeAgo client calls kind n no) (call : StateCall) :
    ∃ m, s.MadeAgo client (calls ++ [call]) kind m no := by
  obtain ⟨before, owner, parent, rest, rfl, hno, -⟩ := h
  refine ⟨_, before, owner, parent, rest ++ [call], ?_, hno, rfl⟩
  rw [List.append_assoc, List.cons_append]

/-- The state that calls made bears the number that the counter had reached when it was made. -/
theorem MadeAgo.key_eq {calls : List StateCall} {kind : StateKind} {n : Nat} {no : StateNo}
    (hclient : client.value < s.clients.size) (h : s.MadeAgo client calls kind n no) :
    ∃ counter, ((s.callAll client calls).state no).id.key =
        .ofParts ((s.callAll client calls).client client).id (counter + 1) kind ∧
      ((s.callAll client calls).client client).stateCounter = counter + UInt32.ofNat n := by
  obtain ⟨before, owner, parent, rest, rfl, rfl, rfl⟩ := h
  rw [callAll_append]
  generalize ht : s.callAll client before = t
  have hclient' : client.value < t.clients.size := by
    rw [← ht]
    exact Nat.lt_of_lt_of_le hclient (s.chain_callAll client before).clients_size_le
  refine ⟨(t.client client).stateCounter, ?_, stateCounter_callAll hclient' _⟩
  have hid := (t.chain_callAll client (.create owner kind parent :: rest)).client_id_eq hclient'
  -- the key is given when the state is made, and stays with it
  have hmade : t.states.nextNo.value < (t.withState client owner kind parent).states.size := by
    rw [states_size_withState]
    exact Nat.lt_succ_self _
  have hkey := ((t.withState client owner kind parent).chain_callAll client rest).state_key_eq hmade
  rw [state_withState hclient', if_pos rfl] at hkey
  rw [hid]
  exact hkey

/-- A record that held no state holds only states that calls on it made, under their keys. -/
theorem attached_callAll (hclient : client.value < s.clients.size)
    (hempty : (s.client client).states = .empty) (calls : List StateCall) {key : StateKey}
    {no : StateNo} (hheld : ((s.callAll client calls).client client).states.get? key = some no) :
    no.value < (s.callAll client calls).states.size ∧
      ((s.callAll client calls).state no).id.key = key ∧
      ∃ kind n, s.MadeAgo client calls kind n no := by
  induction calls using List.reverseRecOn generalizing key no with
  | nil =>
    have hnone : (s.client client).states.get? key = some no := hheld
    rw [hempty] at hnone
    cases hnone
  | append_singleton calls call ih =>
    have hstep : s.callAll client (calls ++ [call]) =
        (s.callAll client calls).after (call.request client) := callAll_append ..
    rw [hstep] at hheld ⊢
    generalize ht : s.callAll client calls = t at *
    have hclient' : client.value < t.clients.size := by
      rw [← ht]
      exact Nat.lt_of_lt_of_le hclient (s.chain_callAll client calls).clients_size_le
    have hchain := t.chain_call client call
    -- whatever the call, a state that was held keeps its number and its key
    have hold (h : (t.client client).states.get? key = some no) :
        no.value < (t.after (call.request client)).states.size ∧
          ((t.after (call.request client)).state no).id.key = key ∧
          ∃ kind n, s.MadeAgo client (calls ++ [call]) kind n no := by
      obtain ⟨hno, hkey, kind, n, hmade⟩ := ih h
      refine ⟨Nat.lt_of_lt_of_le hno hchain.states_size_le, ?_, kind, hmade.snoc call⟩
      rw [hchain.state_key_eq hno]
      exact hkey
    cases call with
    | takeId kind =>
      rw [after_takeId, client_amendClient, if_pos ⟨rfl, hclient'⟩] at hheld
      exact hold hheld
    | create owner kind parent =>
      rw [after_create, client_withState hclient', if_pos rfl] at hheld
      dsimp only at hheld
      rw [Table.get?_insert] at hheld
      split at hheld
      · rename_i hkey
        injection hheld with hno
        subst hno
        rw [after_create, states_size_withState, state_withState hclient', if_pos rfl]
        refine ⟨Nat.lt_succ_self _, hkey, kind, _, calls, owner, parent, [], rfl, ?_, rfl⟩
        rw [ht]
      · exact hold hheld
    | release id =>
      have hattached : .attached ∉ Effect.releasing := by decide
      refine hold ((t.chain_release client id).lift
        (R := fun a b => (b.client client).states.get? key = some no →
          (a.client client).states.get? key = some no)
        (fun _ h => h) (fun h h' hget => h (h' hget)) (fun he hupdate hget => ?_) hheld)
      exact hupdate.states_get? (fun h => hattached (h ▸ he)) hget

/-- The key of the next state is that of a state the calls made just if they are of one kind and the
counter came round from the one to the other. -/
theorem MadeAgo.nextStateKey_eq_iff {calls : List StateCall} {kind kind' : StateKind} {n : Nat}
    {no : StateNo} (hclient : client.value < s.clients.size)
    (h : s.MadeAgo client calls kind n no) :
    ((s.callAll client calls).client client).nextStateKey kind' =
        ((s.callAll client calls).state no).id.key ↔ kind' = kind ∧ 0x100_0000 ∣ n := by
  obtain ⟨counter, hkey, hcounter⟩ := h.key_eq hclient
  rw [hkey, Client.nextStateKey, hcounter, ← StateKey.ofParts_add_eq_iff _ (counter + 1)]
  have hswap : counter + UInt32.ofNat n + 1 = counter + 1 + UInt32.ofNat n := by
    rw [UInt32.add_assoc, UInt32.add_comm (UInt32.ofNat n), ← UInt32.add_assoc]
  rw [hswap]

/-- A record begins without states, and then identifiers are taken on it and states made and ended,
in any order and number. If one more state is made, it has the key of an attached state
just if calls made that one in the same kind, a multiple of 2^24 identifiers ago. Then the new state
stands in the place of the old one, which is not ended; else the old one stays under its key. -/
theorem attached_replaced_iff (hclient : client.value < s.clients.size)
    (hempty : (s.client client).states = .empty) (calls : List StateCall) (owner : OwnerNo)
    (kind : StateKind) (parent : Option StateNo) {key : StateKey} {no : StateNo}
    (hheld : ((s.callAll client calls).client client).states.get? key = some no) :
    let t := s.callAll client calls
    let u := t.after (Request.createState client owner kind parent)
    (Request.createState client owner kind parent).exec t = (.ok t.states.nextNo, u) ∧
      ((u.state t.states.nextNo).id.key = key ↔
        ∃ n, 0x100_0000 ∣ n ∧ s.MadeAgo client calls kind n no) ∧
      (u.client client).states.get? key =
        some (if (u.state t.states.nextNo).id.key = key then t.states.nextNo else no) ∧
      no ≠ t.states.nextNo ∧ u.state no = t.state no := by
  intro t u
  have hclient' : client.value < t.clients.size :=
    Nat.lt_of_lt_of_le hclient (s.chain_callAll client calls).clients_size_le
  obtain ⟨hno, hkey, kind', n', hmade'⟩ := attached_callAll hclient hempty calls hheld
  have hu : u = t.withState client owner kind parent := rfl
  have hnew : (u.state t.states.nextNo).id.key = (t.client client).nextStateKey kind := by
    rw [hu, state_withState hclient', if_pos rfl]
    rfl
  have hne : no ≠ t.states.nextNo := Ledger.ne_nextNo hno
  refine ⟨rfl, ?_, ?_, hne, ?_⟩
  -- the key of the new state is the next one, and that of the old state was the next one when it
  -- was made
  · rw [hnew, ← hkey]
    constructor
    · intro hsame
      obtain ⟨rfl, hn⟩ := (hmade'.nextStateKey_eq_iff hclient).1 hsame
      exact ⟨n', hn, hmade'⟩
    · rintro ⟨n, hn, hmade⟩
      exact (hmade.nextStateKey_eq_iff hclient).2 ⟨rfl, hn⟩
  · rw [hnew, hu, client_withState hclient', if_pos rfl]
    refine (Table.get?_insert ..).trans ?_
    split
    · rfl
    · exact hheld
  · rw [hu, state_withState hclient', if_neg hne]

/-- A state that was just made stays, since the next one has the next number. -/
theorem attached_kept_by_next :
    let s := (start false {} (.durable (.openOn .empty)) ⟨0⟩).perform (.createClient (.ofOwner [1]))
    let t := s.callAll ⟨0⟩ [.create ⟨0⟩ .share none]
    let u := t.after (Request.createState ⟨0⟩ ⟨0⟩ .share none)
    let key := StateKey.ofParts (s.client ⟨0⟩).id 1 .share
    (t.client ⟨0⟩).states.get? key = some ⟨0⟩ ∧ (u.state t.states.nextNo).id.key ≠ key ∧
      (u.client ⟨0⟩).states.get? key = some ⟨0⟩ := by
  intro s t u key
  have hclient : (⟨0⟩ : ClientNo).value < s.clients.size := by decide +kernel
  have hheld : (t.client ⟨0⟩).states.get? key = some ⟨0⟩ := by decide +kernel
  have hother : (u.state t.states.nextNo).id.key ≠ key := by decide +kernel
  obtain ⟨-, -, hkept, -, -⟩ := attached_replaced_iff hclient rfl [.create ⟨0⟩ .share none] ⟨0⟩
    .share none hheld
  refine ⟨hheld, hother, hkept.trans ?_⟩
  rw [if_neg hother]

/-- To take an identifier changes nothing but the counter. -/
theorem states_callAll_takeId (s : Server) (client : ClientNo) (kind : StateKind) (n : Nat) :
    ((s.callAll client (List.replicate n (.takeId kind))).client client).states =
        (s.client client).states ∧
      (s.callAll client (List.replicate n (.takeId kind))).states = s.states := by
  induction n generalizing s with
  | zero => exact ⟨rfl, rfl⟩
  | succ n ih =>
    obtain ⟨htable, hledger⟩ := ih (s.after ((takeId kind).request client))
    refine ⟨htable.trans ?_, hledger⟩
    rw [after_takeId, client_amendClient]
    split
    · rfl
    · rfl

/-- A state that is held until the counter has come round is replaced by the next one, and is not
ended. -/
theorem replaced_of_taken (hclient : client.value < s.clients.size) (owner : OwnerNo)
    (kind : StateKind) (parent : Option StateNo) {n : Nat} (hn : 0x100_0000 ∣ n + 1) :
    let t := s.callAll client (.create owner kind parent :: List.replicate n (.takeId kind))
    let u := t.after (Request.createState client owner kind parent)
    let key := (s.client client).nextStateKey kind
    (t.client client).states.get? key = some s.states.nextNo ∧
      (u.state t.states.nextNo).id.key = key ∧
      (u.client client).states.get? key = some t.states.nextNo ∧
      t.states.nextNo ≠ s.states.nextNo ∧ (u.state s.states.nextNo).disposed = false := by
  intro t u key
  obtain ⟨htable, hledger⟩ :=
    states_callAll_takeId (s.withState client owner kind parent) client kind n
  have hstates : t.states = (s.withState client owner kind parent).states := hledger
  have hclient' : client.value < t.clients.size :=
    Nat.lt_of_lt_of_le hclient (s.chain_callAll client _).clients_size_le
  have hheld : (t.client client).states.get? key = some s.states.nextNo := by
    have hget : (t.client client).states.get? key =
        ((s.withState client owner kind parent).client client).states.get? key :=
      congrArg (Table.get? · key) htable
    rw [hget, client_withState hclient, if_pos rfl]
    exact (Table.get?_insert ..).trans (if_pos rfl)
  have hfirst : t.state s.states.nextNo =
      { HeldState.new ⟨key, 0⟩ owner parent with confirmed := (s.client client).isSessionBased } := by
    have hget : t.state s.states.nextNo =
        (s.withState client owner kind parent).state s.states.nextNo :=
      congrArg (Ledger.get · s.states.nextNo) hstates
    rw [hget, state_withState hclient, if_pos rfl]
  -- the counter has come round to where it stood
  have hkey : (t.client client).nextStateKey kind = key := by
    have htaken : idsTaken (.create owner kind parent :: List.replicate n (.takeId kind)) = n + 1 := by
      unfold idsTaken
      rw [List.countP_cons_of_pos rfl, List.countP_replicate]
      rfl
    have hmade : s.MadeAgo client (.create owner kind parent :: List.replicate n (.takeId kind)) kind
        (n + 1) s.states.nextNo :=
      ⟨[], owner, parent, _, rfl, rfl, htaken.symm⟩
    refine ((hmade.nextStateKey_eq_iff hclient).2 ⟨rfl, hn⟩).trans ?_
    exact congrArg (·.id.key) hfirst
  have hne : s.states.nextNo ≠ t.states.nextNo := by
    refine Ledger.ne_nextNo ?_
    rw [hstates, states_size_withState]
    exact Nat.lt_succ_self _
  have hu : u = t.withState client owner kind parent := rfl
  refine ⟨hheld, ?_, ?_, hne.symm, ?_⟩
  · rw [hu, state_withState hclient', if_pos rfl]
    exact hkey
  · rw [hu, client_withState hclient', if_pos rfl, hkey]
    exact (Table.get?_insert ..).trans (if_pos rfl)
  · rw [hu, state_withState hclient', if_neg hne, hfirst]
    rfl

/-- A client is given a state, takes 2^24 - 1 more identifiers, and is given another state. That one
has the key of the first, which is still held, and takes its place; the first one is not ended. -/
theorem attached_replaced_after_wrap :
    let s := (start false {} (.durable (.openOn .empty)) ⟨0⟩).perform (.createClient (.ofOwner [1]))
    let t := s.callAll ⟨0⟩ (.create ⟨0⟩ .share none :: List.replicate 0xff_ffff (.takeId .share))
    let u := t.after (Request.createState ⟨0⟩ ⟨0⟩ .share none)
    let key := (s.client ⟨0⟩).nextStateKey .share
    (t.client ⟨0⟩).states.get? key = some s.states.nextNo ∧
      (u.state t.states.nextNo).id.key = key ∧
      (u.client ⟨0⟩).states.get? key = some t.states.nextNo ∧
      t.states.nextNo ≠ s.states.nextNo ∧ (u.state s.states.nextNo).disposed = false := by
  intro s
  have hclient : (⟨0⟩ : ClientNo).value < s.clients.size := by decide +kernel
  exact replaced_of_taken hclient ⟨0⟩ .share none (by decide)

end Server

end Leasehold

import Mathlib.Control.Monad.Basic
import Leasehold.Proofs.Belonging
import Leasehold.Proofs.Presenting

/-!
# Proofs.OwnerNumbers — the request numbers of owners

The owners of a client without sessions number their requests, and the number of the
last request that was accepted stands on the owner. One table leads from names to
owners, for opens and for locks alike. A lock owner's first lock on a file bears two
numbers: the next one of the owner of the open, and the one that the lock owner starts
with.

* `Server.keepsHappenings_namesSuited` — an owner that a client has a name for is
  numbered exactly if the client has no sessions, whatever happens;
* `Server.first_lock_numbers` — the lock owner starts with the number that its first lock
  bears if the client has no owner of that name yet; an owner that it has keeps its own
  number, and the one that the request bears is not looked at;
* `Server.later_first_lock_not_numbered` — the other case, on a small run.
-/

namespace Leasehold

open Request

/-! ## Accepting a number -/

namespace Owner

variable {o o' : Owner} {n : UInt32}

/-- An owner that takes a number stays of its kind. -/
theorem sessionBased_of_accept (h : o.accept n = .ok o') : o'.sessionBased = o.sessionBased := by
  unfold accept at h
  split at h
  · injection h with h
    rw [h]
  · split at h
    · injection h with h
      rw [← h]
    · cases h

/-- An owner that is numbered accepts the next number and no other, and has it from then on. -/
theorem accept_eq_ok_iff (hnumbered : o.sessionBased = false) :
    o.accept n = .ok o' ↔ n = o.seqid + 1 ∧ o' = { o with seqid := n } := by
  unfold accept
  rw [hnumbered, if_neg Bool.false_ne_true]
  constructor
  · intro h
    split at h
    · rename_i hnext
      injection h with h
      exact ⟨hnext, h.symm⟩
    · cases h
  · rintro ⟨hnext, rfl⟩
    rw [if_pos hnext]

end Owner

namespace Server

variable {e : Effect} {s t : Server} {client : ClientNo}

/-! ## What is done to owners -/

/-- Owners change only when one is made or amended. -/
theorem Update.owners_eq (h : Update e s t) (hmade : e ≠ .ownerMade)
    (hamended : e ≠ .ownerAmended) : t.owners = s.owners := by
  cases h with
  | ownerMade => exact absurd rfl hmade
  | ownerAmended => exact absurd rfl hamended
  | _ => rfl

/-- An owner that was made stays as it is but for amendments. -/
theorem Update.owner_eq (h : Update e s t) (he : e ≠ .ownerAmended) {no : OwnerNo}
    (hno : no.value < s.owners.size) : t.owner no = s.owner no := by
  cases h with
  | ownerMade => exact (Ledger.get_add ..).trans (if_neg (Ledger.ne_nextNo hno))
  | ownerAmended => exact absurd rfl he
  | _ => rfl

/-! ## Owners that clients have names for -/

/-- An owner suits a client: it was made, and is numbered exactly if the client has no sessions. -/
structure Suits (s : Server) (client : ClientNo) (owner : OwnerNo) : Prop where
  made : owner.value < s.owners.size
  sessionBased : (s.owner owner).sessionBased = (s.client client).isSessionBased

/-- An owner goes on suiting the client unless it is amended. -/
theorem Suits.update {owner : OwnerNo} (hs : s.Suits client owner) (h : Update e s t)
    (he : e ≠ .ownerAmended) (hclient : client.value < s.clients.size) : t.Suits client owner := by
  refine ⟨Nat.lt_of_lt_of_le hs.made h.owners_size_le, ?_⟩
  rw [h.owner_eq he hs.made, hs.sessionBased]
  unfold Client.isSessionBased
  rw [h.registration_eq hclient]

/-- An owner that accepts a number suits whom it suited. -/
theorem Suits.accepted {owner no : OwnerNo} {seqid : UInt32} {accepted : Owner}
    (hs : s.Suits client owner) (h : (s.owner no).accept seqid = .ok accepted) :
    (s.amendOwner no fun _ => accepted).Suits client owner := by
  refine ⟨Nat.lt_of_lt_of_eq hs.made (Ledger.size_modify ..).symm, ?_⟩
  refine Eq.trans ?_ hs.sessionBased
  rw [owner_amendOwner]
  split
  · rename_i hsame
    rw [hsame.1]
    exact Owner.sessionBased_of_accept h
  · rfl

/-- The owner that a client comes to have a name for suits the client. -/
theorem suits_withOwner_new (hclient : client.value < s.clients.size) (name : Bytes)
    (seqid : UInt32) : (s.withOwner client name seqid).Suits client s.owners.nextNo := by
  constructor
  · rw [owners_size_withOwner]
    exact Nat.lt_succ_self _
  · rw [owner_withOwner, if_pos rfl, client_withOwner, if_pos ⟨rfl, hclient⟩]
    rfl

/-- Along a chain that amends no owner, an owner goes on suiting its client. -/
theorem Suits.chain {E : List Effect} {owner : OwnerNo} (hs : s.Suits client owner)
    (h : Chain E s t) (hE : .ownerAmended ∉ E) (hclient : client.value < s.clients.size) :
    t.Suits client owner := by
  refine h.preserve_of_made (I := fun t => t.Suits client owner) hclient
    (fun e he _ _ hupdate hmade hs => hs.update hupdate ?_ hmade) hs
  rintro rfl
  exact hE he

/-- Whoever a client has a name for suits the client. -/
def NamesSuited (s : Server) : Prop :=
  ∀ (client : ClientNo) name owner, (s.client client).owners.get? name = some owner →
    s.Suits client owner

theorem NamesSuited.congr (hs : s.NamesSuited) (hclients : t.clients = s.clients)
    (howners : t.owners = s.owners) : t.NamesSuited := by
  intro client name owner hget
  rw [client_congr hclients] at hget
  obtain ⟨hmade, hsame⟩ := hs client name owner hget
  constructor
  · rw [howners]
    exact hmade
  · rw [owner_congr howners, client_congr hclients]
    exact hsame

/-- Only new names, or amended owners, bear on this. -/
theorem namesSuited_update (h : Update e s t) (he : e ∉ [.ownerAmended, .ownersNamed])
    (hs : s.NamesSuited) : t.NamesSuited := by
  simp only [List.mem_cons, List.not_mem_nil, or_false, not_or] at he
  intro client name owner hget
  have hbefore := h.owners_get? he.2 hget
  exact (hs client name owner hbefore).update h he.1 (lt_of_owners_get? hbefore)

theorem namesSuited_chain {E : List Effect} (h : Chain E s t)
    (hE : ∀ e ∈ E, e ∉ [Effect.ownerAmended, .ownersNamed]) (hs : s.NamesSuited) : t.NamesSuited :=
  h.preserve (fun he hupdate => namesSuited_update hupdate (hE _ he)) hs

/-- An owner that is made for a client is of the client's kind. -/
theorem NamesSuited.withOwner (hs : s.NamesSuited) (client : ClientNo) (name : Bytes)
    (seqid : UInt32) : (s.withOwner client name seqid).NamesSuited := by
  intro c other owner hget
  -- the new owner is not one that was named before
  have hold (hget : (s.client c).owners.get? other = some owner) :
      (s.withOwner client name seqid).Suits c owner :=
    (hs c other owner hget).chain (s.chain_withOwner client name seqid) (by decide)
      (lt_of_owners_get? hget)
  rw [client_withOwner] at hget
  split at hget
  · rename_i hsame
    rw [Table.get?_insert] at hget
    split at hget
    · injection hget with hget
      rw [← hget, hsame.1]
      exact suits_withOwner_new hsame.2 name seqid
    · exact hold hget
  · exact hold hget

/-- Whatever is done for a client, it has names for suitable owners only. -/
theorem NamesSuited.serves (hs : s.NamesSuited) (h : Serves client s t) : t.NamesSuited := by
  rcases h.owner_cases with hchain | ⟨name, seqid, _, rfl⟩ | ⟨name, rfl⟩ |
    ⟨_, no, seqid, owner, _, haccept, rfl⟩ | ⟨_, no, _, owner, _, _, _, rfl⟩
  · exact namesSuited_chain hchain (by decide) hs
  · exact hs.withOwner client name seqid
  · intro c other owner hget
    -- a name that is left stood for the same owner before
    have hbefore : (s.client c).owners.get? other = some owner := by
      rw [client_amendClient] at hget
      split at hget
      · rw [Table.get?_erase] at hget
        split at hget
        · cases hget
        · exact hget
      · exact hget
    exact (hs c other owner hbefore).update (.client s client _ (.ownersNamed _ _)) (by decide)
      (lt_of_owners_get? hbefore)
  · intro c other o hget
    exact (hs c other o hget).accepted haccept
  · exact namesSuited_chain (chain_making ..) (by decide) hs

theorem NamesSuited.calledBack (hs : s.NamesSuited) (client : ClientNo) (hasCallback : Bool) :
    (s.amendClient client ({ · with hasCallback })).NamesSuited := by
  intro c name owner hget
  rw [client_calledBack Client.owners fun _ _ => rfl] at hget
  refine ⟨(hs c name owner hget).made, (hs c name owner hget).sessionBased.trans ?_⟩
  exact (client_calledBack Client.isSessionBased (fun _ _ => rfl) s client hasCallback c).symm

/-- Whatever happens, the owners that a client has names for suit the client. -/
theorem keepsHappenings_namesSuited (P : Server → Action → Prop) :
    KeepsHappenings P fun s => s.Grounded ∧ s.NamesSuited where
  grounded := And.left
  update e he _ _ h hs := by
    have hall : ∀ e ∈ Effect.administering ++ [.recorded, .faultsSet, .openForgotten],
        e ∉ [Effect.ownerAmended, .ownersNamed] := by decide
    exact ⟨(keepsHappenings_grounded P).update e he h hs.1, namesSuited_update h (hall e he) hs.2⟩
  client h hs := ⟨hs.1.course h trivial, namesSuited_chain h.chain_ending (by decide) hs.2⟩
  serves _ h hs := ⟨hs.1.serves h, hs.2.serves h⟩
  opened {s client owner file _ _ mode} _ hclient _ _ _ hs := by
    -- an open concerns neither names nor owners
    have hmade : (s.withHeld client owner .share none (.forgetOpen file)).NamesSuited :=
      namesSuited_chain (chain_making ..) (by decide) hs.2
    exact ⟨hs.1.withOpen hclient owner file mode, hmade.congr rfl rfl⟩
  observed no label refusals hs := ⟨hs.1.observed no label refusals, hs.2.congr rfl rfl⟩
  calledBack client hasCallback hs :=
    ⟨hs.1.calledBack client hasCallback, hs.2.calledBack client hasCallback⟩

theorem namesSuited_start (timers : Bool) (config : Config) (store : Recovery.Store)
    (wall : WallTime) (now : Nat) : (start timers config store wall now).NamesSuited := by
  intro client name owner hget
  have hclient := lt_of_owners_get? hget
  obtain ⟨sweepDue, graceDue, hstart⟩ := start_eq timers config store wall now
  rw [hstart] at hclient
  exact absurd hclient (Nat.not_lt_zero _)

/-! ## A lock owner's first lock -/

/-- The number that an owner has once a lock owner's first lock was granted: the owner of the open
has the number that was presented for it, and any other has its own. -/
def numberKept (s : Server) (opened : StateNo) (openSeqid : UInt32) (owner : OwnerNo) : UInt32 :=
  if (s.state opened).owner = owner then openSeqid else (s.owner owner).seqid

/-- What becomes of the owner of a lock state that was made for a client without sessions: the
client's owner of the name is taken as it is, and if there is none, one is made with the number. -/
structure Numbers (s t : Server) (client : ClientNo) (openId : StateId) (openSeqid : UInt32)
    (name : Bytes) (lockSeqid : UInt32) (owner : OwnerNo) : Prop where
  /-- The next request is accepted exactly if it bears the number after the last. -/
  next : ∀ n, ((acceptSeqid owner n).exec t).1 = .ok () ↔ n = (t.owner owner).seqid + 1
  /-- An owner that is made starts with the number that the lock bears. -/
  made : (s.client client).owners.get? name = none → (t.owner owner).seqid = lockSeqid
  /-- An owner that is there keeps its number. -/
  kept : ∀ old, (s.client client).owners.get? name = some old → owner = old ∧
    ∃ opened, (s.client client).states.get? openId.key = some opened ∧
      (t.owner owner).seqid = s.numberKept opened openSeqid old

/-- A numbered owner accepts the next number and no other. -/
theorem next_of_numbered {owner : OwnerNo} (h : (t.owner owner).sessionBased = false) (n : UInt32) :
    ((acceptSeqid owner n).exec t).1 = .ok () ↔ n = (t.owner owner).seqid + 1 := by
  rw [exec_acceptSeqid]
  cases haccept : (t.owner owner).accept n with
  | ok accepted =>
    have hnext := (Owner.accept_eq_ok_iff h).1 haccept
    exact ⟨fun _ => hnext.1, fun _ => rfl⟩
  | error e =>
    constructor
    · nofun
    · intro hnext
      have hok := (Owner.accept_eq_ok_iff h).2 ⟨hnext, rfl⟩
      cases haccept.symm.trans hok

/-- The owner of the state that was presented has the number, and any other has its own. -/
theorem seqid_of_presents {id : StateId} {seqid : UInt32} {no : StateNo} {u : Server}
    (h : Presents s client id seqid no u) {owner : OwnerNo} (hmade : owner.value < s.owners.size)
    (hnumbered : (s.owner owner).sessionBased = false) :
    (u.owner owner).sessionBased = false ∧
      (u.owner owner).seqid = s.numberKept no seqid owner := by
  obtain ⟨accepted, haccept, howner⟩ := h.owner_eq
  unfold numberKept
  rw [howner owner hmade]
  split
  · rename_i hsame
    rw [hsame] at haccept
    obtain ⟨-, rfl⟩ := (Owner.accept_eq_ok_iff hnumbered).1 haccept
    exact ⟨hnumbered, rfl⟩
  · exact ⟨hnumbered, rfl⟩

/-- The owner of a lock state that was made has the number that it came with or was found with. -/
theorem numbers_of_firstLock {file : FileId} {openId id : StateId} {openSeqid lockSeqid : UInt32}
    {name : Bytes} {opened : StateNo} {owner : OwnerNo}
    (h : FirstLock s client file openId openSeqid name lockSeqid id t opened owner)
    (hs : s.NamesSuited) (hsessionless : (s.client client).isSessionBased = false) :
    s.Numbers t client openId openSeqid name lockSeqid owner := by
  obtain ⟨u, v, hpresents, hnamed, howners⟩ := h.named
  have howner (no : OwnerNo) : t.owner no = v.owner no := owner_congr howners no
  have hu : (u.client client).owners = (s.client client).owners ∧
      (u.client client).isSessionBased = false := by
    obtain ⟨lease, hclient⟩ := hpresents.client_eq client
    rw [hclient]
    exact ⟨rfl, hsessionless⟩
  rcases ownerNamed_eq_ok hnamed with ⟨hget, rfl⟩ | ⟨hnone, rfl, rfl⟩
  -- the client's owner of the name, who may be the owner of the open, too
  · rw [hu.1] at hget
    obtain ⟨hmade, hsame⟩ := hs client name owner hget
    rw [hsessionless] at hsame
    obtain ⟨hnumbered, hseqid⟩ := seqid_of_presents hpresents hmade hsame
    refine ⟨next_of_numbered (by rw [howner]; exact hnumbered), fun hnone => ?_, fun old hold => ?_⟩
    · rw [hget] at hnone
      cases hnone
    · obtain rfl : owner = old := Option.some.inj (hget.symm.trans hold)
      refine ⟨rfl, opened, hpresents.attached, ?_⟩
      rw [howner, hseqid]
  -- a new owner
  · have hnew : t.owner u.owners.nextNo = ⟨(u.client client).id, name, false, lockSeqid⟩ := by
      rw [howner, owner_withOwner, if_pos rfl, hu.2]
    rw [hu.1] at hnone
    refine ⟨next_of_numbered (by rw [hnew]), fun _ => by rw [hnew], fun old hold => ?_⟩
    rw [hnone] at hold
    cases hold

/-- Whatever happened before: once a client without sessions is granted a lock owner's first lock,
it holds the lock state that it is answered, and the owner of that state takes the requests that
follow on its number. That number is the one that the lock bears if the client had no owner of the
name, and else the one that the owner had. -/
theorem first_lock_numbers {timers : Bool} {config : Config} {store : Recovery.Store}
    {wall : WallTime} {now : Nat}
    (hrun : Run (fun _ a => a.served = true) (start timers config store wall now) s)
    (hsessionless : (s.client client).isSessionBased = false) {file : FileId} {r : LockRequest}
    {reclaim : Bool} {openId : StateId} {openSeqid : UInt32} {name : Bytes} {lockSeqid : UInt32}
    {id : StateId}
    (h : (lock client file r reclaim (.newOwner openId openSeqid name lockSeqid)).exec s =
      (.ok id, t)) :
    ∃ no, (t.client client).states.get? id.key = some no ∧ (t.state no).id = id ∧
      s.Numbers t client openId openSeqid name lockSeqid (t.state no).owner := by
  have hs : s.Grounded ∧ s.NamesSuited := (keepsHappenings_namesSuited _).run (fun _ _ h => h) hrun
    ⟨grounded_start timers config store wall now, namesSuited_start timers config store wall now⟩
  obtain ⟨opened, owner, hlock⟩ := lock_newOwner_eq_ok hs.1.held h
  -- the lock is granted by way of a state made for it
  refine ⟨s.states.nextNo, ?_, hlock.bears, ?_⟩
  · rw [hlock.get?, if_pos ⟨rfl, rfl⟩]
  · rw [hlock.owned]
    exact numbers_of_firstLock hlock hs.2 hsessionless

/-- The number of the first lock of an owner that the client has no name for yet is the one that the
owner starts with. -/
theorem first_lock_numbers_of_new_owner :
    let actions : List Action := [.register (.sessionless [1]), .nameOwner ⟨0⟩ [7] 0,
      .openFile ⟨0⟩ ⟨0⟩ ⟨[9]⟩ 3 0]
    let s := (start false {} default ⟨0⟩).performAll actions
    let openId : StateId := .ofParts ⟨1⟩ 1 .share
    let outcome := (lock ⟨0⟩ ⟨[9]⟩ ⟨.write, 0, 10⟩ false (.newOwner openId 1 [8] 4294967295)).exec s
    (s.client ⟨0⟩).isSessionBased = false ∧ outcome.1 = .ok ⟨.ofParts ⟨1⟩ 2 .byteLock, 1⟩ ∧
      ∃ no, (outcome.2.owner (outcome.2.state no).owner).seqid = 4294967295 ∧
        ((acceptSeqid (outcome.2.state no).owner 0).exec outcome.2).1 = .ok () := by
  intro actions s openId outcome
  have hrun : Run (fun _ a => a.served = true) (start false {} default ⟨0⟩) s :=
    run_performAll fun a ha _ => by revert a; decide
  have hsessionless : (s.client ⟨0⟩).isSessionBased = false := by decide +kernel
  have hgranted : outcome.1 = .ok ⟨.ofParts ⟨1⟩ 2 .byteLock, 1⟩ := by decide +kernel
  have hnone : (s.client ⟨0⟩).owners.get? [8] = none := by decide +kernel
  obtain ⟨no, _, _, hnumbers⟩ :=
    first_lock_numbers hrun hsessionless (t := outcome.2) (Prod.ext hgranted rfl)
  have hseqid := hnumbers.made hnone
  refine ⟨hsessionless, hgranted, no, hseqid, (hnumbers.next 0).2 ?_⟩
  rw [hseqid]
  rfl

/-- An owner that the client has locked through before does not take the number that its first lock
on another file bears, and accepts the next request by its old number. -/
theorem later_first_lock_not_numbered :
    let actions : List Action := [.register (.sessionless [1]), .nameOwner ⟨0⟩ [7] 0,
      .openFile ⟨0⟩ ⟨0⟩ ⟨[9]⟩ 3 0, .openFile ⟨0⟩ ⟨0⟩ ⟨[10]⟩ 3 0,
      .lock ⟨0⟩ ⟨[9]⟩ ⟨.write, 0, 10⟩ false (.newOwner (.ofParts ⟨1⟩ 1 .share) 1 [8] 0)]
    let s := (start false {} default ⟨0⟩).performAll actions
    let outcome := (lock ⟨0⟩ ⟨[10]⟩ ⟨.write, 0, 10⟩ false
      (.newOwner (.ofParts ⟨1⟩ 2 .share) 2 [8] 5)).exec s
    let lockId : StateId := ⟨.ofParts ⟨1⟩ 4 .byteLock, 1⟩
    outcome.1 = .ok lockId ∧ (outcome.2.owner (outcome.2.state ⟨3⟩).owner).seqid = 0 ∧
      (outcome.2.state ⟨3⟩).id = lockId ∧
      ((unlock ⟨0⟩ ⟨[10]⟩ lockId 6 ⟨.write, 0, 10⟩).exec outcome.2).1 = .error (.badSeqid 1 6) ∧
      ((unlock ⟨0⟩ ⟨[10]⟩ lockId 1 ⟨.write, 0, 10⟩).exec outcome.2).1 =
        .ok ⟨.ofParts ⟨1⟩ 4 .byteLock, 2⟩ := by
  decide +kernel

end Server

end Leasehold

import Leasehold.Proofs.LockExclusion
import Leasehold.Proofs.StateMaking

/-!
# Proofs.StateLinks — states, opens and locks hang together

What a client holds is in three places: its states, the opens of files that some of
them stand for, and the locks on files. A lock state owes the locks of its owner,
and an open owes the end of the lock states derived from it. The invariant
`Server.Linked` says so, and that every lock that covers a byte goes back to a lock
state that has not ended, on an open that has not ended. It is stated with a list of
states that are ending, for which parts of it are suspended: a state joins the list
before the first step of its end, and leaves it when it is taken from its client.

* `LockTable.unlockIfHeld_everything` — an owner who gives everything back is left
  with nothing that covers a byte;
* `Server.Linked.cons`, `Server.Linked.tail` — when a state may join the list, and
  when it may leave it;
* `Server.linked_alike`, `Server.alike_chain` — changes that touch neither states nor
  locks keep the invariant, and most updates are such changes.
-/

namespace Leasehold

/-! ## Locks that go -/

namespace RangeLock

/-- A part of a lock is its owner's, too. -/
structure PartOf (part whole : RangeLock) : Prop where
  owner : part.owner = whole.owner
  within : part.Within whole

theorem PartOf.refl (l : RangeLock) : l.PartOf l := ⟨rfl, .refl l⟩

/-- A part of a part is a part. -/
theorem PartOf.trans {a b c : RangeLock} (h : a.PartOf b) (h' : b.PartOf c) : a.PartOf c where
  owner := h.owner.trans h'.owner
  within := ⟨Nat.le_trans h'.within.1 h.within.1, Nat.le_trans h.within.2 h'.within.2⟩

/-- A part covers no byte that the whole does not. -/
theorem PartOf.covers {part whole : RangeLock} (h : part.PartOf whole) {byte : Nat}
    (hcovers : part.Covers byte) : whole.Covers byte := by
  obtain ⟨hstart, hstop⟩ := h.within
  obtain ⟨hfrom, hto⟩ := hcovers
  exact ⟨by omega, by omega⟩

/-- What covers a byte is reached by a range over the whole file. -/
theorem overlaps_everything {l : RangeLock} {byte : Nat} (h : l.Covers byte) (owner : LockOwner) :
    l.overlaps (everything owner) = true := by
  have hmax := l.stop_lt
  have hto := h.2
  have hstop : (everything owner).stop.toNat = UInt64.size - 1 := rfl
  have hcovers : (everything owner).Covers byte := ⟨Nat.zero_le _, by omega⟩
  exact overlaps_of_covers h hcovers

end RangeLock

namespace LockTable

variable {t t' : LockTable} {file : FileId} {l : RangeLock}

/-- Every lock is a part of one that its owner has on the file in another table. -/
def Part (t whole : LockTable) : Prop :=
  ∀ file, ∀ l ∈ t.locks file, ∃ held ∈ whole.locks file, l.PartOf held

theorem Part.refl (t : LockTable) : t.Part t := fun _ l hl => ⟨l, hl, .refl l⟩

/-- Parts of what was left are parts of what there was. -/
theorem Part.trans {t'' : LockTable} (h : t''.Part t') (h' : t'.Part t) : t''.Part t := by
  intro file l hl
  obtain ⟨between, hbetween, hpart⟩ := h file l hl
  obtain ⟨held, hheld, hpart'⟩ := h' file between hbetween
  exact ⟨held, hheld, hpart.trans hpart'⟩

/-- What is left when a range is cut out is a part of what was held. -/
theorem part_carve {held : List RangeLock} {range part : RangeLock}
    (h : part ∈ RangeLock.carve held range) : ∃ l ∈ held, part.PartOf l := by
  rw [RangeLock.carve_eq_flatMap, List.mem_flatMap] at h
  obtain ⟨l, hl, hpart⟩ := h
  obtain ⟨hwithin, howner, _⟩ := RangeLock.part_of_mem_leftOf hpart
  exact ⟨l, hl, howner, hwithin⟩

/-- Giving a range back does not fail, and leaves its owner nothing that reaches into it. -/
theorem unlockIfHeld_cases (t : LockTable) (file : FileId) (l : RangeLock) :
    ∃ t', t.unlockIfHeld file l = .ok t' ∧ t'.Part t ∧
      ∀ held ∈ t'.locks file, held.owner = l.owner → held.overlaps l = false := by
  unfold unlockIfHeld unlock
  by_cases hheld : (t.locks file).any (fun held => held.sameOwner l && held.overlaps l) = true
  · rw [if_pos hheld]
    refine ⟨_, rfl, fun other part hpart => ?_, fun held hmem howner => ?_⟩
    · rw [locks_setLocks] at hpart
      split at hpart
      · rename_i hsame
        rw [← hsame]
        exact part_carve hpart
      · exact ⟨part, hpart, .refl part⟩
    · rw [locks_setLocks, if_pos rfl] at hmem
      exact RangeLock.not_overlaps_of_mem_carve hmem howner
  · rw [if_neg hheld]
    refine ⟨t, rfl, .refl t, fun held hmem howner => ?_⟩
    -- nothing of the owner overlaps, so the table stays as it is
    have hneither := List.any_eq_false.1 (Bool.eq_false_iff.2 hheld) held hmem
    have hsame : held.sameOwner l = true := beq_iff_eq.2 howner
    rwa [hsame, Bool.true_and, Bool.not_eq_true] at hneither

/-- Who gives everything back is left with nothing that covers a byte. -/
theorem unlockIfHeld_everything (t : LockTable) (file : FileId) (holder : LockOwner) :
    ∃ t', t.unlockIfHeld file (.everything holder) = .ok t' ∧ t'.Part t ∧
      ∀ l ∈ t'.locks file, l.owner = holder → ∀ byte, ¬ l.Covers byte := by
  obtain ⟨t', hok, hpart, hnone⟩ := t.unlockIfHeld_cases file (.everything holder)
  refine ⟨t', hok, hpart, fun l hl howner byte hcovers => ?_⟩
  have houtside := hnone l hl howner
  rw [RangeLock.overlaps_everything hcovers] at houtside
  cases houtside

/-- A lock that is granted stands beside parts of what was held. -/
theorem mem_of_lock (h : t.lock file l = .ok t') {other : FileId} {held : RangeLock}
    (hmem : held ∈ t'.locks other) : other = file ∧ held = l ∨
      ∃ before ∈ t.locks other, held.PartOf before := by
  unfold lock at h
  split at h
  · cases h
  · injection h with h
    subst h
    rw [locks_setLocks] at hmem
    split at hmem
    · rename_i hsame
      -- what was left of earlier locks comes first, and the new lock last
      rcases List.mem_append.1 hmem with hpart | hnew
      · rw [← hsame]
        exact .inr (part_carve hpart)
      · exact .inl ⟨hsame.symm, List.mem_singleton.1 hnew⟩
    · exact .inr ⟨held, hmem, .refl held⟩

end LockTable

/-! ## The invariant -/

/-- A state but for how often it has changed and whether it is confirmed. -/
def HeldState.core (st : HeldState) : HeldState :=
  { st with id := ⟨st.id.key, 0⟩, confirmed := false }

namespace Server

/-- A state stands for an open of a file. -/
def OpenOn (s : Server) (no : StateNo) (file : FileId) : Prop :=
  ∃ key, (no, key) ∈ s.opens.states file

/-- The locks of an owner on a file may go back to a lock state: it has not ended, it owes them,
and the open that it is derived from is one of the file or is ending. -/
structure Stands (ending : List StateNo) (s : Server) (no : StateNo) (file : FileId)
    (holder : LockOwner) : Prop where
  made : no.value < s.states.size
  kind : (s.state no).id.key.kind? = some .byteLock
  undisposed : (s.state no).disposed = false
  holder_eq : holder = ⟨(s.state no).id.key.client, (s.owner (s.state no).owner).name⟩
  owes : .unlockAll file holder ∈ (s.state no).owed
  derived : ∃ parent, (s.state no).parent = some parent ∧ (s.OpenOn parent file ∨ parent ∈ ending)

/-- States, opens and locks are linked, apart from the states that are ending and the locks on a file
that are spared. -/
structure Linked (spared : FileId → RangeLock → Prop) (ending : List StateNo) (s : Server) :
    Prop where
  /-- What a client holds has not ended. -/
  live : ∀ (client : ClientNo) key no, (s.client client).states.get? key = some no →
    (s.state no).disposed = true → no ∈ ending
  /-- What has not ended is held by a client. -/
  attached : ∀ no : StateNo, no.value < s.states.size → (s.state no).disposed = false →
    ∃ client, (s.client client).states.get? (s.state no).id.key = some no
  /-- A derived state is owed by what it is derived from. -/
  derived : ∀ no parent : StateNo, no.value < s.states.size → (s.state no).disposed = false →
    (s.state no).parent = some parent →
      (s.state parent).disposed = false ∧ ∃ client, .endDerived no client ∈ (s.state parent).owed
  /-- Locks of some owner on some file may go back to a lock state. -/
  stands : ∀ no : StateNo, no.value < s.states.size → no ∉ ending →
    (s.state no).id.key.kind? = some .byteLock → (s.state no).disposed = false →
      ∃ file holder, Stands ending s no file holder
  /-- Nobody observes the end of a state. -/
  quiet : ∀ (no : StateNo) label refusals, .notify label refusals ∉ (s.state no).owed
  /-- What is owed is younger, and of the client that it is taken from. -/
  owed : ∀ (no younger : StateNo) (client : ClientNo),
    .endDerived younger client ∈ (s.state no).owed →
      no.value < younger.value ∧ younger.value < s.states.size ∧
        client.value < s.clients.size ∧ (s.state younger).id.key.client = (s.client client).id
  owners : ∀ no : StateNo, no.value < s.states.size → (s.state no).owner.value < s.owners.size
  /-- A lock that covers a byte goes back to a lock state, unless it is a part of one that is
  spared. -/
  locks : ∀ file, ∀ l ∈ s.locks.locks file, ∀ byte, l.Covers byte →
    (∃ range, spared file range ∧ l.PartOf range) ∨ ∃ no, Stands ending s no file l.owner
  /-- A state stands for opens of one file. -/
  oneFile : ∀ no file other, s.OpenOn no file → s.OpenOn no other → file = other
  /-- No call of the lock table is set to fail. -/
  calm : s.faults.locks = []

variable {spared : FileId → RangeLock → Prop} {ending : List StateNo} {s t : Server}
  {no : StateNo} {file : FileId} {holder : LockOwner}

/-- What a state stands for is a matter of its record, of the name of its owner and of the opens. -/
theorem Stands.congr (hs : Stands ending s no file holder)
    (hsize : s.states.size ≤ t.states.size) (hstate : t.state no = s.state no)
    (howner : (t.owner (s.state no).owner).name = (s.owner (s.state no).owner).name)
    (hopens : ∀ parent, s.OpenOn parent file → parent ∉ ending → t.OpenOn parent file) :
    Stands ending t no file holder := by
  refine ⟨Nat.lt_of_lt_of_le hs.made hsize, ?_, ?_, ?_, ?_, ?_⟩
  · rw [hstate]
    exact hs.kind
  · rw [hstate]
    exact hs.undisposed
  · rw [hstate, howner]
    exact hs.holder_eq
  · rw [hstate]
    exact hs.owes
  · obtain ⟨parent, hparent, hopen⟩ := hs.derived
    rw [hstate]
    refine ⟨parent, hparent, ?_⟩
    by_cases hending : parent ∈ ending
    · exact .inr hending
    · exact .inl (hopens parent (hopen.resolve_right hending) hending)

/-- A lock state stands also if more states are about to end. -/
theorem Stands.cons (hs : Stands ending s no file holder) (other : StateNo) :
    Stands (other :: ending) s no file holder where
  made := hs.made
  kind := hs.kind
  undisposed := hs.undisposed
  holder_eq := hs.holder_eq
  owes := hs.owes
  derived := by
    obtain ⟨parent, hparent, hopen⟩ := hs.derived
    exact ⟨parent, hparent, hopen.imp_right (List.mem_cons_of_mem _)⟩

/-- Nothing is lost while one more state is ending. -/
theorem Linked.cons (hs : Linked spared ending s) (other : StateNo) :
    Linked spared (other :: ending) s where
  live client key no hget hdisposed := List.mem_cons_of_mem _ (hs.live client key no hget hdisposed)
  attached := hs.attached
  derived := hs.derived
  stands no hno hending hkind hundisposed := by
    obtain ⟨file, holder, hstands⟩ :=
      hs.stands no hno (fun h => hending (List.mem_cons_of_mem _ h)) hkind hundisposed
    exact ⟨file, holder, hstands.cons other⟩
  quiet := hs.quiet
  owed := hs.owed
  owners := hs.owners
  locks file l hl byte hcovers := by
    refine (hs.locks file l hl byte hcovers).imp_right ?_
    rintro ⟨no, hstands⟩
    exact ⟨no, hstands.cons other⟩
  oneFile := hs.oneFile
  calm := hs.calm

/-- A state that is no longer ending leaves the list if it satisfies what was suspended. -/
theorem Linked.tail (hs : Linked spared (no :: ending) s)
    (hlive : ∀ (client : ClientNo) key, (s.client client).states.get? key = some no →
      (s.state no).disposed = false)
    (hstands : no.value < s.states.size → (s.state no).id.key.kind? = some .byteLock →
      (s.state no).disposed = false → ∃ file holder, Stands ending s no file holder)
    (hderived : ∀ younger : StateNo, younger.value < s.states.size →
      (s.state younger).disposed = false → (s.state younger).parent ≠ some no) :
    Linked spared ending s := by
  -- a state derived from the one that is left out would have to have ended with it
  have hshorter {younger : StateNo} {file : FileId} {holder : LockOwner}
      (h : Stands (no :: ending) s younger file holder) : Stands ending s younger file holder := by
    obtain ⟨parent, hparent, hopen⟩ := h.derived
    refine ⟨h.made, h.kind, h.undisposed, h.holder_eq, h.owes, parent, hparent, hopen.imp_right ?_⟩
    intro hmem
    rcases List.mem_cons.1 hmem with rfl | hmem
    · exact absurd hparent (hderived younger h.made h.undisposed)
    · exact hmem
  refine ⟨fun client key other hget hdisposed => ?_, hs.attached, hs.derived,
    fun other hother hending hkind hundisposed => ?_, hs.quiet, hs.owed, hs.owners,
    fun file l hl byte hcovers => ?_, hs.oneFile, hs.calm⟩
  · rcases List.mem_cons.1 (hs.live client key other hget hdisposed) with rfl | hmem
    -- it is attached nowhere once it has ended
    · rw [hlive client key hget] at hdisposed
      cases hdisposed
    · exact hmem
  · by_cases hsame : other = no
    · subst hsame
      exact hstands hother hkind hundisposed
    · have hnot : other ∉ no :: ending := fun hmem =>
        (List.mem_cons.1 hmem).elim hsame hending
      obtain ⟨file, holder, h⟩ := hs.stands other hother hnot hkind hundisposed
      exact ⟨file, holder, hshorter h⟩
  · refine (hs.locks file l hl byte hcovers).imp_right ?_
    rintro ⟨other, h⟩
    exact ⟨other, hshorter h⟩

/-- What a client holds has not ended, while no state is ending. -/
theorem Linked.undisposed (hs : Linked spared [] s) {client : ClientNo} {key : StateKey}
    (hget : (s.client client).states.get? key = some no) : (s.state no).disposed = false :=
  Bool.eq_false_iff.2 fun h => List.not_mem_nil (hs.live client key no hget h)

/-- The opens may change, if states that are not ending stand for the opens that they stood for. -/
theorem Linked.setOpens (hs : Linked spared ending s) {opens : OpenTable}
    (hkept : ∀ no file, no ∉ ending → s.OpenOn no file → OpenOn { s with opens } no file)
    (hone : ∀ no file other, OpenOn { s with opens } no file → OpenOn { s with opens } no other →
      file = other) : Linked spared ending { s with opens } := by
  have hstands {no : StateNo} {file : FileId} {holder : LockOwner}
      (h : Stands ending s no file holder) : Stands ending { s with opens } no file holder :=
    h.congr (Nat.le_refl _) rfl rfl fun parent hopen hending => hkept parent file hending hopen
  refine ⟨hs.live, hs.attached, hs.derived, fun no hno hending hkind hundisposed => ?_, hs.quiet,
    hs.owed, hs.owners, fun file l hl byte hcovers => ?_, hone, hs.calm⟩
  · obtain ⟨file, holder, h⟩ := hs.stands no hno hending hkind hundisposed
    exact ⟨file, holder, hstands h⟩
  · refine (hs.locks file l hl byte hcovers).imp_right ?_
    rintro ⟨no, h⟩
    exact ⟨no, hstands h⟩

/-! ## Changes that touch neither states nor locks -/

/-- The servers agree on the states, on who holds them and on the opens, and one has of the locks
what the other has or parts of it. -/
structure Alike (s t : Server) : Prop where
  clients_size : s.clients.size ≤ t.clients.size
  client_id : ∀ client : ClientNo, client.value < s.clients.size →
    (t.client client).id = (s.client client).id
  held : ∀ client, (t.client client).states = (s.client client).states
  owners_size : s.owners.size ≤ t.owners.size
  owner_name : ∀ no : OwnerNo, no.value < s.owners.size → (t.owner no).name = (s.owner no).name
  states_size : t.states.size = s.states.size
  state : ∀ no, (t.state no).core = (s.state no).core
  opens : t.opens.states = s.opens.states
  locks : t.locks.Part s.locks
  calm : t.faults.locks = s.faults.locks

theorem Alike.refl (s : Server) : s.Alike s :=
  ⟨Nat.le_refl _, fun _ _ => rfl, fun _ => rfl, Nat.le_refl _, fun _ _ => rfl, rfl, fun _ => rfl, rfl,
    .refl _, rfl⟩

/-- Servers that agree step by step agree in the end. -/
theorem Alike.trans {u : Server} (h : s.Alike t) (h' : t.Alike u) : s.Alike u where
  clients_size := Nat.le_trans h.clients_size h'.clients_size
  client_id client hclient := (h'.client_id client (Nat.lt_of_lt_of_le hclient h.clients_size)).trans
    (h.client_id client hclient)
  held client := (h'.held client).trans (h.held client)
  owners_size := Nat.le_trans h.owners_size h'.owners_size
  owner_name no hno := (h'.owner_name no (Nat.lt_of_lt_of_le hno h.owners_size)).trans
    (h.owner_name no hno)
  states_size := h'.states_size.trans h.states_size
  state no := (h'.state no).trans (h.state no)
  opens := h'.opens.trans h.opens
  locks := h'.locks.trans h.locks
  calm := h'.calm.trans h.calm

section Alike

variable (h : s.Alike t)

include h

theorem Alike.key_eq (no : StateNo) : (t.state no).id.key = (s.state no).id.key :=
  congrArg (·.id.key) (h.state no)

theorem Alike.owner_eq (no : StateNo) : (t.state no).owner = (s.state no).owner :=
  (congrArg HeldState.owner (h.state no) :)

theorem Alike.parent_eq (no : StateNo) : (t.state no).parent = (s.state no).parent :=
  (congrArg HeldState.parent (h.state no) :)

theorem Alike.disposed_eq (no : StateNo) : (t.state no).disposed = (s.state no).disposed :=
  (congrArg HeldState.disposed (h.state no) :)

/-- States owe the same on servers that are alike. -/
theorem Alike.owed_eq (no : StateNo) : (t.state no).owed = (s.state no).owed :=
  (congrArg HeldState.owed (h.state no) :)

/-- Opens are open on the same files. -/
theorem Alike.openOn_iff (no : StateNo) (file : FileId) : t.OpenOn no file ↔ s.OpenOn no file := by
  unfold OpenOn
  rw [h.opens]

/-- A lock state stands on servers that are alike. -/
theorem Stands.alike (howner : (s.state no).owner.value < s.owners.size)
    (hs : Stands ending s no file holder) : Stands ending t no file holder := by
  refine ⟨?_, ?_, ?_, ?_, ?_, ?_⟩
  · rw [h.states_size]
    exact hs.made
  · rw [h.key_eq]
    exact hs.kind
  · rw [h.disposed_eq]
    exact hs.undisposed
  · rw [h.key_eq, h.owner_eq, h.owner_name _ howner]
    exact hs.holder_eq
  · rw [h.owed_eq]
    exact hs.owes
  · obtain ⟨parent, hparent, hopen⟩ := hs.derived
    rw [h.parent_eq]
    exact ⟨parent, hparent, hopen.imp_left (h.openOn_iff parent file).2⟩

/-- Where servers are alike, what was linked still is. -/
theorem linked_alike (hs : Linked spared ending s) : Linked spared ending t := by
  have hmade {no : StateNo} (hno : no.value < t.states.size) : no.value < s.states.size :=
    Nat.lt_of_lt_of_eq hno h.states_size
  constructor
  case live =>
    intro client key no hget hdisposed
    rw [h.held] at hget
    rw [h.disposed_eq] at hdisposed
    exact hs.live client key no hget hdisposed
  case attached =>
    intro no hno hundisposed
    rw [h.disposed_eq] at hundisposed
    obtain ⟨client, hget⟩ := hs.attached no (hmade hno) hundisposed
    refine ⟨client, ?_⟩
    rw [h.held, h.key_eq]
    exact hget
  case derived =>
    intro no parent hno hundisposed hparent
    rw [h.disposed_eq] at hundisposed ⊢
    rw [h.parent_eq] at hparent
    rw [h.owed_eq]
    exact hs.derived no parent (hmade hno) hundisposed hparent
  case stands =>
    intro no hno hending hkind hundisposed
    rw [h.key_eq] at hkind
    rw [h.disposed_eq] at hundisposed
    obtain ⟨file, holder, hstands⟩ := hs.stands no (hmade hno) hending hkind hundisposed
    exact ⟨file, holder, hstands.alike h (hs.owners no (hmade hno))⟩
  case quiet =>
    intro no label refusals
    rw [h.owed_eq]
    exact hs.quiet no label refusals
  case owed =>
    intro no younger client howed
    rw [h.owed_eq] at howed
    obtain ⟨hyounger, hno, hclient, hid⟩ := hs.owed no younger client howed
    rw [h.states_size, h.key_eq, h.client_id client hclient]
    exact ⟨hyounger, hno, Nat.lt_of_lt_of_le hclient h.clients_size, hid⟩
  case owners =>
    intro no hno
    rw [h.owner_eq]
    exact Nat.lt_of_lt_of_le (hs.owners no (hmade hno)) h.owners_size
  case locks =>
    intro file l hl byte hcovers
    obtain ⟨held, hheld, hpart⟩ := h.locks file l hl
    rcases hs.locks file held hheld byte (hpart.covers hcovers) with
      ⟨range, hspared, hpart'⟩ | ⟨no, hstands⟩
    · exact .inl ⟨range, hspared, hpart.trans hpart'⟩
    · rw [hpart.owner]
      exact .inr ⟨no, hstands.alike h (hs.owners no hstands.made)⟩
  case oneFile =>
    intro no file other hopen hopen'
    exact hs.oneFile no file other ((h.openOn_iff no file).1 hopen) ((h.openOn_iff no other).1 hopen')
  case calm =>
    exact h.calm.trans hs.calm

end Alike

/-- The states that a client has attached change only by attaching and detaching. -/
theorem Update.states_eq {e : Effect} (h : Update e s t) (he : e ∉ [.attached, .detached])
    (client : ClientNo) : (t.client client).states = (s.client client).states := by
  simp only [List.mem_cons, List.not_mem_nil, or_false, not_or] at he
  rcases h.client_cases client with hsame | hupdate | ⟨_, hsession⟩ | ⟨hnone, _, _, _, _, hnew⟩
  · rw [hsame]
  · exact hupdate.states_eq he.1 he.2
  · rw [hsession]
    rfl
  · rw [hnew, hnone]
    rfl

/-- Most updates touch neither states nor locks. -/
theorem Update.alike {e : Effect} (h : Update e s t)
    (he : e ∉ [.locked, .openForgotten, .openAdded, .stateMade, .stateAmended, .attached, .detached,
      .faultsSet]) : s.Alike t := by
  simp only [List.mem_cons, List.not_mem_nil, or_false, not_or] at he
  obtain ⟨hlocked, hforgotten, hadded, hmade, hamended, hattached, hdetached, hfaults⟩ := he
  have hstate (no : StateNo) : t.state no = s.state no := by
    cases h with
    | stateMade => exact absurd rfl hmade
    | stateAmended => exact absurd rfl hamended
    | _ => rfl
  -- a changed mode is no change to which opens there are
  have hopens : t.opens.states = s.opens.states := by
    cases h with
    | openForgotten => exact absurd rfl hforgotten
    | openAdded => exact absurd rfl hadded
    | openWidened => exact OpenTable.states_widen ..
    | openLowered _ _ _ _ _ _ _ h => exact OpenTable.states_downgrade h
    | _ => rfl
  constructor
  · exact h.clients_size_le
  · exact fun _ hclient => h.client_id_eq hclient
  · refine h.states_eq ?_
    simp only [List.mem_cons, List.not_mem_nil, or_false, not_or]
    exact ⟨hattached, hdetached⟩
  · exact h.owners_size_le
  · exact fun _ hno => h.owner_name_eq hno
  · exact h.states_size_eq hmade
  · exact fun no => congrArg HeldState.core (hstate no)
  · exact hopens
  · rw [h.locks_eq hlocked]
    exact .refl _
  · rw [h.faults_eq hfaults]

/-- Updates that touch no state, no open and no lock leave the server alike. -/
theorem alike_chain {E : List Effect} (h : Chain E s t)
    (hE : ∀ e ∈ E, e ∉ [Effect.locked, .openForgotten, .openAdded, .stateMade, .stateAmended,
      .attached, .detached, .faultsSet]) : s.Alike t :=
  h.lift Alike.refl .trans fun he hupdate => hupdate.alike (hE _ he)

/-- A state that counts stays alike. -/
theorem alike_bump (s : Server) (no : StateNo) : s.Alike (s.amendState no .bump) := by
  refine { Alike.refl s with states_size := Ledger.size_modify .., state := fun other => ?_ }
  rw [state_amendState]
  split
  · rfl
  · rfl

/-- Locks may become less. -/
theorem alike_part {locks : LockTable} (h : locks.Part s.locks) : s.Alike { s with locks } :=
  { Alike.refl s with locks := h }

end Server

end Leasehold

import Leasehold.Proofs.StateEnding

/-!
# Proofs.LockBacking — every lock goes back to a lock state

A lock on a file is to be held through a lock state: one that its client has not
ended, for the owner of the lock, derived from an open of the file. Requests keep
it so, with two exceptions. A request that names an open where a lock state is
asked for has the lock granted in the name of the owner of the open, and nothing
takes that lock back when the open ends. And a lock on nothing but the last offset
covers no byte, so that no unlock reaches it.

* `Server.linked_withHeld`, `Server.linked_lock` — a new lock state comes with what
  it owes, and a lock that is granted goes back to one;
* `Server.kept_perform` — every action keeps states, opens and locks linked;
* `Server.locks_backed` — after every run, every lock that covers a byte goes back
  to a lock state, or is a part of one that was granted through an open;
* `Server.borrowed_lock_stays` — such a lock outlives the open;
* `Server.empty_lock_stays` — and so does a lock that covers no byte.
-/

namespace Leasehold

namespace Server

open Request

variable {spared : FileId → RangeLock → Prop} {ending : List StateNo} {s t : Server}
  {client : ClientNo} {no : StateNo} {file : FileId} {holder : LockOwner}

/-! ## New states and opens -/

section WithHeld

variable {owner : OwnerNo} {kind : StateKind} {parent : Option StateNo} {step : ReleaseStep}

/-- A lock state stands while another state is made, which counts as ending until it is linked. -/
theorem Stands.withHeld (hclient : client.value < s.clients.size) (hs : Stands [] s no file holder) :
    Stands [s.states.nextNo] (s.withHeld client owner kind parent step) no file holder := by
  obtain ⟨howners, hopens, _⟩ := s.rest_withHeld client owner kind parent step
  have hsame := state_withHeld_old hclient owner kind parent step hs.made
  refine ⟨?_, ?_, ?_, ?_, ?_, ?_⟩
  · rw [states_size_withHeld]
    exact Nat.lt_succ_of_lt hs.made
  · rw [hsame]
    exact hs.kind
  · rw [hsame]
    exact hs.undisposed
  · rw [hsame]
    unfold Server.owner
    rw [howners]
    exact hs.holder_eq
  · rw [hsame]
    exact List.mem_append_left _ hs.owes
  · obtain ⟨parent', hderived, hopen⟩ := hs.derived
    rw [hsame]
    refine ⟨parent', hderived, ?_⟩
    unfold OpenOn
    rw [hopens]
    exact hopen.imp_right fun h => absurd h List.not_mem_nil

/-- The new state is attached to its client, and no other one loses its place. -/
theorem attached_withHeld (hs : Linked spared [] s) (hclient : client.value < s.clients.size)
    (hparent : parent ≠ some s.states.nextNo)
    (ht : (s.withHeld client owner kind parent step).Traced)
    (hno : no.value < (s.withHeld client owner kind parent step).states.size)
    (hundisposed : ((s.withHeld client owner kind parent step).state no).disposed = false) :
    ∃ c, ((s.withHeld client owner kind parent step).client c).states.get?
      ((s.withHeld client owner kind parent step).state no).id.key = some no := by
  have hnew := state_withHeld_new hclient owner kind hparent step
  rcases eq_or_lt_of_lt_withHeld hno with rfl | hbefore
  · refine ⟨client, ?_⟩
    rw [get?_withHeld hclient, hnew, if_pos ⟨rfl, rfl⟩]
  · have hold := state_withHeld_old hclient owner kind parent step hbefore
    rw [hold] at hundisposed
    obtain ⟨c, hheld⟩ := hs.attached no hbefore hundisposed
    refine ⟨c, ?_⟩
    rw [get?_withHeld hclient, if_neg]
    · rw [hold]
      exact hheld
    -- no state from before bears the key of the new one
    · rintro ⟨_, hkey⟩
      refine Ledger.ne_nextNo hbefore (ht.key_ext hno (nextNo_lt_withHeld ..) ?_)
      rw [← hkey, hnew]
      rfl

/-- The state that the new one is derived from owes its end. -/
theorem derived_withHeld (hs : Linked spared [] s) (hclient : client.value < s.clients.size)
    (hparent : ∀ no, parent = some no → no.value < s.states.size ∧ (s.state no).disposed = false)
    {parent' : StateNo} (hno : no.value < (s.withHeld client owner kind parent step).states.size)
    (hundisposed : ((s.withHeld client owner kind parent step).state no).disposed = false)
    (hderived : ((s.withHeld client owner kind parent step).state no).parent = some parent') :
    ((s.withHeld client owner kind parent step).state parent').disposed = false ∧ ∃ c,
      .endDerived no c ∈ ((s.withHeld client owner kind parent step).state parent').owed := by
  have hold {no : StateNo} (hno : no.value < s.states.size) :=
    state_withHeld_old hclient owner kind parent step hno
  -- the new state is owed by its parent; an older one is owed where it was
  rcases eq_or_lt_of_lt_withHeld hno with rfl | hbefore
  · rw [state_withHeld_new hclient owner kind fun h => absurd (hparent _ h).1 (Nat.lt_irrefl _)]
      at hderived
    have hsame : parent = some parent' := hderived
    obtain ⟨hparent', hlives⟩ := hparent parent' hsame
    rw [hold hparent']
    refine ⟨hlives, client, List.mem_append_right _ ?_⟩
    rw [if_pos hsame]
    exact List.mem_singleton.2 rfl
  · rw [hold hbefore] at hundisposed hderived
    obtain ⟨hlives, c, howed⟩ := hs.derived no parent' hbefore hundisposed hderived
    have hparent' : parent'.value < s.states.size :=
      Nat.lt_trans (hs.owed parent' no c howed).1 hbefore
    rw [hold hparent']
    exact ⟨hlives, c, List.mem_append_left _ howed⟩

/-- A new state is linked to its client and to the state it is derived from. For which locks it
stands is left open. -/
theorem linked_withHeld (hs : Linked spared [] s) (ht : s.Tracked)
    (hclient : client.value < s.clients.size) (howner : owner.value < s.owners.size)
    (hparent : ∀ no, parent = some no → no.value < s.states.size ∧ (s.state no).disposed = false)
    (hstep : (∃ file, step = .forgetOpen file) ∨ ∃ file holder, step = .unlockAll file holder)
    (hbound : (s.withHeld client owner kind parent step).StatesBounded) :
    Linked spared [s.states.nextNo] (s.withHeld client owner kind parent step) := by
  have htraced : (s.withHeld client owner kind parent step).Traced :=
    ⟨tracked_withHeld ht hclient owner kind parent step, hbound⟩
  obtain ⟨howners, hopens, hlocks, hfaults⟩ := s.rest_withHeld client owner kind parent step
  have hother : parent ≠ some s.states.nextNo := fun h =>
    absurd (hparent _ h).1 (Nat.lt_irrefl _)
  have hnew := state_withHeld_new hclient owner kind hother step
  have hold {no : StateNo} (hno : no.value < s.states.size) :=
    state_withHeld_old hclient owner kind parent step hno
  constructor
  case live =>
    intro c key no hno hdisposed
    rw [get?_withHeld hclient] at hno
    split at hno
    · injection hno with hno
      exact List.mem_singleton.2 hno.symm
    · rw [hold (ht.held c key no hno).1] at hdisposed
      exact absurd (hs.live c key no hno hdisposed) List.not_mem_nil
  case attached =>
    exact fun no => attached_withHeld hs hclient hother htraced
  case derived =>
    exact fun no parent' => derived_withHeld hs hclient hparent
  case stands =>
    intro no hno hending hkind hundisposed
    rcases eq_or_lt_of_lt_withHeld hno with rfl | hbefore
    -- the new state is on the list, so nothing is asked of it here
    · exact absurd (List.mem_singleton.2 rfl) hending
    · rw [hold hbefore] at hkind hundisposed
      obtain ⟨file, holder, h⟩ := hs.stands no hbefore List.not_mem_nil hkind hundisposed
      exact ⟨file, holder, h.withHeld hclient⟩
  case quiet =>
    intro no label refusals howed
    rcases owed_withHeld hclient hother howed with hmem | ⟨_, rfl⟩ | ⟨_, _, hmem⟩
    · exact hs.quiet no label refusals hmem
    · rcases hstep with ⟨_, h⟩ | ⟨_, _, h⟩
      · cases h
      · cases h
    · cases hmem
  case owed =>
    intro no younger c howed
    have hsize := s.states_size_withHeld client owner kind parent step
    have hchain := (s.chain_withState client owner kind parent).trans
      ((s.chain_withHeld client owner kind parent step).mono (by decide))
    rcases owed_withHeld hclient hother howed with hmem | ⟨_, rfl⟩ | ⟨_, hbefore, hmem⟩
    · obtain ⟨hyounger, hmade, hc, hid⟩ := hs.owed no younger c hmem
      rw [hold hmade, hsize, hchain.client_id_eq hc]
      exact ⟨hyounger, Nat.lt_succ_of_lt hmade, Nat.lt_of_lt_of_le hc hchain.clients_size_le, hid⟩
    · rcases hstep with ⟨_, h⟩ | ⟨_, _, h⟩
      · cases h
      · cases h
    · injection hmem with hyounger hc
      subst hyounger hc
      rw [hnew, hsize, hchain.client_id_eq hclient]
      exact ⟨hbefore, Nat.lt_succ_self _, Nat.lt_of_lt_of_le hclient hchain.clients_size_le, rfl⟩
  case owners =>
    intro no hno
    rw [howners]
    rcases eq_or_lt_of_lt_withHeld hno with rfl | hbefore
    · rw [hnew]
      exact howner
    · rw [hold hbefore]
      exact hs.owners no hbefore
  case locks =>
    intro file l hl byte hcovers
    rw [hlocks] at hl
    refine (hs.locks file l hl byte hcovers).imp_right ?_
    rintro ⟨no, h⟩
    exact ⟨no, h.withHeld hclient⟩
  case oneFile =>
    unfold OpenOn
    rw [hopens]
    exact hs.oneFile
  case calm =>
    rw [hfaults]
    exact hs.calm

end WithHeld

/-- An open may be added for a state that stands for no open yet. -/
theorem Linked.addOpen (hs : Linked spared ending s) (file : FileId) {r : OpenRecord}
    (hnone : ∀ file, ¬ s.OpenOn r.state file) :
    Linked spared ending { s with opens := s.opens.add file r } := by
  have hadded {no : StateNo} {other : FileId}
      (h : OpenOn { s with opens := s.opens.add file r } no other) :
      s.OpenOn no other ∨ no = r.state ∧ other = file := by
    obtain ⟨key, hkey⟩ := h
    rw [OpenTable.states_add] at hkey
    split at hkey
    · rename_i hsame
      rcases List.mem_append.1 hkey with hmem | hmem
      · exact .inl ⟨key, hsame ▸ hmem⟩
      · exact .inr ⟨congrArg Prod.fst (List.mem_singleton.1 hmem), hsame.symm⟩
    · exact .inl ⟨key, hkey⟩
  refine hs.setOpens (fun no other _ hopen => ?_) fun no f g hf hg => ?_
  · obtain ⟨key, hkey⟩ := hopen
    refine ⟨key, ?_⟩
    rw [OpenTable.states_add]
    split
    · rename_i hsame
      exact List.mem_append_left _ (hsame ▸ hkey)
    · exact hkey
  -- the state of the new open stands for no other one
  · rcases hadded hf with hf' | ⟨rfl, rfl⟩
    · rcases hadded hg with hg' | ⟨rfl, rfl⟩
      · exact hs.oneFile no f g hf' hg'
      · exact absurd hf' (hnone f)
    · rcases hadded hg with hg' | ⟨_, rfl⟩
      · exact absurd hg' (hnone g)
      · rfl

/-- An open comes with a state that owes to forget it. -/
theorem linked_openFile (hs : Linked spared [] s) (ht : s.Tracked)
    (hclient : client.value < s.clients.size) {owner : OwnerNo}
    (howner : owner.value < s.owners.size) {access deny : UInt32}
    (hbound : (s.after (openFile client owner file access deny)).StatesBounded) :
    Linked spared [] (s.after (openFile client owner file access deny)) := by
  rw [after_eq_exec] at hbound ⊢
  rcases openFile_cases client owner file access deny s with
    ⟨e, hexec⟩ | ⟨answer, id, name, mode, no, hexec⟩ | ⟨answer, r, hstate, _, hexec⟩
  · rw [hexec]
    exact hs
  · rw [hexec]
    have hwidened : s.Alike { s with opens := s.opens.widen file id name mode } :=
      { Alike.refl s with opens := OpenTable.states_widen .. }
    exact linked_alike (hwidened.trans (alike_bump _ no)) hs
  · rw [hexec] at hbound ⊢
    -- between the state and its open the links are not complete, so the new state is set aside
    have hmade : Linked spared [s.states.nextNo]
        (s.withHeld client owner .share none (.forgetOpen file)) :=
      linked_withHeld hs ht hclient howner nofun (.inl ⟨file, rfl⟩) ⟨hbound.clients, hbound.states⟩
    have hfirst : none ≠ some s.states.nextNo := nofun
    have hnew := state_withHeld_new hclient owner .share hfirst (.forgetOpen file)
    -- an open is in the table for a state that was made, which the new one was not
    have hnone (other : FileId) :
        ¬ (s.withHeld client owner .share none (.forgetOpen file)).OpenOn r.state other := by
      rintro ⟨key, hkey⟩
      have hbefore := (ht.opened other _ hkey).1
      rw [hstate] at hbefore
      exact absurd hbefore (Nat.lt_irrefl _)
    refine (hmade.addOpen file hnone).tail (fun _ _ _ => ?_) (fun _ hkind => ?_)
      fun younger hyounger hundisposed hderived => ?_
    · exact congrArg HeldState.disposed hnew
    -- the new state is no lock state, and nothing is derived from it
    · have hshare : ((s.withHeld client owner .share none (.forgetOpen file)).state
          s.states.nextNo).id.key.kind? = some .share := by
        rw [hnew]
        exact StateKey.kind?_ofParts ..
      have hkind := hshare.symm.trans hkind
      cases hkind
    · obtain ⟨_, c, howed⟩ := hmade.derived younger _ hyounger hundisposed hderived
      rw [hnew] at howed
      cases List.mem_singleton.1 howed

/-! ## Locks that are granted -/

/-- A lock may be granted that is spared, or whose owner has a lock state. -/
theorem Linked.grant (hs : Linked spared ending s) {l : RangeLock} {locks : LockTable}
    (hlock : s.locks.lock file l = .ok locks)
    (hstands : spared file l ∨ ∃ no, Stands ending s no file l.owner) :
    Linked spared ending { s with locks } := by
  have hkept {no : StateNo} {other : FileId} {holder : LockOwner}
      (h : Stands ending s no other holder) : Stands ending { s with locks } no other holder :=
    h.congr (Nat.le_refl _) rfl rfl fun _ hopen _ => hopen
  refine ⟨hs.live, hs.attached, hs.derived, fun no hno hending hkind hundisposed => ?_, hs.quiet,
    hs.owed, hs.owners, fun other held hheld byte hcovers => ?_, hs.oneFile, hs.calm⟩
  · obtain ⟨other, holder, h⟩ := hs.stands no hno hending hkind hundisposed
    exact ⟨other, holder, hkept h⟩
  -- a lock is the one just granted, or part of an earlier one
  · rcases LockTable.mem_of_lock hlock hheld with ⟨rfl, rfl⟩ | ⟨before, hbefore, hpart⟩
    · rcases hstands with hspared | ⟨no, h⟩
      · exact .inl ⟨held, hspared, .refl held⟩
      · exact .inr ⟨no, hkept h⟩
    · rcases hs.locks other before hbefore byte (hpart.covers hcovers) with
        ⟨range, hspared, hpart'⟩ | ⟨no, h⟩
      · exact .inl ⟨range, hspared, hpart.trans hpart'⟩
      · rw [hpart.owner]
        exact .inr ⟨no, hkept h⟩

/-- The open that a request for a lock needs is the one that its lock state is derived from, if that
is one. -/
theorem openOn_of_key (ht : s.Traced) {m : StateNo} (hno : no.value < s.states.size)
    (hopen : (m, (s.state no).id.key) ∈ s.opens.states file) : s.OpenOn no file := by
  obtain ⟨hm, hkey⟩ := ht.opened file _ hopen
  have hsame : m = no := ht.key_ext hm hno hkey
  exact ⟨_, hsame ▸ hopen⟩

/-- A lock state that a client has stands for the locks of its owner on the file that it is derived
from an open of. -/
theorem stands_of_openOn (hs : Linked spared [] s) (ht : s.Traced) {key : StateKey} {m : StateNo}
    (hget : (s.client client).states.get? key = some no) (hkind : key.kind? = some .byteLock)
    (hopen : (m, (s.state ((s.state no).parent.getD no)).id.key) ∈ s.opens.states file) :
    Stands [] s no file ⟨(s.client client).id, (s.owner (s.state no).owner).name⟩ := by
  obtain ⟨hno, hkey, hid⟩ := ht.held client key no hget
  have hundisposed := hs.undisposed hget
  obtain ⟨other, holder, hstands⟩ := hs.stands no hno List.not_mem_nil (hkey ▸ hkind) hundisposed
  obtain ⟨parent, hparent, hderived⟩ := hstands.derived
  have hother := hderived.resolve_right List.not_mem_nil
  obtain ⟨_, c, howed⟩ := hs.derived no parent hno hundisposed hparent
  have hmade : parent.value < s.states.size := Nat.lt_trans (hs.owed parent no c howed).1 hno
  rw [hparent, Option.getD_some] at hopen
  -- the parent stands for an open of one file only
  rw [hs.oneFile parent file other (openOn_of_key ht hmade hopen) hother, ← hid, ← hkey,
    ← hstands.holder_eq]
  exact hstands

/-- A lock that is granted through a state goes back to it, or it is spared. -/
theorem linked_granted (hs : Linked spared [] s) (ht : s.Traced) {key : StateKey} {m : StateNo}
    (hget : (s.client client).states.get? key = some no)
    (hopen : (m, (s.state ((s.state no).parent.getD no)).id.key) ∈ s.opens.states file)
    {r : LockRequest} {locks : LockTable}
    (hlock : s.locks.lock file
      (r.toLock ⟨(s.client client).id, (s.owner (s.state no).owner).name⟩) = .ok locks)
    (hborrowed : key.kind? ≠ some .byteLock →
      spared file (r.toLock ⟨(s.client client).id, (s.owner (s.state no).owner).name⟩)) :
    Linked spared [] ((bumpState no).exec { s with locks }).2 := by
  refine linked_alike (alike_bump _ no) (hs.grant hlock ?_)
  by_cases hkind : key.kind? = some .byteLock
  · exact .inr ⟨no, stands_of_openOn hs ht hget hkind hopen⟩
  · exact .inl (hborrowed hkind)

/-- A new lock state stands for the locks that it owes, if it is derived from an open of the file. -/
theorem stands_withHeld (hclient : client.value < s.clients.size) {owner : OwnerNo}
    (hparent : some no ≠ some s.states.nextNo) {step : ReleaseStep}
    (hstep : step = .unlockAll file ⟨(s.client client).id, (s.owner owner).name⟩)
    (hopen : s.OpenOn no file) :
    Stands [] (s.withHeld client owner .byteLock (some no) step) s.states.nextNo file
      ⟨(s.client client).id, (s.owner owner).name⟩ := by
  have hnew := state_withHeld_new hclient owner .byteLock hparent step
  obtain ⟨howners, hopens, _⟩ := s.rest_withHeld client owner .byteLock (some no) step
  refine ⟨?_, ?_, ?_, ?_, ?_, no, ?_, .inl ?_⟩
  · rw [states_size_withHeld]
    exact Nat.lt_succ_self _
  · rw [hnew]
    exact StateKey.kind?_ofParts ..
  · rw [hnew]
    rfl
  · rw [hnew]
    unfold Server.owner
    rw [howners]
    rfl
  · rw [hnew, hstep]
    exact List.mem_singleton.2 rfl
  · rw [hnew]
    rfl
  · unfold OpenOn
    rw [hopens]
    exact hopen

/-- A lock state that was made for a request stays if the lock is granted, and goes if it is not. -/
theorem linked_made (hs : Linked spared [] s) (ht : s.Tracked)
    (hclient : client.value < s.clients.size) {owner : OwnerNo}
    (howner : owner.value < s.owners.size) {key : StateKey}
    (hget : (s.client client).states.get? key = some no) {step : ReleaseStep}
    (hstep : step = .unlockAll file ⟨(s.client client).id, (s.owner owner).name⟩)
    (hbound : (s.withHeld client owner .byteLock (some no) step).StatesBounded) {r : LockRequest}
    {outcome : Except Error StateId × Server}
    (houtcome : LockOutcome (s.withHeld client owner .byteLock (some no) step) client file r
      s.states.nextNo true outcome) : Linked spared [] outcome.2 := by
  obtain ⟨hno, _⟩ := ht.held client key no hget
  have hparent : some no ≠ some s.states.nextNo := fun h =>
    Ledger.ne_nextNo hno (Option.some.inj h)
  have hnew := state_withHeld_new hclient owner .byteLock hparent step
  have hheld := get?_withHeld hclient owner .byteLock (some no) step client
    ((s.client client).nextStateKey .byteLock)
  rw [if_pos ⟨rfl, rfl⟩] at hheld
  have hmade := linked_withHeld hs ht hclient howner
    (fun parent h => Option.some.inj h ▸ ⟨hno, hs.undisposed hget⟩) (.inr ⟨file, _, hstep⟩) hbound
  have htraced : (s.withHeld client owner .byteLock (some no) step).Traced :=
    ⟨tracked_withHeld ht hclient owner .byteLock (some no) step, hbound⟩
  cases houtcome with
  | granted hopen hlock =>
    have hno' : no.value < (s.withHeld client owner .byteLock (some no) step).states.size := by
      rw [states_size_withHeld]
      exact Nat.lt_succ_of_lt hno
    have hkey := hopen
    rw [hnew] at hkey
    -- the open was there before the lock state was
    have hopenOn := openOn_of_key htraced hno' hkey
    unfold OpenOn at hopenOn
    rw [(s.rest_withHeld client owner .byteLock (some no) step).2.1] at hopenOn
    have hstands := stands_withHeld hclient hparent hstep hopenOn
    have hlinked : Linked spared [] (s.withHeld client owner .byteLock (some no) step) := by
      -- a state that owes nothing but the locks has nothing derived from it
      refine hmade.tail (fun _ _ _ => ?_) (fun _ _ _ => ⟨file, _, hstands⟩)
        fun younger hyounger hundisposed hderived => ?_
      · rw [hnew]
        rfl
      · obtain ⟨_, c, howed⟩ := hmade.derived younger _ hyounger hundisposed hderived
        rw [hnew, hstep] at howed
        cases List.mem_singleton.1 howed
    refine linked_granted hlinked htraced hheld hopen hlock fun hkind => ?_
    exact absurd (StateKey.kind?_ofParts ..) hkind
  | released =>
    refine ends_releaseState hmade htraced ?_
    rw [hnew]
    exact hheld

end Server

/-- The locker names a state of the client that is no lock state; the locks are then those of its
owner. -/
def Locker.Borrows (s : Server) (client : ClientNo) (holder : LockOwner) : Locker → Prop
  | .newOwner .. => False
  | .existing id _ => id.key.kind? ≠ some .byteLock ∧
    ∃ no, (s.client client).states.get? id.key = some no ∧
      holder = ⟨(s.client client).id, (s.owner (s.state no).owner).name⟩

namespace Server

open Request

variable {spared : FileId → RangeLock → Prop} {ending : List StateNo} {s t : Server}
  {client : ClientNo} {no : StateNo} {file : FileId} {holder : LockOwner}

/-- A request for a lock leaves nothing unlinked: a lock that is granted goes back to the lock state
of the request, and a lock state that was made in vain is released. -/
theorem linked_lock (hs : Linked spared [] s) (ht : s.Tracked)
    (hclient : client.value < s.clients.size) {r : LockRequest} {reclaim : Bool} {locker : Locker}
    (hbound : (s.after (lock client file r reclaim locker)).StatesBounded)
    (hborrowed : ∀ holder id, locker.Borrows s client holder →
      ((lock client file r reclaim locker).exec s).1 = .ok id → spared file (r.toLock holder)) :
    Linked spared [] (s.after (lock client file r reclaim locker)) := by
  rw [after_eq_exec] at hbound ⊢
  obtain ⟨t, hchain, ⟨e, hexec⟩ | ⟨no, isNew, u, hbasis, houtcome⟩⟩ :=
    lock_cases ht hclient file r reclaim locker
  · rw [hexec]
    exact linked_alike (alike_chain hchain (by decide)) hs
  have halike : s.Alike t := alike_chain hchain (by decide)
  have hclient' := Nat.lt_of_lt_of_le hclient hchain.clients_size_le
  generalize (lock client file r reclaim locker).exec s = outcome at hbound houtcome hborrowed ⊢
  have hbound' := hbound.of_chain houtcome.chain
  cases hbasis with
  | existing hget hchain' =>
    have halike' : s.Alike u := halike.trans (alike_chain hchain' (by decide))
    have htraced : u.Traced :=
      ⟨tracked_chain hchain' (by decide) (tracked_chain hchain (by decide) ht), hbound'⟩
    have hlinked := linked_alike halike' hs
    rw [halike.held] at hget
    have hheld := hget
    rw [← halike'.held] at hheld
    cases houtcome with
    | granted hopen hlock =>
      -- nothing has looked at the kind of the state that was named
      refine linked_granted hlinked htraced hheld hopen hlock fun hkind => ?_
      refine hborrowed _ _ ⟨hkind, no, hget, ?_⟩ rfl
      rw [halike'.client_id client hclient, halike'.owner_eq,
        halike'.owner_name _ (hs.owners no (ht.held client _ no hget).1)]
    | refused => exact hlinked
  | @made openId openSeqid lockSeqid name parent owner u hget hchain' hu howner hname =>
    have halike' : t.Alike u := alike_chain hchain' (by decide)
    rw [← halike'.held] at hget
    subst hname
    exact linked_made (linked_alike (halike.trans halike') hs) hu
      (Nat.lt_of_lt_of_le hclient' hchain'.clients_size_le) howner hget rfl hbound' houtcome

/-! ## The other requests -/

/-- Requests that leave servers alike keep everything linked. -/
theorem keeps_of_alike {α : Type} {E : List Effect} {r : Request α} (h : Does E r)
    (hE : ∀ e ∈ E, e ∉ [Effect.locked, .openForgotten, .openAdded, .stateMade, .stateAmended,
      .attached, .detached, .faultsSet]) : Keeps (Linked spared ending) r :=
  fun s hs => linked_alike (alike_chain (h s) hE) hs

/-- A state that counts keeps its links. -/
theorem keeps_bumpState (no : StateNo) : Keeps (Linked spared ending) (bumpState no) :=
  fun s hs => linked_alike (alike_bump s no) hs

/-- What is unlocked was there, and a part of it may stay. -/
theorem keeps_unlock (client : ClientNo) (file : FileId) (lockId : StateId) (seqid : UInt32)
    (r : LockRequest) : Keeps (Linked spared ending) (unlock client file lockId seqid r) := by
  refine keeps_bind (keeps_ofExcept _) fun _ => ?_
  refine keeps_bind (keeps_of_alike (does_renewIfSessionless List.mem_cons_self client)
    (E := [.renewed]) (by decide)) fun _ => ?_
  refine keeps_bind (keeps_of_alike (E := []) (does_currentStateOf client lockId) (by decide))
    fun no => keeps_get_bind fun s hs => ?_
  refine keeps_bind (keeps_of_alike (does_acceptSeqid List.mem_cons_self _ seqid)
    (E := [.ownerAmended]) (by decide)) (fun _ => ?_) s hs
  refine keeps_bind (keeps_of_alike (E := []) (does_lockOwnerOf client no) (by decide))
    fun owner => keeps_bind (fun s hs => ?_) fun _ => keeps_bumpState no
  obtain ⟨locks, hlocks, hpart, _⟩ := s.locks.unlockIfHeld_cases file (r.toLock owner)
  rw [exec_updateLocks, callLocks_eq hs.calm, hlocks]
  exact linked_alike (alike_part hpart) hs

/-- An open that is lowered keeps its links. -/
theorem keeps_downgrade (client : ClientNo) (id : StateId) (file : FileId) (access deny : UInt32) :
    Keeps (Linked spared ending) (downgrade client id file access deny) := by
  intro s hs
  unfold downgrade
  rw [exec_get_bind]
  split
  · exact hs
  · rename_i state opens hlowered
    have halike : s.Alike { s with opens } :=
      { Alike.refl s with opens := OpenTable.states_downgrade hlowered }
    rw [exec_bind, exec_set]
    exact keeps_bumpState state _ (linked_alike halike hs)

/-- A state is ended and taken from its client, or the client has no such state. -/
theorem linked_releaseState (hs : Linked spared ending s) (ht : s.Traced) (client : ClientNo)
    (id : StateId) : Linked spared ending ((releaseState client id).exec s).2 := by
  cases hget : (s.client client).states.get? id.key with
  | none =>
    unfold releaseState stateOf
    rw [exec_bind, exec_get_bind, hget]
    exact hs
  | some no => exact ends_releaseState (hs.cons no) ht hget

/-! ## Every run -/

/-- States, opens and locks are linked as long as no counter has wrapped. -/
structure Kept (spared : FileId → RangeLock → Prop) (s : Server) : Prop where
  tracked : s.Tracked
  linked : s.StatesBounded → Linked spared [] s

/-- A server that has just started has nothing to be linked. -/
theorem kept_start (timers : Bool) (config : Config) (store : Recovery.Store) (wall : WallTime)
    (now : Nat) :
    Kept spared (start timers config store wall now) := by
  have htracked := tracked_start timers config store wall now
  obtain ⟨sweepDue, graceDue, hstart⟩ := start_eq timers config store wall now
  rw [hstart] at htracked ⊢
  -- there is no state and no client yet that the invariant could speak of
  have hunmade {n : Nat} : ¬ n < 0 := Nat.not_lt_zero n
  refine ⟨htracked, fun _ => ⟨fun client key no hget _ => ?_, fun _ hno => absurd hno hunmade,
    fun _ _ hno => absurd hno hunmade, fun _ hno => absurd hno hunmade,
    fun _ _ _ howed => absurd (lt_of_mem_owed howed) hunmade,
    fun _ _ _ howed => absurd (lt_of_mem_owed howed) hunmade, fun _ hno => absurd hno hunmade,
    fun file l hl => ?_, fun no file _ hopen => ?_, rfl⟩⟩
  · exact absurd (lt_of_states_get? hget) hunmade
  · cases hl
  · obtain ⟨key, hkey⟩ := hopen
    cases hkey

/-- While no counter has wrapped, what is linked before a chain of updates may be assumed. -/
theorem Kept.chain {E : List Effect} (hs : Kept spared s) (h : Chain E s t) (ht : t.Tracked)
    (hlinked : s.Traced → t.StatesBounded → Linked spared [] s → Linked spared [] t) :
    Kept spared t := by
  refine ⟨ht, fun hbound => ?_⟩
  have hbefore := hbound.of_chain h
  exact hlinked ⟨hs.tracked, hbefore⟩ hbound (hs.linked hbefore)

/-- The registry makes no states, and ends them by their courses. -/
theorem keepsRegistry_kept (spared : FileId → RangeLock → Prop) :
    KeepsRegistry (Kept spared) where
  update e he s t h hs := by
    -- one list for what leaves states in place, the other for what leaves the links
    have hall : ∀ e ∈ Effect.administering,
        e ∉ [Effect.entered, .counted, .stateMade, .attached, .ownersNamed, .openAdded] ∧
        e ∉ [Effect.locked, .openForgotten, .openAdded, .stateMade, .stateAmended, .attached,
          .detached, .faultsSet] := by decide
    have hchain : Chain [e] s t := .single List.mem_cons_self h
    refine hs.chain hchain (tracked_chain hchain (fun e' he' => ?_) hs.tracked)
      fun _ _ => linked_alike (h.alike (hall e he).2)
    rw [List.mem_singleton.1 he']
    exact (hall e he).1
  endClient client s hs := by
    have hchain := does_endClient (List.Subset.refl _) client s
    exact hs.chain hchain (tracked_chain hchain (by decide) hs.tracked)
      fun ht _ h => linked_endClient h ht client
  endClientLeniently client s hs := by
    have hchain := does_endClientLeniently (List.Subset.refl _) client s
    exact hs.chain hchain (tracked_chain hchain (by decide) hs.tracked)
      fun ht _ h => linked_endClientLeniently h ht client
  store s store _ hs := by
    have hchain : Chain [.recorded] s { s with store } :=
      .single List.mem_cons_self (.recorded s store)
    exact hs.chain hchain (tracked_chain hchain (by decide) hs.tracked)
      fun _ _ => linked_alike (alike_chain hchain (by decide))

end Server

namespace Action

/-- No record is made outside the table of clients, no open is forgotten but at the end of its
state, and no call of the lock table is set to fail. -/
def Orderly : Action → Prop
  | enter .. | removeOpen .. => False
  | setFaults faults => faults.locks = []
  | _ => True

/-- The action has a lock granted on a file through a state that is no lock state. -/
def Borrows (s : Server) (file : FileId) (l : RangeLock) : Action → Prop
  | lock client f r reclaim locker => f = file ∧
    (∃ holder, locker.Borrows s client holder ∧ l = r.toLock holder) ∧
      ∃ id, ((Request.lock client f r reclaim locker).exec s).1 = .ok id
  | _ => False

end Action

namespace Server

open Request

variable {spared : FileId → RangeLock → Prop} {s : Server}

/-- Every action keeps what is not borrowed linked. -/
theorem kept_perform (hs : Kept spared s) {a : Action} (ha : a.Orderly)
    (hborrows : ∀ file l, a.Borrows s file l → spared file l) :
    Kept spared (s.perform a) := by
  -- the registry ends clients and makes no state; the other actions are taken one by one
  by_cases hregistry : a.ofRegistry = true
  · exact (keepsRegistry_kept spared).keeps_perform hregistry hs
  have htracked (hentered : .entered ∉ a.effects) := tracked_perform hs.tracked hentered
  unfold perform at htracked ⊢
  split
  · rename_i hknown
    rw [if_pos hknown] at htracked
    have hchain := chain_carryOut s a hknown
    cases a with
    | enter => exact ha.elim
    | removeOpen => exact ha.elim
    | setFaults faults =>
      refine hs.chain hchain (htracked (by dsimp only [Action.effects]; decide)) fun _ _ h => ?_
      have hcalm : s.Alike { s with faults } := { Alike.refl s with calm := ha.trans h.calm.symm }
      exact linked_alike hcalm h
    | nameOwner client name seqid =>
      exact hs.chain hchain (htracked (by dsimp only [Action.effects]; decide))
        fun _ _ => linked_alike (alike_chain hchain (by dsimp only [Action.effects]; decide))
    | releaseOwner client name =>
      exact hs.chain hchain (htracked (by dsimp only [Action.effects]; decide))
        fun _ _ => linked_alike (alike_chain hchain (by dsimp only [Action.effects]; decide))
    | releaseState client id =>
      exact hs.chain hchain (htracked (by dsimp only [Action.effects]; decide))
        fun ht _ h => linked_releaseState h ht client id
    | openFile client owner file access deny =>
      rw [Action.known, Bool.and_eq_true] at hknown
      refine hs.chain hchain (htracked (by dsimp only [Action.effects]; decide)) fun ht hbound h => ?_
      exact linked_openFile h ht.toTracked (of_decide_eq_true hknown.1) (of_decide_eq_true hknown.2)
        hbound
    | downgrade client id file access deny =>
      exact hs.chain hchain (htracked (by dsimp only [Action.effects]; decide))
        fun _ _ => keeps_downgrade client id file access deny s
    | lock client file r reclaim locker =>
      refine hs.chain hchain (htracked (by dsimp only [Action.effects]; decide)) fun ht hbound h => ?_
      exact linked_lock h ht.toTracked (of_decide_eq_true hknown) hbound
        fun holder id hborrowed hexec =>
          hborrows file _ ⟨rfl, ⟨holder, hborrowed, rfl⟩, id, hexec⟩
    | unlock client file lockId seqid r =>
      exact hs.chain hchain (htracked (by dsimp only [Action.effects]; decide))
        fun _ _ => keeps_unlock client file lockId seqid r s
    | _ => exact absurd rfl hregistry
  · exact hs

/-- In the course of a run a lock was granted on a file through a state that is no lock state. -/
def Borrowed (s : Server) (actions : List Action) (file : FileId) (l : RangeLock) : Prop :=
  ∃ before a rest, actions = before ++ a :: rest ∧ a.Borrows (s.performAll before) file l

/-- Every run keeps linked whatever is not borrowed in its course. -/
theorem kept_performAll (hs : Kept spared s) {actions : List Action}
    (horderly : ∀ a ∈ actions, a.Orderly)
    (hborrowed : ∀ file l, s.Borrowed actions file l → spared file l) :
    Kept spared (s.performAll actions) := by
  -- on the actions still to come; what they borrow is spared from the beginning
  induction actions generalizing s with
  | nil => exact hs
  | cons a rest ih =>
    have hstep := kept_perform hs (horderly a List.mem_cons_self)
      fun file l h => hborrowed file l ⟨[], a, rest, rfl, h⟩
    refine ih hstep (fun b hb => horderly b (List.mem_cons_of_mem _ hb)) fun file l h => ?_
    obtain ⟨before, b, later, rfl, hborrows⟩ := h
    exact hborrowed file l ⟨a :: before, b, later, rfl, hborrows⟩

/-- The locks of an owner on a file go back to a lock state: the client has one that has not ended,
for an owner of that name, derived from a state that an open of the file stands for. -/
def Backed (s : Server) (file : FileId) (holder : LockOwner) : Prop :=
  ∃ (client : ClientNo) (no parent : StateNo), (s.client client).id = holder.client ∧
    (s.client client).states.get? (s.state no).id.key = some no ∧
    (s.state no).disposed = false ∧ (s.state no).id.key.kind? = some .byteLock ∧
    (s.owner (s.state no).owner).name = holder.name ∧ (s.state no).parent = some parent ∧
    ∃ r ∈ s.opens.opens file, r.state = parent

/-- A lock state that stands is found by way of its client. -/
theorem backed_of_stands {no : StateNo} {file : FileId} {holder : LockOwner}
    (hs : Linked spared [] s) (ht : s.Tracked) (hstands : Stands [] s no file holder) :
    s.Backed file holder := by
  obtain ⟨client, hget⟩ := hs.attached no hstands.made hstands.undisposed
  obtain ⟨_, _, hid⟩ := ht.held client _ no hget
  obtain ⟨parent, hparent, hopen⟩ := hstands.derived
  obtain ⟨key, hkey⟩ := hopen.resolve_right List.not_mem_nil
  obtain ⟨r, hr, hrecord⟩ := List.mem_map.1 hkey
  refine ⟨client, no, parent, ?_, hget, hstands.undisposed, hstands.kind, ?_, hparent, r, hr,
    congrArg Prod.fst hrecord⟩
  · rw [hstands.holder_eq, ← hid]
  · rw [hstands.holder_eq]

/-- After every run in which no call of the lock table fails and no counter wraps, every lock on a
file goes back to a lock state of its owner, unless it is a part of one that was granted through a
state that is no lock state, or covers no byte. -/
theorem locks_backed (timers : Bool) (config : Config) (store : Recovery.Store) (wall : WallTime)
    (now : Nat)
    (actions : List Action) (horderly : ∀ a ∈ actions, a.Orderly) :
    let first := start timers config store wall now
    let s := first.performAll actions
    s.StatesBounded → ∀ file, ∀ l ∈ s.locks.locks file,
      s.Backed file l.owner ∨ (∃ range, first.Borrowed actions file range ∧ l.PartOf range) ∨
        ∀ byte, ¬ l.Covers byte := by
  intro first s hbound file l hl
  have hkept : Kept (first.Borrowed actions) s :=
    kept_performAll (kept_start timers config store wall now) horderly fun _ _ h => h
  have hlinked := hkept.linked hbound
  -- the invariant speaks of locks that cover a byte
  by_cases hcovers : ∃ byte, l.Covers byte
  · obtain ⟨byte, hbyte⟩ := hcovers
    rcases hlinked.locks file l hl byte hbyte with hborrowed | ⟨no, hstands⟩
    · exact .inr (.inl hborrowed)
    · exact .inl (backed_of_stands hlinked hkept.tracked hstands)
  · exact .inr (.inr fun byte h => hcovers ⟨byte, h⟩)

/-- A lock that is asked for with a new lock owner goes back to the lock state that is made. -/
theorem locks_backed_of_new_owner :
    let file : FileId := ⟨[9]⟩
    let openId : StateId := .ofParts ⟨1⟩ 1 .share
    let actions : List Action := [.register (.ofOwner [1]), .nameOwner ⟨0⟩ [7] 0,
      .openFile ⟨0⟩ ⟨0⟩ file 3 0, .lock ⟨0⟩ file ⟨.write, 0, 10⟩ false (.newOwner openId 0 [8] 0)]
    let s := (start false {} default ⟨0⟩).performAll actions
    (s.locks.locks file).length = 1 ∧ ∀ l ∈ s.locks.locks file, s.Backed file l.owner := by
  intro file openId actions s
  have horderly : ∀ a ∈ actions, a.Orderly := by simp [actions, Action.Orderly]
  have hnever : ∀ a ∈ actions, ∀ t file range, ¬ a.Borrows t file range := by
    simp [actions, Action.Borrows, Locker.Borrows]
  have hcovers : ∀ l ∈ s.locks.locks file, l.Covers 0 := by decide +kernel
  have hbound : s.StatesBounded := .of_size (by decide +kernel) (by decide +kernel)
  refine ⟨by decide +kernel, fun l hl => ?_⟩
  -- nothing is borrowed here, and every lock has a byte
  rcases locks_backed false {} default ⟨0⟩ 0 actions horderly hbound file l hl with
    hbacked | ⟨range, ⟨before, a, rest, hsplit, hborrows⟩, _⟩ | hnone
  · exact hbacked
  · refine absurd hborrows (hnever a ?_ _ file range)
    rw [hsplit]
    exact List.mem_append_right _ List.mem_cons_self
  · exact absurd (hcovers l hl) (hnone 0)

/-- Without an open of the file, no lock on it goes back to a lock state. -/
theorem not_backed_of_opens {file : FileId} {holder : LockOwner} (h : s.opens.opens file = []) :
    ¬ s.Backed file holder := by
  rintro ⟨_, _, _, _, _, _, _, _, _, r, hr, _⟩
  rw [h] at hr
  cases hr

/-- A lock that was granted through the state of an open outlives the open. -/
theorem borrowed_lock_stays :
    let file : FileId := ⟨[9]⟩
    let openId : StateId := .ofParts ⟨1⟩ 1 .share
    let actions : List Action := [.register (.ofOwner [1]), .nameOwner ⟨0⟩ [7] 0,
      .openFile ⟨0⟩ ⟨0⟩ file 3 0, .lock ⟨0⟩ file ⟨.write, 0, 10⟩ false (.existing openId 0),
      .releaseState ⟨0⟩ openId]
    let s := (start false {} default ⟨0⟩).performAll actions
    (∀ a ∈ actions, a.Orderly) ∧ s.StatesBounded ∧
      ∃ l ∈ s.locks.locks file, l.Covers 0 ∧ ¬ s.Backed file l.owner := by
  intro file openId actions s
  have hbound : s.StatesBounded := .of_size (by decide +kernel) (by decide +kernel)
  refine ⟨by simp [actions, Action.Orderly], hbound, ⟨⟨⟨1⟩, [7]⟩, .write, 0, 10⟩, ?_, ?_, ?_⟩
  · decide +kernel
  · decide +kernel
  · exact not_backed_of_opens (by decide +kernel)

/-- A lock on nothing but the last offset covers no byte, and outlives its lock state. -/
theorem empty_lock_stays :
    let file : FileId := ⟨[9]⟩
    let openId : StateId := .ofParts ⟨1⟩ 1 .share
    let actions : List Action := [.register (.ofOwner [1]), .nameOwner ⟨0⟩ [7] 0,
      .openFile ⟨0⟩ ⟨0⟩ file 3 0,
      .lock ⟨0⟩ file ⟨.write, 0xffff_ffff_ffff_ffff, RangeLock.toEnd⟩ false
        (.newOwner openId 0 [8] 0),
      .releaseState ⟨0⟩ openId]
    let s := (start false {} default ⟨0⟩).performAll actions
    (∀ a ∈ actions, a.Orderly) ∧ s.StatesBounded ∧
      ∃ l ∈ s.locks.locks file, (∀ byte, ¬ l.Covers byte) ∧ ¬ s.Backed file l.owner := by
  intro file openId actions s
  have hbound : s.StatesBounded := .of_size (by decide +kernel) (by decide +kernel)
  let l : RangeLock := ⟨⟨⟨1⟩, [8]⟩, .write, 0xffff_ffff_ffff_ffff, RangeLock.toEnd⟩
  have hempty : l.stop.toNat ≤ l.offset.toNat := by decide +kernel
  refine ⟨by simp [actions, Action.Orderly], hbound, l, ?_, ?_, ?_⟩
  · decide +kernel
  · rintro byte ⟨hfrom, hto⟩
    omega
  · exact not_backed_of_opens (by decide +kernel)

end Server

end Leasehold

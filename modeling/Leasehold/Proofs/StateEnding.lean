import Leasehold.Proofs.StateLinks

/-!
# Proofs.StateEnding — what goes with a state when it ends

While nothing refuses, ending a state does all that it owes: an open is forgotten,
the locks of a lock owner go, and the states that were derived from it end before
it. Nothing else goes, so that what is left of states, opens and locks is still
linked.

* `Server.Linked.finish`, `Server.Linked.detach` — a state that has done what it
  owes may end, and one that has ended may be taken from its client;
* `Request.ends_endStateWithin` — ending a state does not fail, by induction on the
  depth: a derived state is younger than the one it is derived from;
* `Request.ends_releaseState`, `Request.linked_endClient` — releasing a state keeps
  the rest linked, and so does ending a client with all it holds.
-/

namespace Leasehold

namespace Server

variable {spared : FileId → RangeLock → Prop} {ending : List StateNo} {s t : Server}
  {no : StateNo} {file : FileId} {holder : LockOwner}

/-! ## The steps of an end -/

/-- Ending a state and what is derived from it ends states, none of them older than the first, and
takes locks; nothing else. -/
structure Shrinks (first : Nat) (s t : Server) : Prop where
  older : ∀ no : StateNo, no.value < first → t.state no = s.state no
  state : ∀ no, t.state no = s.state no ∨ t.state no = (s.state no).finish
  size : t.states.size = s.states.size
  locks : t.locks.Part s.locks

variable {first : Nat}

theorem Shrinks.refl (first : Nat) (s : Server) : Shrinks first s s :=
  ⟨fun _ _ => rfl, fun _ => .inl rfl, rfl, .refl _⟩

/-- What shrinks twice shrinks. -/
theorem Shrinks.trans {u : Server} (h : Shrinks first s t) (h' : Shrinks first t u) :
    Shrinks first s u where
  older no hno := (h'.older no hno).trans (h.older no hno)
  state no := by
    rcases h.state no with hsame | hended
    · rw [← hsame]
      exact h'.state no
    · rcases h'.state no with hsame' | hended'
      · exact .inr (hsame'.trans hended)
      · rw [hended', hended]
        exact .inr rfl
  size := h'.size.trans h.size
  locks := h'.locks.trans h.locks

/-- If none older than a state is touched, none older than an earlier one is. -/
theorem Shrinks.mono (h : Shrinks first s t) {earlier : Nat} (hle : earlier ≤ first) :
    Shrinks earlier s t :=
  { h with older := fun no hno => h.older no (Nat.lt_of_lt_of_le hno hle) }

/-- What has ended stays ended. -/
theorem Shrinks.disposed (h : Shrinks first s t) (hdisposed : (s.state no).disposed = true) :
    (t.state no).disposed = true := by
  rcases h.state no with hsame | hended
  · rw [hsame]
    exact hdisposed
  · rw [hended]
    rfl

/-- What a step leaves for good: the owner has no lock on the file, or the derived state has
ended. -/
def Done (s : Server) : ReleaseStep → Prop
  | .forgetOpen _ => True
  | .unlockAll file holder =>
    ∀ l ∈ s.locks.locks file, l.owner = holder → ∀ byte, ¬ l.Covers byte
  | .endDerived younger _ => (s.state younger).disposed = true
  | .notify _ _ => True

/-- What was done for good stays done while more states end. -/
theorem Done.shrinks {step : ReleaseStep} (hs : s.Done step) (h : Shrinks first s t) :
    t.Done step := by
  cases step with
  | forgetOpen => trivial
  | unlockAll file holder =>
    intro l hl howner byte hcovers
    obtain ⟨held, hheld, hpart⟩ := h.locks file l hl
    exact hs held hheld (hpart.owner.symm.trans howner) byte (hpart.covers hcovers)
  | endDerived younger client => exact h.disposed hs
  | notify => trivial

/-- To forget an open ends no state. -/
theorem shrinks_forgetOpen (first : Nat) (file : FileId) (key : StateKey) (s : Server) :
    Shrinks first s (s.forgetOpen file key) := by
  unfold forgetOpen
  split
  · exact ⟨fun _ _ => rfl, fun _ => .inl rfl, rfl, .refl _⟩
  · exact .refl first s

/-- Forgetting the open that an ending state stands for hurts nobody else. -/
theorem Linked.forgetOpen (hs : Linked spared (no :: ending) s) (ht : s.Traced)
    (hno : no.value < s.states.size) (file : FileId) :
    Linked spared (no :: ending) (s.forgetOpen file (s.state no).id.key) := by
  unfold Server.forgetOpen
  split
  · rename_i opens hremoved
    have hfewer {other : StateNo} {file' : FileId}
        (h : OpenOn { s with opens } other file') : s.OpenOn other file' := by
      obtain ⟨key, hkey⟩ := h
      exact ⟨key, (OpenTable.states_remove? hremoved file').1 hkey⟩
    refine hs.setOpens (fun other file' hending hopen => ?_)
      fun other f g hf hg => hs.oneFile other f g (hfewer hf) (hfewer hg)
    obtain ⟨key, hkey⟩ := hopen
    obtain ⟨hmade, hsame⟩ := ht.opened file' _ hkey
    -- only the ending state bears the key that goes
    refine ⟨key, (OpenTable.states_remove? hremoved file').2 _ hkey fun heq => hending ?_⟩
    exact ht.key_ext hmade hno (hsame.trans heq) ▸ List.mem_cons_self
  · exact hs

/-- A state that is finished ends, and the others stay. -/
theorem state_finish (s : Server) (no other : StateNo) :
    (s.amendState no .finish).state other = s.state other ∨
      other = no ∧ (s.amendState no .finish).state other = (s.state no).finish := by
  rw [state_amendState]
  split
  · rename_i hsame
    rw [hsame.1]
    exact .inr ⟨rfl, rfl⟩
  · exact .inl rfl

/-- Whatever has not ended afterwards is as it was. -/
theorem state_of_undisposed_finish {other : StateNo}
    (h : ((s.amendState no .finish).state other).disposed = false) :
    (s.amendState no .finish).state other = s.state other := by
  rcases s.state_finish no other with hsame | ⟨_, hended⟩
  · exact hsame
  · rw [hended] at h
    cases h

theorem key_owner_finish (s : Server) (no other : StateNo) :
    ((s.amendState no .finish).state other).id.key = (s.state other).id.key ∧
      ((s.amendState no .finish).state other).owner = (s.state other).owner := by
  rcases s.state_finish no other with hsame | ⟨rfl, hended⟩
  · rw [hsame]
    exact ⟨rfl, rfl⟩
  · rw [hended]
    exact ⟨rfl, rfl⟩

/-- To finish a state adds nothing to what is owed. -/
theorem mem_owed_of_finish {other : StateNo} {step : ReleaseStep}
    (h : step ∈ ((s.amendState no .finish).state other).owed) : step ∈ (s.state other).owed := by
  rcases s.state_finish no other with hsame | ⟨_, hended⟩
  · rwa [hsame] at h
  · rw [hended] at h
    cases h

/-- A state that has done all that it owes may end. -/
theorem Linked.finish (hs : Linked spared (no :: ending) s)
    (hdone : ∀ step ∈ (s.state no).owed, s.Done step) :
    Linked spared (no :: ending) (s.amendState no .finish) := by
  have hsize : (s.amendState no .finish).states.size = s.states.size := Ledger.size_modify ..
  have hstands {other : StateNo} {file : FileId} {holder : LockOwner}
      (hsame : (s.amendState no .finish).state other = s.state other)
      (h : Stands (no :: ending) s other file holder) :
      Stands (no :: ending) (s.amendState no .finish) other file holder :=
    h.congr (Nat.le_of_eq hsize.symm) hsame rfl fun _ hopen _ => hopen
  constructor
  case live =>
    intro client key other hget hdisposed
    rcases s.state_finish no other with hsame | ⟨hsame, _⟩
    · rw [hsame] at hdisposed
      exact hs.live client key other hget hdisposed
    · exact hsame ▸ List.mem_cons_self
  case attached =>
    intro other hother hundisposed
    have hsame := state_of_undisposed_finish hundisposed
    rw [hsame] at hundisposed ⊢
    exact hs.attached other (Nat.lt_of_lt_of_eq hother hsize) hundisposed
  case derived =>
    intro other parent hother hundisposed hparent
    have hsame := state_of_undisposed_finish hundisposed
    rw [hsame] at hundisposed hparent
    obtain ⟨hlives, client, howes⟩ :=
      hs.derived other parent (Nat.lt_of_lt_of_eq hother hsize) hundisposed hparent
    rcases s.state_finish no parent with hsame | ⟨rfl, _⟩
    · rw [hsame]
      exact ⟨hlives, client, howes⟩
    -- whatever was derived from the state has ended by now
    · have hended : (s.state other).disposed = true := hdone _ howes
      rw [hended] at hundisposed
      cases hundisposed
  case stands =>
    intro other hother hending hkind hundisposed
    have hsame := state_of_undisposed_finish hundisposed
    rw [hsame] at hkind hundisposed
    obtain ⟨file, holder, h⟩ :=
      hs.stands other (Nat.lt_of_lt_of_eq hother hsize) hending hkind hundisposed
    exact ⟨file, holder, hstands hsame h⟩
  case quiet =>
    exact fun other label refusals h => hs.quiet other label refusals (mem_owed_of_finish h)
  case owed =>
    intro other younger client h
    rw [hsize, (s.key_owner_finish no younger).1]
    exact hs.owed other younger client (mem_owed_of_finish h)
  case owners =>
    intro other hother
    rw [(s.key_owner_finish no other).2]
    exact hs.owners other (Nat.lt_of_lt_of_eq hother hsize)
  case locks =>
    intro file l hl byte hcovers
    refine (hs.locks file l hl byte hcovers).imp_right ?_
    rintro ⟨other, h⟩
    rcases s.state_finish no other with hsame | ⟨rfl, _⟩
    · exact ⟨other, hstands hsame h⟩
    -- the locks that went back to the state are gone
    · exact absurd hcovers (hdone _ h.owes l hl rfl byte)
  case oneFile =>
    exact hs.oneFile
  case calm =>
    exact hs.calm

/-- A state that has ended may be taken from its client. -/
theorem Linked.detach (hs : Linked spared (no :: ending) s) (ht : s.Traced)
    (hno : no.value < s.states.size) (hdisposed : (s.state no).disposed = true) {client : ClientNo}
    (hclient : client.value < s.clients.size)
    (hid : (s.state no).id.key.client = (s.client client).id) :
    Linked spared ending (s.amendClient client (·.detach (s.state no).id.key)) := by
  have hget := get?_detach hclient (s.state no).id.key
  have hchain : Chain [.detached] s (s.amendClient client (·.detach (s.state no).id.key)) :=
    .single List.mem_cons_self (.client s client _ (.detached _ _))
  have hstands {other : StateNo} {file : FileId} {holder : LockOwner}
      (h : Stands (no :: ending) s other file holder) : Stands (no :: ending)
        (s.amendClient client (·.detach (s.state no).id.key)) other file holder :=
    h.congr (Nat.le_refl _) rfl rfl fun _ hopen _ => hopen
  have hdetached : Linked spared (no :: ending)
      (s.amendClient client (·.detach (s.state no).id.key)) := by
    refine ⟨fun c key other h => ?_, fun other hother hundisposed => ?_, hs.derived, ?_, hs.quiet,
      fun other younger c h => ?_, hs.owners, ?_, hs.oneFile, hs.calm⟩
    · rw [hget] at h
      split at h
      · cases h
      · exact hs.live c key other h
    · obtain ⟨c, hheld⟩ := hs.attached other hother hundisposed
      refine ⟨c, ?_⟩
      rw [hget, if_neg]
      · exact hheld
      -- what has not ended bears another key
      · rintro ⟨_, hkey⟩
        rw [ht.key_ext hno hother hkey] at hdisposed
        exact Bool.false_ne_true (hundisposed.symm.trans hdisposed)
    · intro other hother hending hkind hundisposed
      obtain ⟨file, holder, h⟩ := hs.stands other hother hending hkind hundisposed
      exact ⟨file, holder, hstands h⟩
    · obtain ⟨hyounger, hmade, hc, hsame⟩ := hs.owed other younger c h
      refine ⟨hyounger, hmade, Nat.lt_of_lt_of_le hc hchain.clients_size_le, ?_⟩
      rw [hchain.client_id_eq hc]
      exact hsame
    · intro file l hl byte hcovers
      refine (hs.locks file l hl byte hcovers).imp_right ?_
      rintro ⟨other, h⟩
      exact ⟨other, hstands h⟩
  refine hdetached.tail (fun c key h => ?_) (fun _ _ hundisposed => ?_)
    fun younger hyounger hundisposed hparent => ?_
  · -- no other client has a state of this key
    rw [hget] at h
    split at h
    · cases h
    · rename_i hother
      obtain ⟨_, hkey, hsame⟩ := ht.held c key no h
      refine absurd ⟨?_, hkey⟩ hother
      refine ht.client_ext (lt_of_states_get? h) hclient ?_
      rw [← hsame, ← hkey, hid]
  · exact absurd (hundisposed.symm.trans hdisposed) Bool.false_ne_true
  · obtain ⟨hlives, _⟩ := hs.derived younger no hyounger hundisposed hparent
    rw [hdisposed] at hlives
    cases hlives

end Server

/-! ## The end of a state -/

namespace Request

open Server

variable {spared : FileId → RangeLock → Prop} {ending : List StateNo} {s t : Server}
  {no : StateNo} {size : Nat} {endState : StateNo → Request Unit}

/-- What the end of a state comes to. -/
structure Ended (spared : FileId → RangeLock → Prop) (ending : List StateNo) (no : StateNo)
    (s t : Server) : Prop where
  linked : Linked spared (no :: ending) t
  disposed : (t.state no).disposed = true
  shrinks : Shrinks no.value s t
  chain : Chain Effect.releasing s t

/-- Ending a state does not fail, if it is not older than the first one. -/
def Ends (spared : FileId → RangeLock → Prop) (size first : Nat)
    (endState : StateNo → Request Unit) : Prop :=
  ∀ ending no s, s.states.size = size → first ≤ no.value → no.value < size →
    Linked spared (no :: ending) s → s.Traced →
      ∃ t, (endState no).exec s = (.ok (), t) ∧ Ended spared ending no s t

/-- A step that is owed is done, if derived states can be ended. -/
theorem ends_step (hend : Ends spared size (no.value + 1) endState)
    (hs : Linked spared (no :: ending) s) (ht : s.Traced) (hsize : s.states.size = size)
    (hno : no.value < size) {step : ReleaseStep} (hstep : step ∈ (s.state no).owed) :
    ∃ t, (releaseStep endState (s.state no) step).exec s = (.ok (), t) ∧
      Linked spared (no :: ending) t ∧ t.Traced ∧ t.Done step ∧ Shrinks (no.value + 1) s t := by
  cases step with
  | forgetOpen file =>
    have hforgotten : Chain [.openForgotten] s (s.forgetOpen file (s.state no).id.key) :=
      does_forgetOpen List.mem_cons_self file _ s
    exact ⟨_, rfl, hs.forgetOpen ht (Nat.lt_of_lt_of_eq hno hsize.symm) file,
      traced_ending hforgotten (by decide) ht, trivial, shrinks_forgetOpen ..⟩
  | unlockAll file holder =>
    -- no call is set to fail, and locks only become less
    obtain ⟨locks, hlocks, hpart, hnone⟩ := s.locks.unlockIfHeld_everything file holder
    have hlocked : Chain [.locked] s { s with locks } := .single List.mem_cons_self (.locked s locks)
    refine ⟨{ s with locks }, ?_, linked_alike (alike_part hpart) hs,
      traced_ending hlocked (by decide) ht, hnone, fun _ _ => rfl, fun _ => .inl rfl, rfl, hpart⟩
    unfold releaseStep
    rw [exec_updateLocks, callLocks_eq hs.calm, hlocks]
  | endDerived younger client =>
    -- the derived state ends first, and is then taken off its client
    obtain ⟨hyounger, hmade, _⟩ := hs.owed no younger client hstep
    obtain ⟨t, hexec, hended⟩ := hend (no :: ending) younger s hsize hyounger
      (Nat.lt_of_lt_of_eq hmade hsize) (hs.cons younger) ht
    have htraced := traced_ending hended.chain (by decide) ht
    have hsame := hended.shrinks.older no hyounger
    obtain ⟨_, hmade', hclient, hid⟩ := hended.linked.owed no younger client (hsame ▸ hstep)
    have hdetached : Chain [.detached] t
        (t.amendClient client (·.detach (t.state younger).id.key)) :=
      .single List.mem_cons_self (.client t client _ (.detached _ _))
    have hshrinks := hended.shrinks.mono hyounger
    refine ⟨t.amendClient client (·.detach (t.state younger).id.key), ?_,
      hended.linked.detach htraced hmade' hended.disposed hclient hid,
      traced_ending hdetached (by decide) htraced, hended.disposed,
      hshrinks.older, hshrinks.state, hshrinks.size, hshrinks.locks⟩
    unfold releaseStep
    rw [exec_bind, hexec]
    rfl
  | notify label refusals => exact absurd hstep (hs.quiet no label refusals)

/-- A loop over what is owed gets to the end of it, and ends the state. -/
theorem ends_loop {loop : List ReleaseStep → Request Unit} {state : HeldState}
    (hend : Ends spared size (no.value + 1) endState)
    (hnil : ∀ s, (loop []).exec s = (.ok (), s.amendState no .finish))
    (hcons : ∀ step rest s t, (releaseStep endState state step).exec s = (.ok (), t) →
      (loop (step :: rest)).exec s = (loop rest).exec t)
    {done steps : List ReleaseStep} (hs : Linked spared (no :: ending) s) (ht : s.Traced)
    (hsize : s.states.size = size) (hno : no.value < size) (hstate : s.state no = state)
    (howed : state.owed = done ++ steps) (hdone : ∀ step ∈ done, s.Done step) :
    ∃ t, (loop steps).exec s = (.ok (), t) ∧ Linked spared (no :: ending) t ∧
      (t.state no).disposed = true ∧ Shrinks no.value s t := by
  -- on the steps that are left; those before them are done
  induction steps generalizing s done with
  | nil =>
    refine ⟨_, hnil s, hs.finish fun step hstep => hdone step ?_, ?_, fun other hother => ?_,
      fun other => ?_, Ledger.size_modify .., .refl _⟩
    · rwa [hstate, howed, List.append_nil] at hstep
    · rw [state_amendState, if_pos ⟨rfl, Nat.lt_of_lt_of_eq hno hsize.symm⟩]
      rfl
    · rcases s.state_finish no other with hsame | ⟨rfl, _⟩
      · exact hsame
      · exact absurd hother (Nat.lt_irrefl _)
    · refine (s.state_finish no other).imp_right ?_
      rintro ⟨rfl, hended⟩
      exact hended
  | cons step rest ih =>
    have hstep : step ∈ (s.state no).owed := by
      rw [hstate, howed]
      exact List.mem_append_right _ List.mem_cons_self
    obtain ⟨t, hexec, hlinked, htraced, hnow, hshrinks⟩ := ends_step hend hs ht hsize hno hstep
    rw [hstate] at hexec
    rw [hcons step rest s t hexec]
    have hdone' : ∀ step' ∈ done ++ [step], t.Done step' := by
      intro step' hmem
      rcases List.mem_append.1 hmem with hbefore | hlast
      · exact (hdone step' hbefore).shrinks hshrinks
      · exact List.mem_singleton.1 hlast ▸ hnow
    have hsame := hshrinks.older no (Nat.lt_succ_self _)
    have howed' : state.owed = (done ++ [step]) ++ rest := by rw [howed, List.append_assoc]; rfl
    obtain ⟨u, hexec', hlinked', hdisposed, hshrinks'⟩ := ih hlinked htraced
      (hshrinks.size.trans hsize) (hsame.trans hstate) howed' hdone'
    exact ⟨u, hexec', hlinked', hdisposed, (hshrinks.mono (Nat.le_succ _)).trans hshrinks'⟩

/-- All that the state owes is done, if states younger than it end as they should. -/
theorem ends_releaseStrictly (hend : Ends spared size (no.value + 1) endState)
    (hs : Linked spared (no :: ending) s) (ht : s.Traced) (hsize : s.states.size = size)
    (hno : no.value < size) :
    ∃ t, (releaseStrictly endState no (s.state no) (s.state no).owed).exec s = (.ok (), t) ∧
      Linked spared (no :: ending) t ∧ (t.state no).disposed = true ∧ Shrinks no.value s t := by
  refine ends_loop hend (fun _ => rfl) (fun step rest a b hexec => ?_) hs ht hsize hno rfl
    (List.nil_append _).symm fun _ h => absurd h List.not_mem_nil
  show (tryCatch _ _ >>= fun _ => _ : Request Unit).exec a = _
  rw [exec_bind, exec_tryCatch, hexec]

/-- The same where failures are passed over: there is none to pass over. -/
theorem ends_releaseLeniently (hend : Ends spared size (no.value + 1) endState)
    (hs : Linked spared (no :: ending) s) (ht : s.Traced) (hsize : s.states.size = size)
    (hno : no.value < size) :
    ∃ t, (releaseLeniently endState no (s.state no) (s.state no).owed).exec s = (.ok (), t) ∧
      Linked spared (no :: ending) t ∧ (t.state no).disposed = true ∧ Shrinks no.value s t := by
  refine ends_loop hend (fun _ => rfl) (fun step rest a b hexec => ?_) hs ht hsize hno rfl
    (List.nil_append _).symm fun _ h => absurd h List.not_mem_nil
  show (tryCatch _ _ >>= fun _ => _ : Request Unit).exec a = _
  rw [exec_bind, exec_tryCatch, hexec]

/-- Chains of derived states are followed to their ends: each is younger than the one before. -/
theorem ends_endStateWithin (spared : FileId → RangeLock → Prop) {size depth first : Nat}
    (hdepth : size ≤ first + depth) : Ends spared size first (endStateWithin depth) := by
  -- on the depth, while the states in question get younger
  induction depth generalizing first with
  | zero =>
    intro ending no s _ hfirst hno
    omega
  | succ depth ih =>
    intro ending no s hsize hfirst hno hs ht
    have hchain := does_endStateWithin (List.Subset.refl _) (depth + 1) no s
    unfold DoesFrom at hchain
    unfold endStateWithin at hchain ⊢
    rw [exec_get_bind] at hchain ⊢
    dsimp only at hchain ⊢
    split
    · rename_i hdisposed
      exact ⟨s, rfl, hs, hdisposed, .refl _ s, .refl⟩
    · rename_i hlives
      rw [if_neg hlives] at hchain
      have hend : Ends spared size (no.value + 1) (endStateWithin depth) := ih (by omega)
      obtain ⟨t, hexec, hlinked, hdisposed, hshrinks⟩ := ends_releaseStrictly hend hs ht hsize hno
      exact ⟨t, hexec, hlinked, hdisposed, hshrinks, chain_of_exec hchain hexec⟩

/-- Every state can be ended, as long as everything is linked and no counter has wrapped. -/
theorem ends_endState (spared : FileId → RangeLock → Prop) (size : Nat) :
    Ends spared size 0 Request.endState := by
  intro ending no s hsize hfirst hno
  have hends : Ends spared size 0 (endStateWithin s.states.size) :=
    ends_endStateWithin spared (by omega)
  exact hends ending no s hsize hfirst hno

theorem ends_endStateLeniently (spared : FileId → RangeLock → Prop) (size : Nat) :
    Ends spared size 0 endStateLeniently := by
  intro ending no s hsize hfirst hno hs ht
  have hchain := does_endStateLeniently (List.Subset.refl _) no s
  unfold DoesFrom at hchain
  unfold endStateLeniently at hchain ⊢
  rw [exec_get_bind] at hchain ⊢
  dsimp only at hchain ⊢
  split
  · rename_i hdisposed
    exact ⟨s, rfl, hs, hdisposed, .refl _ s, .refl⟩
  · rename_i hlives
    rw [if_neg hlives] at hchain
    have hend : Ends spared size (no.value + 1) (endStateWithin s.states.size) :=
      ends_endStateWithin spared (by omega)
    obtain ⟨t, hexec, hlinked, hdisposed, hshrinks⟩ := ends_releaseLeniently hend hs ht hsize hno
    exact ⟨t, hexec, hlinked, hdisposed, hshrinks, chain_of_exec hchain hexec⟩

/-- A state that its client's table leads to is ended and taken from the client. -/
theorem ends_releaseState (hs : Linked spared (no :: ending) s) (ht : s.Traced) {client : ClientNo}
    {id : StateId} (hget : (s.client client).states.get? id.key = some no) :
    Linked spared ending ((releaseState client id).exec s).2 := by
  obtain ⟨hno, hkey, hid⟩ := ht.held client id.key no hget
  obtain ⟨t, hexec, hended⟩ := ends_endState spared s.states.size ending no s rfl (Nat.zero_le _) hno
    hs ht
  have hclient := lt_of_states_get? hget
  -- the key by which the state is taken off is the one it was found by
  have hsame : (t.state no).id.key = id.key := by
    rcases hended.shrinks.state no with hsame | hfinished
    · rw [hsame, hkey]
    · rw [hfinished]
      exact hkey
  unfold releaseState stateOf
  rw [exec_bind, exec_get_bind, hget]
  dsimp only
  rw [exec_pure]
  dsimp only
  rw [exec_bind, hexec]
  dsimp only
  rw [exec_modify, ← hsame]
  refine hended.linked.detach (traced_ending hended.chain (by decide) ht)
    (Nat.lt_of_lt_of_eq hno hended.shrinks.size.symm) hended.disposed
    (Nat.lt_of_lt_of_le hclient hended.chain.clients_size_le) ?_
  rw [hsame, hended.chain.client_id_eq hclient]
  exact hid

/-! ## The end of a client -/

/-- States of a client are ended one after the other, and each is taken from the client. -/
theorem ends_statesOf {endOne : StateNo → Request Unit} {loop : List StateNo → Request Unit}
    (hend : ∀ size, Ends spared size 0 endOne) {client : ClientNo}
    (hnil : ∀ s, (loop []).exec s = (.ok (), s))
    (hcons : ∀ no rest, loop (no :: rest) =
      (endOne no >>= fun _ => detachState client no >>= fun _ => loop rest))
    {states : List StateNo} (hs : Linked spared ending s) (ht : s.Traced)
    (hclient : client.value < s.clients.size)
    (hall : ∀ no ∈ states,
      no.value < s.states.size ∧ (s.state no).id.key.client = (s.client client).id) :
    ∃ t, (loop states).exec s = (.ok (), t) ∧ Linked spared ending t ∧ t.Traced := by
  induction states generalizing s with
  | nil => exact ⟨s, hnil s, hs, ht⟩
  | cons no rest ih =>
    obtain ⟨hno, hid⟩ := hall no List.mem_cons_self
    obtain ⟨t, hexec, hended⟩ := hend s.states.size ending no s rfl (Nat.zero_le _) hno
      (hs.cons no) ht
    have htraced := traced_ending hended.chain (by decide) ht
    have hdetached : Chain [.detached] t (t.amendClient client (·.detach (t.state no).id.key)) :=
      .single List.mem_cons_self (.client t client _ (.detached _ _))
    have hchain : Chain Effect.releasing s (t.amendClient client (·.detach (t.state no).id.key)) :=
      hended.chain.trans (hdetached.mono (by decide))
    -- neither keys nor identifiers change while states end
    have hsame (other : StateNo) : (t.state other).id.key = (s.state other).id.key := by
      rcases hended.shrinks.state other with hsame | hfinished
      · rw [hsame]
      · rw [hfinished]
        rfl
    have hclient' := Nat.lt_of_lt_of_le hclient hchain.clients_size_le
    have hid' := hchain.client_id_eq hclient
    have hlinked : Linked spared ending
        (t.amendClient client (·.detach (t.state no).id.key)) := by
      refine hended.linked.detach htraced (Nat.lt_of_lt_of_eq hno hended.shrinks.size.symm)
        hended.disposed (Nat.lt_of_lt_of_le hclient hended.chain.clients_size_le) ?_
      rw [hsame, hended.chain.client_id_eq hclient]
      exact hid
    rw [hcons, exec_bind, hexec]
    dsimp only
    rw [exec_bind, detachState, exec_modify]
    refine ih hlinked (traced_ending hdetached (by decide) htraced) hclient' fun other hother => ?_
    obtain ⟨hmade, hof⟩ := hall other (List.mem_cons_of_mem _ hother)
    rw [hid']
    refine ⟨Nat.lt_of_lt_of_eq hmade hended.shrinks.size.symm, ?_⟩
    exact (congrArg StateKey.client (hsame other)).trans hof

/-- What a client is to end is what its table leads to. -/
theorem held_of_mem_endingOrder {client : ClientNo} (h : no ∈ s.endingOrder client) :
    ∃ key, (s.client client).states.get? key = some no := by
  have hheld : no ∈ ((s.client client).states.entries.mergeSort fun a b => a.1.le b.1).map
      Prod.snd := by
    rcases List.mem_append.1 h with hmem | hmem
    · exact (List.mem_filter.1 hmem).1
    · exact (List.mem_filter.1 hmem).1
  obtain ⟨⟨key, other⟩, hentry, rfl⟩ := List.mem_map.1 hheld
  exact ⟨key, Table.get?_of_mem_entries _ (List.mem_mergeSort.1 hentry)⟩

/-- A client that ends leaves nothing unlinked, whether its states are ended strictly or not. -/
theorem ends_client {endOne : StateNo → Request Unit} (loop : List StateNo → Request Unit)
    (hend : ∀ size, Ends spared size 0 endOne) {client : ClientNo}
    (hnil : ∀ s, (loop []).exec s = (.ok (), s))
    (hcons : ∀ no rest, loop (no :: rest) =
      (endOne no >>= fun _ => detachState client no >>= fun _ => loop rest))
    (hs : Linked spared ending s) (ht : s.Traced) :
    Linked spared ending ((do
      let s ← get
      if (s.client client).disposed then pure ()
      else do
        loop (s.endingOrder client)
        modify (Server.amendClient client .finish) : Request Unit).exec s).2 := by
  rw [exec_get_bind]
  split
  · exact hs
  · have hheld (no : StateNo) (hno : no ∈ s.endingOrder client) := held_of_mem_endingOrder hno
    by_cases hclient : client.value < s.clients.size
    · obtain ⟨t, hexec, hlinked, _⟩ := ends_statesOf hend hnil hcons hs ht hclient fun no hno => by
        obtain ⟨key, hget⟩ := hheld no hno
        obtain ⟨hmade, hkey, hid⟩ := ht.held client key no hget
        exact ⟨hmade, hkey ▸ hid⟩
      rw [exec_bind, hexec]
      have hfinished : Chain [.ended] t (t.amendClient client .finish) :=
        .single List.mem_cons_self (.client t client _ (.ended _))
      exact linked_alike (alike_chain hfinished (by decide)) hlinked
    -- a client that was never made holds nothing
    · have hnone : s.endingOrder client = [] := by
        refine List.eq_nil_iff_forall_not_mem.2 fun no hno => ?_
        obtain ⟨key, hget⟩ := hheld no hno
        exact hclient (lt_of_states_get? hget)
      rw [hnone, exec_bind, hnil]
      have hfinished : Chain [.ended] s (s.amendClient client .finish) :=
        .single List.mem_cons_self (.client s client _ (.ended _))
      exact linked_alike (alike_chain hfinished (by decide)) hs

/-- The end of a client, as far as it gets, leaves everything linked. -/
theorem linked_endClient (hs : Linked spared ending s) (ht : s.Traced) (client : ClientNo) :
    Linked spared ending ((endClient client).exec s).2 :=
  ends_client (endStatesOf client) (ends_endState spared) (fun _ => rfl) (fun _ _ => rfl) hs ht

theorem linked_endClientLeniently (hs : Linked spared ending s) (ht : s.Traced)
    (client : ClientNo) : Linked spared ending ((endClientLeniently client).exec s).2 :=
  ends_client (endStatesLenientlyOf client) (ends_endStateLeniently spared) (fun _ => rfl)
    (fun _ _ => rfl) hs ht

end Request

end Leasehold

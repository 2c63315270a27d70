import Leasehold.Proofs.Serving
import Leasehold.Proofs.StateLinks

/-!
# Proofs.OpenRoots — every open has a state that forgets it

An open of a file stands for a state of its client. As long as no counter wraps,
that state is attached under the key of the open, it has not ended, and it owes the
step that forgets the open. Steps of this kind never fail, so that a state never
ends without its open being forgotten, however many other steps fail.

* `Course.rooted` — states and clients end without leaving an open behind;
* `Server.keepsHappenings_established` — whatever happens, every open is rooted.
-/

namespace Leasehold

/-! ## Opens but for their modes -/

/-- An open but for its modes, which are all that changes of it. -/
def OpenRecord.core (r : OpenRecord) : OpenRecord := { r with mode := default, seen := default }

namespace OpenTable

variable {t t' : OpenTable} {file : FileId}

/-- The opens of a file but for their modes. -/
def cores (t : OpenTable) (file : FileId) : List OpenRecord := (t.opens file).map (·.core)

/-- The opens of a file are set by themselves. -/
theorem cores_setOpens (t : OpenTable) (file : FileId) (rs : List OpenRecord) (other : FileId) :
    (t.setOpens file rs).cores other = if file = other then rs.map (·.core) else t.cores other := by
  unfold cores
  rw [opens_setOpens]
  split <;> rfl

/-- Modes may change without a trace. -/
theorem cores_amendFirst {p : OpenRecord → Bool} {f : OpenRecord → OpenRecord}
    (hf : ∀ r, (f r).core = r.core) :
    (t.setOpens file (amendFirst p f (t.opens file))).cores = t.cores := by
  funext other
  rw [cores_setOpens]
  split
  · rename_i hsame
    rw [map_amendFirst hf, hsame]
    rfl
  · rfl

theorem cores_widen (t : OpenTable) (file : FileId) (client : ClientId) (owner : Bytes)
    (mode : ShareMode) : (t.widen file client owner mode).cores = t.cores :=
  cores_amendFirst fun _ => rfl

theorem cores_downgrade {client : ClientId} {key : StateKey} {mode : ShareMode} {state : StateNo}
    (h : t.downgrade file client key mode = .ok (state, t')) : t'.cores = t.cores := by
  obtain ⟨_, _, _, _, rfl⟩ := downgrade_eq_ok h
  exact cores_amendFirst fun _ => rfl

/-- An open is added at the end of its file. -/
theorem cores_add (t : OpenTable) (file : FileId) (r : OpenRecord) (other : FileId) :
    (t.add file r).cores other =
      if file = other then t.cores file ++ [r.core] else t.cores other := by
  unfold add
  rw [cores_setOpens, List.map_append]
  rfl

/-- Nothing comes when an open is forgotten. -/
theorem cores_remove? {key : StateKey} (h : t.remove? file key = some t') (other : FileId) :
    (t'.cores other).Sublist (t.cores other) := by
  rw [remove?_eq_some h, cores_setOpens]
  split
  · rename_i hsame
    rw [← hsame]
    exact List.eraseP_sublist.map _
  · exact List.Sublist.refl _

/-- Of opens with different keys, none with the key is left when one is forgotten. -/
theorem key_ne_of_eraseP {rs : List OpenRecord} {key : StateKey} {r : OpenRecord}
    (hnodup : (rs.map (·.key)).Nodup) (hmem : r ∈ rs.eraseP (·.key == key)) : r.key ≠ key := by
  induction rs with
  | nil => cases hmem
  | cons first rest ih =>
    rw [List.map_cons, List.nodup_cons] at hnodup
    by_cases hfirst : first.key = key
    · rw [List.eraseP_cons_of_pos (by rw [hfirst]; exact beq_self_eq_true key)] at hmem
      rintro rfl
      exact hnodup.1 (List.mem_map.2 ⟨r, hmem, hfirst.symm⟩)
    · rw [List.eraseP_cons_of_neg (by rw [beq_iff_eq]; exact hfirst)] at hmem
      rcases List.mem_cons.1 hmem with rfl | hrest
      · exact hfirst
      · exact ih hnodup.2 hrest

end OpenTable

namespace Server

variable {e : Effect} {s t : Server} {file : FileId}

/-- No open is new but one that is added. -/
theorem Update.cores_sublist (h : Update e s t) (he : e ≠ .openAdded) (file : FileId) :
    (t.opens.cores file).Sublist (s.opens.cores file) := by
  cases h with
  | openAdded => exact absurd rfl he
  | openForgotten _ _ _ _ h => exact OpenTable.cores_remove? h file
  | openWidened _ other client owner mode =>
    have hsame := congrFun (s.opens.cores_widen other client owner mode) file
    exact hsame ▸ List.Sublist.refl _
  | openLowered _ _ _ _ _ _ _ h =>
    have hsame := congrFun (OpenTable.cores_downgrade h) file
    exact hsame ▸ List.Sublist.refl _
  | _ => exact List.Sublist.refl _

/-- Along a chain that adds none, opens are only lost, and keep their order. -/
theorem cores_sublist_of_chain {E : List Effect} (h : Chain E s t) (hE : .openAdded ∉ E)
    (file : FileId) : (t.opens.cores file).Sublist (s.opens.cores file) := by
  refine h.preserve (I := fun t => (t.opens.cores file).Sublist (s.opens.cores file))
    (fun {e a b} he hupdate ha => ?_) (List.Sublist.refl _)
  refine (hupdate.cores_sublist ?_ file).trans ha
  rintro rfl
  exact hE he

/-! ## Roots -/

/-- An open of a file is one of a client and stands for a state that the client has attached, that
has not ended and that owes the step that forgets the open. -/
structure RootedAt (s : Server) (file : FileId) (r : OpenRecord) : Prop where
  client : r.client.value < s.clients.size
  clientId : r.clientId = (s.client r.client).id
  made : r.state.value < s.states.size
  key : (s.state r.state).id.key = r.key
  lives : (s.state r.state).disposed = false
  owes : .forgetOpen file ∈ (s.state r.state).owed
  attached : (s.client r.client).states.get? r.key = some r.state

/-- Every open has its state, and no two opens of a file bear one key. -/
structure Rooted (s : Server) : Prop where
  rooted : ∀ file, ∀ r ∈ s.opens.cores file, s.RootedAt file r
  once : ∀ file, ((s.opens.cores file).map (·.key)).Nodup

/-- Opens may go, if the others stay rooted. -/
theorem Rooted.of_sublist (hs : s.Rooted)
    (hopens : ∀ file, (t.opens.cores file).Sublist (s.opens.cores file))
    (hrooted : ∀ file, ∀ r ∈ t.opens.cores file, s.RootedAt file r → t.RootedAt file r) :
    t.Rooted where
  rooted file r hr := hrooted file r hr (hs.rooted file r ((hopens file).subset hr))
  once file := (hs.once file).sublist ((hopens file).map _)

/-- Updates that touch neither attached states nor what they owe leave opens rooted. -/
theorem rooted_update (h : Update e s t)
    (he : e ∉ [.openAdded, .stateMade, .stateAmended, .attached, .detached]) (hs : s.Rooted) :
    t.Rooted := by
  simp only [List.mem_cons, List.not_mem_nil, or_false, not_or] at he
  obtain ⟨hadded, hmade, hamended, hattached, hdetached⟩ := he
  have hstate (no : StateNo) : t.state no = s.state no :=
    congrArg (·.get no) (h.records_eq hmade hamended)
  have hstates (client : ClientNo) : (t.client client).states = (s.client client).states := by
    refine h.states_eq ?_ client
    simp only [List.mem_cons, List.not_mem_nil, or_false, not_or]
    exact ⟨hattached, hdetached⟩
  -- the opens that are left are rooted in the same states as before
  refine hs.of_sublist (h.cores_sublist hadded) fun file r _ hr => ?_
  refine ⟨Nat.lt_of_lt_of_le hr.client h.clients_size_le, ?_,
    Nat.lt_of_lt_of_le hr.made h.states_size_le, ?_, ?_, ?_, ?_⟩
  · rw [h.client_id_eq hr.client]
    exact hr.clientId
  · rw [hstate]
    exact hr.key
  · rw [hstate]
    exact hr.lives
  · rw [hstate]
    exact hr.owes
  · rw [hstates]
    exact hr.attached

/-- A state may be amended if it keeps its key, and goes on to live and to owe what its opens need. -/
theorem Rooted.amendState (hs : s.Rooted) (no : StateNo) {f : HeldState → HeldState}
    (hkey : (f (s.state no)).id.key = (s.state no).id.key)
    (howed : ∀ file, ∀ r ∈ s.opens.cores file, r.state = no →
      (f (s.state no)).disposed = false ∧ .forgetOpen file ∈ (f (s.state no)).owed) :
    (s.amendState no f).Rooted := by
  refine hs.of_sublist (fun _ => List.Sublist.refl _) fun file r hmem hr => ?_
  have hsize : (s.amendState no f).states.size = s.states.size := Ledger.size_modify ..
  -- an open is rooted in the amended state, or in another one
  by_cases hno : r.state = no
  · have hamended : (s.amendState no f).state r.state = f (s.state no) := by
      rw [state_amendState, if_pos ⟨hno, hno ▸ hr.made⟩, hno]
    obtain ⟨hlives, howes⟩ := howed file r hmem hno
    refine ⟨hr.client, hr.clientId, Nat.lt_of_lt_of_eq hr.made hsize.symm, ?_, ?_, ?_, hr.attached⟩
    · rw [hamended, hkey, ← hno]
      exact hr.key
    · rw [hamended]
      exact hlives
    · rw [hamended]
      exact howes
  · have hsame : (s.amendState no f).state r.state = s.state r.state := by
      rw [state_amendState, if_neg fun h => hno h.1]
    refine ⟨hr.client, hr.clientId, Nat.lt_of_lt_of_eq hr.made hsize.symm, ?_, ?_, ?_, hr.attached⟩
    · rw [hsame]
      exact hr.key
    · rw [hsame]
      exact hr.lives
    · rw [hsame]
      exact hr.owes

/-- A state that goes on to live, and owes no less. -/
theorem Rooted.amendState_owing (hs : s.Rooted) (no : StateNo) {f : HeldState → HeldState}
    (hf : ∀ st, (f st).id.key = st.id.key ∧ (f st).disposed = st.disposed ∧ st.owed ⊆ (f st).owed) :
    (s.amendState no f).Rooted := by
  refine hs.amendState no (hf _).1 fun file r hmem hno => ?_
  obtain ⟨_, _, _, _, hlives, howes, _⟩ := hs.rooted file r hmem
  rw [hno] at hlives howes
  exact ⟨(hf _).2.1.trans hlives, (hf _).2.2 howes⟩

theorem Rooted.bump (hs : s.Rooted) (no : StateNo) : (s.amendState no .bump).Rooted :=
  hs.amendState_owing no fun _ => ⟨rfl, rfl, List.Subset.refl _⟩

/-- A state that has ended stands for no open, and may be taken from its client. -/
theorem Rooted.detach (hs : s.Rooted) (ht : s.Traced) {no : StateNo} (hno : no.value < s.states.size)
    (hdisposed : (s.state no).disposed = true) (client : ClientNo) {key : StateKey}
    (hkey : (s.state no).id.key = key) : (s.amendClient client (·.detach key)).Rooted := by
  refine hs.of_sublist (fun _ => List.Sublist.refl _) fun file r hmem hr => ?_
  have hsize : (s.amendClient client (·.detach key)).clients.size = s.clients.size :=
    Ledger.size_modify ..
  have hne : key ≠ r.key := by
    intro hsame
    have hstate := ht.key_ext hr.made hno (hr.key.trans (hsame.symm.trans hkey.symm))
    rw [← hstate, hr.lives] at hdisposed
    cases hdisposed
  refine ⟨Nat.lt_of_lt_of_eq hr.client hsize.symm, ?_, hr.made, hr.key, hr.lives, hr.owes, ?_⟩
  · rw [client_amendClient]
    split
    · exact hr.clientId
    · exact hr.clientId
  · rw [client_amendClient]
    split
    · rw [Client.detach, Table.get?_erase, if_neg hne]
      exact hr.attached
    · exact hr.attached

/-! ## How opens are forgotten -/

/-- Once an open is forgotten, no open of the file bears the key. -/
theorem Rooted.forgetOpen (hs : s.Rooted) (file : FileId) (key : StateKey) :
    (s.forgetOpen file key).Rooted ∧
      ∀ r ∈ (s.forgetOpen file key).opens.cores file, r.key ≠ key := by
  unfold Server.forgetOpen
  cases hremoved : s.opens.remove? file key with
  | some opens =>
    refine ⟨rooted_update (.openForgotten s file key opens hremoved) (by decide) hs, ?_⟩
    rintro r hmem
    have hkeys : ((s.opens.opens file).map (·.key)).Nodup := by
      have honce := hs.once file
      unfold OpenTable.cores at honce
      rw [List.map_map] at honce
      exact honce
    dsimp only at hmem
    rw [OpenTable.remove?_eq_some hremoved, OpenTable.cores_setOpens, if_pos rfl] at hmem
    obtain ⟨r', hmem', rfl⟩ := List.mem_map.1 hmem
    have hne : r'.key ≠ key := OpenTable.key_ne_of_eraseP hkeys hmem'
    exact hne
  | none =>
    refine ⟨hs, fun r hmem hkey => ?_⟩
    obtain ⟨r', hmem', rfl⟩ := List.mem_map.1 hmem
    have hany : (s.opens.opens file).any (·.key == key) = true :=
      List.any_eq_true.2 ⟨r', hmem', beq_iff_eq.2 hkey⟩
    unfold OpenTable.remove? at hremoved
    rw [if_pos hany] at hremoved
    cases hremoved

end Server

/-- When the work can begin: its states were made, and the steps of a state that are left forget the
opens that the state stands for. -/
def Ending.Ready (s : Server) : Ending → Prop
  | .step _ one => ∀ younger x, one = .endDerived younger x → younger.value < s.states.size
  | .steps _ no st left => no.value < s.states.size ∧ (s.state no).id.key = st.id.key ∧
    ReleaseStep.Below no s.states.size left ∧
    ∀ file, ∀ r ∈ s.opens.cores file, r.key = st.id.key → .forgetOpen file ∈ left
  | .state _ no => no.value < s.states.size
  | .states _ _ order => ∀ no ∈ order, no.value < s.states.size
  | .client .. => True

/-- What holds once the work is done. -/
def Ending.Over (t : Server) : Ending → Prop
  | .step st one => ∀ file, one = .forgetOpen file → ∀ r ∈ t.opens.cores file, r.key ≠ st.id.key
  | .steps _ no _ _ => (t.state no).disposed = true
  | .state _ no => (t.state no).disposed = true
  | .states _ holder order =>
    ∀ no ∈ order, (t.client holder).states.get? (t.state no).id.key = none
  | .client .. => True

namespace Course

open Server

variable {ending : Ending} {s t : Server} {attempts : List Attempt} {answer : Except Error Unit}

/-- While states end, opens are only lost. -/
theorem cores_sublist (h : Course ending s attempts answer t) (file : FileId) :
    (t.opens.cores file).Sublist (s.opens.cores file) :=
  cores_sublist_of_chain h.chain_ending (by decide) file

theorem traced (h : Course ending s attempts answer t) (hs : s.Traced) : t.Traced :=
  traced_ending h.chain_ending (List.Subset.refl _) hs

/-- States keep their keys while they end. -/
theorem state_key_eq (h : Course ending s attempts answer t) {no : StateNo}
    (hno : no.value < s.states.size) : (t.state no).id.key = (s.state no).id.key :=
  h.chain_ending.state_key_eq hno

/-- Nothing is attached while states end. -/
theorem states_get? (h : Course ending s attempts answer t) {client : ClientNo} {key : StateKey}
    {no : StateNo} (hget : (t.client client).states.get? key = some no) :
    (s.client client).states.get? key = some no := by
  refine h.chain_ending.preserve (I := fun t => (t.client client).states.get? key = some no →
    (s.client client).states.get? key = some no) (fun {e _ _} he hupdate ha hget => ?_) id hget
  refine ha (hupdate.states_get? ?_ hget)
  rintro rfl
  exact absurd he (by decide)

/-- The steps that are left after one that did not fail forget the opens that are left. -/
theorem ready_rest {strict : Bool} {no : StateNo} {state : HeldState} {step : ReleaseStep}
    {rest : List ReleaseStep} (h : Course (.step state step) s attempts answer t)
    (hready : (Ending.steps strict no state (step :: rest)).Ready s)
    (hover : answer = .ok () → (Ending.step state step).Over t)
    (hfailed : ∀ e file, answer = .error e → step ≠ .forgetOpen file) :
    (Ending.steps strict no state rest).Ready t := by
  obtain ⟨hmade, hkey, hbelow, hopens⟩ := hready
  refine ⟨Nat.lt_of_lt_of_eq hmade h.states_size_eq.symm, (h.state_key_eq hmade).trans hkey, ?_,
    fun file r hmem hr => ?_⟩
  · rw [h.states_size_eq]
    exact hbelow.tail
  · rcases List.mem_cons.1 (hopens file r ((h.cores_sublist file).subset hmem) hr) with hstep | hrest
    · cases answer with
      | ok => exact absurd hr (hover rfl file hstep.symm r hmem)
      | error e => exact absurd hstep.symm (hfailed e file rfl)
    · exact hrest

/-- To forget an open never fails. -/
theorem ne_forgetOpen {state : HeldState} {step : ReleaseStep} {e : Error}
    (h : Course (.step state step) s attempts (.error e) t) (file : FileId) :
    step ≠ .forgetOpen file := by
  rintro rfl
  cases h

/-- What ends the states of an open forgets the open before it is done, whatever else fails. -/
theorem rooted (h : Course ending s attempts answer t) (ht : s.Traced) (hg : s.Grounded)
    (hs : s.Rooted) (hready : ending.Ready s) :
    t.Rooted ∧ (answer = .ok () → ending.Over t) := by
  have hfailed {e : Error} {p : Prop} (h : (Except.error e : Except Error Unit) = .ok ()) : p := by
    cases h
  induction h with
  | forgotten s state file =>
    obtain ⟨hrooted, hnone⟩ := hs.forgetOpen file state.id.key
    refine ⟨hrooted, fun _ file' hfile => ?_⟩
    injection hfile with hfile
    rw [← hfile]
    exact hnone
  | unlocked => exact ⟨rooted_update (.locked _ _) (by decide) hs, fun _ _ hfile => ReleaseStep.noConfusion hfile⟩
  | unlockFailed => exact ⟨hs, hfailed⟩
  | @derived s t attempts state no client h ih =>
    have hno := hready no client rfl
    obtain ⟨hrooted, hover⟩ := ih ht hg hs hno
    exact ⟨hrooted.detach (h.traced ht) (Nat.lt_of_lt_of_eq hno h.states_size_eq.symm) (hover rfl)
      client rfl, fun _ _ hfile => ReleaseStep.noConfusion hfile⟩
  | @derivedKept s t attempts e state no client h ih =>
    exact ⟨(ih ht hg hs (hready no client rfl)).1, hfailed⟩
  | notified => exact ⟨rooted_update (.told _ _) (by decide) hs, fun _ _ hfile => ReleaseStep.noConfusion hfile⟩
  | refused => exact ⟨rooted_update (.told _ _) (by decide) hs, hfailed⟩
  | finished s strict no state =>
    obtain ⟨hmade, hkey, _, hopens⟩ := hready
    refine ⟨hs.amendState no rfl fun file r hmem hno => ?_, fun _ => ?_⟩
    -- an open of the state would still have to be forgotten
    · have hr := hs.rooted file r hmem
      refine absurd (hopens file r hmem ?_) List.not_mem_nil
      rw [← hr.key, hno, hkey]
    · show ((s.amendState no .finish).state no).disposed = true
      rw [state_amendState, if_pos ⟨rfl, hmade⟩]
      rfl
  | @done s t u strict no state step rest attempts later answer h hrest ih ihrest =>
    have hstep : (Ending.step state step).Ready s := fun younger client hstep =>
      (hready.2.2.1 younger client (List.mem_cons.2 (.inl hstep.symm))).2
    obtain ⟨hrooted, hover⟩ := ih ht hg hs hstep
    exact ihrest (h.traced ht) (hg.course h trivial) hrooted
      (h.ready_rest hready hover fun _ _ hok => by cases hok)
  | @failed s t no state step rest attempts e h ih =>
    have hstep : (Ending.step state step).Ready s := fun younger client hstep =>
      (hready.2.2.1 younger client (List.mem_cons.2 (.inl hstep.symm))).2
    obtain ⟨hrooted, hover⟩ := ih ht hg hs hstep
    obtain ⟨_, hkey, _, hopens⟩ :=
      h.ready_rest hready hover fun _ file _ => h.ne_forgetOpen file
    refine ⟨hrooted.amendState no rfl fun file r hmem hno => ?_, hfailed⟩
    obtain ⟨_, _, _, hrkey, hlives, _, _⟩ := hrooted.rooted file r hmem
    rw [hno] at hlives hrkey
    exact ⟨hlives, List.mem_cons_of_mem _ (hopens file r hmem (hrkey.symm.trans hkey))⟩
  | @dropped s t u no state step rest attempts later e answer h hrest ih ihrest =>
    have hstep : (Ending.step state step).Ready s := fun younger client hstep =>
      (hready.2.2.1 younger client (List.mem_cons.2 (.inl hstep.symm))).2
    obtain ⟨hrooted, hover⟩ := ih ht hg hs hstep
    exact ihrest (h.traced ht) (hg.course h trivial) hrooted
      (h.ready_rest hready hover fun _ file _ => h.ne_forgetOpen file)
  | ended _ hdisposed => exact ⟨hs, fun _ => hdisposed⟩
  | @state s t strict no attempts answer hlives h ih =>
    refine ih ht hg hs ⟨hready, rfl, hg.descending.below no, fun file r hmem hkey => ?_⟩
    have hr := hs.rooted file r hmem
    rw [← ht.key_ext hr.made hready (hr.key.trans hkey)]
    exact hr.owes
  | none => exact ⟨hs, fun _ no hmem => absurd hmem List.not_mem_nil⟩
  | @next s t u strict client no rest attempts later answer h hrest ih ihrest =>
    have hno : no.value < s.states.size := hready no List.mem_cons_self
    obtain ⟨hrooted, hover⟩ := ih ht hg hs hno
    have hmade := Nat.lt_of_lt_of_eq hno h.states_size_eq.symm
    have hdetached := hrooted.detach (h.traced ht) hmade (hover rfl) client rfl
    have hupdate : Update .detached t (t.amendClient client (·.detach (t.state no).id.key)) :=
      .client t client _ (.detached _ _)
    obtain ⟨hrooted', hover'⟩ := ihrest
      (traced_ending (.single (E := [.detached]) List.mem_cons_self hupdate) (by decide) (h.traced ht))
      (grounded_update hupdate (by decide) (hg.course h trivial)) hdetached fun other hmem =>
        Nat.lt_of_lt_of_eq (hready other (List.mem_cons_of_mem _ hmem)) h.states_size_eq.symm
    refine ⟨hrooted', fun hok other hmem => ?_⟩
    rcases List.mem_cons.1 hmem with rfl | hmem
    · have hkey : (u.state other).id.key = (t.state other).id.key := hrest.state_key_eq hmade
      cases hget : (u.client client).states.get? (u.state other).id.key with
      | none => rfl
      | some held =>
        -- nothing is attached again under the key that was freed
        rw [hkey] at hget
        have hbefore := hrest.states_get? hget
        have hclient : client.value < t.clients.size :=
          Nat.lt_of_lt_of_eq (lt_of_states_get? hbefore) (Ledger.size_modify ..)
        rw [client_amendClient, if_pos ⟨rfl, hclient⟩, Client.detach, Table.get?_erase,
          if_pos rfl] at hbefore
        cases hbefore
    · exact hover' hok other hmem
  | stopped h ih => exact ⟨(ih ht hg hs (hready _ List.mem_cons_self)).1, hfailed⟩
  | gone => exact ⟨hs, fun _ => trivial⟩
  | @client s t strict client order attempts hlives horder h ih =>
    have hmade (no : StateNo) (hmem : no ∈ order) : no.value < s.states.size := by
      obtain ⟨key, hget⟩ := horder.mem_iff.1 hmem
      exact (hg.held client key no hget).1
    exact ⟨rooted_update (.client t client _ (.ended _)) (by decide) (ih ht hg hs hmade).1,
      fun _ => trivial⟩
  | @kept s t strict client order attempts e hlives horder h ih =>
    have hmade (no : StateNo) (hmem : no ∈ order) : no.value < s.states.size := by
      obtain ⟨key, hget⟩ := horder.mem_iff.1 hmem
      exact (hg.held client key no hget).1
    exact ⟨(ih ht hg hs hmade).1, hfailed⟩

end Course

/-! ## Whatever happens -/

namespace Server

open Request

variable {s t : Server} {client : ClientNo}

theorem clients_size_withHeld (s : Server) (client : ClientNo) (owner : OwnerNo) (kind : StateKind)
    (parent : Option StateNo) (step : ReleaseStep) :
    (s.withHeld client owner kind parent step).clients.size = s.clients.size := by
  rw [← s.clients_size_withState client owner kind parent]
  cases parent with
  | none => rfl
  | some => rfl

/-- A new state takes the key of no other, and leaves every open its state. -/
theorem Rooted.withHeld (hs : s.Rooted) (hclient : client.value < s.clients.size) (owner : OwnerNo)
    (kind : StateKind) {parent : Option StateNo} (hparent : parent ≠ some s.states.nextNo)
    (step : ReleaseStep) (ht : (s.withHeld client owner kind parent step).Traced) :
    (s.withHeld client owner kind parent step).Rooted := by
  obtain ⟨_, hopens, _, _⟩ := s.rest_withHeld client owner kind parent step
  have hclients := s.clients_size_withHeld client owner kind parent step
  have hnew := state_withHeld_new hclient owner kind hparent step
  refine hs.of_sublist (fun _ => hopens ▸ List.Sublist.refl _) fun file r _ hr => ?_
  have hold := state_withHeld_old hclient owner kind parent step hr.made
  have hid : ((s.withHeld client owner kind parent step).client r.client).id =
      (s.client r.client).id := by
    rw [client_withHeld]
    exact (s.chain_withState client owner kind parent).client_id_eq hr.client
  have hmade : r.state.value < (s.withHeld client owner kind parent step).states.size := by
    rw [states_size_withHeld]
    exact Nat.lt_succ_of_lt hr.made
  refine ⟨Nat.lt_of_lt_of_eq hr.client hclients.symm, hr.clientId.trans hid.symm, hmade, ?_, ?_, ?_, ?_⟩
  · rw [hold]
    exact hr.key
  · rw [hold]
    exact hr.lives
  · rw [hold]
    exact List.mem_append_left _ hr.owes
  · rw [get?_withHeld hclient]
    split
    · rename_i hsame
      refine congrArg some (ht.key_ext (nextNo_lt_withHeld ..) hmade ?_)
      rw [hnew, hold, hr.key]
      exact hsame.2
    · exact hr.attached

/-- What an open is rooted in is not in the table of opens. -/
theorem RootedAt.setOpens {file : FileId} {r : OpenRecord} (h : s.RootedAt file r)
    (opens : OpenTable) : RootedAt { s with opens } file r :=
  ⟨h.client, h.clientId, h.made, h.key, h.lives, h.owes, h.attached⟩

/-- An open with its state and a key of its own may be added. -/
theorem Rooted.add (hs : s.Rooted) {file : FileId} {r : OpenRecord} (hr : s.RootedAt file r.core)
    (hfresh : ∀ other ∈ s.opens.cores file, other.key ≠ r.key) :
    Rooted { s with opens := s.opens.add file r } := by
  constructor
  · intro other r' hmem
    rw [OpenTable.cores_add] at hmem
    refine RootedAt.setOpens ?_ _
    split at hmem
    · rename_i hfile
      rw [← hfile]
      rcases List.mem_append.1 hmem with hold | hnew
      · exact hs.rooted file r' hold
      · rw [List.mem_singleton.1 hnew]
        exact hr
    · exact hs.rooted other r' hmem
  · intro other
    rw [OpenTable.cores_add]
    split
    · rw [List.map_append]
      refine List.nodup_append.2 ⟨hs.once file, List.pairwise_singleton _ _, fun key hkey key' hkey' => ?_⟩
      obtain ⟨r', hmem, rfl⟩ := List.mem_map.1 hkey
      rw [List.mem_singleton.1 hkey']
      exact hfresh r' hmem
    · exact hs.once other

/-- A new open has the new state, whose key no open bears. -/
theorem Rooted.withOpen (hs : s.Rooted) (htracked : s.Tracked) (hclient : client.value < s.clients.size)
    (owner : OwnerNo) (file : FileId) (mode : ShareMode)
    (hbound : (s.withOpen client owner file mode).StatesBounded) :
    (s.withOpen client owner file mode).Rooted := by
  have hparent : (none : Option StateNo) ≠ some s.states.nextNo := nofun
  have htraced : (s.withHeld client owner .share none (.forgetOpen file)).Traced :=
    ⟨tracked_withHeld htracked hclient owner .share none _, hbound.clients, hbound.states⟩
  have hheld := hs.withHeld hclient owner .share hparent (.forgetOpen file) htraced
  have hnew := state_withHeld_new hclient owner .share hparent (.forgetOpen file)
  have hopens : s.opens = (s.withHeld client owner .share none (.forgetOpen file)).opens :=
    (s.rest_withHeld client owner .share none (.forgetOpen file)).2.1.symm
  have hattached := get?_withHeld hclient owner .share none (.forgetOpen file) client
    ((s.client client).nextStateKey .share)
  rw [if_pos ⟨rfl, rfl⟩] at hattached
  have hid : ((s.withHeld client owner .share none (.forgetOpen file)).client client).id =
      (s.client client).id := by
    rw [client_withHeld]
    exact (s.chain_withState client owner .share none).client_id_eq hclient
  have hsize := s.clients_size_withHeld client owner .share none (.forgetOpen file)
  have hmade := s.nextNo_lt_withHeld client owner .share none (.forgetOpen file)
  unfold Server.withOpen
  rw [hopens]
  -- the state is made and what matters about it is known, so it need not be looked at again
  generalize s.withHeld client owner .share none (.forgetOpen file) = t at *
  refine hheld.add ⟨Nat.lt_of_lt_of_eq hclient hsize.symm, hid.symm, hmade, ?_, ?_, ?_, hattached⟩
    fun other hmem hkey => ?_
  · exact congrArg (·.id.key) hnew
  · exact congrArg (·.disposed) hnew
  · show .forgetOpen file ∈ (t.state s.states.nextNo).owed
    rw [hnew]
    exact List.mem_singleton.2 rfl
  -- a key of its own, since two states of one key are one state
  · have hother := hs.rooted file other (by rw [hopens]; exact hmem)
    have hsame := htraced.key_ext (hheld.rooted file other hmem).made hmade
      ((hheld.rooted file other hmem).key.trans (hkey.trans (congrArg (·.id.key) hnew).symm))
    exact Ledger.ne_nextNo hother.made hsame

/-- With a new open, everything is in its place. -/
theorem Tracked.withOpen (hs : s.Tracked) (hclient : client.value < s.clients.size)
    (owner : OwnerNo) (file : FileId) (mode : ShareMode) :
    (s.withOpen client owner file mode).Tracked := by
  have hheld := tracked_withHeld hs hclient owner .share none (.forgetOpen file)
  refine hheld.setOpens fun other p hp => ?_
  rw [OpenTable.states_add] at hp
  have hold (h : p ∈ s.opens.states other) := hheld.opened other p h
  split at hp
  · rename_i hfile
    rcases List.mem_append.1 hp with hmem | hmem
    · exact hold (hfile ▸ hmem)
    · have hparent : (none : Option StateNo) ≠ some s.states.nextNo := nofun
      have hnew := state_withHeld_new hclient owner .share hparent (.forgetOpen file)
      rw [List.mem_singleton.1 hmem]
      refine ⟨?_, congrArg (·.id.key) hnew⟩
      exact nextNo_lt_withHeld ..
  · exact hold hp

/-- Whatever is done for a client, everything is in its place. -/
theorem Tracked.serves (hs : s.Tracked) (hclient : client.value < s.clients.size)
    (h : Serves client s t) : t.Tracked := by
  rcases h.cases_chain with hchain | ⟨name, seqid, _, rfl⟩ | ⟨name, rfl⟩ | ⟨_, _, _, _, _, _, _, rfl⟩
  · exact tracked_chain hchain (by decide) hs
  · have hchain := s.chain_withOwner client name seqid
    refine .of_chain hchain (by decide) hs ?_ (named_withOwner hs.named client name seqid)
    refine hchain.preserve (fun {e _ _} he hupdate => opened_update hupdate ?_) hs.opened
    rintro rfl
    exact absurd he (by decide)
  · exact tracked_releaseOwner hs client name
  · exact tracked_withHeld hs hclient ..

/-- A state that is released takes its opens with it if it ends, and keeps them if it does not begin
to. -/
theorem Rooted.releases {id : StateId} (hs : s.Rooted) (ht : s.Traced) (hg : s.Grounded)
    (h : s.Releases client id t) : t.Rooted := by
  cases h with
  | unknown => exact hs
  | kept hget h => exact (h.rooted ht hg hs (hg.held _ _ _ hget).1).1
  | released hget h =>
    obtain ⟨hno, hkey, _⟩ := hg.held _ _ _ hget
    obtain ⟨hrooted, hover⟩ := h.rooted ht hg hs hno
    exact hrooted.detach (h.traced ht) (Nat.lt_of_lt_of_eq hno h.states_size_eq.symm) (hover rfl)
      client ((h.state_key_eq hno).trans hkey)

/-- Whatever is done for a client, opens stay rooted. -/
theorem Rooted.serves (hs : s.Rooted) (hbefore : s.Traced) (hg : s.Grounded)
    (h : Serves client s t) (hafter : t.Traced) : t.Rooted := by
  have hall : ∀ e ∈ Effect.besideStates,
      e ∉ [Effect.openAdded, .stateMade, .stateAmended, .attached, .detached] := by decide
  refine h.preserve (fun e he _ _ hupdate => rooted_update hupdate (hall e he))
    (fun _ no hs => hs.bump no) ?_ (fun _ h hs => hs.releases hbefore hg h) hs
  rintro _ no _ _ file hget _ rfl hs
  have hparent := Ledger.ne_nextNo (hg.held _ _ _ hget).1
  exact hs.withHeld (lt_of_states_get? hget) _ _ (fun h => hparent (Option.some.inj h)) _ hafter

theorem Rooted.calledBack (hs : s.Rooted) (client : ClientNo) (hasCallback : Bool) :
    (s.amendClient client ({ · with hasCallback })).Rooted := by
  refine hs.of_sublist (fun _ => List.Sublist.refl _) fun file r _ hr => ?_
  have hsize : (s.amendClient client ({ · with hasCallback })).clients.size = s.clients.size :=
    Ledger.size_modify ..
  refine ⟨Nat.lt_of_lt_of_eq hr.client hsize.symm, ?_, hr.made, hr.key, hr.lives, hr.owes, ?_⟩
  · rw [client_calledBack Client.id fun _ _ => rfl]
    exact hr.clientId
  · rw [client_calledBack Client.states fun _ _ => rfl]
    exact hr.attached

theorem Tracked.calledBack (hs : s.Tracked) (client : ClientNo) (hasCallback : Bool) :
    (s.amendClient client ({ · with hasCallback })).Tracked := by
  have hsize : (s.amendClient client ({ · with hasCallback })).clients.size = s.clients.size :=
    Ledger.size_modify ..
  have hid (no : ClientNo) := client_calledBack Client.id (fun _ _ => rfl) s client hasCallback no
  refine ⟨⟨?_, fun no hno => ?_⟩, fun c key no hget => ?_, hs.opened, fun c name no hget => ?_,
    fun hbound => ?_⟩
  · rw [hsize]
    exact hs.numbered.issued
  · rw [hid]
    exact hs.numbered.client_id no (Nat.lt_of_lt_of_eq hno hsize)
  · rw [client_calledBack Client.states fun _ _ => rfl] at hget
    rw [hid]
    exact hs.held c key no hget
  · rw [client_calledBack Client.owners fun _ _ => rfl] at hget
    exact hs.named c name no hget
  · rw [hsize] at hbound
    -- keys are told by identifiers and counters, neither of which has changed
    obtain ⟨howned, hnumbered, hcounter⟩ := hs.keyed hbound
    refine ⟨fun no hno => ?_, hnumbered, fun c hc => ?_⟩
    · obtain ⟨c, hc, hkey⟩ := howned no hno
      refine ⟨c, Nat.lt_of_lt_of_eq hc hsize.symm, ?_⟩
      rw [hid]
      exact hkey
    · rw [hid, client_calledBack Client.stateCounter fun _ _ => rfl]
      exact hcounter c (Nat.lt_of_lt_of_eq hc hsize)

theorem StatesBounded.of_calledBack {hasCallback : Bool}
    (h : (s.amendClient client ({ · with hasCallback })).StatesBounded) : s.StatesBounded := by
  have hsize : (s.amendClient client ({ · with hasCallback })).clients.size = s.clients.size :=
    Ledger.size_modify ..
  refine ⟨Nat.lt_of_le_of_lt (Nat.le_of_eq hsize.symm) h.clients, fun no hno => ?_⟩
  have hstates := h.states no (Nat.lt_of_lt_of_eq hno hsize.symm)
  rw [client_calledBack Client.id fun _ _ => rfl] at hstates
  exact hstates

/-- What is known of keys and names, and as long as no counter wraps, of the opens. -/
structure Established (s : Server) : Prop where
  tracked : s.Tracked
  grounded : s.Grounded
  rooted : s.StatesBounded → s.Rooted

/-- As long as no counter has wrapped, keys lead to their states. -/
theorem Established.traced (hs : s.Established) (hbound : s.StatesBounded) : s.Traced :=
  ⟨hs.tracked, hbound⟩

/-- Whatever happens, every open has a state that forgets it. -/
theorem keepsHappenings_established (P : Server → Action → Prop) :
    KeepsHappenings P Established where
  grounded := Established.grounded
  update e he _ _ h hs := by
    have hall : ∀ e ∈ Effect.administering ++ [.recorded, .faultsSet, .openForgotten],
        e ∉ [Effect.entered, .counted, .stateMade, .attached, .ownersNamed, .openAdded] ∧
          e ∉ [Effect.openAdded, .stateMade, .stateAmended, .attached, .detached] := by decide
    refine ⟨tracked_chain (.single (E := [e]) List.mem_cons_self h) ?_ hs.tracked,
      (keepsHappenings_grounded P).update e he h hs.grounded, fun hbound => ?_⟩
    · intro e' he'
      rw [List.mem_singleton.1 he']
      exact (hall e he).1
    · exact rooted_update h (hall e he).2 (hs.rooted (.of_update h hbound))
  client h hs := by
    refine ⟨tracked_chain h.chain_ending (by decide) hs.tracked, hs.grounded.course h trivial, ?_⟩
    intro hbound
    have hbefore := StatesBounded.of_chain h.chain_ending hbound
    exact (h.rooted (hs.traced hbefore) hs.grounded (hs.rooted hbefore) trivial).1
  serves hclient h hs := by
    have htracked := hs.tracked.serves hclient h
    refine ⟨htracked, hs.grounded.serves h, fun hbound => ?_⟩
    have hbefore := StatesBounded.of_chain h.chain hbound
    exact (hs.rooted hbefore).serves (hs.traced hbefore) hs.grounded h ⟨htracked, hbound⟩
  opened _ hclient _ _ _ hs := by
    refine ⟨hs.tracked.withOpen hclient _ _ _, hs.grounded.withOpen hclient _ _ _, fun hbound => ?_⟩
    -- the bound holds once the state is made, before the open is added
    have hmade := StatesBounded.of_chain (chain_making ..) ⟨hbound.clients, hbound.states⟩
    exact (hs.rooted hmade).withOpen hs.tracked hclient _ _ _ hbound
  observed {s} no label refusals hs := by
    have hupdate : Update .stateAmended s (s.amendState no (·.owe (.notify label refusals))) :=
      .stateAmended s no _ fun _ => ⟨rfl, rfl, rfl⟩
    refine ⟨tracked_chain (.single (E := [.stateAmended]) List.mem_cons_self hupdate) (by decide)
      hs.tracked, hs.grounded.observed no label refusals, fun hbound => ?_⟩
    exact (hs.rooted (.of_update hupdate hbound)).amendState_owing no fun _ =>
      ⟨rfl, rfl, List.subset_append_left ..⟩
  calledBack client hasCallback hs :=
    ⟨hs.tracked.calledBack client hasCallback, hs.grounded.calledBack client hasCallback,
      fun hbound => (hs.rooted (.of_calledBack hbound)).calledBack client hasCallback⟩

theorem established_start (timers : Bool) (config : Config) (store : Recovery.Store)
    (wall : WallTime) (now : Nat) : (start timers config store wall now).Established := by
  refine ⟨tracked_start timers config store wall now, grounded_start timers config store wall now,
    fun _ => ?_⟩
  obtain ⟨sweepDue, graceDue, hstart⟩ := start_eq timers config store wall now
  rw [hstart]
  exact ⟨fun file r hr => absurd hr List.not_mem_nil, fun file => .nil⟩

end Server

end Leasehold

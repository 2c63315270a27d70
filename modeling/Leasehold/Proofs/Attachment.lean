import Leasehold.Proofs.Belonging

/-!
# Proofs.Attachment — a client's table leads to the states that have not ended

A state ends first and is taken from its client then, and what comes in between may
fail. All the same, as long as no counter wraps, the table of each client leads to
those of its states that have not ended and to no others, but for the one state that
has ended last and is about to be taken (`Server.Attached`). What a state owes the
end of is derived from it, and of its client (`Server.Derives`).

* `Course.attached` — the end of states and clients takes what has ended, and nothing
  else, whatever fails;
* `Server.keepsHappenings_anchored` — whatever happens keeps both.
-/

namespace Leasehold

open Request

/-! ## What is derived from a state -/

/-- A step that ends another state ends one that is derived from the state, and takes it from a
client with the identifier of both. -/
def ReleaseStep.From (s : Server) (no : StateNo) : ReleaseStep → Prop
  | .endDerived younger client => (s.state younger).parent = some no ∧
    ReleaseStep.Of s (s.state no).id.key.client (.endDerived younger client)
  | _ => True

/-- What is left of a step after a failure ends the same state. -/
theorem ReleaseStep.From.afterFailure {s : Server} {no : StateNo} {step : ReleaseStep}
    (h : step.From s no) : step.afterFailure.From s no := by
  cases step with
  | notify => trivial
  | _ => exact h

namespace Server

variable {e : Effect} {E : List Effect} {s t : Server} {client : ClientNo} {no : StateNo}
  {step : ReleaseStep}

/-- A state that was made keeps its parent. -/
theorem Update.state_parent_eq (h : Update e s t) (hno : no.value < s.states.size) :
    (t.state no).parent = (s.state no).parent := by
  cases h with
  | stateMade =>
    exact congrArg HeldState.parent ((Ledger.get_add ..).trans (if_neg (Ledger.ne_nextNo hno)))
  | stateAmended _ _ _ hf =>
    rw [state_amendState]
    split
    · exact (hf _).2.2
    · rfl
  | _ => rfl

/-- What is derived from a state stays so, since keys and parents stay. -/
theorem Update.step_from (h : Update e s t) (hno : no.value < s.states.size)
    (hfrom : step.From s no) : step.From t no := by
  cases step with
  | endDerived younger client =>
    obtain ⟨hparent, hof⟩ := hfrom
    refine ⟨(h.state_parent_eq hof.1).trans hparent, ?_⟩
    rw [h.state_key_eq hno]
    exact h.step_of hof
  | _ => trivial

theorem step_from_of_chain (h : Chain E s t) (hno : no.value < s.states.size)
    (hfrom : step.From s no) : step.From t no := by
  have hkept : no.value < t.states.size ∧ step.From t no :=
    h.preserve (I := fun t => no.value < t.states.size ∧ step.From t no)
      (fun _ hupdate ⟨hsize, hbefore⟩ =>
        ⟨Nat.lt_of_lt_of_le hsize hupdate.states_size_le, hupdate.step_from hsize hbefore⟩)
      ⟨hno, hfrom⟩
  exact hkept.2

/-- What every state owes the end of is derived from it. -/
def Derives (s : Server) : Prop := ∀ no, ∀ step ∈ (s.state no).owed, step.From s no

/-- While no state is made, what was owed is still derived from the state that owes it. -/
theorem derives_of_owes (h : Chain E s t) (hsize : t.states.size = s.states.size)
    (howes : t.Owes fun no step => step.From s no) : t.Derives := fun no step hmem =>
  step_from_of_chain h (Nat.lt_of_lt_of_eq (lt_of_mem_owed hmem) hsize) (howes no step hmem)

/-- Only a new state, or one that owes something new, can break this. -/
theorem derives_update (h : Update e s t) (he : e ∉ [.stateMade, .stateAmended]) (hs : s.Derives) :
    t.Derives := by
  simp only [List.mem_cons, List.not_mem_nil, or_false, not_or] at he
  intro no step hmem
  have hsame : t.state no = s.state no := congrArg (·.get no) (h.records_eq he.1 he.2)
  rw [hsame] at hmem
  exact h.step_from (lt_of_mem_owed hmem) (hs no step hmem)

/-- A state may owe other things if what they end is derived from it. -/
theorem Derives.amendState (hs : s.Derives) {f : HeldState → HeldState}
    (hf : ∀ st, (f st).id.key = st.id.key ∧ (f st).owner = st.owner ∧ (f st).parent = st.parent)
    (howed : ∀ step ∈ (f (s.state no)).owed, step.From s no) : (s.amendState no f).Derives := by
  have hupdate := Update.stateAmended s no f hf
  have hfrom : s.Owes fun no step => step.From s no := hs
  exact derives_of_owes (.single (E := [.stateAmended]) List.mem_cons_self hupdate)
    (hupdate.states_size_eq (by decide)) (hfrom.amendState howed)

theorem Derives.bump (hs : s.Derives) (no : StateNo) : (s.amendState no .bump).Derives :=
  hs.amendState (fun _ => ⟨rfl, rfl, rfl⟩) (hs no)

/-- While states end, they owe nothing new. -/
theorem Derives.course {ending : Ending} {attempts : List Attempt} {answer : Except Error Unit}
    (hs : s.Derives) (h : Course ending s attempts answer t)
    (hleft : ending.Owes fun no step => step.From s no) : t.Derives :=
  derives_of_owes h.chain_ending h.states_size_eq
    (h.owes (fun _ _ hfrom => hfrom.afterFailure) hs hleft)

/-- A new state owes no end, and the state that it is derived from comes to owe its end. -/
theorem Derives.withHeld (hs : s.Derives) (hclient : client.value < s.clients.size)
    (owner : OwnerNo) (kind : StateKind) {parent : Option StateNo}
    (hparent : ∀ no, parent = some no → no.value < s.states.size ∧
      (s.state no).id.key.client = (s.client client).id)
    (hstep : ∀ younger client, step ≠ .endDerived younger client) :
    (s.withHeld client owner kind parent step).Derives := by
  have hne : parent ≠ some s.states.nextNo := fun h => Nat.lt_irrefl _ (hparent _ h).1
  have hchain := s.chain_making client owner kind parent step
  have hnew := state_withHeld_new hclient owner kind hne step
  intro no step' hmem
  -- what was owed before, what the new state owes, and the end of the new state
  rcases owed_withHeld hclient hne hmem with hold | ⟨rfl, rfl⟩ | ⟨hof, hno, rfl⟩
  · exact step_from_of_chain hchain (lt_of_mem_owed hold) (hs no step' hold)
  · cases step' with
    | endDerived younger client => exact absurd rfl (hstep younger client)
    | _ => trivial
  · refine ⟨?_, nextNo_lt_withHeld .., ?_, Nat.lt_of_lt_of_le hclient hchain.clients_size_le, ?_⟩
    · rw [hnew]
      exact hof
    · rw [hnew, hchain.state_key_eq hno, (hparent no hof).2]
      rfl
    · rw [hchain.client_id_eq hclient, hchain.state_key_eq hno, (hparent no hof).2]

/-! ## What the tables lead to -/

/-- The tables of the clients lead to the states that have not ended, and to the last one that has
ended until it is taken from its client. -/
structure Attached (last : Option StateNo) (s : Server) : Prop where
  live : ∀ (client : ClientNo) key no, (s.client client).states.get? key = some no →
    (s.state no).disposed = true → last = some no
  held : ∀ no : StateNo, no.value < s.states.size → (s.state no).disposed = false →
    ∃ client : ClientNo, (s.client client).states.get? (s.state no).id.key = some no
  ended : ∀ no, last = some no → (s.state no).disposed = true

variable {last : Option StateNo}

/-- It is a matter of the tables, and of which states have ended. -/
theorem Attached.congr (hs : Attached last s)
    (htables : ∀ client, (t.client client).states = (s.client client).states)
    (hsize : t.states.size = s.states.size)
    (hstates : ∀ no, (t.state no).id.key = (s.state no).id.key ∧
      (t.state no).disposed = (s.state no).disposed) : Attached last t where
  live client key no hget hdisposed := by
    rw [htables] at hget
    exact hs.live client key no hget ((hstates no).2.symm.trans hdisposed)
  held no hno hlives := by
    rw [hsize] at hno
    obtain ⟨client, hget⟩ := hs.held no hno ((hstates no).2.symm.trans hlives)
    refine ⟨client, ?_⟩
    rw [htables, (hstates no).1]
    exact hget
  ended no hlast := (hstates no).2.trans (hs.ended no hlast)

/-- Attachment changes only when states are made, amended, attached or detached. -/
theorem attached_update (h : Update e s t)
    (he : e ∉ [.stateMade, .stateAmended, .attached, .detached]) (hs : Attached last s) :
    Attached last t := by
  simp only [List.mem_cons, List.not_mem_nil, or_false, not_or] at he
  obtain ⟨hmade, hamended, hattached, hdetached⟩ := he
  have hrecords := h.records_eq hmade hamended
  refine hs.congr (h.states_eq ?_) (congrArg Ledger.size hrecords) fun no => ?_
  · simp only [List.mem_cons, List.not_mem_nil, or_false, not_or]
    exact ⟨hattached, hdetached⟩
  · have hsame : t.state no = s.state no := congrArg (·.get no) hrecords
    rw [hsame]
    exact ⟨rfl, rfl⟩

/-- A state may be amended if it stays what it is, ended or not. -/
theorem Attached.amendState (hs : Attached last s) (no : StateNo) {f : HeldState → HeldState}
    (hf : ∀ st, (f st).id.key = st.id.key ∧ (f st).disposed = st.disposed) :
    Attached last (s.amendState no f) := by
  refine hs.congr (fun _ => rfl) (Ledger.size_modify ..) fun other => ?_
  rw [state_amendState]
  split
  · rename_i hsame
    rw [hsame.1]
    exact hf _
  · exact ⟨rfl, rfl⟩

/-- A state may end while no other one has ended. -/
theorem Attached.finish (hs : Attached none s) (hno : no.value < s.states.size) :
    Attached (some no) (s.amendState no .finish) := by
  have hother {other : StateNo} (hne : other ≠ no) :
      (s.amendState no .finish).state other = s.state other := by
    rw [state_amendState, if_neg fun h => hne h.1]
  have hself : (s.amendState no .finish).state no = (s.state no).finish := by
    rw [state_amendState, if_pos ⟨rfl, hno⟩]
  -- whoever has ended is still attached, so it alone is excused from the first part
  refine ⟨fun client key other hget hdisposed => ?_, fun other hmade hlives => ?_, ?_⟩
  · by_cases hsame : other = no
    · rw [hsame]
    · rw [hother hsame] at hdisposed
      cases hs.live client key other hget hdisposed
  · have hne : other ≠ no := by
      rintro rfl
      rw [hself] at hlives
      cases hlives
    rw [hother hne] at hlives ⊢
    exact hs.held other (Nat.lt_of_lt_of_eq hmade (Ledger.size_modify ..)) hlives
  · rintro _ ⟨⟩
    rw [hself]
    rfl

/-- A client is there from whose table a state that was made can be taken. -/
structure IsOf (s : Server) (no : StateNo) (client : ClientNo) : Prop where
  made : no.value < s.states.size
  clientMade : client.value < s.clients.size
  clientId : (s.state no).id.key.client = (s.client client).id

theorem IsOf.chain (hs : s.IsOf no client) (h : Chain E s t) : t.IsOf no client where
  made := Nat.lt_of_lt_of_le hs.made h.states_size_le
  clientMade := Nat.lt_of_lt_of_le hs.clientMade h.clients_size_le
  clientId := by
    rw [h.state_key_eq hs.made, h.client_id_eq hs.clientMade]
    exact hs.clientId

/-- A state that a client has attached is one of the client. -/
theorem Held.isOf (hs : s.Held) {key : StateKey}
    (hget : (s.client client).states.get? key = some no) : s.IsOf no client := by
  obtain ⟨hmade, hkey, hid⟩ := hs client key no hget
  exact ⟨hmade, lt_of_states_get? hget, (congrArg _ hkey).trans hid⟩

/-- A derived state that is owed to be ended for a client is one of the client. -/
theorem Derives.isOf (hs : s.Derives) {younger : StateNo} {x : ClientNo}
    (hmem : .endDerived younger x ∈ (s.state no).owed) : s.IsOf younger x := by
  obtain ⟨_, hmade, hkey, hclient, hid⟩ := hs no _ hmem
  exact ⟨hmade, hclient, hkey.trans hid.symm⟩

/-- The state that has ended is taken from its client, and is in no table then. -/
theorem Attached.detach (hs : Attached (some no) s) (ht : s.Traced) (hof : s.IsOf no client)
    {key : StateKey} (hkey : (s.state no).id.key = key) :
    Attached none (s.amendClient client (·.detach key)) := by
  have hdisposed := hs.ended no rfl
  refine ⟨fun c key' other hheld hended => ?_, fun other hmade hlives => ?_, ?_⟩
  · rw [get?_detach hof.clientMade] at hheld
    split at hheld
    · cases hheld
    · rename_i hother
      obtain rfl := Option.some.inj (hs.live c key' other hheld hended)
      -- no other client has a state of this key
      obtain ⟨_, hkey', hid⟩ := ht.held c key' no hheld
      refine absurd ⟨ht.client_ext (lt_of_states_get? hheld) hof.clientMade ?_, ?_⟩ hother
      · rw [← hid, ← hkey', hof.clientId]
      · rw [← hkey, hkey']
  · obtain ⟨c, hheld⟩ := hs.held other hmade hlives
    refine ⟨c, ?_⟩
    show ((s.amendClient client (·.detach key)).client c).states.get? (s.state other).id.key = _
    rw [get?_detach hof.clientMade, if_neg]
    · exact hheld
    · rintro ⟨_, hsame⟩
      obtain rfl := ht.key_ext hof.made hmade (hkey.trans hsame)
      rw [show (s.state no).disposed = false from hlives] at hdisposed
      cases hdisposed
  · rintro _ ⟨⟩

/-- A new state is held by its client, under a key of its own. -/
theorem Attached.withHeld (hs : Attached none s) (hheld : s.Held)
    (hclient : client.value < s.clients.size) (owner : OwnerNo) (kind : StateKind)
    {parent : Option StateNo} (hparent : parent ≠ some s.states.nextNo) (step : ReleaseStep)
    (ht : (s.withHeld client owner kind parent step).Traced) :
    Attached none (s.withHeld client owner kind parent step) := by
  have hnew := state_withHeld_new hclient owner kind hparent step
  have hold {no : StateNo} (hno : no.value < s.states.size) :=
    state_withHeld_old hclient owner kind parent step hno
  refine ⟨fun c key no hget hdisposed => ?_, fun no hno hlives => ?_, nofun⟩
  · rw [get?_withHeld hclient] at hget
    split at hget
    · rw [← Option.some.inj hget, hnew] at hdisposed
      cases hdisposed
    · rw [hold (hheld c key no hget).1] at hdisposed
      exact hs.live c key no hget hdisposed
  · rcases eq_or_lt_of_lt_withHeld hno with rfl | hbefore
    · refine ⟨client, ?_⟩
      rw [get?_withHeld hclient, hnew, if_pos ⟨rfl, rfl⟩]
    · rw [hold hbefore] at hlives ⊢
      obtain ⟨c, hget⟩ := hs.held no hbefore hlives
      refine ⟨c, ?_⟩
      rw [get?_withHeld hclient, if_neg]
      · exact hget
      -- its key is borne by no state from before
      · rintro ⟨_, hsame⟩
        refine Ledger.ne_nextNo hbefore (ht.key_ext hno (nextNo_lt_withHeld ..) ?_)
        rw [hnew, hold hbefore]
        exact hsame.symm

end Server

/-! ## How states end -/

/-- The states that the work ends are there, and so are the clients that it takes them from. -/
def Ending.Found (s : Server) : Ending → Prop
  | .step _ one => ∀ younger x, one = .endDerived younger x → s.IsOf younger x
  | .steps _ no _ left => no.value < s.states.size ∧
    ∀ younger x, .endDerived younger x ∈ left → s.IsOf younger x
  | .state _ no => no.value < s.states.size
  | .states _ holder order => ∀ no ∈ order, s.IsOf no holder
  | .client _ _ => True

/-- The state that has ended and is still to be taken from its client. -/
def Ending.last (answer : Except Error Unit) : Ending → Option StateNo
  | .steps _ no _ _ => match answer with
    | .ok _ => some no
    | .error _ => none
  | .state _ no => match answer with
    | .ok _ => some no
    | .error _ => none
  | _ => none

namespace Course

open Server

variable {ending : Ending} {s t : Server} {attempts : List Attempt} {answer : Except Error Unit}

/-- After the first thing that is owed, the rest is found in its place. -/
theorem found_rest {strict : Bool} {no : StateNo} {state : HeldState} {step : ReleaseStep}
    {rest : List ReleaseStep} (h : Course (.step state step) s attempts answer t)
    (hfound : (Ending.steps strict no state (step :: rest)).Found s) :
    (Ending.step state step).Found s ∧ (Ending.steps strict no state rest).Found t := by
  obtain ⟨hmade, hleft⟩ := hfound
  refine ⟨fun younger x hstep => hleft younger x (List.mem_cons.2 (.inl hstep.symm)),
    Nat.lt_of_lt_of_eq hmade h.states_size_eq.symm, fun younger x hmem => ?_⟩
  exact (hleft younger x (List.mem_cons_of_mem _ hmem)).chain h.chain_ending

/-- The work takes from their clients the states that it ends, and no others. -/
theorem attached (h : Course ending s attempts answer t) (ht : s.Traced) (hd : s.Derives)
    (hs : Attached Option.none s) (hfound : ending.Found s) : Attached (ending.last answer) t := by
  induction h with
  | forgotten s state file =>
    unfold Server.forgetOpen
    split
    · exact hs.congr (fun _ => rfl) rfl fun _ => ⟨rfl, rfl⟩
    · exact hs
  | unlocked => exact attached_update (.locked _ _) (by decide) hs
  | unlockFailed => exact hs
  | @derived s t attempts state no client h ih =>
    -- for the moment the state has ended and is still attached
    have hof := hfound no client rfl
    exact (ih ht hd hs hof.made).detach (h.traced ht) (hof.chain h.chain_ending) rfl
  | @derivedKept s t attempts e state no client h ih => exact ih ht hd hs (hfound no client rfl).made
  | notified => exact attached_update (.told _ _) (by decide) hs
  | refused => exact attached_update (.told _ _) (by decide) hs
  | finished s strict no state => exact hs.finish hfound.1
  | done h _ ih ihrest =>
    obtain ⟨hfirst, hrest⟩ := h.found_rest hfound
    exact ihrest (h.traced ht) (hd.course h trivial) (ih ht hd hs hfirst) hrest
  | failed h ih =>
    exact (ih ht hd hs (h.found_rest hfound).1).amendState _ fun _ => ⟨rfl, rfl⟩
  | dropped h _ ih ihrest =>
    obtain ⟨hfirst, hrest⟩ := h.found_rest hfound
    exact ihrest (h.traced ht) (hd.course h trivial) (ih ht hd hs hfirst) hrest
  | ended _ hdisposed =>
    refine ⟨fun client key other hget hended => ?_, hs.held, ?_⟩
    · cases hs.live client key other hget hended
    · rintro _ ⟨⟩
      exact hdisposed
  | state _ _ ih => exact ih ht hd hs ⟨hfound, fun younger x hmem => hd.isOf hmem⟩
  | none => exact hs
  | @next s t u strict client no rest attempts later answer h hrest ih ihrest =>
    have hof := hfound no List.mem_cons_self
    have hended := ih ht hd hs hof.made
    have hdetached := hended.detach (h.traced ht) (hof.chain h.chain_ending) rfl
    have hupdate : Update .detached t (t.amendClient client (·.detach (t.state no).id.key)) :=
      .client t client _ (.detached _ _)
    have htaken : Chain Effect.ending t (t.amendClient client (·.detach (t.state no).id.key)) :=
      .single (by decide) hupdate
    refine ihrest (traced_ending htaken (List.Subset.refl _) (h.traced ht))
      (derives_update hupdate (by decide) (hd.course h trivial)) hdetached fun other hmem => ?_
    exact (hfound other (List.mem_cons_of_mem _ hmem)).chain (h.chain_ending.trans htaken)
  | stopped _ ih => exact ih ht hd hs (hfound _ List.mem_cons_self).made
  | gone => exact hs
  | @client s t strict client order attempts hlives horder h ih =>
    exact attached_update (.client t client _ (.ended _)) (by decide)
      (ih ht hd hs fun no hmem => (horder.mem_iff.1 hmem).elim fun _ => ht.held.isOf)
  | kept _ horder _ ih =>
    exact ih ht hd hs fun no hmem => (horder.mem_iff.1 hmem).elim fun _ => ht.held.isOf

end Course

/-! ## Whatever happens -/

namespace Server

variable {s t : Server} {client : ClientNo}

/-- What is known of the opens, of what is derived and, as long as no counter wraps, of the tables
of the clients. -/
structure Anchored (s : Server) : Prop extends Established s where
  derives : s.Derives
  attached : s.StatesBounded → Attached none s

/-- The release of a state, as far as it gets, adds nothing to what is owed. -/
theorem Derives.releases {id : StateId} (hs : s.Derives) (h : s.Releases client id t) :
    t.Derives := by
  cases h with
  | unknown => exact hs
  | kept _ h => exact hs.course h trivial
  | released _ h =>
    exact derives_update (.client _ client _ (.detached _ _)) (by decide) (hs.course h trivial)

/-- A state that ends leaves its table with the release, and one that does not stays in it. -/
theorem Attached.releases {id : StateId} (hs : Attached none s) (ht : s.Traced) (hd : s.Derives)
    (h : s.Releases client id t) : Attached none t := by
  cases h with
  | unknown => exact hs
  | kept hget h => exact h.attached ht hd hs (ht.held _ _ _ hget).1
  | released hget h =>
    obtain ⟨hmade, hkey, _⟩ := ht.held _ _ _ hget
    exact (h.attached ht hd hs hmade).detach (h.traced ht)
      ((ht.held.isOf hget).chain h.chain_ending) ((h.state_key_eq hmade).trans hkey)

/-- Whatever is done for a client, states owe the end of none but those derived from them. -/
theorem Derives.serves (hs : s.Derives) (hheld : s.Held) (h : Serves client s t) : t.Derives := by
  have hall : ∀ e ∈ Effect.besideStates, e ∉ [Effect.stateMade, .stateAmended] := by decide
  refine h.preserve (fun e he _ _ hupdate => derives_update hupdate (hall e he))
    (fun _ no hs => hs.bump no) ?_ (fun _ h hs => hs.releases h) hs
  rintro _ no _ _ file hget _ rfl hs
  obtain ⟨hmade, hkey, hid⟩ := hheld _ _ _ hget
  refine hs.withHeld (lt_of_states_get? hget) _ _ ?_ nofun
  rintro _ ⟨⟩
  exact ⟨hmade, (congrArg _ hkey).trans hid⟩

/-- Whatever is done for a client, a state that has not ended stays attached. -/
theorem Attached.serves (hs : Attached none s) (hbefore : s.Traced) (hd : s.Derives)
    (h : Serves client s t) (hafter : t.Traced) : Attached none t := by
  have hall : ∀ e ∈ Effect.besideStates,
      e ∉ [Effect.stateMade, .stateAmended, .attached, .detached] := by decide
  refine h.preserve (fun e he _ _ hupdate => attached_update hupdate (hall e he))
    (fun _ no hs => hs.amendState no fun _ => ⟨rfl, rfl⟩) ?_
    (fun _ h hs => hs.releases hbefore hd h) hs
  rintro _ no _ _ file hget _ rfl hs
  have hne := Ledger.ne_nextNo (hbefore.held _ _ _ hget).1
  exact hs.withHeld hbefore.held (lt_of_states_get? hget) _ _ (fun h => hne (Option.some.inj h)) _
    hafter

theorem Derives.calledBack (hs : s.Derives) (client : ClientNo) (hasCallback : Bool) :
    (s.amendClient client ({ · with hasCallback })).Derives := by
  have hsize : (s.amendClient client ({ · with hasCallback })).clients.size = s.clients.size :=
    Ledger.size_modify ..
  intro no step hmem
  have hfrom := hs no step hmem
  cases step with
  | endDerived younger x =>
    obtain ⟨hparent, hmade, hkey, hx, hid⟩ := hfrom
    refine ⟨hparent, hmade, hkey, Nat.lt_of_lt_of_eq hx hsize.symm, ?_⟩
    rw [client_calledBack Client.id fun _ _ => rfl]
    exact hid
  | _ => trivial

/-- Whatever happens, the tables lead to the states that have not ended. -/
theorem keepsHappenings_anchored (P : Server → Action → Prop) : KeepsHappenings P Anchored where
  grounded hs := hs.grounded
  update e he _ _ h hs := by
    have hall : ∀ e ∈ Effect.administering ++ [.recorded, .faultsSet, .openForgotten],
        e ∉ [Effect.stateMade, .stateAmended] ∧
          e ∉ [Effect.stateMade, .stateAmended, .attached, .detached] := by decide
    exact ⟨(keepsHappenings_established P).update e he h hs.toEstablished,
      derives_update h (hall e he).1 hs.derives,
      fun hbound => attached_update h (hall e he).2 (hs.attached (.of_update h hbound))⟩
  client h hs := by
    refine ⟨(keepsHappenings_established P).client h hs.toEstablished, hs.derives.course h trivial,
      fun hbound => ?_⟩
    -- the bound on states only grows, so it held before as well
    have hbefore := StatesBounded.of_chain h.chain_ending hbound
    exact h.attached (hs.traced hbefore) hs.derives (hs.attached hbefore) trivial
  serves hclient h hs := by
    have hestablished := (keepsHappenings_established P).serves hclient h hs.toEstablished
    refine ⟨hestablished, hs.derives.serves hs.tracked.held h, fun hbound => ?_⟩
    have hbefore := StatesBounded.of_chain h.chain hbound
    exact (hs.attached hbefore).serves (hs.traced hbefore) hs.derives h (hestablished.traced hbound)
  opened {s client owner file access deny mode} hP hclient howner hcheck hnone hs := by
    have hmade : (s.withHeld client owner .share none (.forgetOpen file)).Derives :=
      hs.derives.withHeld hclient owner .share nofun nofun
    have hestablished := (keepsHappenings_established P).opened hP hclient howner hcheck hnone
      hs.toEstablished
    -- the open is made in two parts; attachment is decided by the first, which makes the state
    refine ⟨hestablished, hmade, fun hbound => ?_⟩
    have hbefore := StatesBounded.of_chain (chain_making ..) ⟨hbound.clients, hbound.states⟩
    have htraced : (s.withHeld client owner .share none (.forgetOpen file)).Traced :=
      ⟨tracked_withHeld hs.tracked hclient owner .share none _, hbound.clients, hbound.states⟩
    have hparent : (none : Option StateNo) ≠ some s.states.nextNo := nofun
    have hattached := (hs.attached hbefore).withHeld hs.tracked.held hclient owner .share hparent
      (.forgetOpen file) htraced
    exact hattached.congr (fun _ => rfl) rfl fun _ => ⟨rfl, rfl⟩
  observed {s} no label refusals hs := by
    have hupdate : Update .stateAmended s (s.amendState no (·.owe (.notify label refusals))) :=
      .stateAmended s no _ fun _ => ⟨rfl, rfl, rfl⟩
    refine ⟨(keepsHappenings_established P).observed no label refusals hs.toEstablished,
      hs.derives.amendState (fun _ => ⟨rfl, rfl, rfl⟩) fun step hmem => ?_, fun hbound =>
        (hs.attached (.of_update hupdate hbound)).amendState no fun _ => ⟨rfl, rfl⟩⟩
    -- a listener that only notifies ends no state
    rcases List.mem_append.1 hmem with hold | hnew
    · exact hs.derives no step hold
    · rw [List.mem_singleton.1 hnew]
      trivial
  calledBack client hasCallback hs :=
    ⟨(keepsHappenings_established P).calledBack client hasCallback hs.toEstablished,
      hs.derives.calledBack client hasCallback, fun hbound =>
        (hs.attached (.of_calledBack hbound)).congr
          (client_calledBack Client.states (fun _ _ => rfl) _ client hasCallback) rfl
          fun _ => ⟨rfl, rfl⟩⟩

theorem anchored_start (timers : Bool) (config : Config) (store : Recovery.Store)
    (wall : WallTime) (now : Nat) : (start timers config store wall now).Anchored := by
  have hestablished := established_start timers config store wall now
  obtain ⟨sweepDue, graceDue, hstart⟩ := start_eq timers config store wall now
  rw [hstart] at hestablished ⊢
  refine ⟨hestablished, fun no step hmem => absurd (lt_of_mem_owed hmem) (Nat.not_lt_zero _),
    fun _ => ⟨fun client key no hget => ?_, fun no hno => absurd hno (Nat.not_lt_zero _), nofun⟩⟩
  exact absurd (lt_of_states_get? hget) (Nat.not_lt_zero _)

end Server

end Leasehold

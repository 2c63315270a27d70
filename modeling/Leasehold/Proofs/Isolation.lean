import Leasehold.Proofs.Belonging

/-!
# Proofs.Isolation — what is done for one client leaves the others alone

Requests for a client, its removal and its eviction write to tables that all clients
share. Since every reference stays within one client (`Server.Belongs`), each of them
spares the records, opens and locks of all clients with other identifiers
(`Server.Spares`), however far it gets and whatever calls fail on the way.

* `Course.spares` — the end of a client's states spares the other clients;
* `Server.Serves.spares`, `Server.spares_withOpen` — and so does all that is done for it;
* `Server.clients_isolated` — after every run in which opens are asked for by owners of
  their clients, what is carried out for a client, and a sweep, leave every other client
  that is not evicted untouched;
* `Server.owner_of_other_client_moved` — which fails if a client opens a file under the
  record of an owner of another one.
-/

namespace Leasehold

open Request

/-! ## Parts of shared tables -/

namespace OpenTable

variable {t t' : OpenTable} {file : FileId} {id client : ClientId}

/-- The opens that a client has of a file. -/
def opensOf (t : OpenTable) (id : ClientId) (file : FileId) : List OpenRecord :=
  (t.opens file).filter (·.clientId == id)

/-- The opens that a client has of other files stay when those of a file are set. -/
theorem opensOf_setOpens (t : OpenTable) (file : FileId) (rs : List OpenRecord) (other : FileId) :
    (t.setOpens file rs).opensOf id other =
      if file = other then rs.filter (·.clientId == id) else t.opensOf id other := by
  unfold opensOf
  rw [opens_setOpens]
  split
  · rfl
  · rfl

/-- Whoever sets the opens of a file leaves those of a client alone if he sets them to what they are. -/
theorem opensOf_setOpens_same {rs : List OpenRecord}
    (h : rs.filter (·.clientId == id) = t.opensOf id file) (other : FileId) :
    (t.setOpens file rs).opensOf id other = t.opensOf id other := by
  rw [opensOf_setOpens]
  split
  · rename_i hfile
    rw [h, hfile]
  · rfl

/-- An open that is widened is one of the client that asks for it. -/
theorem opensOf_widen (hne : client ≠ id) (owner : Bytes) (mode : ShareMode) (other : FileId) :
    (t.widen file client owner mode).opensOf id other = t.opensOf id other := by
  refine opensOf_setOpens_same (filter_amendFirst fun r hr => ?_) other
  have hmine := List.find?_some hr
  have hclient := ((r.isOf_iff client owner).1 hmine).1
  have hother : (r.clientId == id) = false := beq_eq_false_iff_ne.2 (hclient ▸ hne)
  exact ⟨hother, hother⟩

/-- An open that is downgraded makes no difference to the opens of another client. -/
theorem opensOf_downgrade (hne : client ≠ id) {key : StateKey} {mode : ShareMode} {state : StateNo}
    (h : t.downgrade file client key mode = .ok (state, t')) (other : FileId) :
    t'.opensOf id other = t.opensOf id other := by
  obtain ⟨_, _, _, _, rfl⟩ := downgrade_eq_ok h
  refine opensOf_setOpens_same (filter_amendFirst fun r hr => ?_) other
  have hmine := List.find?_some hr
  have hclient := ((r.isState_iff client key).1 hmine).1
  have hother : (r.clientId == id) = false := beq_eq_false_iff_ne.2 (hclient ▸ hne)
  exact ⟨hother, hother⟩

/-- A downgrade counts on the state of an open of the client. -/
theorem state_of_downgrade {key : StateKey} {mode : ShareMode} {state : StateNo}
    (h : t.downgrade file client key mode = .ok (state, t')) :
    ∃ r ∈ t.opens file, r.clientId = client ∧ r.state = state := by
  obtain ⟨r, hfound, -, hstate, -⟩ := downgrade_eq_ok h
  have hmine := List.find?_some hfound
  have hclient := ((r.isState_iff client key).1 hmine).1
  exact ⟨r, List.mem_of_find?_eq_some hfound, hclient, hstate⟩

/-- A new open of one client is none of another. -/
theorem opensOf_add {r : OpenRecord} (hne : r.clientId ≠ id) (other : FileId) :
    (t.add file r).opensOf id other = t.opensOf id other := by
  refine opensOf_setOpens_same ?_ other
  have hother : (r.clientId == id) = false := beq_eq_false_iff_ne.2 hne
  rw [List.filter_append, List.filter_cons, hother]
  exact List.append_nil _

/-- Whose key is somebody else's is somebody else's open. -/
theorem opensOf_remove? {key : StateKey} (hkey : ∀ r ∈ t.opens file, r.key = key → r.clientId ≠ id)
    (h : t.remove? file key = some t') (other : FileId) :
    t'.opensOf id other = t.opensOf id other := by
  -- only the first open with the key goes, and it is somebody else's
  have herase (rs : List OpenRecord) (hrs : ∀ r ∈ rs, r.key = key → r.clientId ≠ id) :
      (rs.eraseP (·.key == key)).filter (·.clientId == id) = rs.filter (·.clientId == id) := by
    induction rs with
    | nil => rfl
    | cons r rest ih =>
      have hrest := ih fun r hr => hrs r (List.mem_cons_of_mem _ hr)
      by_cases hr : r.key = key
      · have hother : (r.clientId == id) = false :=
          beq_eq_false_iff_ne.2 (hrs r List.mem_cons_self hr)
        rw [List.eraseP_cons_of_pos (by rw [hr]; exact beq_self_eq_true key), List.filter_cons,
          hother]
        rfl
      · rw [List.eraseP_cons_of_neg (by rwa [beq_iff_eq]), List.filter_cons, List.filter_cons,
          hrest]
  rw [remove?_eq_some h]
  exact opensOf_setOpens_same (herase _ hkey) other

end OpenTable

namespace LockTable

variable {t t' : LockTable} {file : FileId} {id : ClientId} {l : RangeLock}

/-- The locks that a client has on a file. -/
def locksOf (t : LockTable) (id : ClientId) (file : FileId) : List RangeLock :=
  (t.locks file).filter (·.owner.client == id)

theorem locksOf_setLocks_same {ls : List RangeLock}
    (h : ls.filter (·.owner.client == id) = t.locksOf id file) (other : FileId) :
    (t.setLocks file ls).locksOf id other = t.locksOf id other := by
  unfold locksOf
  rw [locks_setLocks]
  split
  · rename_i hfile
    rw [h, hfile]
    rfl
  · rfl

/-- A range is cut out of the locks of its owner alone. -/
theorem filter_carve (hne : l.owner.client ≠ id) (held : List RangeLock) :
    (RangeLock.carve held l).filter (·.owner.client == id) =
      held.filter (·.owner.client == id) := by
  rw [RangeLock.carve_eq_flatMap]
  -- lock by lock, as the ranges are cut
  induction held with
  | nil => rfl
  | cons first rest ih =>
    rw [List.flatMap_cons, List.filter_append, ih, List.filter_cons]
    unfold RangeLock.leftOf
    split
    -- what is left of a lock of the owner is the owner's, too
    · rename_i hsame
      have howner : first.owner = l.owner := beq_iff_eq.1 hsame
      have hnone : (first.subtract l).filter (·.owner.client == id) = [] := by
        refine List.filter_eq_nil_iff.2 fun part hpart => ?_
        rw [beq_iff_eq, (RangeLock.owner_kind_of_mem_subtract hpart).1, howner]
        exact hne
      have hother : (first.owner.client == id) = false := by
        rw [howner]
        exact beq_eq_false_iff_ne.2 hne
      rw [hnone, hother]
      rfl
    · rw [List.filter_cons]
      split
      · rfl
      · rfl

/-- A lock that is granted cuts into the locks of its owner, and is added as one more of them. -/
theorem locksOf_lock (hne : l.owner.client ≠ id) (h : t.lock file l = .ok t') (other : FileId) :
    t'.locksOf id other = t.locksOf id other := by
  unfold lock at h
  split at h
  · cases h
  · injection h with h
    rw [← h]
    refine locksOf_setLocks_same ?_ other
    have hother : (l.owner.client == id) = false := beq_eq_false_iff_ne.2 hne
    rw [List.filter_append, filter_carve hne, List.filter_cons, hother]
    exact List.append_nil _

/-- A range that is given back is cut out of the locks of its owner, if there are any. -/
theorem locksOf_unlockIfHeld (hne : l.owner.client ≠ id) (h : t.unlockIfHeld file l = .ok t')
    (other : FileId) : t'.locksOf id other = t.locksOf id other := by
  unfold unlockIfHeld unlock at h
  by_cases hheld : (t.locks file).any (fun held => held.sameOwner l && held.overlaps l) = true
  · rw [if_pos hheld] at h
    injection h with h
    rw [← h]
    exact locksOf_setLocks_same (filter_carve hne _) other
  · rw [if_neg hheld] at h
    injection h with h
    rw [h]

end LockTable

namespace Server

variable {s t u : Server} {id : ClientId} {client : ClientNo}

/-! ## What is spared -/

/-- The records, opens and locks of all clients with an identifier stay as they are. -/
structure Spares (id : ClientId) (s t : Server) : Prop where
  clients_size : s.clients.size ≤ t.clients.size
  states_size : s.states.size ≤ t.states.size
  owners_size : s.owners.size ≤ t.owners.size
  sessions_size : s.sessions.size ≤ t.sessions.size
  client : ∀ no : ClientNo, no.value < s.clients.size → (s.client no).id = id →
    t.client no = s.client no
  state : ∀ no : StateNo, no.value < s.states.size → (s.state no).id.key.client = id →
    t.state no = s.state no
  owner : ∀ no : OwnerNo, no.value < s.owners.size → (s.owner no).client = id →
    t.owner no = s.owner no
  session : ∀ no : SessionNo, no.value < s.sessions.size → (s.session no).id.client = id →
    t.session no = s.session no
  opens : ∀ file, t.opens.opensOf id file = s.opens.opensOf id file
  locks : ∀ file, t.locks.locksOf id file = s.locks.locksOf id file

theorem Spares.refl (id : ClientId) (s : Server) : s.Spares id s :=
  ⟨Nat.le_refl _, Nat.le_refl _, Nat.le_refl _, Nat.le_refl _, fun _ _ _ => rfl, fun _ _ _ => rfl,
    fun _ _ _ => rfl, fun _ _ _ => rfl, fun _ => rfl, fun _ => rfl⟩

/-- Things that spare somebody do so one after the other, since his records keep what they are found
by. -/
theorem Spares.trans (h : s.Spares id t) (h' : t.Spares id u) : s.Spares id u where
  clients_size := Nat.le_trans h.clients_size h'.clients_size
  states_size := Nat.le_trans h.states_size h'.states_size
  owners_size := Nat.le_trans h.owners_size h'.owners_size
  sessions_size := Nat.le_trans h.sessions_size h'.sessions_size
  client no hno hid := by
    have hsame := h.client no hno hid
    rw [← hsame]
    -- he is still known by the identifier he had before
    exact h'.client no (Nat.lt_of_lt_of_le hno h.clients_size) (hsame ▸ hid)
  state no hno hid := by
    have hsame := h.state no hno hid
    rw [← hsame]
    exact h'.state no (Nat.lt_of_lt_of_le hno h.states_size) (hsame ▸ hid)
  owner no hno hid := by
    have hsame := h.owner no hno hid
    rw [← hsame]
    exact h'.owner no (Nat.lt_of_lt_of_le hno h.owners_size) (hsame ▸ hid)
  session no hno hid := by
    have hsame := h.session no hno hid
    rw [← hsame]
    exact h'.session no (Nat.lt_of_lt_of_le hno h.sessions_size) (hsame ▸ hid)
  opens file := (h'.opens file).trans (h.opens file)
  locks file := (h'.locks file).trans (h.locks file)

/-! ## Writing to records of others -/

/-- A record of another client may change in any way. -/
theorem spares_amendClient (hne : (s.client client).id ≠ id) (f : Client → Client) :
    s.Spares id (s.amendClient client f) := by
  have hclient (no : ClientNo) (_ : no.value < s.clients.size) (hid : (s.client no).id = id) :
      (s.amendClient client f).client no = s.client no := by
    rw [client_amendClient, if_neg]
    rintro ⟨rfl, _⟩
    exact hne hid
  exact { Spares.refl id s with
    clients_size := Nat.le_of_eq (Ledger.size_modify ..).symm
    client := hclient }

theorem spares_amendState {no : StateNo} (hne : (s.state no).id.key.client ≠ id)
    (f : HeldState → HeldState) : s.Spares id (s.amendState no f) := by
  have hstate (other : StateNo) (_ : other.value < s.states.size)
      (hid : (s.state other).id.key.client = id) :
      (s.amendState no f).state other = s.state other := by
    rw [state_amendState, if_neg]
    rintro ⟨rfl, _⟩
    exact hne hid
  exact { Spares.refl id s with
    states_size := Nat.le_of_eq (Ledger.size_modify ..).symm
    state := hstate }

/-- An owner may change if it is of another client, whoever has states by it. -/
theorem spares_amendOwner {no : OwnerNo} (hne : (s.owner no).client ≠ id) (f : Owner → Owner) :
    s.Spares id (s.amendOwner no f) := by
  have howner (other : OwnerNo) (_ : other.value < s.owners.size)
      (hid : (s.owner other).client = id) : (s.amendOwner no f).owner other = s.owner other := by
    rw [owner_amendOwner, if_neg]
    rintro ⟨rfl, _⟩
    exact hne hid
  exact { Spares.refl id s with
    owners_size := Nat.le_of_eq (Ledger.size_modify ..).symm
    owner := howner }

theorem spares_amendSession {no : SessionNo} (hne : (s.session no).id.client ≠ id)
    (f : Session → Session) : s.Spares id (s.amendSession no f) := by
  have hsession (other : SessionNo) (_ : other.value < s.sessions.size)
      (hid : (s.session other).id.client = id) :
      (s.amendSession no f).session other = s.session other := by
    rw [session_amendSession, if_neg]
    rintro ⟨rfl, _⟩
    exact hne hid
  exact { Spares.refl id s with
    sessions_size := Nat.le_of_eq (Ledger.size_modify ..).symm
    session := hsession }

theorem spares_setOpens {opens : OpenTable}
    (h : ∀ file, opens.opensOf id file = s.opens.opensOf id file) : s.Spares id { s with opens } :=
  { Spares.refl id s with opens := h }

theorem spares_setLocks {locks : LockTable}
    (h : ∀ file, locks.locksOf id file = s.locks.locksOf id file) : s.Spares id { s with locks } :=
  { Spares.refl id s with locks := h }

/-- The table of registered clients is nobody's, and neither is the store. -/
theorem spares_without (s : Server) (client : ClientNo) (store : Recovery.Store) :
    s.Spares id (s.without client store) := by
  obtain ⟨registered, hwithout⟩ := s.without_eq client store
  rw [hwithout]
  exact { Spares.refl id s with }

/-- An open is forgotten by its key, under which there is none of the client. -/
theorem spares_forgetOpen {file : FileId} {key : StateKey}
    (hkey : ∀ r ∈ s.opens.opens file, r.key = key → r.clientId ≠ id) :
    s.Spares id (s.forgetOpen file key) := by
  unfold forgetOpen
  split
  · rename_i opens hremoved
    exact spares_setOpens (OpenTable.opensOf_remove? hkey hremoved)
  · exact .refl id s

/-- A new session takes a number that nobody had before. -/
theorem spares_withSession (hne : (s.client client).id ≠ id) (attributes : ChannelAttributes) :
    s.Spares id (s.withSession client attributes) := by
  have hsize := s.sessions_size_withSession client attributes
  have hclient (no : ClientNo) (_ : no.value < s.clients.size) (hid : (s.client no).id = id) :
      (s.withSession client attributes).client no = s.client no := by
    rw [client_withSession, if_neg]
    rintro ⟨rfl, _⟩
    exact hne hid
  have hsession (no : SessionNo) (hno : no.value < s.sessions.size)
      (_ : (s.session no).id.client = id) :
      (s.withSession client attributes).session no = s.session no := by
    rw [session_withSession, if_neg (Ledger.ne_nextNo hno)]
  exact { Spares.refl id s with
    clients_size := Nat.le_of_eq (Ledger.size_modify ..).symm
    sessions_size := Nat.le_of_lt (Nat.lt_of_lt_of_eq (Nat.lt_succ_self _) hsize.symm)
    client := hclient
    session := hsession }

theorem spares_withOwner (hne : (s.client client).id ≠ id) (name : Bytes) (seqid : UInt32) :
    s.Spares id (s.withOwner client name seqid) := by
  have hsize := s.owners_size_withOwner client name seqid
  have hclient (no : ClientNo) (_ : no.value < s.clients.size) (hid : (s.client no).id = id) :
      (s.withOwner client name seqid).client no = s.client no := by
    rw [client_withOwner, if_neg]
    rintro ⟨rfl, _⟩
    exact hne hid
  have howner (no : OwnerNo) (hno : no.value < s.owners.size) (_ : (s.owner no).client = id) :
      (s.withOwner client name seqid).owner no = s.owner no := by
    rw [owner_withOwner, if_neg (Ledger.ne_nextNo hno)]
  exact { Spares.refl id s with
    clients_size := Nat.le_of_eq (Ledger.size_modify ..).symm
    owners_size := Nat.le_of_lt (Nat.lt_of_lt_of_eq (Nat.lt_succ_self _) hsize.symm)
    client := hclient
    owner := howner }

/-- The state from which a new one is derived is one of the client, too. -/
theorem spares_withHeld (hclient : client.value < s.clients.size) (hne : (s.client client).id ≠ id)
    (owner : OwnerNo) (kind : StateKind) {parent : Option StateNo}
    (hparent : ∀ no, parent = some no → (s.state no).id.key.client ≠ id) (step : ReleaseStep) :
    s.Spares id (s.withHeld client owner kind parent step) := by
  obtain ⟨howners, hopens, hlocks, _⟩ := s.rest_withHeld client owner kind parent step
  have hsessions : (s.withHeld client owner kind parent step).sessions = s.sessions := by
    obtain ⟨clients, states, hmade⟩ := s.withState_eq client owner kind parent
    unfold withHeld
    rw [hmade]
    cases parent with
    | none => rfl
    | some no => rfl
  refine ⟨Nat.le_of_eq (s.clients_size_withHeld client owner kind parent step).symm, ?_,
    Nat.le_of_eq (congrArg Ledger.size howners.symm), Nat.le_of_eq (congrArg Ledger.size hsessions.symm),
    fun no _ hid => ?_, fun no hno hid => ?_, fun no _ _ => congrArg (·.get no) howners,
    fun no _ _ => congrArg (·.get no) hsessions, fun file => ?_, fun file => ?_⟩
  · rw [states_size_withHeld]
    exact Nat.le_succ _
  · rw [client_withHeld, client_withState hclient, if_neg]
    rintro rfl
    exact hne hid
  -- the state that it is derived from owes more than before, and is the other client's
  · rw [state_withHeld_old hclient owner kind parent step hno,
      if_neg fun h => hparent no h hid, List.append_nil]
  · rw [hopens]
  · rw [hlocks]

/-- An open is added together with its state; its owner's record is not touched, whosever it is. -/
theorem spares_withOpen (hclient : client.value < s.clients.size) (hne : (s.client client).id ≠ id)
    (owner : OwnerNo) (file : FileId) (mode : ShareMode) :
    s.Spares id (s.withOpen client owner file mode) := by
  have hopens := (s.rest_withHeld client owner .share none (.forgetOpen file)).2.1
  have hparent (no : StateNo) (h : (none : Option StateNo) = some no) :
      (s.state no).id.key.client ≠ id := nomatch h
  refine (spares_withHeld hclient hne owner .share hparent (.forgetOpen file)).trans ?_
  unfold withOpen
  refine spares_setOpens fun other => ?_
  rw [hopens]
  exact OpenTable.opensOf_add hne other

end Server

/-! ## The end of states and clients -/

/-- The work is on states of clients with an identifier. -/
def Ending.Of (s : Server) (id : ClientId) : Ending → Prop
  | .step st one => st.id.key.client = id ∧ one.Of s id
  | .steps _ no st left => no.value < s.states.size ∧ (s.state no).id.key.client = id ∧
    st.id.key.client = id ∧ ∀ one ∈ left, one.Of s id
  | .state _ no => no.value < s.states.size ∧ (s.state no).id.key.client = id
  | .states _ holder order => holder.value < s.clients.size ∧ (s.client holder).id = id ∧
    ∀ no ∈ order, no.value < s.states.size ∧ (s.state no).id.key.client = id
  | .client _ who => who.value < s.clients.size ∧ (s.client who).id = id

/-- What work is on keeps its identifiers. -/
theorem Ending.Of.update {e : Effect} {s t : Server} {id : ClientId} {ending : Ending}
    (hof : ending.Of s id) (h : Server.Update e s t) : ending.Of t id := by
  have hstate {no : StateNo} (hno : no.value < s.states.size ∧ (s.state no).id.key.client = id) :
      no.value < t.states.size ∧ (t.state no).id.key.client = id :=
    ⟨Nat.lt_of_lt_of_le hno.1 h.states_size_le, (congrArg _ (h.state_key_eq hno.1)).trans hno.2⟩
  have hclient {no : ClientNo} (hno : no.value < s.clients.size ∧ (s.client no).id = id) :
      no.value < t.clients.size ∧ (t.client no).id = id :=
    ⟨Nat.lt_of_lt_of_le hno.1 h.clients_size_le, (h.client_id_eq hno.1).trans hno.2⟩
  cases ending with
  | step => exact ⟨hof.1, h.step_of hof.2⟩
  | steps =>
    obtain ⟨hno, hid, hst, hleft⟩ := hof
    exact ⟨(hstate ⟨hno, hid⟩).1, (hstate ⟨hno, hid⟩).2, hst, fun one hmem => h.step_of (hleft one hmem)⟩
  | state => exact hstate hof
  | states =>
    obtain ⟨hholder, hid, horder⟩ := hof
    exact ⟨(hclient ⟨hholder, hid⟩).1, (hclient ⟨hholder, hid⟩).2, fun no hmem => hstate (horder no hmem)⟩
  | client => exact hclient hof

theorem Ending.Of.chain {E : List Effect} {s t : Server} {id : ClientId} {ending : Ending}
    (hof : ending.Of s id) (h : Chain E s t) : ending.Of t id :=
  h.preserve (I := fun s => ending.Of s id) (fun _ hupdate ha => ha.update hupdate) hof

/-- What is owed first and what is owed later are of the same client. -/
theorem Ending.Of.tail {s : Server} {id : ClientId} {strict : Bool} {no : StateNo} {st : HeldState}
    {one : ReleaseStep} {rest : List ReleaseStep} (h : (Ending.steps strict no st (one :: rest)).Of s id) :
    (Ending.step st one).Of s id ∧ (Ending.steps strict no st rest).Of s id := by
  obtain ⟨hno, hid, hst, hleft⟩ := h
  exact ⟨⟨hst, hleft one List.mem_cons_self⟩, hno, hid, hst,
    fun one hmem => hleft one (List.mem_cons_of_mem _ hmem)⟩

/-- What a client holds is of the client. -/
theorem Server.Belongs.inOrder_of {s : Server} {id : ClientId} {client : ClientNo}
    {order : List StateNo} (hs : s.Belongs) (horder : s.EndsInOrder client order) {strict : Bool}
    (hclient : client.value < s.clients.size) (hid : (s.client client).id = id) :
    (Ending.states strict client order).Of s id := by
  refine ⟨hclient, hid, fun no hmem => ?_⟩
  obtain ⟨key, hget⟩ := horder.mem_iff.1 hmem
  obtain ⟨hno, hkey, hsame⟩ := hs.held client key no hget
  exact ⟨hno, (congrArg _ hkey).trans (hsame.trans hid)⟩

namespace Course

open Server

variable {ending : Ending} {s t : Server} {attempts : List Attempt} {answer : Except Error Unit}

/-- The end of states and clients spares everybody with another identifier, wherever it stops. -/
theorem spares {x id : ClientId} (h : Course ending s attempts answer t) (hs : s.Belongs)
    (hof : ending.Of s x) (hne : x ≠ id) : s.Spares id t := by
  induction h with
  | forgotten s st file =>
    -- the open bears the key of the state that ends
    refine spares_forgetOpen fun r hmem hkey hid => hne ?_
    obtain ⟨_, _, hclient⟩ := hs.opens file r.core (List.mem_map_of_mem hmem)
    rw [← hof.1, ← hkey, ← hid]
    exact hclient
  | unlocked st h => exact spares_setLocks (LockTable.locksOf_unlockIfHeld (fun hid => hne (hof.2.symm.trans hid)) h)
  | unlockFailed s => exact .refl id s
  | derived st client h ih =>
    obtain ⟨_, hmade, hkey, hclient, hid⟩ := hof
    refine (ih hs ⟨hmade, hkey⟩).trans (spares_amendClient ?_ _)
    rw [h.chain_ending.client_id_eq hclient, hid]
    exact hne
  | derivedKept st client h ih => exact ih hs ⟨hof.2.1, hof.2.2.1⟩
  | notified s => exact { Spares.refl id s with }
  | refused s => exact { Spares.refl id s with }
  | finished s _ no => exact spares_amendState (fun hid => hne (hof.2.1.symm.trans hid)) _
  | done h _ ih ihrest =>
    exact (ih hs hof.tail.1).trans
      (ihrest (hs.course h trivial trivial) (hof.tail.2.chain h.chain_ending))
  | failed h ih =>
    refine (ih hs hof.tail.1).trans (spares_amendState ?_ _)
    rw [h.state_key_eq hof.1, hof.2.1]
    exact hne
  | dropped h _ ih ihrest =>
    exact (ih hs hof.tail.1).trans
      (ihrest (hs.course h trivial trivial) (hof.tail.2.chain h.chain_ending))
  | ended => exact .refl id _
  | @state _ _ _ no _ _ _ _ ih =>
    -- what the state owes is of its client, and so of nobody else
    refine ih hs ⟨hof.1, hof.2, hof.2, fun one hmem => ?_⟩
    rw [← hof.2]
    exact hs.owed no one hmem
  | none s => exact .refl id s
  | @next s t u strict client no rest attempts later answer h hrest ih ihrest =>
    -- the state ends, leaves its client's table, and then the rest of them end
    obtain ⟨hclient, hid, horder⟩ := hof
    have hupdate : Update .detached t (t.amendClient client (·.detach (t.state no).id.key)) :=
      .client t client _ (.detached _ _)
    have hdetached : t.Spares id (t.amendClient client (·.detach (t.state no).id.key)) := by
      refine spares_amendClient ?_ _
      rw [h.chain_ending.client_id_eq hclient, hid]
      exact hne
    have hrest' : (Ending.states strict client rest).Of s x :=
      ⟨hclient, hid, fun other hmem => horder other (List.mem_cons_of_mem _ hmem)⟩
    refine ((ih hs (horder no List.mem_cons_self)).trans hdetached).trans (ihrest ?_ ?_)
    · exact belongs_update hupdate (by decide) (hs.course h trivial trivial)
    · exact (hrest'.chain h.chain_ending).update hupdate
  | stopped _ ih => exact ih hs (hof.2.2 _ List.mem_cons_self)
  | gone => exact .refl id _
  | client hlives horder h ih =>
    refine (ih hs (hs.inOrder_of horder hof.1 hof.2)).trans (spares_amendClient ?_ _)
    rw [h.chain_ending.client_id_eq hof.1, hof.2]
    exact hne
  | kept hlives horder h ih =>
    exact ih hs (hs.inOrder_of horder hof.1 hof.2)

end Course

namespace Server

variable {s t : Server} {id : ClientId} {client : ClientNo}

/-! ## What is done for a client -/

/-- A state that a client has attached is of nobody else. -/
theorem Belongs.held_ne (hs : s.Belongs) (hne : (s.client client).id ≠ id) {key : StateKey}
    {no : StateNo} (hget : (s.client client).states.get? key = some no) :
    (s.state no).id.key.client ≠ id := by
  obtain ⟨_, hkey, hid⟩ := hs.held client key no hget
  rw [hkey, hid]
  exact hne

/-- The state of an open of the client is of nobody else. -/
theorem Belongs.open_ne (hs : s.Belongs) (hne : (s.client client).id ≠ id) {file : FileId}
    {r : OpenRecord} (hmem : r ∈ s.opens.opens file) (hmine : r.clientId = (s.client client).id) :
    (s.state r.state).id.key.client ≠ id := by
  obtain ⟨_, hkey, hclient⟩ := hs.opens file r.core (List.mem_map_of_mem hmem)
  have hkey : (s.state r.state).id.key = r.key := hkey
  have hclient : r.key.client = r.clientId := hclient
  rw [hkey, hclient, hmine]
  exact hne

/-- A state that is released spares everybody else, whether or not it ends. -/
theorem Releases.spares {rid : StateId} (hs : s.Belongs) (hne : (s.client client).id ≠ id)
    (h : s.Releases client rid t) : s.Spares id t := by
  cases h with
  | unknown => exact .refl id s
  | kept hget h => exact h.spares hs ⟨(hs.held _ _ _ hget).1, rfl⟩ (hs.held_ne hne hget)
  | released hget h =>
    refine (h.spares hs ⟨(hs.held _ _ _ hget).1, rfl⟩ (hs.held_ne hne hget)).trans
      (spares_amendClient ?_ _)
    rw [h.chain_ending.client_id_eq (lt_of_states_get? hget)]
    exact hne

/-- Each of the things that are done for a client spares everybody else. -/
theorem Serves.spares (hs : s.Belongs) (hclient : client.value < s.clients.size)
    (hne : (s.client client).id ≠ id) (h : Serves client s t) : s.Spares id t := by
  cases h with
  | amended f => exact spares_amendClient hne f
  | named seqid => exact spares_withOwner hne _ seqid
  | unnamed => exact spares_amendClient hne _
  | accepted hget =>
    refine spares_amendOwner ?_ _
    -- the owner that takes a number is the one of a state that the client has attached
    rw [(hs.states _ (hs.held _ _ _ hget).1).2]
    exact hs.held_ne hne hget
  | sessionMade attributes => exact spares_withSession hne attributes
  | sessionUsed f _ hget =>
    -- a session is used by way of the client's own table
    obtain ⟨_, hid, hmine⟩ := hs.routed.sessions client hclient _ _ hget
    refine spares_amendSession ?_ f
    rw [hid, hmine]
    exact hne
  | bumped hget => exact spares_amendState (hs.held_ne hne hget) _
  | widened hopen =>
    have hmine := List.find?_some hopen
    unfold OpenRecord.isOf at hmine
    rw [Bool.and_eq_true, beq_iff_eq] at hmine
    refine (spares_setOpens (OpenTable.opensOf_widen hne _ _)).trans (spares_amendState ?_ _)
    exact hs.open_ne hne (List.mem_of_find?_eq_some hopen) hmine.1
  | lowered h =>
    obtain ⟨r, hmem, hmine, rfl⟩ := OpenTable.state_of_downgrade h
    refine (spares_setOpens (OpenTable.opensOf_downgrade hne h)).trans (spares_amendState ?_ _)
    exact hs.open_ne hne hmem hmine
  | derived file hget =>
    refine spares_withHeld hclient hne _ _ ?_ _
    rintro _ ⟨⟩
    exact hs.held_ne hne hget
  | locked howner h => exact spares_setLocks (LockTable.locksOf_lock (howner ▸ hne) h)
  | unlocked howner h => exact spares_setLocks (LockTable.locksOf_unlockIfHeld (howner ▸ hne) h)
  | released h => exact h.spares hs hne

theorem Serving.spares (hs : s.Belongs) (hclient : client.value < s.clients.size)
    (hne : (s.client client).id ≠ id) (h : Serving client s t) : s.Spares id t := by
  -- the induction carries all that the next thing needs to spare anybody
  have hkept : s.Spares id t ∧ t.Belongs ∧ client.value < t.clients.size ∧
      (t.client client).id ≠ id := by
    induction h with
    | refl => exact ⟨.refl id s, hs, hclient, hne⟩
    | tail _ hlast ih =>
      obtain ⟨hspares, hbelongs, hmade, hother⟩ := ih
      refine ⟨hspares.trans (hlast.spares hbelongs hmade hother), hbelongs.serves hlast,
        Nat.lt_of_lt_of_le hmade hlast.chain.clients_size_le, ?_⟩
      rw [hlast.chain.client_id_eq hmade]
      exact hother
  exact hkept.1

/-! ## Removals and sweeps -/

/-- A removal spares everybody else, however far it gets. -/
theorem Removes.spares {rid : ClientId} {attempts : List Attempt} {answer : Except Error Unit}
    (hs : s.Belongs) (hget : s.registered.get? rid = some client) (hne : (s.client client).id ≠ id)
    (h : s.Removes rid attempts answer t) : s.Spares id t := by
  have hclient := (hs.routed.registered rid client hget).1
  cases h with
  | refused => exact .refl id s
  | unknown => exact .refl id s
  | kept _ hget' h =>
    cases hget.symm.trans hget'
    exact h.spares hs ⟨hclient, rfl⟩ hne
  | removed _ hget' h =>
    cases hget.symm.trans hget'
    exact (h.spares hs ⟨hclient, rfl⟩ hne).trans (spares_without ..)
  | unforgotten _ hget' h =>
    cases hget.symm.trans hget'
    exact (h.spares hs ⟨hclient, rfl⟩ hne).trans (spares_without ..)

/-- Those who are evicted one after the other spare everybody else. -/
theorem Evicts.spares {clients : List ClientNo} (hs : s.Belongs)
    (hclients : ∀ no ∈ clients, no.value < s.clients.size ∧ (s.client no).id ≠ id)
    (h : Evicts clients s t) : s.Spares id t := by
  induction h with
  | nil => exact .refl id _
  | @cons client rest s t u attempts hcourse store hrest ih =>
    obtain ⟨hclient, hne⟩ := hclients client List.mem_cons_self
    obtain ⟨registered, hwithout⟩ := t.without_eq client store
    have hleft : (t.without client store).Belongs :=
      keepsHappenings_belongs.endings.without store (hs.course hcourse trivial trivial)
    refine ((hcourse.spares hs ⟨hclient, rfl⟩ hne).trans (spares_without ..)).trans
      (ih hleft fun no hmem => ?_)
    -- those who are still to be evicted keep their identifiers
    obtain ⟨hno, hother⟩ := hclients no (List.mem_cons_of_mem _ hmem)
    rw [hwithout]
    refine ⟨Nat.lt_of_lt_of_le hno hcourse.chain_ending.clients_size_le, ?_⟩
    show (t.client no).id ≠ id
    rw [hcourse.chain_ending.client_id_eq hno]
    exact hother

/-- A sweep spares everybody whose lease has not ended. -/
theorem Sweeps.spares (hs : s.Belongs) (hothers : ∀ rid no, s.registered.get? rid = some no →
    s.leaseValid no = false → (s.client no).id ≠ id) (h : s.Sweeps t) : s.Spares id t := by
  cases h with
  | idle => exact .refl id s
  | swept _ horder h =>
    refine h.spares hs fun no hmem => ?_
    -- whom the sweep evicts is registered, and his lease has ended
    obtain ⟨hvalue, hexpired⟩ := List.mem_filter.1 (horder.mem_iff.1 hmem)
    obtain ⟨rid, hget⟩ := Table.mem_values_iff.1 hvalue
    rw [Bool.not_eq_true'] at hexpired
    exact ⟨(hs.routed.registered rid no hget).1, hothers rid no hget hexpired⟩

end Server

/-- The client that an action is carried out for. -/
def Action.client? (s : Server) : Action → Option ClientNo
  | .openFile client .. | .downgrade client .. | .lock client .. | .unlock client ..
  | .testLock client .. | .releaseState client _ | .nameOwner client .. | .releaseOwner client _
  | .renewLease client => some client
  | .createSession id .. | .removeClient id => s.registered.get? id
  | .destroySession id _ | .sequence id .. => s.registered.get? id.client
  | _ => none

namespace Server

variable {s t : Server} {id : ClientId} {client : ClientNo}

/-- Something is carried out for a client, with whatever outcome. -/
inductive CarriesOut (client : ClientNo) (s : Server) : Server → Prop where
  /-- The action runs with the calls that are set to fail. -/
  | performed {a : Action} (hfor : a.client? s = some client) : CarriesOut client s (s.perform a)
  | released {id : StateId} {t : Server} (h : s.Releases client id t) : CarriesOut client s t
  | removed {id : ClientId} {attempts : List Attempt} {answer : Except Error Unit} {t : Server}
      (hget : s.registered.get? id = some client) (h : s.Removes id attempts answer t) :
      CarriesOut client s t

/-- A request of a client, or one that is carried out in its name, spares everybody else. -/
theorem spares_perform (hs : s.Belongs) {a : Action} (hfor : a.client? s = some client)
    (hne : (s.client client).id ≠ id) : s.Spares id (s.perform a) := by
  unfold perform
  split
  · rename_i hknown
    have hserved {client' : ClientNo} (hsame : client' = client)
        (hclient : client'.value < s.clients.size) {t : Server} (h : Serving client' s t) :
        s.Spares id t := by
      subst hsame
      exact h.spares hs hclient hne
    have hlisted {cid : ClientId} (hfor : s.registered.get? cid = some client) {t : Server}
        (h : ServesListed cid s t) : s.Spares id t := by
      rcases h with rfl | ⟨client', hget, h⟩
      · exact .refl id _
      · cases hfor.symm.trans hget
        exact h.spares hs (hs.routed.registered cid client hget).1 hne
    cases a with
    | openFile client' owner file access deny =>
      cases Option.some.inj hfor
      rw [Action.known, Bool.and_eq_true] at hknown
      have hclient := of_decide_eq_true hknown.1
      show s.Spares id (s.after (openFile client owner file access deny))
      -- an open may be added under an owner who is not looked at
      rcases openFile_outcome hclient owner file access deny with hsame | hserves | ⟨mode, _, _, hadded⟩
      · rw [hsame]
        exact .refl id s
      · exact hserves.spares hs hclient hne
      · rw [hadded]
        exact spares_withOpen hclient hne owner file mode
    | downgrade client' id file access deny =>
      exact hserved (Option.some.inj hfor) (of_decide_eq_true hknown)
        (serving_downgrade client' id file access deny s)
    | lock client' file r reclaim locker =>
      exact hserved (Option.some.inj hfor) (of_decide_eq_true hknown)
        (serving_lock hs.toGrounded client' file r reclaim locker)
    | unlock client' file lockId seqid r =>
      exact hserved (Option.some.inj hfor) (of_decide_eq_true hknown)
        (serving_unlock client' file lockId seqid r s)
    | testLock client' file owner r =>
      exact hserved (Option.some.inj hfor) (of_decide_eq_true hknown)
        (serving_testLock client' file owner r s)
    | releaseState client' id =>
      exact hserved (Option.some.inj hfor) (of_decide_eq_true hknown)
        (serving_releaseState hs.toGrounded client' id)
    | nameOwner client' name seqid =>
      exact hserved (Option.some.inj hfor) (of_decide_eq_true hknown)
        (serving_nameOwner client' name seqid s)
    | releaseOwner client' name =>
      exact hserved (Option.some.inj hfor) (of_decide_eq_true hknown) (.single (.unnamed name))
    | renewLease client' =>
      exact hserved (Option.some.inj hfor) (of_decide_eq_true hknown) (serving_renewLease client' s)
    | createSession cid sequence asked =>
      exact hlisted hfor (serving_createSession cid sequence asked s)
    | destroySession sid connection =>
      exact hlisted hfor (serving_destroySession sid connection s)
    | sequence sid slot seq operations connection =>
      exact hlisted hfor (serving_sequence sid slot seq operations connection s)
    | removeClient cid =>
      -- the states end in some order, which is one that a removal may take
      obtain ⟨attempts, hremoves⟩ := removes_removeClient hs.descending hs.held cid
      exact hremoves.spares hs hfor hne
    | _ => cases hfor
  · exact .refl id s

theorem CarriesOut.spares (hs : s.Belongs) (hne : (s.client client).id ≠ id)
    (h : CarriesOut client s t) : s.Spares id t := by
  cases h with
  | performed hfor => exact spares_perform hs hfor hne
  | released h => exact h.spares hs hne
  | removed hget h => exact h.spares hs hget hne

/-! ## What a client has -/

/-- All that a client has is the same on two servers. -/
structure Untouched (client : ClientNo) (s t : Server) : Prop where
  /-- Its lease is on the record, and its tables of sessions, owners and attached states. -/
  record : t.client client = s.client client
  sessions : ∀ id no, (s.client client).sessions.get? id = some no → t.session no = s.session no
  owners : ∀ name no, (s.client client).owners.get? name = some no → t.owner no = s.owner no
  /-- An owner whose name was released may still have states. -/
  states : ∀ key no, (s.client client).states.get? key = some no →
    t.state no = s.state no ∧ t.owner (s.state no).owner = s.owner (s.state no).owner
  opens : ∀ file, t.opens.opensOf (s.client client).id file = s.opens.opensOf (s.client client).id file
  locks : ∀ file, t.locks.locksOf (s.client client).id file = s.locks.locksOf (s.client client).id file

/-- Who is spared keeps all that is his: it is found by references that stay within a client. -/
theorem Spares.untouched (hs : s.Belongs) (hclient : client.value < s.clients.size)
    (h : s.Spares (s.client client).id t) : Untouched client s t where
  record := h.client client hclient rfl
  sessions id no hget := by
    obtain ⟨hno, hid, hmine⟩ := hs.routed.sessions client hclient id no hget
    exact h.session no hno ((congrArg _ hid).trans hmine)
  owners name no hget := by
    obtain ⟨hno, hmine⟩ := hs.names client name no hget
    exact h.owner no hno hmine
  states key no hget := by
    obtain ⟨hno, hkey, hmine⟩ := hs.held client key no hget
    -- the owner of a state is looked at even if the client has no name for him
    obtain ⟨howner, hsame⟩ := hs.states no hno
    have hclient := (congrArg StateKey.client hkey).trans hmine
    exact ⟨h.state no hno hclient, h.owner _ howner (hsame.trans hclient)⟩
  opens := h.opens
  locks := h.locks

/-- After every run in which opens are asked for by owners of their clients, and in which no two
clients have come to have one identifier: whatever is carried out for one client, to whatever end
and whatever calls fail, leaves what every other client has untouched, and so does a sweep that does
not evict it. -/
theorem clients_isolated {timers : Bool} {config : Config} {store : Recovery.Store}
    {wall : WallTime} {now : Nat} (hrun : Run (fun s a => a.served = true ∧ a.ByOwnOwner s)
      (start timers config store wall now) s)
    (hdistinct : ∀ a b : ClientNo, a.value < s.clients.size → b.value < s.clients.size →
      (s.client a).id = (s.client b).id → a = b)
    {other : ClientNo} (hother : other.value < s.clients.size) :
    (∀ client t, client.value < s.clients.size → client ≠ other → CarriesOut client s t →
      Untouched other s t) ∧
    (∀ t, (∀ id, s.registered.get? id = some other → s.leaseValid other = true) → s.Sweeps t →
      Untouched other s t) := by
  have hs : s.Belongs := keepsHappenings_belongs.run (fun _ _ h => h.1) hrun
    (belongs_start timers config store wall now)
  refine ⟨fun client t hclient hne h => ?_, fun t hstays h => ?_⟩
  · exact (h.spares hs fun hid => hne (hdistinct client other hclient hother hid)).untouched hs hother
  · refine Spares.untouched hs hother (h.spares hs fun id no hget hexpired hid => ?_)
    -- only the client itself bears its identifier, and it is not evicted
    have hsame := hdistinct no other (hs.routed.registered id no hget).1 hother hid
    rw [hsame] at hget hexpired
    rw [hstays id hget] at hexpired
    cases hexpired

/-- Two clients have a file open and the same range of it locked, under the same names. One of them
gives its range back; the other one keeps its own. -/
theorem clients_isolated_after_unlock :
    let file : FileId := ⟨[7]⟩
    let range : LockRequest := ⟨.read, 0, 10⟩
    let named := (start false {} (.durable (.openOn .empty)) ⟨0⟩).performAll
      [.register (.ofOwner [1]), .register (.ofOwner [2]), .nameOwner ⟨0⟩ [5] 0,
        .nameOwner ⟨1⟩ [5] 0]
    let opened := (named.perform (.openFile ⟨0⟩ ⟨0⟩ file 1 0)).perform (.openFile ⟨1⟩ ⟨1⟩ file 1 0)
    let s := opened.performAll
      [.lock ⟨0⟩ file range false (.newOwner (.ofParts ⟨1⟩ 1 .share) 0 [6] 0),
        .lock ⟨1⟩ file range false (.newOwner (.ofParts ⟨2⟩ 1 .share) 0 [6] 0)]
    let t := s.perform (.unlock ⟨0⟩ file (.ofParts ⟨1⟩ 2 .byteLock) 0 range)
    (s.locks.locks file).map (·.owner) = [⟨⟨1⟩, [6]⟩, ⟨⟨2⟩, [6]⟩] ∧
      (t.locks.locks file).map (·.owner) = [⟨⟨2⟩, [6]⟩] ∧ Untouched ⟨1⟩ s t := by
  intro file range named opened s t
  have hnamed : Run (fun s a => a.served = true ∧ a.ByOwnOwner s)
      (start false {} (.durable (.openOn .empty)) ⟨0⟩) named := by
    refine run_performAll fun a ha _ => ?_
    simp only [List.mem_cons, List.not_mem_nil, or_false] at ha
    rcases ha with rfl | rfl | rfl | rfl
    all_goals exact ⟨rfl, trivial⟩
  have hopened : Run (fun s a => a.served = true ∧ a.ByOwnOwner s)
      (start false {} (.durable (.openOn .empty)) ⟨0⟩) opened :=
    (hnamed.tail (.performed (a := .openFile ⟨0⟩ ⟨0⟩ file 1 0) ⟨rfl, by
      show (named.owner ⟨0⟩).client = (named.client ⟨0⟩).id
      decide +kernel⟩)).tail (.performed (a := .openFile ⟨1⟩ ⟨1⟩ file 1 0) ⟨rfl, by
        show ((named.perform (.openFile ⟨0⟩ ⟨0⟩ file 1 0)).owner ⟨1⟩).client =
          ((named.perform (.openFile ⟨0⟩ ⟨0⟩ file 1 0)).client ⟨1⟩).id
        decide +kernel⟩)
  have hrun : Run (fun s a => a.served = true ∧ a.ByOwnOwner s)
      (start false {} (.durable (.openOn .empty)) ⟨0⟩) s := by
    -- locks need no owner from outside, so these two steps are free
    refine hopened.trans (run_performAll fun a ha _ => ?_)
    simp only [List.mem_cons, List.not_mem_nil, or_false] at ha
    rcases ha with rfl | rfl
    all_goals exact ⟨rfl, trivial⟩
  have htracked := ((keepsHappenings_established _).run (fun _ _ h => h.1) hrun
    (established_start false {} (.durable (.openOn .empty)) ⟨0⟩ 0)).tracked
  have hdistinct (a b : ClientNo) (ha : a.value < s.clients.size) (hb : b.value < s.clients.size) :=
    htracked.numbered.client_ext (by decide +kernel) ha hb
  refine ⟨by decide +kernel, by decide +kernel, ?_⟩
  exact (clients_isolated hrun hdistinct (by decide +kernel)).1 ⟨0⟩ t (by decide +kernel) (by decide)
    (.performed rfl)

/-- Of two clients without sessions, the first one has a file open under the record of an owner of
the second one. Its lock takes the next number of that owner. -/
theorem owner_of_other_client_moved :
    let file : FileId := ⟨[7]⟩
    let first := start false {} (.durable (.openOn .empty)) ⟨0⟩
    let s := first.performAll [.register (.sessionless [1]), .register (.sessionless [2]),
      .nameOwner ⟨1⟩ [5] 0, .openFile ⟨0⟩ ⟨0⟩ file 1 0]
    let t := s.perform
      (.lock ⟨0⟩ file ⟨.read, 0, 10⟩ false (.newOwner (.ofParts ⟨1⟩ 1 .share) 1 [6] 0))
    Run (fun _ a => a.served = true) first s ∧
      (s.client ⟨0⟩).id = ⟨1⟩ ∧ (s.client ⟨1⟩).id = ⟨2⟩ ∧ s.clients.size = 2 ∧
      (s.client ⟨1⟩).owners.get? [5] = some ⟨0⟩ ∧
      CarriesOut ⟨0⟩ s t ∧ (s.owner ⟨0⟩).seqid = 0 ∧ (t.owner ⟨0⟩).seqid = 1 ∧
      ¬ Untouched ⟨1⟩ s t := by
  intro file first s t
  have hrun : Run (fun _ a => a.served = true) first s := by
    refine run_performAll fun a ha _ => ?_
    simp only [List.mem_cons, List.not_mem_nil, or_false] at ha
    rcases ha with rfl | rfl | rfl | rfl
    all_goals rfl
  have hnamed : (s.client ⟨1⟩).owners.get? [5] = some ⟨0⟩ := by decide +kernel
  have hbefore : (s.owner ⟨0⟩).seqid = 0 := by decide +kernel
  have hafter : (t.owner ⟨0⟩).seqid = 1 := by decide +kernel
  refine ⟨hrun, by decide +kernel, by decide +kernel, by decide +kernel, hnamed, .performed rfl,
    hbefore, hafter, fun huntouched => ?_⟩
  have hsame : (t.owner ⟨0⟩).seqid = (s.owner ⟨0⟩).seqid :=
    congrArg Owner.seqid (huntouched.owners [5] ⟨0⟩ hnamed)
  rw [hbefore, hafter] at hsame
  cases hsame

end Server

end Leasehold

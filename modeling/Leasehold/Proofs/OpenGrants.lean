import Leasehold.Proofs.Belonging

/-!
# Proofs.OpenGrants — what opening a file grants

An open belongs to a pair: the identifier of a client and the name of an owner. The
check of a new open goes past the open of its own pair, and the merge finds it again;
both are right because a file never has two opens of one pair (`Server.Filed`), and
that holds whatever happens, for clients that are registered or not and even if their
identifiers coincide.

* `Server.filed_update`, `Server.Filed.openFile` — updates and new opens keep the opens
  of every file in order;
* `Server.filed_happenAll` — so they are after every run;
* `Server.Filed.grants` — an open is granted exactly if nobody opposes it; what is
  refused changes nothing, what is granted changes the open of its pair alone;
* `Server.opens_granted_exactly` — both of them, after every run.
-/

namespace Leasehold

open Request

/-! ## One open for a pair -/

/-- Two opens are of different pairs and stand for different states. -/
structure OpenRecord.Distinct (a b : OpenRecord) : Prop where
  pair : ¬ (a.clientId = b.clientId ∧ a.owner = b.owner)
  state : a.state ≠ b.state

instance : Std.Symm OpenRecord.Distinct where
  symm _ _ h := ⟨fun hsame => h.pair ⟨hsame.1.symm, hsame.2.symm⟩, Ne.symm h.state⟩

namespace OpenTable

variable {t t' : OpenTable} {file : FileId}

/-- No file has an entry without opens. -/
def Tidy (t : OpenTable) : Prop := ∀ file, t.files.get? file ≠ some []

/-- A file whose opens are all gone has no entry. -/
theorem tidy_setOpens (h : t.Tidy) (file : FileId) (rs : List OpenRecord) :
    (t.setOpens file rs).Tidy := by
  intro other
  unfold setOpens
  cases rs with
  | nil =>
    simp only [List.isEmpty_nil, if_true, Table.get?_erase]
    split
    · simp
    · exact h other
  | cons r rest =>
    simp only [List.isEmpty_cons, Bool.false_eq_true, if_false, Table.get?_insert]
    split
    · simp
    · exact h other

/-- A file has an entry while it is open. -/
theorem Tidy.mem_keys_iff (h : t.Tidy) (file : FileId) :
    file ∈ t.files.keys ↔ t.opens file ≠ [] := by
  -- a file is among the keys exactly if it has an entry, and no entry is empty
  have hkeys : file ∈ t.files.keys ↔ ∃ rs, t.files.get? file = some rs := by
    constructor
    · intro hmem
      obtain ⟨⟨key, rs⟩, hentry, rfl⟩ := List.mem_map.1 hmem
      exact ⟨rs, t.files.get?_of_mem_entries hentry⟩
    · rintro ⟨rs, hget⟩
      exact List.mem_map.2 ⟨(file, rs), Table.mem_entries_of_get? hget, rfl⟩
  rw [hkeys]
  unfold opens
  cases hget : t.files.get? file with
  | none => simp
  | some rs =>
    have hne : rs ≠ [] := fun hrs => h file (hrs ▸ hget)
    simp [hne]

/-- A file counts as open exactly if it has an open. -/
theorem Tidy.hasOpens_iff (h : t.Tidy) (file : FileId) :
    t.hasOpens file = true ↔ t.opens file ≠ [] := by
  rw [← h.mem_keys_iff]
  unfold hasOpens Table.contains Table.keys
  simp

/-- The open of a pair, once it is amended and stays of the pair. -/
theorem find?_amendFirst {p : OpenRecord → Bool} {f : OpenRecord → OpenRecord}
    (hf : ∀ r, p r = true → p (f r) = true) (rs : List OpenRecord) :
    (amendFirst p f rs).find? p = (rs.find? p).map f := by
  induction rs with
  | nil => rfl
  | cons r rest ih =>
    unfold amendFirst
    by_cases hp : p r = true
    · rw [if_pos hp, List.find?_cons_of_pos hp, List.find?_cons_of_pos (hf r hp)]
      rfl
    · rw [if_neg hp, List.find?_cons_of_neg hp, List.find?_cons_of_neg hp, ih]

end OpenTable

namespace Server

variable {e : Effect} {s t : Server} {client : ClientNo} {owner : OwnerNo} {file : FileId}
  {mode : ShareMode}

/-- The opens are in order: they are of clients and stand for states that were made, two of one file
are distinct, and no file has an entry without opens. -/
structure Filed (s : Server) : Prop where
  known : ∀ file, ∀ r ∈ s.opens.cores file,
    r.client.value < s.clients.size ∧ (s.client r.client).id = r.clientId
  owned : s.OpensOwned
  apart : ∀ file, (s.opens.cores file).Pairwise OpenRecord.Distinct
  tidy : s.opens.Tidy

/-- No update leaves an entry without opens. -/
theorem Update.tidy_opens (h : Update e s t) (hs : s.opens.Tidy) : t.opens.Tidy := by
  cases h with
  | openForgotten _ file key opens h =>
    exact OpenTable.remove?_eq_some h ▸ OpenTable.tidy_setOpens hs _ _
  | openWidened => exact OpenTable.tidy_setOpens hs _ _
  | openAdded => exact OpenTable.tidy_setOpens hs _ _
  | openLowered _ _ _ _ _ _ _ h =>
    obtain ⟨_, _, _, _, hopens⟩ := OpenTable.downgrade_eq_ok h
    exact hopens ▸ OpenTable.tidy_setOpens hs _ _
  | _ => exact hs

/-- Every update that adds no open keeps them in order. -/
theorem filed_update (h : Update e s t) (he : e ≠ .openAdded) (hs : s.Filed) : t.Filed where
  known := by
    intro file r hr
    obtain ⟨hmade, hid⟩ := hs.known file r ((h.cores_sublist he file).subset hr)
    rw [h.client_id_eq hmade]
    exact ⟨Nat.lt_of_lt_of_le hmade h.clients_size_le, hid⟩
  owned := opensOwned_update h he hs.owned
  apart := fun file => (hs.apart file).sublist (h.cores_sublist he file)
  tidy := h.tidy_opens hs.tidy

/-- Only a new open bears on the order of opens. -/
theorem filed_chain {E : List Effect} (h : Chain E s t) (hE : .openAdded ∉ E) (hs : s.Filed) :
    t.Filed := by
  refine h.preserve (fun he hupdate => filed_update hupdate ?_) hs
  rintro rfl
  exact hE he

/-- An open may be added if it is in order itself and distinct from the others of the file. -/
theorem Filed.add (hs : s.Filed) {r : OpenRecord} (hclient : r.client.value < s.clients.size)
    (hid : (s.client r.client).id = r.clientId) (hstate : r.state.value < s.states.size)
    (hkey : (s.state r.state).id.key = r.key) (hof : r.key.client = r.clientId)
    (hnew : ∀ other ∈ s.opens.cores file, OpenRecord.Distinct other r) :
    Filed { s with opens := s.opens.add file r } where
  known := by
    intro other r' hr'
    rw [OpenTable.cores_add] at hr'
    split at hr'
    -- on the file of the new open, the opens are the old ones and this one
    · rcases List.mem_append.1 hr' with hold | hadded
      · exact hs.known file r' hold
      · rw [List.mem_singleton.1 hadded]
        exact ⟨hclient, hid⟩
    · exact hs.known other r' hr'
  owned := by
    intro other r' hr'
    rw [OpenTable.cores_add] at hr'
    split at hr'
    · rcases List.mem_append.1 hr' with hold | hadded
      · exact hs.owned file r' hold
      · rw [List.mem_singleton.1 hadded]
        exact ⟨hstate, hkey, hof⟩
    · exact hs.owned other r' hr'
  apart := by
    intro other
    show ((s.opens.add file r).cores other).Pairwise OpenRecord.Distinct
    rw [OpenTable.cores_add]
    split
    · refine List.pairwise_append.2 ⟨hs.apart file, List.pairwise_singleton .., fun a ha b hb => ?_⟩
      rw [List.mem_singleton.1 hb]
      have hdistinct := hnew a ha
      exact ⟨hdistinct.pair, hdistinct.state⟩
    · exact hs.apart other
  tidy := OpenTable.tidy_setOpens hs.tidy _ _

/-- An open with a new state is distinct from all others if its pair had none. -/
theorem Filed.withOpen (hs : s.Filed) (hclient : client.value < s.clients.size)
    (hnew : s.opens.openOf? file (s.client client).id (s.owner owner).name = none) :
    (s.withOpen client owner file mode).Filed := by
  have hheld : (s.withHeld client owner .share none (.forgetOpen file)).Filed :=
    filed_chain (s.chain_making client owner .share none _) (by decide) hs
  have hchain := s.chain_making client owner .share none (.forgetOpen file)
  have hopens := (s.rest_withHeld client owner .share none (.forgetOpen file)).2.1
  have hparent : (none : Option StateNo) ≠ some s.states.nextNo := nofun
  have hstate := state_withHeld_new hclient owner .share hparent (.forgetOpen file)
  have hid := hchain.client_id_eq hclient
  unfold Server.withOpen
  rw [← hopens]
  refine hheld.add (Nat.lt_of_lt_of_le hclient hchain.clients_size_le) hid (nextNo_lt_withHeld ..)
    (congrArg (·.id.key) hstate) rfl fun other hother => ?_
  rw [hopens] at hother
  constructor
  -- the pair has no open of the file, and the state is a new one
  · rintro ⟨hsame, howner⟩
    obtain ⟨r, hr, rfl⟩ := List.mem_map.1 hother
    exact List.find?_eq_none.1 hnew r hr ((r.isOf_iff _ _).2 ⟨hsame, howner⟩)
  · intro hsame
    exact Ledger.ne_nextNo (hs.owned file other hother).1 hsame

/-- The opens of a file are distinct. -/
theorem Filed.distinct (hs : s.Filed) (file : FileId) :
    (s.opens.opens file).Pairwise OpenRecord.Distinct := by
  have hapart := hs.apart file
  unfold OpenTable.cores at hapart
  rw [List.pairwise_map] at hapart
  exact hapart.imp fun h => ⟨h.pair, h.state⟩

/-- An open is added only if the pair has none of the file, and stands for a new state. -/
theorem Filed.openFile (hs : s.Filed) (hclient : client.value < s.clients.size) (owner : OwnerNo)
    (file : FileId) (access deny : UInt32) :
    (s.after (openFile client owner file access deny)).Filed := by
  rcases openFile_outcome hclient owner file access deny with hsame | hserves | ⟨_, _, hnew, hadded⟩
  · rw [hsame]
    exact hs
  · exact filed_chain hserves.chain (by decide) hs
  · rw [hadded]
    exact hs.withOpen hclient hnew

/-! ## Every run -/

/-- Every action leaves the opens in order. -/
theorem filed_perform (hs : s.Filed) (a : Action) : (s.perform a).Filed := by
  unfold perform
  split
  · rename_i hknown
    cases a with
    | openFile client owner file access deny =>
      rw [Action.known, Bool.and_eq_true] at hknown
      exact hs.openFile (of_decide_eq_true hknown.1) owner file access deny
    | _ => exact filed_chain (chain_carryOut s _ hknown) (by dsimp only [Action.effects]; decide) hs
  · exact hs

/-- One thing that happens to a server: an action, or the end of a state by itself, which stays
attached to its client. -/
inductive Step where
  | act (a : Action)
  | endState (no : StateNo)
  | endStateLeniently (no : StateNo)

/-- The server after a step. -/
def happen (s : Server) : Step → Server
  | .act a => s.perform a
  | .endState no => s.after (Request.endState no)
  | .endStateLeniently no => s.after (Request.endStateLeniently no)

/-- The server after a sequence of steps. -/
def happenAll (s : Server) (steps : List Step) : Server := steps.foldl happen s

theorem filed_happen (hs : s.Filed) (step : Step) : (s.happen step).Filed := by
  cases step with
  | act a => exact filed_perform hs a
  | endState no => exact filed_chain (does_endState (List.Subset.refl _) no s) (by decide) hs
  | endStateLeniently no =>
    exact filed_chain (does_endStateLeniently (List.Subset.refl _) no s) (by decide) hs

/-- Every sequence of steps leaves the opens in order. -/
theorem filed_happenAll (hs : s.Filed) (steps : List Step) : (s.happenAll steps).Filed := by
  -- on the steps still to come
  induction steps generalizing s with
  | nil => exact hs
  | cons step rest ih => exact ih (filed_happen hs step)

theorem filed_start (timers : Bool) (config : Config) (store : Recovery.Store) (wall : WallTime)
    (now : Nat) :
    (start timers config store wall now).Filed := by
  obtain ⟨sweepDue, graceDue, hstart⟩ := start_eq timers config store wall now
  rw [hstart]
  refine ⟨fun file r hr => ?_, fun file r hr => ?_, fun file => List.Pairwise.nil, fun file => ?_⟩
  · exact absurd hr List.not_mem_nil
  · exact absurd hr List.not_mem_nil
  · simp [new, OpenTable.empty]

/-! ## What is granted -/

/-- An open of another pair is in conflict with a mode, and its client's lease is valid. -/
def Opposes (s : Server) (id : ClientId) (name : Bytes) (mode : ShareMode) (r : OpenRecord) : Prop :=
  r.isOf id name = false ∧ r.mode.conflictsWith mode = true ∧ s.leaseValid r.client = true

/-- What comes of a request that opens a file: the answer, and the server after it. -/
structure Grants (s : Server) (client : ClientNo) (owner : OwnerNo) (file : FileId)
    (mode : ShareMode) (answer : Except Error StateId) (t : Server) : Prop where
  empty_iff : (∃ text, answer = .error (.invalid text)) ↔ mode.access = 0
  denied_iff : (∃ holder access deny, answer = .error (.shareDenied holder access deny)) ↔
    mode.access ≠ 0 ∧
      ∃ r ∈ s.opens.opens file, s.Opposes (s.client client).id (s.owner owner).name mode r
  granted_iff : (∃ id, answer = .ok id) ↔ mode.access ≠ 0 ∧
    ∀ r ∈ s.opens.opens file, ¬ s.Opposes (s.client client).id (s.owner owner).name mode r
  /-- A refused request changes nothing. -/
  refused : ∀ e, answer = .error e → t = s
  /-- The open that the pair had is widened, and its state is counted on. -/
  widened : ∀ id r, answer = .ok id →
    s.opens.openOf? file (s.client client).id (s.owner owner).name = some r →
      t.opens.openOf? file (s.client client).id (s.owner owner).name =
        some { r with mode := r.mode.union mode, seen := r.seen.add mode } ∧
      id = (s.state r.state).id.bump ∧ id.key = r.key ∧ t.state r.state = { s.state r.state with id }
  /-- A pair that had none gets an open with a new state, attached to the client. -/
  added : ∀ id, answer = .ok id →
    s.opens.openOf? file (s.client client).id (s.owner owner).name = none →
      ∃ r, t.opens.openOf? file (s.client client).id (s.owner owner).name = some r ∧
        r.client = client ∧ r.mode = mode ∧ r.seen = .ofMode mode ∧ r.state = s.states.nextNo ∧
        (t.client client).states.get? id.key = some r.state ∧
        (t.state r.state).id = id ∧ id.seqid = 0 ∧ (t.state r.state).disposed = false
  /-- The opens of all other pairs and of all other files stay as they are. -/
  others : (t.opens.opens file).filter (fun r => !r.isOf (s.client client).id (s.owner owner).name) =
      (s.opens.opens file).filter (fun r => !r.isOf (s.client client).id (s.owner owner).name) ∧
    ∀ other, other ≠ file → t.opens.opens other = s.opens.opens other

/-- The check passes exactly if no open opposes the mode. -/
theorem conflict?_eq_none_iff {id : ClientId} {name : Bytes} :
    s.opens.conflict? file s.leaseValid id name mode = none ↔
      ∀ r ∈ s.opens.opens file, ¬ s.Opposes id name mode r := by
  unfold OpenTable.conflict? Opposes
  rw [List.find?_eq_none]
  simp only [Bool.and_eq_true, Bool.not_eq_true', and_assoc]

/-- What the check finds is an open that opposes the mode. -/
theorem opposes_of_conflict? {id : ClientId} {name : Bytes} {r : OpenRecord}
    (h : s.opens.conflict? file s.leaseValid id name mode = some r) :
    r ∈ s.opens.opens file ∧ s.Opposes id name mode r := by
  unfold OpenTable.conflict? at h
  have hfound := List.find?_some h
  simp only [Bool.and_eq_true, Bool.not_eq_true', and_assoc] at hfound
  exact ⟨List.mem_of_find?_eq_some h, hfound⟩

/-- A request that is refused on these grounds changes nothing. -/
theorem grants_of_empty (haccess : mode.access = 0) :
    s.Grants client owner file mode (.error .emptyAccess) s where
  empty_iff := by simp [Error.emptyAccess, haccess]
  denied_iff := by simp [Error.emptyAccess, haccess]
  granted_iff := by simp [haccess]
  refused := fun _ _ => rfl
  widened := nofun
  added := nofun
  others := ⟨rfl, fun _ _ => rfl⟩

/-- An open that is opposed is refused with what opposes it, and changes nothing. -/
theorem grants_of_conflict {r : OpenRecord} (haccess : mode.access ≠ 0)
    (hr : r ∈ s.opens.opens file)
    (hopposes : s.Opposes (s.client client).id (s.owner owner).name mode r) :
    s.Grants client owner file mode
      (.error (.shareDenied (s.state r.state).id r.mode.access r.mode.deny)) s where
  empty_iff := by simp [haccess]
  denied_iff := by
    refine ⟨fun _ => ⟨haccess, r, hr, hopposes⟩, fun _ => ⟨_, _, _, rfl⟩⟩
  granted_iff := by
    constructor
    · rintro ⟨id, hid⟩
      cases hid
    · rintro ⟨-, hfree⟩
      exact absurd hopposes (hfree r hr)
  refused := fun _ _ => rfl
  widened := nofun
  added := nofun
  others := ⟨rfl, fun _ _ => rfl⟩

/-- Whatever becomes of its open, a state is counted on. -/
theorem Filed.state_bumped (hs : s.Filed) {r : OpenRecord} (hr : r ∈ s.opens.opens file)
    (opens : OpenTable) :
    (({ s with opens }).amendState r.state .bump).state r.state = (s.state r.state).bump := by
  have hmade := (hs.owned file r.core (List.mem_map_of_mem hr)).1
  exact (state_amendState ..).trans (if_pos ⟨rfl, hmade⟩)

/-- The open of a pair is widened in its place. -/
theorem Filed.grants_of_open (hs : s.Filed) {r : OpenRecord} (haccess : mode.access ≠ 0)
    (hfree : ∀ r ∈ s.opens.opens file,
      ¬ s.Opposes (s.client client).id (s.owner owner).name mode r)
    (hopen : s.opens.openOf? file (s.client client).id (s.owner owner).name = some r) :
    let opens := s.opens.widen file (s.client client).id (s.owner owner).name mode
    let t := ({ s with opens }).amendState r.state .bump
    s.Grants client owner file mode (.ok (t.state r.state).id) t := by
  intro opens t
  have hmem : r ∈ s.opens.opens file := List.mem_of_find?_eq_some hopen
  have hkey := (hs.owned file r.core (List.mem_map_of_mem hmem)).2.1
  have hstate : t.state r.state = (s.state r.state).bump := hs.state_bumped hmem opens
  have hopens (other : FileId) : t.opens.opens other = if file = other then
      OpenTable.amendFirst (·.isOf (s.client client).id (s.owner owner).name) (·.widen mode)
        (s.opens.opens file) else s.opens.opens other :=
    OpenTable.opens_setOpens ..
  have hisOf (r : OpenRecord) (h : r.isOf (s.client client).id (s.owner owner).name = true) :
      (r.widen mode).isOf (s.client client).id (s.owner owner).name = true := h
  rw [hstate]
  constructor
  · simp [haccess]
  · simp only [reduceCtorEq, exists_false, false_iff, not_and, not_exists]
    exact fun _ r hr hopposes => hfree r hr hopposes
  · simpa [haccess] using hfree
  · nofun
  -- the open that is widened is the one that the pair had
  · rintro _ r' ⟨⟩ hopen'
    obtain rfl : r = r' := Option.some.inj (hopen.symm.trans hopen')
    refine ⟨?_, rfl, hkey, hstate⟩
    unfold OpenTable.openOf? at hopen ⊢
    rw [hopens, if_pos rfl, OpenTable.find?_amendFirst hisOf, hopen]
    rfl
  · rintro _ - hnone
    rw [hopen] at hnone
    cases hnone
  · constructor
    · rw [hopens, if_pos rfl]
      -- opens of others are those that are not of the pair, and are passed over
      refine OpenTable.filter_amendFirst fun r hr => ?_
      have hpair := List.find?_some hr
      simp only [hpair, hisOf r hpair, Bool.not_true, and_self]
    · intro other hother
      rw [hopens, if_neg (Ne.symm hother)]

/-- A pair that has no open gets one behind the others. -/
theorem grants_of_none (hclient : client.value < s.clients.size) (haccess : mode.access ≠ 0)
    (hfree : ∀ r ∈ s.opens.opens file,
      ¬ s.Opposes (s.client client).id (s.owner owner).name mode r)
    (hopen : s.opens.openOf? file (s.client client).id (s.owner owner).name = none) :
    s.Grants client owner file mode (.ok ⟨(s.client client).nextStateKey .share, 0⟩)
      (s.withOpen client owner file mode) := by
  have hparent : (none : Option StateNo) ≠ some s.states.nextNo := nofun
  have hstate := state_withHeld_new hclient owner .share hparent (.forgetOpen file)
  have hattached := get?_withHeld hclient owner .share none (.forgetOpen file) client
    ((s.client client).nextStateKey .share)
  rw [if_pos ⟨rfl, rfl⟩] at hattached
  have hopens (other : FileId) : (s.withOpen client owner file mode).opens.opens other =
      if file = other then s.opens.opens file ++ [⟨client, (s.client client).id,
        (s.owner owner).name, s.states.nextNo, (s.client client).nextStateKey .share, mode,
        .ofMode mode⟩] else s.opens.opens other :=
    OpenTable.opens_setOpens ..
  constructor
  · simp [haccess]
  · simp only [reduceCtorEq, exists_false, false_iff, not_and, not_exists]
    exact fun _ r hr hopposes => hfree r hr hopposes
  · simpa [haccess] using hfree
  · nofun
  · rintro _ r - hsome
    rw [hopen] at hsome
    cases hsome
  · rintro _ ⟨⟩ -
    refine ⟨⟨client, (s.client client).id, (s.owner owner).name, s.states.nextNo,
      (s.client client).nextStateKey .share, mode, .ofMode mode⟩, ?_, rfl, rfl, rfl, rfl, hattached,
      congrArg (·.id) hstate, rfl, congrArg (·.disposed) hstate⟩
    unfold OpenTable.openOf? at hopen ⊢
    rw [hopens, if_pos rfl, List.find?_append, hopen]
    simp [OpenRecord.isOf]
  · constructor
    · rw [hopens, if_pos rfl]
      simp [OpenRecord.isOf]
    · intro other hother
      rw [hopens, if_neg (Ne.symm hother)]

/-- An open is granted exactly if it asks for some access and nobody opposes it. -/
theorem Filed.grants (hs : s.Filed) (hclient : client.value < s.clients.size) (owner : OwnerNo)
    (file : FileId) (access deny : UInt32) :
    s.Grants client owner file (.ofRequest access deny)
      ((Request.openFile client owner file access deny).exec s).1
      ((Request.openFile client owner file access deny).exec s).2 := by
  rw [exec_openFile hclient]
  dsimp only
  -- the checks in their order: the mode, the other opens, and whether the pair has an open
  by_cases haccess : (ShareMode.ofRequest access deny).access = 0
  · rw [if_pos haccess]
    exact grants_of_empty haccess
  · rw [if_neg haccess]
    cases hconflict : s.opens.conflict? file s.leaseValid (s.client client).id
        (s.owner owner).name (.ofRequest access deny) with
    | some r =>
      obtain ⟨hr, hopposes⟩ := opposes_of_conflict? hconflict
      exact grants_of_conflict haccess hr hopposes
    | none =>
      have hfree := conflict?_eq_none_iff.1 hconflict
      cases hopen : s.opens.openOf? file (s.client client).id (s.owner owner).name with
      | some r => exact hs.grants_of_open haccess hfree hopen
      | none => exact grants_of_none hclient haccess hfree hopen

/-- Each pair has at most one open of a file, no file has an entry without opens, and the questions
about a file and about all of them agree. -/
structure Agreed (s : Server) : Prop where
  one_each : ∀ file, (s.opens.opens file).Pairwise fun a b =>
    ¬ (a.clientId = b.clientId ∧ a.owner = b.owner)
  of_client : ∀ file, ∀ r ∈ s.opens.opens file, (s.client r.client).id = r.clientId
  nonempty : ∀ file, s.opens.files.get? file ≠ some []
  has_iff : ∀ file, s.opens.hasOpens file = true ↔ s.openIds file ≠ []
  counted : ∃ files : List FileId, files.Nodup ∧ (∀ file, file ∈ files ↔ s.openIds file ≠ []) ∧
    s.opens.size = files.length

theorem openIds_ne_nil_iff : s.openIds file ≠ [] ↔ s.opens.opens file ≠ [] := by
  unfold openIds
  rw [ne_eq, List.map_eq_nil_iff]

/-- What is asked about a file and about all of them is answered alike where opens are in order. -/
theorem Filed.agreed (hs : s.Filed) : s.Agreed where
  one_each := fun file => (hs.distinct file).imp fun h => h.pair
  of_client := fun file r hr => (hs.known file r.core (List.mem_map_of_mem hr)).2
  nonempty := hs.tidy
  has_iff := by
    intro file
    rw [openIds_ne_nil_iff]
    exact hs.tidy.hasOpens_iff file
  counted := by
    refine ⟨s.opens.files.keys, s.opens.files.nodup, fun file => ?_, ?_⟩
    · rw [openIds_ne_nil_iff]
      exact hs.tidy.mem_keys_iff file
    · exact (List.length_map _).symm

/-- After every run the opens of every file agree with one another, and the next request that opens a
file, for whatever client and owner, grants exactly what it may and nothing if it is refused. -/
theorem opens_granted_exactly (timers : Bool) (config : Config) (store : Recovery.Store)
    (wall : WallTime) (now : Nat) (steps : List Step) (client : ClientNo)
    (hclient : client.value < ((start timers config store wall now).happenAll steps).clients.size)
    (owner : OwnerNo) (file : FileId) (access deny : UInt32) :
    let s := (start timers config store wall now).happenAll steps
    let outcome := (Request.openFile client owner file access deny).exec s
    s.Agreed ∧ s.Grants client owner file (.ofRequest access deny) outcome.1 outcome.2 := by
  intro s outcome
  have hfiled : s.Filed := filed_happenAll (filed_start timers config store wall now) steps
  exact ⟨hfiled.agreed, hfiled.grants hclient owner file access deny⟩

/-- Of two clients that read a file, one denies writing and the other may deny it as well, which counts
its state on; it may not write. -/
theorem opens_granted_beside_another :
    let steps : List Step := [.act (.register (.ofOwner [1])), .act (.nameOwner ⟨0⟩ [7] 0),
      .act (.openFile ⟨0⟩ ⟨0⟩ ⟨[8]⟩ 3 3), .endState ⟨0⟩, .act (.openFile ⟨0⟩ ⟨0⟩ ⟨[9]⟩ 1 0),
      .act (.register (.ofOwner [2])), .act (.nameOwner ⟨1⟩ [7] 0),
      .act (.openFile ⟨1⟩ ⟨1⟩ ⟨[9]⟩ 1 2)]
    let s := (start false {} default ⟨0⟩).happenAll steps
    let outcome := (Request.openFile ⟨0⟩ ⟨0⟩ ⟨[9]⟩ 0x101 2).exec s
    (⟨0⟩ : ClientNo).value < s.clients.size ∧ s.opens.hasOpens ⟨[8]⟩ = false ∧
      s.openIds ⟨[9]⟩ = [⟨⟨⟨1⟩, 513⟩, 0⟩, ⟨⟨⟨2⟩, 257⟩, 0⟩] ∧
      outcome.1.toOption = some ⟨⟨⟨1⟩, 513⟩, 1⟩ ∧
      ((Request.openFile ⟨0⟩ ⟨0⟩ ⟨[9]⟩ 2 0).exec s).1.toOption = none ∧
      s.Agreed ∧ s.Grants ⟨0⟩ ⟨0⟩ ⟨[9]⟩ (.ofRequest 0x101 2) outcome.1 outcome.2 := by
  intro steps s outcome
  have hclient : (⟨0⟩ : ClientNo).value < s.clients.size := by decide +kernel
  exact ⟨hclient, by decide +kernel, by decide +kernel, by decide +kernel, by decide +kernel,
    opens_granted_exactly false {} default ⟨0⟩ 0 steps ⟨0⟩ hclient ⟨0⟩ ⟨[9]⟩ 0x101 2⟩

end Server

end Leasehold

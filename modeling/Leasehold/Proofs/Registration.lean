import Leasehold.Proofs.Run

/-!
# Proofs.Registration — how an owner comes to have a record

A registration keeps the record of its owner or makes a new one; the old record
leaves the table of registered clients before the new one enters it. The new
client counts only if the store took its owner.

* `Request.exec_enrol`, `Request.exec_enrolNew` — what a registration answers, and
  the server after it;
* `Server.enlisted_performAll` — after every run the table leads to the records
  that bear its identifiers, and no two registered clients have one owner.
-/

namespace Leasehold

/-- The server without the client in the table that stands under a client's identifier. -/
def Server.unlist (s : Server) (no : ClientNo) : Server :=
  { s with registered := s.registered.erase (s.client no).id }

namespace Request

variable {α β : Type} {s : Server}

/-! ## The parts of a registration -/

/-- A client leaves the table only if it is the one that stands under its identifier. -/
theorem exec_unregister (client : ClientNo) (s : Server) :
    (unregister client).exec s =
      if s.registered.get? (s.client client).id = some client then (.ok true, s.unlist client)
      else (.ok false, s) := by
  unfold unregister
  rw [exec_get_bind]
  dsimp only
  split
  · rfl
  · rfl

/-! ## Requests that always answer -/

/-- The request is never refused. -/
def Answers (r : Request Unit) : Prop := ∀ s, (r.exec s).1 = .ok ()

theorem answers_pure : Answers (pure ()) := fun _ => rfl

theorem answers_modify (f : Server → Server) : Answers (modify f) := fun _ => rfl

/-- Requests that are never refused are carried out one after the other. -/
theorem answers_bind {r q : Request Unit} (hr : Answers r) (hq : Answers q) :
    Answers (r >>= fun _ => q) := by
  intro s
  have hrs := hr s
  rw [exec_bind]
  rcases hexec : r.exec s with ⟨answer, s'⟩
  rw [hexec] at hrs
  dsimp only at hrs
  rw [hrs]
  exact hq s'

theorem answers_get_bind {f : Server → Request Unit} (hf : ∀ s, Answers (f s)) :
    Answers (get >>= f) :=
  fun s => hf s s

/-- A failure that is dropped is no refusal. -/
theorem answers_tryCatch (r : Request Unit) : Answers (tryCatch r fun _ => pure ()) := by
  intro s
  rw [exec_tryCatch]
  rcases r.exec s with ⟨_ | _, _⟩
  · rfl
  · rfl

/-- Whoever passes over failures is never refused. -/
theorem answers_releaseLeniently (endState : StateNo → Request Unit) (no : StateNo)
    (state : HeldState) (steps : List ReleaseStep) :
    Answers (releaseLeniently endState no state steps) := by
  induction steps with
  | nil => exact answers_modify _
  | cons step rest ih => exact answers_bind (answers_tryCatch _) ih

theorem answers_endStateLeniently (no : StateNo) : Answers (endStateLeniently no) := by
  apply answers_get_bind
  intro s
  dsimp only
  split
  · exact answers_pure
  · exact answers_releaseLeniently _ no _ _

theorem answers_endStatesLenientlyOf (client : ClientNo) (states : List StateNo) :
    Answers (endStatesLenientlyOf client states) := by
  induction states with
  | nil => exact answers_pure
  | cons state rest ih =>
    exact answers_bind (answers_endStateLeniently state) (answers_bind (answers_modify _) ih)

/-- Nobody is refused the lenient end of a client. -/
theorem answers_endClientLeniently (client : ClientNo) : Answers (endClientLeniently client) := by
  apply answers_get_bind
  intro s
  split
  · exact answers_pure
  · exact answers_bind (answers_endStatesLenientlyOf client _) (answers_modify _)

/-- What comes after a request that always answers starts from the server after it. -/
theorem exec_answers_bind {r : Request Unit} (hr : Answers r) (q : Request β) (s : Server) :
    (r >>= fun _ => q).exec s = q.exec (s.after r) := by
  have hrs := hr s
  rw [after_eq_exec, exec_bind]
  rcases hexec : r.exec s with ⟨answer, s'⟩
  rw [hexec] at hrs
  dsimp only at hrs
  rw [hrs]

end Request

/-! ## New records -/

namespace Server

open Request

/-- The server with a new registered client, in whose favour an old one has ended. -/
def withClientFor (s : Server) (r : Registration) (needReclaim : Bool) (old : Option ClientNo) :
    Server :=
  match old with
  | none => s.withClient r needReclaim
  | some old => (s.withClient r needReclaim).after (endClientLeniently old)

variable {s : Server}

/-- The old client ends, and nothing else happens. -/
theorem chain_withClientFor (s : Server) (r : Registration) (needReclaim : Bool)
    (old : Option ClientNo) :
    Chain Effect.ending (s.withClient r needReclaim) (s.withClientFor r needReclaim old) := by
  cases old with
  | none => exact .refl
  | some old => exact does_endClientLeniently (List.Subset.refl _) old _

theorem nextNo_lt_withClient (s : Server) (r : Registration) (needReclaim : Bool) :
    s.clients.nextNo.value < (s.withClient r needReclaim).clients.size := by
  rw [clients_size_withClient]
  exact Nat.lt_succ_self _

/-- The client that was made is registered under the identifier that it bears. -/
theorem registered_get?_withClientFor (s : Server) (r : Registration) (needReclaim : Bool)
    (old : Option ClientNo) :
    (s.withClientFor r needReclaim old).registered.get?
      ((s.withClientFor r needReclaim old).client s.clients.nextNo).id = some s.clients.nextNo := by
  have hid : ((s.withClientFor r needReclaim old).client s.clients.nextNo).id = s.ids.next.1 := by
    rw [(chain_withClientFor s r needReclaim old).client_id_eq (nextNo_lt_withClient s r needReclaim),
      client_withClient, if_pos rfl]
    rfl
  have hregistered := (chain_withClientFor s r needReclaim old).registered_eq (by decide)
  rw [hid, hregistered, withClient, Table.get?_insert, if_pos rfl]

/-- The store is asked as it stood before the registration. -/
theorem callStore_withClientFor {α : Type} (s : Server) (r : Registration) (needReclaim : Bool)
    (old : Option ClientNo) (call : Recovery.Call)
    (ask : Recovery.Store → Except RecoveryError α) :
    (s.withClientFor r needReclaim old).callStore call ask = s.callStore call ask :=
  callStore_congr ((chain_withClientFor s r needReclaim old).faults_eq (by decide))
    ((chain_withClientFor s r needReclaim old).store_eq (by decide)) call ask

end Server

namespace Request

open Server

/-- A new client counts if the store takes its owner, and leaves the table again if not. -/
theorem exec_enrolNew (r : Registration) (needReclaim : Bool) (old : Option ClientNo) (s : Server) :
    (enrolNew r needReclaim old).exec s =
      let made := s.withClientFor r needReclaim old
      match s.callStore .addClient (·.addClient made.wall r.owner) with
      | .ok store => (.ok (if old.isSome then .replaced else .created, s.clients.nextNo),
          { made with store })
      | .error e => (.error (.recovery e), made.unlist s.clients.nextNo) := by
  -- what follows the making of the record, whether or not an old one ended before
  have hrecorded (made : Server) (hmade : made = s.withClientFor r needReclaim old) :
      (do
        let now := (← get).wall
        tryCatch (updateStore .addClient (·.addClient now r.owner)) fun e => do
          let _ ← unregister s.clients.nextNo
          throw e
        pure (if old.isSome then Enrolment.replaced else .created, s.clients.nextNo) :
          Request (Enrolment × ClientNo)).exec made =
        match made.callStore .addClient (·.addClient made.wall r.owner) with
        | .ok store => (.ok (if old.isSome then .replaced else .created, s.clients.nextNo),
            { made with store })
        | .error e => (.error (.recovery e), made.unlist s.clients.nextNo) := by
    -- the entry is the new client's, so a refusal takes it out again
    have hentry : made.registered.get? (made.client s.clients.nextNo).id = some s.clients.nextNo :=
      hmade ▸ registered_get?_withClientFor s r needReclaim old
    rw [exec_get_bind, exec_bind, exec_tryCatch, exec_updateStore]
    cases made.callStore .addClient (·.addClient made.wall r.owner) with
    | ok store => rfl
    | error e =>
      dsimp only
      rw [exec_bind, exec_unregister, if_pos hentry]
      rfl
  dsimp only
  rw [← callStore_withClientFor s r needReclaim old]
  unfold enrolNew
  rw [exec_bind]
  cases old with
  | none => exact hrecorded _ rfl
  | some old =>
    refine Eq.trans ?_ (hrecorded _ rfl)
    exact exec_answers_bind (answers_endClientLeniently old) _ _

/-- A registration asks the store whether its owner has something to reclaim, and then keeps the
record of the owner or makes a new one. -/
theorem exec_enrol (r : Registration) (reuse : Bool) (s : Server) :
    (enrol r reuse).exec s =
      if s.running then
        match s.callStore .wantReclaim (·.wantReclaim r.owner) with
        | .error e => (.error (.recovery e), s)
        | .ok needReclaim =>
          match s.registeredFor? r.owner with
          | none => (enrolNew r needReclaim none).exec s
          | some old =>
            match if reuse then (s.client old).serves r s.now else .ok false with
            | .error e => (.error e, s)
            | .ok true => (.ok (.existing, old), s.amendClient old (·.refreshLease s.now))
            | .ok false => (enrolNew r needReclaim (some old)).exec (s.unlist old)
      else (.error .notRunning, s) := by
  unfold enrol
  rw [exec_bind, exec_ensureRunning]
  by_cases hrunning : s.running = true
  · rw [if_pos hrunning, if_pos hrunning]
    dsimp only
    rw [exec_bind, exec_askStore]
    rcases s.callStore .wantReclaim (·.wantReclaim r.owner) with e | needReclaim
    · rfl
    · dsimp only [Except.mapError]
      rw [exec_get_bind]
      cases s.registeredFor? r.owner with
      | none => rfl
      | some old =>
        dsimp only
        rw [exec_bind, exec_ofExcept]
        rcases (if reuse then (s.client old).serves r s.now else .ok false) with e | _ | _
        · rfl
        · rfl
        · rfl
  · rw [if_neg hrunning, if_neg hrunning]

end Request

/-! ## One client for each owner -/

namespace Server

open Request

variable {s s' : Server} {e : Effect}

/-- The table leads to the records that bear its identifiers, and no two registered clients have
one owner. -/
structure Enlisted (s : Server) : Prop where
  listed : ∀ id no, s.registered.get? id = some no →
    no.value < s.clients.size ∧ (s.client no).id = id
  oneEach : ∀ id no id' no', s.registered.get? id = some no → s.registered.get? id' = some no' →
    (s.client no).owner = (s.client no').owner → no = no'

/-- Somebody is registered for an owner. -/
def Lists (s : Server) (owner : Bytes) : Prop :=
  ∃ id no, s.registered.get? id = some no ∧ (s.client no).owner = owner

/-- Nobody is found for an owner exactly if nobody is registered for him. -/
theorem registeredFor?_eq_none_iff {owner : Bytes} :
    s.registeredFor? owner = none ↔ ¬ s.Lists owner := by
  unfold registeredFor?
  rw [List.find?_eq_none]
  constructor
  · rintro h ⟨id, no, hget, howner⟩
    exact h no (Table.mem_values_iff.2 ⟨id, hget⟩) (beq_iff_eq.2 howner)
  · intro h no hmem howner
    obtain ⟨id, hget⟩ := Table.mem_values_iff.1 hmem
    exact h ⟨id, no, hget, beq_iff_eq.1 howner⟩

/-- Whoever is found for an owner is registered, and for this owner. -/
theorem registeredFor?_eq_some {owner : Bytes} {no : ClientNo} (h : s.registeredFor? owner = some no) :
    (∃ id, s.registered.get? id = some no) ∧ (s.client no).owner = owner := by
  unfold registeredFor? at h
  exact ⟨Table.mem_values_iff.1 (List.mem_of_find?_eq_some h),
    beq_iff_eq.1 (List.find?_some (p := fun no => (s.client no).owner == owner) h)⟩

/-- Once a client has left the table, nobody is registered for its owner. -/
theorem Enlisted.lists_unlist_iff (hs : s.Enlisted) {no : ClientNo}
    (hget : s.registered.get? (s.client no).id = some no) (owner : Bytes) :
    (s.unlist no).Lists owner ↔ s.Lists owner ∧ (s.client no).owner ≠ owner := by
  constructor
  · rintro ⟨id, other, hother, howner⟩
    rw [unlist, Table.get?_erase] at hother
    split at hother
    · cases hother
    · rename_i hne
      refine ⟨⟨id, other, hother, howner⟩, fun hsame => hne ?_⟩
      -- no other client has this owner
      have heq := hs.oneEach _ no id other hget hother (hsame.trans howner.symm)
      rw [heq]
      exact (hs.listed id other hother).2
  · rintro ⟨⟨id, other, hother, howner⟩, hne⟩
    refine ⟨id, other, ?_, howner⟩
    rw [unlist, Table.get?_erase, if_neg]
    · exact hother
    · rintro rfl
      rw [hget] at hother
      injection hother with hno
      exact hne (hno ▸ howner)

/-- A registered client of a server with a new one is the new one, or was registered before. -/
theorem registered_get?_withClient {r : Registration} {needReclaim : Bool} {id : ClientId}
    {no : ClientNo} (hs : s.Enlisted)
    (hget : (s.withClient r needReclaim).registered.get? id = some no) :
    no = s.clients.nextNo ∧ s.ids.next.1 = id ∨
      s.registered.get? id = some no ∧ no ≠ s.clients.nextNo := by
  rw [withClient, Table.get?_insert] at hget
  split at hget
  · rename_i hid
    injection hget with hget
    exact .inl ⟨hget.symm, hid⟩
  · refine .inr ⟨hget, fun h => ?_⟩
    have hlt := (hs.listed id no hget).1
    rw [h] at hlt
    exact Nat.lt_irrefl _ hlt

/-- Nobody is registered for an owner whose client was taken out of the table. -/
theorem Enlisted.not_lists_vacated (hs : s.Enlisted) {owner : Bytes} {old : ClientNo}
    (hold : s.registeredFor? owner = some old) : ¬ (s.unlist old).Lists owner := by
  obtain ⟨⟨id, hget⟩, howner⟩ := registeredFor?_eq_some hold
  rw [← (hs.listed id old hget).2] at hget
  rw [hs.lists_unlist_iff hget]
  exact fun h => h.2 howner

/-- A new client is of the owner who registers. -/
theorem owner_withClient (s : Server) (r : Registration) (needReclaim : Bool) :
    ((s.withClient r needReclaim).client s.clients.nextNo).owner = r.owner := by
  rw [client_withClient, if_pos rfl]
  rfl

theorem owner_withClientFor (s : Server) (r : Registration) (needReclaim : Bool)
    (old : Option ClientNo) :
    ((s.withClientFor r needReclaim old).client s.clients.nextNo).owner = r.owner := by
  rw [← owner_withClient s r needReclaim]
  exact congrArg Registration.owner ((chain_withClientFor s r needReclaim old).registration_eq
    (nextNo_lt_withClient s r needReclaim))

theorem clients_size_withClientFor (s : Server) (r : Registration) (needReclaim : Bool)
    (old : Option ClientNo) :
    (s.withClientFor r needReclaim old).clients.size = s.clients.size + 1 := by
  rw [← clients_size_withClient s r needReclaim]
  refine (chain_withClientFor s r needReclaim old).eq_of_updates (f := fun s => s.clients.size) ?_
  intro e he a b hupdate
  apply hupdate.clients_size_eq
  · rintro rfl
    exact absurd he (by decide)
  · rintro rfl
    exact absurd he (by decide)

/-- A new client is registered for its owner, and nobody else comes to be. -/
theorem lists_of_lists_withClient (hs : s.Enlisted) {r : Registration} {needReclaim : Bool}
    {owner : Bytes} (h : (s.withClient r needReclaim).Lists owner) : r.owner = owner ∨ s.Lists owner := by
  obtain ⟨id, no, hget, howner⟩ := h
  rcases registered_get?_withClient hs hget with ⟨rfl, _⟩ | ⟨hold, hne⟩
  · rw [owner_withClient] at howner
    exact .inl howner
  · rw [client_withClient, if_neg hne] at howner
    exact .inr ⟨id, no, hold, howner⟩

/-- If the next identifier is new, nobody loses its place to the new client. -/
theorem lists_withClient (hs : s.Enlisted) (hfresh : s.registered.get? s.ids.next.1 = none)
    {r : Registration} {needReclaim : Bool} {owner : Bytes} (h : r.owner = owner ∨ s.Lists owner) :
    (s.withClient r needReclaim).Lists owner := by
  rcases h with hnew | ⟨id, no, hget, howner⟩
  · refine ⟨s.ids.next.1, s.clients.nextNo, ?_, (owner_withClient s r needReclaim).trans hnew⟩
    rw [withClient, Table.get?_insert, if_pos rfl]
  · have hne : no ≠ s.clients.nextNo := by
      intro h
      have hlt := (hs.listed id no hget).1
      rw [h] at hlt
      exact Nat.lt_irrefl _ hlt
    refine ⟨id, no, ?_, ?_⟩
    -- the identifier is a new one, so nobody is displaced
    · rw [withClient, Table.get?_insert, if_neg]
      · exact hget
      · rintro rfl
        rw [hfresh] at hget
        cases hget
    · rw [client_withClient, if_neg hne]
      exact howner

/-- A new client leaves the table consistent if nobody of its owner was listed. -/
theorem enlisted_withClient (hs : s.Enlisted) (r : Registration) (needReclaim : Bool)
    (hnew : ¬ s.Lists r.owner) : (s.withClient r needReclaim).Enlisted := by
  constructor
  · intro id no hget
    rw [clients_size_withClient, client_withClient]
    rcases registered_get?_withClient hs hget with ⟨rfl, hid⟩ | ⟨hold, hne⟩
    · rw [if_pos rfl]
      exact ⟨Nat.lt_succ_self _, hid⟩
    · rw [if_neg hne]
      exact ⟨Nat.lt_succ_of_lt (hs.listed id no hold).1, (hs.listed id no hold).2⟩
  · intro id no id' no' hget hget' hsame
    rcases registered_get?_withClient hs hget with ⟨rfl, _⟩ | ⟨hold, hne⟩
    · rcases registered_get?_withClient hs hget' with ⟨rfl, _⟩ | ⟨hold', hne'⟩
      · rfl
      · rw [owner_withClient, client_withClient, if_neg hne'] at hsame
        -- nobody of this owner is listed yet
        exact absurd ⟨id', no', hold', hsame.symm⟩ hnew
    · rcases registered_get?_withClient hs hget' with ⟨rfl, _⟩ | ⟨hold', hne'⟩
      · rw [owner_withClient, client_withClient, if_neg hne] at hsame
        exact absurd ⟨id, no, hold, hsame⟩ hnew
      · rw [client_withClient, client_withClient, if_neg hne, if_neg hne'] at hsame
        exact hs.oneEach id no id' no' hold hold' hsame

/-- Only a registration puts a client into the table. -/
theorem registered_get?_of_ne_enrolled (h : Update e s s') (he : e ≠ .enrolled) {id : ClientId}
    {no : ClientNo} (hget : s'.registered.get? id = some no) : s.registered.get? id = some no := by
  cases h with
  | unregistered =>
    rw [Table.get?_erase] at hget
    split at hget
    · cases hget
    · exact hget
  | stopped => cases hget
  | enrolled => exact absurd rfl he
  | _ => exact hget

/-- Where nobody registers, whoever is in the table was there before. -/
theorem registered_get?_of_chain {E : List Effect} (h : Chain E s s') (hE : .enrolled ∉ E)
    {id : ClientId} {no : ClientNo} (hget : s'.registered.get? id = some no) :
    s.registered.get? id = some no := by
  refine h.lift (R := fun s s' => s'.registered.get? id = some no → s.registered.get? id = some no)
    (fun _ h => h) (fun h h' => h ∘ h') (fun he hupdate => ?_) hget
  exact registered_get?_of_ne_enrolled hupdate fun henrolled => hE (henrolled ▸ he)

/-- The registered owners stay while no client comes and none leaves. -/
theorem lists_of_update (h : Update e s s') (he : e ≠ .enrolled) (hs : s.Enlisted) {owner : Bytes}
    (hlists : s'.Lists owner) : s.Lists owner := by
  obtain ⟨id, no, hget, howner⟩ := hlists
  have hbefore := registered_get?_of_ne_enrolled h he hget
  refine ⟨id, no, hbefore, ?_⟩
  rw [← howner]
  exact (congrArg Registration.owner (h.registration_eq (hs.listed id no hbefore).1)).symm

/-- An owner is listed until a client leaves the table, or a new one comes. -/
theorem lists_update (h : Update e s s') (he : e ∉ [.unregistered, .enrolled, .stopped])
    (hs : s.Enlisted) {owner : Bytes} (hlists : s.Lists owner) : s'.Lists owner := by
  obtain ⟨id, no, hget, howner⟩ := hlists
  refine ⟨id, no, ?_, ?_⟩
  · rw [h.registered_eq he]
    exact hget
  · rw [← howner]
    exact congrArg Registration.owner (h.registration_eq (hs.listed id no hget).1)

/-- The table stays consistent as long as nobody registers. -/
theorem enlisted_update (h : Update e s s') (he : e ≠ .enrolled) (hs : s.Enlisted) :
    s'.Enlisted := by
  have hbefore {id : ClientId} {no : ClientNo} (hget : s'.registered.get? id = some no) :=
    registered_get?_of_ne_enrolled h he hget
  have howner {id : ClientId} {no : ClientNo} (hget : s.registered.get? id = some no) :
      (s'.client no).owner = (s.client no).owner :=
    congrArg Registration.owner (h.registration_eq (hs.listed id no hget).1)
  constructor
  · intro id no hget
    obtain ⟨hno, hid⟩ := hs.listed id no (hbefore hget)
    rw [h.client_id_eq hno]
    exact ⟨Nat.lt_of_lt_of_le hno h.clients_size_le, hid⟩
  · intro id no id' no' hget hget' hsame
    rw [howner (hbefore hget), howner (hbefore hget')] at hsame
    exact hs.oneEach id no id' no' (hbefore hget) (hbefore hget') hsame

theorem enlisted_chain {E : List Effect} (h : Chain E s s') (hE : .enrolled ∉ E) (hs : s.Enlisted) :
    s'.Enlisted :=
  h.preserve (fun he hupdate => enlisted_update hupdate fun henrolled => hE (henrolled ▸ he)) hs

/-- The same along a chain of updates. -/
theorem lists_of_chain {E : List Effect} (h : Chain E s s') (hE : .enrolled ∉ E) (hs : s.Enlisted)
    {owner : Bytes} (hlists : s'.Lists owner) : s.Lists owner := by
  have hkept : s'.Enlisted ∧ (s'.Lists owner → s.Lists owner) := by
    refine h.preserve (I := fun b => b.Enlisted ∧ (b.Lists owner → s.Lists owner)) ?_ ⟨hs, id⟩
    intro e a b he hupdate ⟨ha, hback⟩
    have hne : e ≠ .enrolled := fun henrolled => hE (henrolled ▸ he)
    exact ⟨enlisted_update hupdate hne ha, fun hb => hback (lists_of_update hupdate hne ha hb)⟩
  exact hkept.2 hlists

theorem lists_chain {E : List Effect} (h : Chain E s s')
    (hE : ∀ e ∈ E, e ∉ [Effect.unregistered, .enrolled, .stopped]) (hs : s.Enlisted)
    {owner : Bytes} (hlists : s.Lists owner) : s'.Lists owner := by
  have hkept : s'.Enlisted ∧ s'.Lists owner := by
    refine h.preserve (I := fun b => b.Enlisted ∧ b.Lists owner) ?_ ⟨hs, hlists⟩
    intro e a b he hupdate ⟨ha, hbefore⟩
    have hne : e ≠ .enrolled := by
      rintro rfl
      exact hE _ he (by decide)
    exact ⟨enlisted_update hupdate hne ha, lists_update hupdate (hE e he) ha hbefore⟩
  exact hkept.2

/-- A new record leaves the table consistent, whether or not the store accepts it. -/
theorem enlisted_enrolNew (hs : s.Enlisted) (r : Registration) (needReclaim : Bool)
    (old : Option ClientNo) (hnew : ¬ s.Lists r.owner) :
    (s.after (enrolNew r needReclaim old)).Enlisted := by
  have hmade := enlisted_chain (chain_withClientFor s r needReclaim old) (by decide)
    (enlisted_withClient hs r needReclaim hnew)
  rw [after_eq_exec, exec_enrolNew]
  dsimp only
  split
  · exact enlisted_update (.recorded _ _) (by decide) hmade
  · exact enlisted_update (.unregistered _ _) (by decide) hmade

/-- A registration leaves the table consistent: the old record of the owner goes first. -/
theorem enlisted_enrol (hs : s.Enlisted) (r : Registration) (reuse : Bool) :
    (s.after (enrol r reuse)).Enlisted := by
  rw [after_eq_exec, exec_enrol]
  split
  · split
    · exact hs
    · split
      · rename_i hnone
        exact enlisted_enrolNew hs r _ none (registeredFor?_eq_none_iff.1 hnone)
      · rename_i old hold
        split
        · exact hs
        · exact enlisted_update (.client s old _ (.revived _)) (by decide) hs
        -- the old record leaves the table before the new one comes in
        · have hvacated := enlisted_update (.unregistered s (s.client old).id) (by decide) hs
          exact enlisted_enrolNew hvacated r _ (some old) (hs.not_lists_vacated hold)
  · exact hs

/-- To create a client is to register without asking whether a record serves. -/
theorem createClient_eq (r : Registration) :
    createClient r = enrol r false >>= fun outcome => pure outcome.2 := rfl

theorem after_createClient (s : Server) (r : Registration) :
    s.after (createClient r) = s.after (enrol r false) := by
  rw [after_eq_exec, after_eq_exec, createClient_eq, exec_bind]
  rcases (enrol r false).exec s with ⟨_ | _, _⟩
  · rfl
  · rfl

/-- Every action leaves the table consistent. -/
theorem enlisted_perform (hs : s.Enlisted) (a : Action) : (s.perform a).Enlisted := by
  by_cases henrolled : .enrolled ∈ a.effects
  · cases a with
    | register r => exact enlisted_enrol hs r true
    | createClient r =>
      show (s.after (createClient r)).Enlisted
      rw [after_createClient]
      exact enlisted_enrol hs r false
    | _ => exact absurd henrolled (by dsimp only [Action.effects]; decide)
  · exact enlisted_chain (chain_perform s a) henrolled hs

theorem enlisted_performAll (hs : s.Enlisted) (actions : List Action) :
    (s.performAll actions).Enlisted := by
  induction actions generalizing s with
  | nil => exact hs
  | cons a rest ih => exact ih (enlisted_perform hs a)

theorem enlisted_start (timers : Bool) (config : Config) (store : Recovery.Store)
    (wall : WallTime) (now : Nat) : (start timers config store wall now).Enlisted := by
  have hnone (id : ClientId) : (start timers config store wall now).registered.get? id = none := by
    cases timers <;> rfl
  constructor
  · intro id no hget
    rw [hnone] at hget
    cases hget
  · intro id no id' no' hget
    rw [hnone] at hget
    cases hget

end Server

end Leasehold

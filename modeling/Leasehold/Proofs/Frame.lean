import Leasehold.Proofs.Update

/-!
# Proofs.Frame — what updates leave alone

An update of a kind changes what its kind says and keeps the rest. Here is what
later modules rely on, each for the kinds of updates of which it holds:

* `Update.now_eq`, `Update.now_le` — the clock;
* `Update.client_update`, `Update.session_update` — a record that was handed out
  is amended in one of the ways of its kind, and is never lost;
* `Update.state_key_eq`, `Update.owner_name_eq` — the key of a state and the name of
  an owner;
* `Update.opens_eq`, `Update.locks_eq` — the opens and the locks of every file;
* `Update.registered_eq`, `Update.store_eq`, `Update.running_eq`, `Update.faults_eq` —
  the table of registered clients, the store, and what the server runs with;
* `Chain.leaseValid_eq`, `Chain.opens_eq`, `Chain.eq_of_updates` — the same along
  chains.
-/

namespace Leasehold

namespace Ledger

variable {kind : RecordKind} {α : Type} {l : Ledger kind α} {no : Serial kind}

/-- The next number was not handed out yet. -/
theorem ne_nextNo (h : no.value < l.size) : no ≠ l.nextNo := by
  rintro rfl
  exact Nat.lt_irrefl _ h

/-- A number that was handed out by the time of the next one is that one or an earlier one. -/
theorem lt_of_ne_nextNo (h : no.value < l.size + 1) (hne : no ≠ l.nextNo) : no.value < l.size := by
  refine Nat.lt_of_le_of_ne (Nat.lt_succ_iff.1 h) fun hsize => hne ?_
  obtain ⟨n⟩ := no
  exact congrArg Serial.mk hsize

end Ledger

namespace Server

/-- Only a record that was handed out is amended. -/
theorem client_amendClient (s : Server) (no : ClientNo) (f : Client → Client) (other : ClientNo) :
    (s.amendClient no f).client other =
      if other = no ∧ no.value < s.clients.size then f (s.client other) else s.client other :=
  Ledger.get_modify ..

/-- A new record takes the next number, and the earlier records stay. -/
theorem client_withClient (s : Server) (r : Registration) (needReclaim : Bool) (other : ClientNo) :
    (s.withClient r needReclaim).client other =
      if other = s.clients.nextNo then
        .new s.ids.next.1 r s.config.leaseTime needReclaim s.now s.wall
      else s.client other :=
  Ledger.get_add ..

theorem clients_size_withClient (s : Server) (r : Registration) (needReclaim : Bool) :
    (s.withClient r needReclaim).clients.size = s.clients.size + 1 :=
  Ledger.size_add ..

/-- A session is entered on the record of its client, if that was handed out. -/
theorem client_withSession (s : Server) (no : ClientNo) (attributes : ChannelAttributes)
    (other : ClientNo) :
    (s.withSession no attributes).client other =
      if other = no ∧ no.value < s.clients.size then (s.client no).withSession s.sessions.nextNo
      else s.client other :=
  Ledger.get_modify ..

/-- A new session bears the next identifier of its client. -/
theorem session_withSession (s : Server) (no : ClientNo) (attributes : ChannelAttributes)
    (t : SessionNo) :
    (s.withSession no attributes).session t =
      if t = s.sessions.nextNo then
        .new (s.client no).nextSessionId.1 (s.client no).id attributes
      else s.session t :=
  Ledger.get_add ..

theorem sessions_size_withSession (s : Server) (no : ClientNo) (attributes : ChannelAttributes) :
    (s.withSession no attributes).sessions.size = s.sessions.size + 1 :=
  Ledger.size_add ..

theorem session_amendSession (s : Server) (no : SessionNo) (f : Session → Session)
    (other : SessionNo) :
    (s.amendSession no f).session other =
      if other = no ∧ no.value < s.sessions.size then f (s.session other) else s.session other :=
  Ledger.get_modify ..

/-- Only a state that was made is amended. -/
theorem state_amendState (s : Server) (no : StateNo) (f : HeldState → HeldState)
    (other : StateNo) :
    (s.amendState no f).state other =
      if other = no ∧ no.value < s.states.size then f (s.state other) else s.state other :=
  Ledger.get_modify ..

theorem owner_amendOwner (s : Server) (no : OwnerNo) (f : Owner → Owner) (other : OwnerNo) :
    (s.amendOwner no f).owner other =
      if other = no ∧ no.value < s.owners.size then f (s.owner other) else s.owner other :=
  Ledger.get_modify ..

/-! A record is read off its table, whatever else the server holds. -/

theorem client_congr {s t : Server} (h : t.clients = s.clients) (no : ClientNo) :
    t.client no = s.client no :=
  congrArg (Ledger.get · no) h

theorem state_congr {s t : Server} (h : t.states = s.states) (no : StateNo) :
    t.state no = s.state no :=
  congrArg (Ledger.get · no) h

theorem owner_congr {s t : Server} (h : t.owners = s.owners) (no : OwnerNo) :
    t.owner no = s.owner no :=
  congrArg (Ledger.get · no) h

/-- A number that was never handed out reads as the blank record. -/
theorem client_eq_default {s : Server} {no : ClientNo} (h : s.clients.size ≤ no.value) :
    s.client no = default := by
  unfold client Ledger.get
  rw [Array.getElem?_eq_none h]
  rfl

namespace Update

variable {e : Effect} {s s' : Server}

/-! ## The clock -/

/-- The clock stands still unless time passes. -/
theorem now_eq (h : Update e s s') (he : e ≠ .passed) : s'.now = s.now := by
  cases h with
  | passed => exact absurd rfl he
  | _ => rfl

/-- The clock never goes back. -/
theorem now_le (h : Update e s s') : s.now ≤ s'.now := by
  cases h with
  | passed _ _ hlater => exact hlater
  | _ => exact Nat.le_refl _

/-! ## The records of clients -/

/-- Records of clients are never lost. -/
theorem clients_size_le (h : Update e s s') : s.clients.size ≤ s'.clients.size := by
  cases h with
  | client => exact Nat.le_of_eq (Ledger.size_modify ..).symm
  | sessionMade => exact Nat.le_of_eq (Ledger.size_modify ..).symm
  | enrolled => exact Nat.le_trans (Nat.le_succ _) (Nat.le_of_eq (Ledger.size_add ..).symm)
  | entered => exact Nat.le_trans (Nat.le_succ _) (Nat.le_of_eq (Ledger.size_add ..).symm)
  | _ => exact Nat.le_refl _

/-- Records of clients come by registration, or by being entered as they are. -/
theorem clients_size_eq (h : Update e s s') (henrolled : e ≠ .enrolled) (hentered : e ≠ .entered) :
    s'.clients.size = s.clients.size := by
  cases h with
  | client => exact Ledger.size_modify ..
  | sessionMade => exact Ledger.size_modify ..
  | enrolled => exact absurd rfl henrolled
  | entered => exact absurd rfl hentered
  | _ => rfl

/-- A record that was handed out stays as it is, is amended in the way of the update, or has one
more session. -/
theorem client_update (h : Update e s s') {no : ClientNo} (hno : no.value < s.clients.size) :
    s'.client no = s.client no ∨ Client.Update s.now e (s.client no) (s'.client no) ∨
      e = .sessionMade ∧ ∃ attributes, s' = s.withSession no attributes := by
  -- a new record takes the next number, which is not that of a record handed out
  have hnew : no ≠ s.clients.nextNo := by
    intro h
    rw [h] at hno
    exact Nat.lt_irrefl _ hno
  cases h with
  | client _ client f hf =>
    rw [client_amendClient]
    split
    · rename_i hclient
      rw [hclient.1]
      exact .inr (.inl hf)
    · exact .inl rfl
  | sessionMade _ _ client attributes =>
    -- the session may be one of this client
    by_cases hclient : no = client
    · exact .inr (.inr ⟨rfl, attributes, by rw [hclient]⟩)
    · rw [client_withSession, if_neg fun h => hclient h.1]
      exact .inl rfl
  | enrolled => exact .inl ((Ledger.get_add ..).trans (if_neg hnew))
  | entered => exact .inl ((Ledger.get_add ..).trans (if_neg hnew))
  | _ => exact .inl rfl

/-- A client keeps its identifier. -/
theorem client_id_eq (h : Update e s s') {no : ClientNo} (hno : no.value < s.clients.size) :
    (s'.client no).id = (s.client no).id := by
  rcases h.client_update hno with hsame | hupdate | ⟨_, attributes, rfl⟩
  -- amended, or with one more session, the record bears the identifier it was made with
  · rw [hsame]
  · exact hupdate.id_eq
  · rw [client_withSession, if_pos ⟨rfl, hno⟩]
    rfl

/-- A client keeps what it presented when it registered. -/
theorem registration_eq (h : Update e s s') {no : ClientNo} (hno : no.value < s.clients.size) :
    (s'.client no).registration = (s.client no).registration := by
  rcases h.client_update hno with hsame | hupdate | ⟨_, attributes, rfl⟩
  · rw [hsame]
  · exact hupdate.registration_eq
  · rw [client_withSession, if_pos ⟨rfl, hno⟩]
    rfl

/-- The lease of a client changes only when it is renewed, or revived by a new session. -/
theorem lease_eq (h : Update e s s') {no : ClientNo} (hno : no.value < s.clients.size)
    (hrenewed : e ≠ .renewed) (hrevived : e ≠ .revived) :
    (s'.client no).lease = (s.client no).lease := by
  rcases h.client_update hno with hsame | hupdate | ⟨_, attributes, rfl⟩
  · rw [hsame]
  · exact hupdate.lease_eq hrenewed hrevived
  · rw [client_withSession, if_pos ⟨rfl, hno⟩]
    rfl

/-! ## The records of sessions -/

/-- Records of sessions are never lost. -/
theorem sessions_size_le (h : Update e s s') : s.sessions.size ≤ s'.sessions.size := by
  cases h with
  | session => exact Nat.le_of_eq (Ledger.size_modify ..).symm
  | sessionMade => exact Nat.le_trans (Nat.le_succ _) (Nat.le_of_eq (Ledger.size_add ..).symm)
  | _ => exact Nat.le_refl _

theorem sessions_size_eq (h : Update e s s') (he : e ≠ .sessionMade) :
    s'.sessions.size = s.sessions.size := by
  cases h with
  | session => exact Ledger.size_modify ..
  | sessionMade => exact absurd rfl he
  | _ => rfl

/-- A session that was made stays as it is or is amended in the way of the update. -/
theorem session_update (h : Update e s s') {no : SessionNo} (hno : no.value < s.sessions.size) :
    s'.session no = s.session no ∨ Session.Update e (s.session no) (s'.session no) := by
  cases h with
  | session _ session f hf =>
    rw [session_amendSession]
    split
    · rename_i hsession
      rw [hsession.1]
      exact .inr hf
    · exact .inl rfl
  | sessionMade _ _ client attributes =>
    -- as in the case of clients, a new record takes the next number
    have hnew : no ≠ s.sessions.nextNo := by
      intro h
      rw [h] at hno
      exact Nat.lt_irrefl _ hno
    exact .inl ((Ledger.get_add ..).trans (if_neg hnew))
  | _ => exact .inl rfl

/-! ## The records of states and owners -/

/-- Records of states are never lost. -/
theorem states_size_le (h : Update e s s') : s.states.size ≤ s'.states.size := by
  cases h with
  | stateMade => exact Nat.le_trans (Nat.le_succ _) (Nat.le_of_eq (Ledger.size_add ..).symm)
  | stateAmended => exact Nat.le_of_eq (Ledger.size_modify ..).symm
  | _ => exact Nat.le_refl _

theorem states_size_eq (h : Update e s s') (he : e ≠ .stateMade) :
    s'.states.size = s.states.size := by
  cases h with
  | stateMade => exact absurd rfl he
  | stateAmended => exact Ledger.size_modify ..
  | _ => rfl

/-- A state that was made keeps its key. -/
theorem state_key_eq (h : Update e s s') {no : StateNo} (hno : no.value < s.states.size) :
    (s'.state no).id.key = (s.state no).id.key := by
  cases h with
  | stateMade =>
    -- the new state takes the next number
    exact congrArg (·.id.key) ((Ledger.get_add ..).trans (if_neg (Ledger.ne_nextNo hno)))
  | stateAmended _ _ _ hf =>
    rw [state_amendState]
    split
    · exact (hf _).1
    · rfl
  | _ => rfl

/-- Records of owners are never lost. -/
theorem owners_size_le (h : Update e s s') : s.owners.size ≤ s'.owners.size := by
  cases h with
  | ownerMade => exact Nat.le_trans (Nat.le_succ _) (Nat.le_of_eq (Ledger.size_add ..).symm)
  | ownerAmended => exact Nat.le_of_eq (Ledger.size_modify ..).symm
  | _ => exact Nat.le_refl _

/-- An owner that was made keeps its name. -/
theorem owner_name_eq (h : Update e s s') {no : OwnerNo} (hno : no.value < s.owners.size) :
    (s'.owner no).name = (s.owner no).name := by
  cases h with
  | ownerMade =>
    -- the new owner takes the next number
    exact congrArg Owner.name ((Ledger.get_add ..).trans (if_neg (Ledger.ne_nextNo hno)))
  | ownerAmended _ _ _ hf =>
    rw [owner_amendOwner]
    split
    · rename_i hsame
      rw [hsame.1]
      exact hf
    · rfl
  | _ => rfl

/-! ## The opens and the locks -/

/-- The opens change only in the ways that are named for them. -/
theorem opens_eq (h : Update e s s')
    (he : e ∉ [.openForgotten, .openWidened, .openAdded, .openLowered]) : s'.opens = s.opens := by
  cases h with
  | openForgotten => exact absurd (by decide) he
  | openWidened => exact absurd (by decide) he
  | openAdded => exact absurd (by decide) he
  | openLowered => exact absurd (by decide) he
  | client => rfl
  | session => rfl
  | _ => rfl

/-- The locks change only when they are set. -/
theorem locks_eq (h : Update e s s') (he : e ≠ .locked) : s'.locks = s.locks := by
  cases h with
  | locked => exact absurd rfl he
  | _ => rfl

/-! ## The registered clients, the store, and what the server runs with -/

/-- The table of registered clients changes when one comes or leaves, and when the server stops. -/
theorem registered_eq (h : Update e s s') (he : e ∉ [.unregistered, .enrolled, .stopped]) :
    s'.registered = s.registered := by
  cases h with
  | unregistered => exact absurd (by decide) he
  | enrolled => exact absurd (by decide) he
  | stopped => exact absurd (by decide) he
  | _ => rfl

/-- The store changes only when an answered call is recorded. -/
theorem store_eq (h : Update e s s') (he : e ≠ .recorded) : s'.store = s.store := by
  cases h with
  | recorded => exact absurd rfl he
  | _ => rfl

/-- A server goes on running unless it is stopped. -/
theorem running_eq (h : Update e s s') (he : e ≠ .stopped) : s'.running = s.running := by
  cases h with
  | stopped => exact absurd rfl he
  | _ => rfl

/-- A server that has stopped does not run again. -/
theorem running_of_running (h : Update e s s') (hrunning : s'.running = true) :
    s.running = true := by
  cases h with
  | stopped => cases hrunning
  | _ => exact hrunning

/-- Calls are set to fail from outside only. -/
theorem faults_eq (h : Update e s s') (he : e ≠ .faultsSet) : s'.faults = s.faults := by
  cases h with
  | faultsSet => exact absurd rfl he
  | _ => rfl

/-- A server keeps its configuration. -/
theorem config_eq (h : Update e s s') : s'.config = s.config := by
  cases h <;> rfl

end Update

end Server

namespace Chain

variable {E : List Effect} {s s' : Server}

/-- Records of clients are never lost along a chain. -/
theorem clients_size_le (h : Chain E s s') : s.clients.size ≤ s'.clients.size :=
  h.lift (R := fun s s' => s.clients.size ≤ s'.clients.size) (fun _ => Nat.le_refl _) Nat.le_trans
    fun _ hupdate => hupdate.clients_size_le

theorem sessions_size_le (h : Chain E s s') : s.sessions.size ≤ s'.sessions.size :=
  h.lift (R := fun s s' => s.sessions.size ≤ s'.sessions.size) (fun _ => Nat.le_refl _) Nat.le_trans
    fun _ hupdate => hupdate.sessions_size_le

theorem states_size_le (h : Chain E s s') : s.states.size ≤ s'.states.size :=
  h.lift (R := fun s s' => s.states.size ≤ s'.states.size) (fun _ => Nat.le_refl _) Nat.le_trans
    fun _ hupdate => hupdate.states_size_le

/-- What every update of a chain leaves as it is, the chain does. -/
theorem eq_of_updates {γ : Type} {f : Server → γ} (h : Chain E s s')
    (hf : ∀ e ∈ E, ∀ {a b}, Server.Update e a b → f b = f a) : f s' = f s :=
  h.lift (R := fun s s' => f s' = f s) (fun _ => rfl) (fun h h' => h'.trans h)
    fun he hupdate => hf _ he hupdate

/-- Nobody comes or leaves along a chain that has no update for it. -/
theorem registered_eq (h : Chain E s s')
    (hE : ∀ e ∈ E, e ∉ [Effect.unregistered, .enrolled, .stopped]) :
    s'.registered = s.registered :=
  h.eq_of_updates fun e he {_ _} hupdate => hupdate.registered_eq (hE e he)

/-- The store is as it was after a chain that records nothing. -/
theorem store_eq (h : Chain E s s') (hE : .recorded ∉ E) : s'.store = s.store :=
  h.eq_of_updates fun _ he {_ _} hupdate => hupdate.store_eq fun hrecorded => hE (hrecorded ▸ he)

theorem running_eq (h : Chain E s s') (hE : .stopped ∉ E) : s'.running = s.running :=
  h.eq_of_updates fun _ he {_ _} hupdate => hupdate.running_eq fun hstopped => hE (hstopped ▸ he)

theorem faults_eq (h : Chain E s s') (hE : .faultsSet ∉ E) : s'.faults = s.faults :=
  h.eq_of_updates fun _ he {_ _} hupdate => hupdate.faults_eq fun hset => hE (hset ▸ he)

theorem config_eq (h : Chain E s s') : s'.config = s.config :=
  h.eq_of_updates (f := Server.config) fun _ _ {_ _} hupdate => hupdate.config_eq

/-- What every update keeps once a client is made, a chain keeps. -/
theorem preserve_of_made {I : Server → Prop} (h : Chain E s s') {no : ClientNo}
    (hno : no.value < s.clients.size)
    (hupdate : ∀ e ∈ E, ∀ {a b}, Server.Update e a b → no.value < a.clients.size → I a → I b)
    (hs : I s) : I s' := by
  have hkept : no.value < s'.clients.size ∧ I s' := by
    -- that the record was handed out is carried along, since the updates ask for it
    refine h.preserve (I := fun s' => no.value < s'.clients.size ∧ I s') ?_ ⟨hno, hs⟩
    intro e a b he hstep ⟨hmade, ha⟩
    exact ⟨Nat.lt_of_lt_of_le hmade hstep.clients_size_le, hupdate e he hstep hmade ha⟩
  exact hkept.2

/-- What every update keeps of a record that was handed out, a chain keeps. -/
theorem client_eq_of_updates {γ : Type} {f : Client → γ} (h : Chain E s s') {no : ClientNo}
    (hno : no.value < s.clients.size)
    (hf : ∀ e ∈ E, ∀ {a b}, Server.Update e a b → no.value < a.clients.size →
      f (b.client no) = f (a.client no)) : f (s'.client no) = f (s.client no) := by
  refine h.preserve_of_made (I := fun s' => f (s'.client no) = f (s.client no)) hno ?_ rfl
  intro e he a b hupdate hsize hsame
  exact (hf e he hupdate hsize).trans hsame

/-- A client that came before a chain keeps its identifier. -/
theorem client_id_eq (h : Chain E s s') {no : ClientNo} (hno : no.value < s.clients.size) :
    (s'.client no).id = (s.client no).id :=
  h.client_eq_of_updates hno fun _ _ {_ _} hupdate hsize => hupdate.client_id_eq hsize

/-- A state that was made before a chain keeps its key. -/
theorem state_key_eq (h : Chain E s s') {no : StateNo} (hno : no.value < s.states.size) :
    (s'.state no).id.key = (s.state no).id.key := by
  have hkept : no.value < s'.states.size ∧ (s'.state no).id.key = (s.state no).id.key := by
    -- the same for states
    refine h.preserve (I := fun s' => no.value < s'.states.size ∧
      (s'.state no).id.key = (s.state no).id.key) ?_ ⟨hno, rfl⟩
    intro e a b _ hupdate ⟨hsize, hsame⟩
    exact ⟨Nat.lt_of_lt_of_le hsize hupdate.states_size_le, (hupdate.state_key_eq hsize).trans hsame⟩
  exact hkept.2

theorem registration_eq (h : Chain E s s') {no : ClientNo} (hno : no.value < s.clients.size) :
    (s'.client no).registration = (s.client no).registration :=
  h.client_eq_of_updates hno fun _ _ {_ _} hupdate hsize => hupdate.registration_eq hsize

/-- The opens are as they were after a chain that has no update for them. -/
theorem opens_eq (h : Chain E s s')
    (hE : ∀ e ∈ E, e ∉ [Effect.openForgotten, .openWidened, .openAdded, .openLowered]) :
    s'.opens = s.opens :=
  h.lift (R := fun s s' => s'.opens = s.opens) (fun _ => rfl) (fun h h' => h'.trans h)
    fun he hupdate => hupdate.opens_eq (hE _ he)

/-- Leases are valid as they were while no lease is renewed, no client comes and no time passes. -/
theorem leaseValid_eq (h : Chain E s s')
    (hE : ∀ e ∈ E, e ∉ [Effect.renewed, .revived, .enrolled, .entered, .passed]) (no : ClientNo) :
    s'.leaseValid no = s.leaseValid no := by
  refine h.lift (R := fun s s' => s'.leaseValid no = s.leaseValid no) (fun _ => rfl)
    (fun h h' => h'.trans h) fun {e a b} he hupdate => ?_
  have he := hE e he
  simp only [List.mem_cons, List.not_mem_nil, or_false, not_or] at he
  obtain ⟨hrenewed, hrevived, henrolled, hentered, hpassed⟩ := he
  unfold Server.leaseValid Client.isLeaseValid
  rw [hupdate.now_eq hpassed]
  by_cases hno : no.value < a.clients.size
  · rw [hupdate.lease_eq hno hrenewed hrevived]
  · have hsize := hupdate.clients_size_eq henrolled hentered
    -- a number that nobody has reads as the blank record before and after
    rw [Server.client_eq_default (by omega), Server.client_eq_default (by omega)]

end Chain

end Leasehold

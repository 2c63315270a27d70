import Leasehold.Proofs.IdentifierLayout
import Leasehold.Proofs.Run

/-!
# Proofs.SessionIdentity — an identifier leads to one record

The table of registered clients leads from an identifier to the record that bears
it, and so does the table of sessions on a client's record (`Server.Routed`). A
server numbers its clients in the order in which it makes them and each client its
sessions; the counters wrap, but a server that has made fewer than 2^24 clients,
and fewer than 2^32 sessions for each, has never given one identifier to two
sessions (`Server.Counted`).

* `Server.identified_update` — all this is kept by every update but the making of
  a record outside the table;
* `Server.identified_performAll` — so it holds after every run without one.
-/

namespace Leasehold

/-! ## What updates of a record keep -/

namespace Client.Update

variable {now : Nat} {e : Effect} {c c' : Client}

/-- A client has no session that it had not before. -/
theorem sessions_get? (h : Update now e c c') {id : SessionId} {no : SessionNo}
    (hget : c'.sessions.get? id = some no) : c.sessions.get? id = some no := by
  cases h with
  | ended => cases hget
  | sessionDropped _ dropped =>
    simp only [Table.get?_erase] at hget
    split at hget
    · cases hget
    · exact hget
  | _ => exact hget

/-- The counter of sessions goes up only with a session. -/
theorem sessionCounter_eq (h : Update now e c c') : c'.sessionCounter = c.sessionCounter := by
  cases h <;> rfl

end Client.Update

namespace Session.Update

variable {e : Effect} {t t' : Session}

theorem id_eq (h : Update e t t') : t'.id = t.id := by
  cases h <;> rfl

theorem client_eq (h : Update e t t') : t'.client = t.client := by
  cases h <;> rfl

end Session.Update

/-! ## Identifiers of clients -/

/-- Up to the width of its counter, the identifier of a client tells which one it is. -/
theorem ClientId.counter_eq_of_ofParts {bootSeconds : UInt32} {instanceId : UInt8} {m n : Nat}
    (hm : m < 0x100_0000) (hn : n < 0x100_0000)
    (h : ClientId.ofParts bootSeconds instanceId (UInt32.ofNat m) =
      ClientId.ofParts bootSeconds instanceId (UInt32.ofNat n)) : m = n := by
  have hcounter := (ofParts_eq_iff.1 h).2
  rw [lowBits_ofNat, lowBits_ofNat] at hcounter
  omega

namespace Server

variable {e : Effect} {s s' : Server}

/-- A session that was made keeps its identifier. -/
theorem Update.session_id_eq (h : Update e s s') {t : SessionNo} (ht : t.value < s.sessions.size) :
    (s'.session t).id = (s.session t).id := by
  rcases h.session_update ht with hsame | hupdate
  · rw [hsame]
  · exact hupdate.id_eq

/-- A session that was made keeps its client. -/
theorem Update.session_client_eq (h : Update e s s') {t : SessionNo}
    (ht : t.value < s.sessions.size) : (s'.session t).client = (s.session t).client := by
  rcases h.session_update ht with hsame | hupdate
  · rw [hsame]
  · exact hupdate.client_eq

/-- A record that was not there before is a new one. -/
theorem Update.client_new (h : Update e s s') {no : ClientNo} (hnew : s.clients.size ≤ no.value)
    (hno : no.value < s'.clients.size) :
    ∃ id r leaseTime needReclaim, s'.client no = .new id r leaseTime needReclaim s.now s.wall := by
  -- a number that was not there before is the last one
  have hlast {c : Client} (h : no.value < (s.clients.add c).size) : no = s.clients.nextNo := by
    rw [Ledger.size_add] at h
    obtain ⟨n⟩ := no
    exact congrArg Serial.mk (Nat.le_antisymm (Nat.lt_succ_iff.1 h) hnew)
  by_cases henrolled : e = .enrolled
  · subst henrolled
    cases h with
    | enrolled => exact ⟨_, _, _, _, (Ledger.get_add ..).trans (if_pos (hlast hno))⟩
    | client _ _ _ hf => cases hf
    | session _ _ _ hf => cases hf
  · by_cases hentered : e = .entered
    · subst hentered
      cases h with
      | entered => exact ⟨_, _, _, _, (Ledger.get_add ..).trans (if_pos (hlast hno))⟩
      | client _ _ _ hf => cases hf
      | session _ _ _ hf => cases hf
    · have hsize := h.clients_size_eq henrolled hentered
      omega

/-! ## Tables that lead to their records -/

/-- The tables lead from an identifier to the record that bears it. -/
structure Routed (s : Server) : Prop where
  registered : ∀ id no, s.registered.get? id = some no →
    no.value < s.clients.size ∧ (s.client no).id = id
  sessions : ∀ no : ClientNo, no.value < s.clients.size →
    ∀ id t, (s.client no).sessions.get? id = some t →
      t.value < s.sessions.size ∧ (s.session t).id = id ∧ id.client = (s.client no).id

/-- A client is registered as it was before, or it has just been made. -/
theorem Update.registered_get? (h : Update e s s') {id : ClientId} {no : ClientNo}
    (hget : s'.registered.get? id = some no) :
    s.registered.get? id = some no ∨ no.value < s'.clients.size ∧ (s'.client no).id = id := by
  cases h with
  | unregistered _ erased =>
    rw [Table.get?_erase] at hget
    split at hget
    · cases hget
    · exact .inl hget
  | enrolled r needReclaim =>
    rw [withClient, Table.get?_insert] at hget
    split at hget
    · rename_i hid
      -- the new entry stands for the new client
      injection hget with hget
      subst hget
      refine .inr ⟨?_, ?_⟩
      · exact Nat.lt_of_lt_of_eq (Nat.lt_succ_self _) (Ledger.size_add ..).symm
      · rw [← hid]
        exact congrArg Client.id ((Ledger.get_add ..).trans (if_pos rfl))
    · exact .inl hget
  | stopped => cases hget
  | _ => exact .inl hget

/-- A client has a session as it had before, or it has just been made. -/
theorem Update.sessions_get? (h : Update e s s') {no : ClientNo} (hno : no.value < s.clients.size)
    {id : SessionId} {t : SessionNo} (hget : (s'.client no).sessions.get? id = some t) :
    (s.client no).sessions.get? id = some t ∨
      t.value < s'.sessions.size ∧ (s'.session t).id = id ∧ id.client = (s.client no).id := by
  rcases h.client_update hno with hsame | hupdate | ⟨_, attributes, rfl⟩
  · rw [hsame] at hget
    exact .inl hget
  · exact .inl (hupdate.sessions_get? hget)
  · rw [client_withSession, if_pos ⟨rfl, hno⟩, Client.withSession, Table.get?_insert] at hget
    split at hget
    · rename_i hid
      injection hget with hget
      subst hget hid
      rw [sessions_size_withSession, session_withSession, if_pos rfl]
      exact .inr ⟨Nat.lt_succ_self _, rfl, rfl⟩
    · exact .inl hget

theorem routed_of_empty (hregistered : s.registered = .empty) (hclients : s.clients = .empty) :
    s.Routed := by
  constructor
  · intro id no hget
    rw [hregistered] at hget
    cases hget
  · intro no hno
    rw [hclients] at hno
    exact absurd hno (Nat.not_lt_zero _)

/-- Tables lead to what bears the identifier, whatever is updated. -/
theorem routed_update (h : Update e s s') (hs : s.Routed) : s'.Routed := by
  constructor
  · intro id no hget
    rcases h.registered_get? hget with hold | hnew
    · obtain ⟨hno, hid⟩ := hs.registered id no hold
      rw [h.client_id_eq hno]
      exact ⟨Nat.lt_of_lt_of_le hno h.clients_size_le, hid⟩
    · exact hnew
  · intro no hno id t hget
    rcases Nat.lt_or_ge no.value s.clients.size with hold | hnew
    · rw [h.client_id_eq hold]
      rcases h.sessions_get? hold hget with hbefore | hmade
      · obtain ⟨ht, hid, hclient⟩ := hs.sessions no hold id t hbefore
        rw [h.session_id_eq ht]
        exact ⟨Nat.lt_of_lt_of_le ht h.sessions_size_le, hid, hclient⟩
      · exact hmade
    · -- a record that has just been made has no sessions
      obtain ⟨_, _, _, _, hrecord⟩ := h.client_new hnew hno
      rw [hrecord] at hget
      cases hget

/-! ## Numbers that do not recur -/

/-- Clients bear the identifiers of the server in the order in which they were made. -/
structure Numbered (s : Server) : Prop where
  issued : s.ids.issued = UInt32.ofNat s.clients.size
  client_id : ∀ no : ClientNo, no.value < s.clients.size → (s.client no).id =
    ClientId.ofParts s.ids.bootSeconds s.ids.instanceId (UInt32.ofNat (no.value + 1))

/-- Clients that register are numbered on; a record from outside is not. -/
theorem numbered_update (h : Update e s s') (he : e ≠ .entered) (hs : s.Numbered) :
    s'.Numbered := by
  by_cases henrolled : e = .enrolled
  · subst henrolled
    cases h with
    | enrolled r needReclaim =>
      -- the counter keeps step with the number of clients
      have hnext : s.ids.issued + 1 = UInt32.ofNat (s.clients.size + 1) := by
        rw [hs.issued]
        exact (UInt32.ofNat_add _ _).symm
      constructor
      · rw [clients_size_withClient]
        exact hnext
      · intro no hno
        rw [clients_size_withClient] at hno
        rw [client_withClient]
        split
        · rename_i hlast
          rw [hlast]
          exact congrArg (ClientId.ofParts s.ids.bootSeconds s.ids.instanceId) hnext
        · rename_i hother
          refine hs.client_id no (Nat.lt_of_le_of_ne (Nat.lt_succ_iff.1 hno) fun hsize => hother ?_)
          obtain ⟨n⟩ := no
          exact congrArg Serial.mk hsize
    | client _ _ _ hf => cases hf
    | session _ _ _ hf => cases hf
  -- without a new client neither numbers nor the counter move
  · have hsize := h.clients_size_eq henrolled he
    have hid (no : ClientNo) (hno : no.value < s.clients.size) := h.client_id_eq hno
    have hids : s'.ids = s.ids := by
      cases h with
      | enrolled => exact absurd rfl henrolled
      | _ => rfl
    constructor
    · rw [hids, hsize]
      exact hs.issued
    · intro no hno
      rw [hsize] at hno
      rw [hid no hno, hids]
      exact hs.client_id no hno

/-- Fewer clients than the counter is wide have pairwise distinct identifiers. -/
theorem Numbered.client_ext (hs : s.Numbered) (hsize : s.clients.size < 0x100_0000) {a b : ClientNo}
    (ha : a.value < s.clients.size) (hb : b.value < s.clients.size)
    (hid : (s.client a).id = (s.client b).id) : a = b := by
  rw [hs.client_id a ha, hs.client_id b hb] at hid
  have hcounter := ClientId.counter_eq_of_ofParts (by omega) (by omega) hid
  obtain ⟨m⟩ := a
  obtain ⟨n⟩ := b
  exact congrArg Serial.mk (Nat.succ.inj hcounter)

/-- How many sessions were made for the client with an identifier. -/
def sessionsOf (s : Server) (id : ClientId) : Nat :=
  (List.range s.sessions.size).countP fun n => (s.session ⟨n⟩).client = id

theorem sessionsOf_le_size (s : Server) (id : ClientId) : s.sessionsOf id ≤ s.sessions.size :=
  Nat.le_trans List.countP_le_length (Nat.le_of_eq List.length_range)

theorem Update.sessionsOf_eq (h : Update e s s') (he : e ≠ .sessionMade) (id : ClientId) :
    s'.sessionsOf id = s.sessionsOf id := by
  unfold sessionsOf
  rw [h.sessions_size_eq he]
  apply List.countP_congr
  intro n hn
  have hn : n < s.sessions.size := List.mem_range.1 hn
  rw [h.session_client_eq hn]

/-- A new session counts for the identifier of its client. -/
theorem sessionsOf_withSession (s : Server) (no : ClientNo) (attributes : ChannelAttributes)
    (id : ClientId) :
    (s.withSession no attributes).sessionsOf id =
      s.sessionsOf id + if (s.client no).id = id then 1 else 0 := by
  unfold sessionsOf
  rw [sessions_size_withSession, List.range_succ, List.countP_append]
  congr 1
  · apply List.countP_congr
    intro n hn
    have hn : n < s.sessions.size := List.mem_range.1 hn
    -- earlier sessions are counted as before, and the new one counts for its client
    have hold : (⟨n⟩ : SessionNo) ≠ s.sessions.nextNo := by
      intro h
      injection h with h
      exact Nat.ne_of_lt hn h
    rw [session_withSession, if_neg hold]
  · have hlast : (⟨s.sessions.size⟩ : SessionNo) = s.sessions.nextNo := rfl
    rw [List.countP_singleton, session_withSession, if_pos hlast]
    simp only [decide_eq_true_eq]
    rfl

/-- A session is made for a registered client, and for no other one. -/
theorem Update.session_made (h : Update .sessionMade s s') :
    ∃ id client attributes, s.registered.get? id = some client ∧
      s' = s.withSession client attributes := by
  cases h with
  | sessionMade _ id client attributes hregistered =>
    exact ⟨id, client, attributes, hregistered, rfl⟩
  | client _ _ _ hf => cases hf
  | session _ _ _ hf => cases hf

/-- There are never fewer sessions than before. -/
theorem Update.sessionsOf_le (h : Update e s s') (id : ClientId) :
    s.sessionsOf id ≤ s'.sessionsOf id := by
  by_cases hmade : e = .sessionMade
  · subst hmade
    obtain ⟨_, client, attributes, _, rfl⟩ := h.session_made
    rw [sessionsOf_withSession]
    exact Nat.le_add_right _ _
  · exact Nat.le_of_eq (h.sessionsOf_eq hmade id).symm

/-- No counter has wrapped. -/
structure Bounded (s : Server) : Prop where
  clients : s.clients.size < 0x100_0000
  sessions : ∀ no : ClientNo, no.value < s.clients.size → s.sessionsOf (s.client no).id < UInt32.size

/-- A counter that has not wrapped had not wrapped before. -/
theorem Bounded.of_update (h : Update e s s') (hs' : s'.Bounded) : s.Bounded := by
  constructor
  · exact Nat.lt_of_le_of_lt h.clients_size_le hs'.clients
  · intro no hno
    have hbound := hs'.sessions no (Nat.lt_of_lt_of_le hno h.clients_size_le)
    rw [h.client_id_eq hno] at hbound
    exact Nat.lt_of_le_of_lt (h.sessionsOf_le _) hbound

/-- Every session is one of a client that was made, and no two sessions have one identifier. -/
structure Counted (s : Server) : Prop where
  owned : ∀ t : SessionNo, t.value < s.sessions.size →
    ∃ no : ClientNo, no.value < s.clients.size ∧ (s.session t).client = (s.client no).id
  numbered : ∀ t : SessionNo, t.value < s.sessions.size →
    ∃ k, k ≤ s.sessionsOf (s.session t).client ∧
      (s.session t).id = SessionId.ofParts (s.session t).client (UInt32.ofNat k)
  counter : ∀ no : ClientNo, no.value < s.clients.size →
    (s.client no).sessionCounter = UInt32.ofNat (s.sessionsOf (s.client no).id)
  unique : ∀ t u : SessionNo, t.value < s.sessions.size → u.value < s.sessions.size →
    (s.session t).id = (s.session u).id → t = u

/-- A client that has just been made has an identifier of its own, and so no session yet. -/
theorem Counted.sessionsOf_new (hs : s.Counted) (h : Update e s s') (he : e ≠ .sessionMade)
    (hs' : s'.Numbered) (hbounded : s'.Bounded) {no : ClientNo} (hnew : s.clients.size ≤ no.value)
    (hno : no.value < s'.clients.size) : s'.sessionsOf (s'.client no).id = 0 := by
  rw [h.sessionsOf_eq he]
  refine List.countP_eq_zero.2 fun n hn hclient => ?_
  obtain ⟨owner, howner, hid⟩ := hs.owned ⟨n⟩ (List.mem_range.1 hn)
  have hsame : (s'.client owner).id = (s'.client no).id := by
    rw [h.client_id_eq howner, ← hid]
    exact of_decide_eq_true hclient
  have heq := hs'.client_ext hbounded.clients
    (Nat.lt_of_lt_of_le howner h.clients_size_le) hno hsame
  rw [heq] at howner
  omega

/-- As long as none is made, sessions keep identifiers of their own. -/
theorem counted_of_ne (h : Update e s s') (he : e ≠ .sessionMade) (hs' : s'.Numbered)
    (hbounded : s'.Bounded) (hs : s.Counted) : s'.Counted := by
  have hsize := h.sessions_size_eq he
  constructor
  · intro t ht
    rw [hsize] at ht
    obtain ⟨no, hno, hclient⟩ := hs.owned t ht
    refine ⟨no, Nat.lt_of_lt_of_le hno h.clients_size_le, ?_⟩
    rw [h.session_client_eq ht, h.client_id_eq hno, hclient]
  · intro t ht
    rw [hsize] at ht
    rw [h.session_client_eq ht, h.session_id_eq ht, h.sessionsOf_eq he]
    exact hs.numbered t ht
  · intro no hno
    rcases Nat.lt_or_ge no.value s.clients.size with hold | hnew
    · rw [h.client_id_eq hold, h.sessionsOf_eq he, ← hs.counter no hold]
      rcases h.client_update hold with hsame | hupdate | ⟨hmade, _⟩
      · rw [hsame]
      · exact hupdate.sessionCounter_eq
      · exact absurd hmade he
    -- a new client counts from zero, and no session bears its identifier yet
    · obtain ⟨_, _, _, _, hrecord⟩ := h.client_new hnew hno
      rw [hs.sessionsOf_new h he hs' hbounded hnew hno, hrecord]
      rfl
  · intro t u ht hu hid
    rw [hsize] at ht hu
    rw [h.session_id_eq ht, h.session_id_eq hu] at hid
    exact hs.unique t u ht hu hid

/-- The number of the next session of a client, as long as the counter has not wrapped. -/
theorem Counted.nextSessionId_eq (hs : s.Counted) {no : ClientNo} (hno : no.value < s.clients.size) :
    (s.client no).nextSessionId.1 =
      SessionId.ofParts (s.client no).id (UInt32.ofNat (s.sessionsOf (s.client no).id + 1)) := by
  show SessionId.ofParts (s.client no).id ((s.client no).sessionCounter + 1) = _
  rw [hs.counter no hno]
  exact congrArg (SessionId.ofParts _) (UInt32.ofNat_add _ 1).symm

/-- The next session of a client has an identifier that no session has. -/
theorem Counted.nextSessionId_ne (hs : s.Counted) {no : ClientNo} (hno : no.value < s.clients.size)
    (hbound : s.sessionsOf (s.client no).id + 1 < UInt32.size) {t : SessionNo}
    (ht : t.value < s.sessions.size) : (s.session t).id ≠ (s.client no).nextSessionId.1 := by
  intro hid
  obtain ⟨k, hk, hnumbered⟩ := hs.numbered t ht
  rw [hnumbered, hs.nextSessionId_eq hno] at hid
  injection hid with hclient _ hcounter
  have hcounter := congrArg UInt32.toNat hcounter
  rw [hclient] at hk
  simp only [UInt32.toNat_ofNat'] at hcounter
  unfold UInt32.size at hbound
  omega

/-- A session that has just been made is the last one. -/
theorem eq_nextNo_or_lt {t : SessionNo} {n : ClientNo} {attributes : ChannelAttributes}
    (ht : t.value < (s.withSession n attributes).sessions.size) :
    t = s.sessions.nextNo ∨ t ≠ s.sessions.nextNo ∧ t.value < s.sessions.size := by
  rw [sessions_size_withSession] at ht
  by_cases hlast : t = s.sessions.nextNo
  · exact .inl hlast
  · refine .inr ⟨hlast, Nat.lt_of_le_of_ne (Nat.lt_succ_iff.1 ht) fun hsize => hlast ?_⟩
    obtain ⟨m⟩ := t
    exact congrArg Serial.mk hsize

/-- A new session bears an identifier that none has had, until the counter wraps. -/
theorem counted_sessionMade (h : Update .sessionMade s s') (hrouted : s.Routed) (hnumbered : s.Numbered)
    (hbounded : s'.Bounded) (hs : s.Counted) : s'.Counted := by
  have hbefore := hbounded.of_update h
  obtain ⟨_, client, attributes, hregistered, rfl⟩ := h.session_made
  obtain ⟨hclient, _⟩ := hrouted.registered _ _ hregistered
  have hclient' := Nat.lt_of_lt_of_le hclient h.clients_size_le
  have hof := sessionsOf_withSession s client attributes
  have hone : (s.withSession client attributes).sessionsOf (s.client client).id =
      s.sessionsOf (s.client client).id + 1 := by
    rw [hof, if_pos rfl]
  have hbound := hbounded.sessions client hclient'
  rw [h.client_id_eq hclient, hone] at hbound
  constructor
  · intro t ht
    rcases eq_nextNo_or_lt ht with hlast | ⟨hne, hold⟩
    · refine ⟨client, hclient', ?_⟩
      rw [session_withSession, if_pos hlast, h.client_id_eq hclient]
      rfl
    · obtain ⟨no, hno, howner⟩ := hs.owned t hold
      refine ⟨no, Nat.lt_of_lt_of_le hno h.clients_size_le, ?_⟩
      rw [session_withSession, if_neg hne, h.client_id_eq hno, howner]
  · intro t ht
    rw [session_withSession]
    rcases eq_nextNo_or_lt ht with hlast | ⟨hne, hold⟩
    · rw [if_pos hlast]
      exact ⟨s.sessionsOf (s.client client).id + 1, Nat.le_of_eq hone.symm,
        hs.nextSessionId_eq hclient⟩
    · rw [if_neg hne]
      obtain ⟨k, hk, hid⟩ := hs.numbered t hold
      exact ⟨k, Nat.le_trans hk (h.sessionsOf_le _), hid⟩
  · intro no hno
    have hno : no.value < s.clients.size :=
      Nat.lt_of_lt_of_eq hno (h.clients_size_eq (by decide) (by decide))
    rw [h.client_id_eq hno, hof, client_withSession]
    by_cases hsame : no = client
    · rw [if_pos ⟨hsame, hclient⟩, if_pos (by rw [hsame]), hsame]
      show (s.client client).sessionCounter + 1 = _
      rw [hs.counter client hclient]
      exact (UInt32.ofNat_add _ 1).symm
    -- the count of another client stays, for its identifier is another one
    · have hother : (s.client client).id ≠ (s.client no).id := fun hid =>
        hsame (hnumbered.client_ext hbefore.clients hno hclient hid.symm)
      rw [if_neg fun h => hsame h.1, if_neg hother]
      exact hs.counter no hno
  · intro t u ht hu hid
    rw [session_withSession, session_withSession] at hid
    rcases eq_nextNo_or_lt ht with hlast | ⟨hne, hold⟩
    · rcases eq_nextNo_or_lt hu with hlast' | ⟨hne', hold'⟩
      · rw [hlast, hlast']
      · rw [if_pos hlast, if_neg hne'] at hid
        exact absurd hid.symm (hs.nextSessionId_ne hclient hbound hold')
    · rcases eq_nextNo_or_lt hu with hlast' | ⟨hne', hold'⟩
      · rw [if_neg hne, if_pos hlast'] at hid
        exact absurd hid (hs.nextSessionId_ne hclient hbound hold)
      · rw [if_neg hne, if_neg hne'] at hid
        exact hs.unique t u hold hold' hid

/-! ## Every run -/

/-- Identifiers lead to one record, if no counter has wrapped. -/
structure Identified (s : Server) : Prop where
  routed : s.Routed
  numbered : s.Numbered
  counted : s.Bounded → s.Counted

/-- Identifiers lead to one record after every update. -/
theorem identified_update (h : Update e s s') (he : e ≠ .entered) (hs : s.Identified) :
    s'.Identified := by
  have hnumbered := numbered_update h he hs.numbered
  -- counters only go up, so the bounds after the update are bounds before it
  refine ⟨routed_update h hs.routed, hnumbered, fun hbounded => ?_⟩
  have hcounted := hs.counted (hbounded.of_update h)
  by_cases hmade : e = .sessionMade
  · subst hmade
    exact counted_sessionMade h hs.routed hs.numbered hbounded hcounted
  · exact counted_of_ne h hmade hnumbered hbounded hcounted

theorem identified_start (timers : Bool) (config : Config) (store : Recovery.Store)
    (wall : WallTime) (now : Nat) : (start timers config store wall now).Identified := by
  obtain ⟨sweepDue, graceDue, hstart⟩ := start_eq timers config store wall now
  rw [hstart]
  -- there is neither a client nor a session yet
  have hnone {n : Nat} : ¬ n < 0 := Nat.not_lt_zero n
  refine ⟨routed_of_empty rfl rfl, ⟨rfl, ?_⟩, fun _ => ⟨?_, ?_, ?_, ?_⟩⟩
  · exact fun no hno => absurd hno hnone
  · exact fun t ht => absurd ht hnone
  · exact fun t ht => absurd ht hnone
  · exact fun no hno => absurd hno hnone
  · exact fun t _ ht => absurd ht hnone

/-- After every run in which no record is made outside the table, identifiers lead to one record. -/
theorem identified_performAll (timers : Bool) (config : Config) (store : Recovery.Store)
    (wall : WallTime) (now : Nat) {actions : List Action}
    (h : ∀ a ∈ actions, .entered ∉ a.effects) :
    ((start timers config store wall now).performAll actions).Identified := by
  refine performAll_preserve (fun a ha e he {s s'} hupdate => identified_update hupdate ?_)
    (identified_start timers config store wall now)
  intro hentered
  exact h a ha (hentered ▸ he)

end Server

end Leasehold

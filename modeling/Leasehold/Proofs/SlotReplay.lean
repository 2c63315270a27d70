import Leasehold.Proofs.SessionIdentity

/-!
# Proofs.SlotReplay — a request on a slot is carried out once

A slot keeps the number of the last request it let through, modulo 2^32, and the
reply to it. Along a run we keep a log beside it (`SlotLog`): how often a request
on the slot was let through, and the last reply since. The slot always holds what
its log says (`SlotLog.Agrees`), so the log decides what becomes of the next
request.

* `Request.exec_sequence` — what SEQUENCE answers and changes;
* `Server.unmoved_of_refused` — a refused SEQUENCE moves nothing;
* `Server.agrees_perform` — every action keeps slot and log in agreement;
* `Server.sequence_exactly_once` — after every run, a request is carried out if it
  is admitted and bears the next number, replayed if it bears the last one, and
  refused otherwise.
-/

namespace Leasehold

/-! ## Slots of a session -/

namespace Session

/-- A slot that is put is found under its number, and the others stay. -/
theorem slotAt_putSlot (t : Session) (i : UInt32) (slot : Slot) (j : UInt32) :
    (t.putSlot i slot).slotAt j = if i = j then slot else t.slotAt j := by
  unfold slotAt putSlot
  rw [Table.get?_insert]
  split
  · rfl
  · rfl

/-- Putting a slot back as it is changes none. -/
theorem slotAt_putSlot_self (t : Session) (i j : UInt32) :
    (t.putSlot i (t.slotAt i)).slotAt j = t.slotAt j := by
  rw [slotAt_putSlot]
  split
  · rename_i h
    rw [h]
  · rfl

/-- A slot that is asked for is one of the session, and accepts or refuses the number. -/
theorem acquire_eq (t : Session) (i seq : UInt32) :
    t.acquire i seq =
      if t.highestSlot < i then (.error (.badSlot i t.highestSlot), t)
      else match (t.slotAt i).acquire seq with
        | .error e => (.error e, t.putSlot i (t.slotAt i))
        | .ok (admission, slot) => (.ok admission, (t.putSlot i (t.slotAt i)).putSlot i slot) := by
  by_cases h : t.highestSlot < i
  · simp [acquire, slot, h]
  · cases haccepted : (t.slotAt i).acquire seq with
    | error e => simp [acquire, slot, h, haccepted]
    | ok accepted => simp [acquire, slot, h, haccepted]

/-- A reply is put on the slot if the session has it. -/
theorem reply_eq (t : Session) (i : UInt32) (data : Bytes) :
    t.reply i data =
      if t.highestSlot < i then .error (.badSlot i t.highestSlot)
      else .ok ((t.putSlot i (t.slotAt i)).putSlot i ((t.slotAt i).update data)) := by
  unfold reply slot
  by_cases h : t.highestSlot < i
  · simp only [if_pos h]
    rfl
  · simp only [if_neg h]
    rfl

/-- A request that a session refuses changes no slot and binds no connection. -/
theorem slotAt_of_acquire_error {t t' : Session} {i seq : UInt32} {e : Error}
    (h : t.acquire i seq = (.error e, t')) :
    (∀ j, t'.slotAt j = t.slotAt j) ∧ t'.bound = t.bound := by
  rw [acquire_eq] at h
  split at h
  · cases h
    exact ⟨fun _ => rfl, rfl⟩
  · split at h
    · cases h
      exact ⟨fun j => slotAt_putSlot_self t i j, rfl⟩
    · cases h

/-- A request that a session lets through changes its slot, and no other. -/
theorem slotAt_of_acquire_ok {t t' : Session} {i seq : UInt32} {admission : Admission}
    (h : t.acquire i seq = (.ok admission, t')) :
    ¬ t.highestSlot < i ∧ ∃ slot, (t.slotAt i).acquire seq = .ok (admission, slot) ∧
      ∀ j, t'.slotAt j = if i = j then slot else t.slotAt j := by
  rw [acquire_eq] at h
  split at h
  · cases h
  · rename_i hrange
    split at h
    · cases h
    · rename_i slot haccepted
      cases h
      refine ⟨hrange, slot, haccepted, fun j => ?_⟩
      rw [slotAt_putSlot, slotAt_putSlot_self]

/-- Connections make no difference to slots. -/
theorem slotAt_bindIfNone (t : Session) (c : Connection) (i : UInt32) :
    (t.bindIfNone c).slotAt i = t.slotAt i := by
  rw [Request.bindIfNone_eq]
  rfl

/-- The slots change only when they are asked for. -/
theorem Update.slotAt_eq {e : Effect} {t t' : Session} (h : Update e t t') (he : e ≠ .slotUsed)
    (i : UInt32) : t'.slotAt i = t.slotAt i := by
  cases h with
  | slotUsed => exact absurd rfl he
  | connected => rfl

end Session

/-! ## SEQUENCE, as a whole -/

/-- The server that has let a request on a session through: the lease of the client is renewed, and
the connection bound if it is the first. -/
def Server.letThrough (s : Server) (client : ClientNo) (no : SessionNo) (t : Session)
    (connection : Connection) : Server :=
  ((s.amendSession no fun _ => t).amendClient client (·.refreshLease s.now)).amendSession no
    (·.bindIfNone connection)

namespace Request

/-- A request is refused without a trace, refused by its slot, or let through. -/
theorem exec_sequence (id : SessionId) (slot seq operations : UInt32) (connection : Connection)
    (s : Server) :
    (sequence id slot seq operations connection).exec s =
      if s.running then
        match s.registered.get? id.client with
        | none => (.error .badSession, s)
        | some client =>
          match (s.client client).sessions.get? id with
          | none => (.error .badSession, s)
          | some no =>
            if (s.session no).attributes.maxOperations < operations then
              (.error (.tooManyOps operations (s.session no).attributes.maxOperations), s)
            else if s.leaseValid client then
              match (s.session no).acquire slot seq with
              | (.error e, t) => (.error e, s.amendSession no fun _ => t)
              | (.ok admission, t) =>
                (.ok ⟨client, no, slot, (s.session no).highestSlot, admission⟩,
                  s.letThrough client no t connection)
            else (.error (.expired (s.client client).id), s)
      else (.error .notRunning, s) := by
  unfold sequence clientBySession ensureRunning sessionOf
  simp only [exec_bind, exec_get]
  cases hrunning : s.running with
  | false => rfl
  | true =>
    cases hclient : s.registered.get? id.client with
    | none => simp [hclient]
    | some client =>
      cases hno : (s.client client).sessions.get? id with
      | none => simp [hclient, hno, exec_bind]
      | some no =>
        simp only [exec_pure, hclient, if_true, exec_bind, exec_get, hno, exec_ofExcept]
        unfold Session.checkCompound
        -- the bound on operations is checked first, and the lease before the slot
        by_cases hops : (s.session no).attributes.maxOperations < operations
        · simp only [if_pos hops]
        · simp only [if_neg hops]
          by_cases hvalid : s.leaseValid client = true
          · simp only [if_pos hvalid, exec_bind, exec_acquireSlot]
            generalize (s.session no).acquire slot seq = outcome
            obtain ⟨answer, t⟩ := outcome
            cases answer with
            | error e => rfl
            | ok admission => rfl
          · simp only [if_neg hvalid]
            rfl

/-- Either a request is refused before it comes to its slot, and nothing is changed, or its session
refuses it or lets it through. -/
theorem sequence_cases (id : SessionId) (slot seq operations : UInt32) (connection : Connection)
    (s : Server) :
    (∃ e, (sequence id slot seq operations connection).exec s = (.error e, s)) ∨
    ∃ client no, s.running = true ∧ s.registered.get? id.client = some client ∧
      (s.client client).sessions.get? id = some no ∧
      ¬ (s.session no).attributes.maxOperations < operations ∧ s.leaseValid client = true ∧
      ((∃ e t, (s.session no).acquire slot seq = (.error e, t) ∧
          (sequence id slot seq operations connection).exec s =
            (.error e, s.amendSession no fun _ => t)) ∨
        ∃ admission t, (s.session no).acquire slot seq = (.ok admission, t) ∧
          (sequence id slot seq operations connection).exec s =
            (.ok ⟨client, no, slot, (s.session no).highestSlot, admission⟩,
              s.letThrough client no t connection)) := by
  rw [exec_sequence]
  split
  · rename_i hrunning
    split
    · exact .inl ⟨_, rfl⟩
    · rename_i client hclient
      split
      · exact .inl ⟨_, rfl⟩
      · rename_i no hno
        split
        · exact .inl ⟨_, rfl⟩
        · rename_i hops
          split
          · rename_i hvalid
            refine .inr ⟨client, no, hrunning, hclient, hno, hops, hvalid, ?_⟩
            split
            · rename_i e t hacquire
              exact .inl ⟨e, t, hacquire, rfl⟩
            · rename_i admission t hacquire
              exact .inr ⟨admission, t, hacquire, rfl⟩
          · exact .inl ⟨_, rfl⟩
  · exact .inl ⟨_, rfl⟩

/-- A reply is put on the slot, or refused without a trace. -/
theorem exec_replyOn (session : SessionNo) (slot : UInt32) (data : Bytes) (s : Server) :
    (replyOn session slot data).exec s =
      match (s.session session).reply slot data with
      | .error e => (.error e, s)
      | .ok t => (.ok (), s.amendSession session fun _ => t) := by
  unfold replyOn
  simp only [exec_bind, exec_get, exec_ofExcept]
  cases (s.session session).reply slot data with
  | error e => rfl
  | ok t => rfl

end Request

/-! ## The log of a slot -/

/-- What was done on a slot: how many requests were let through, and the last reply since. -/
structure SlotLog where
  executed : Nat
  reply : Option Bytes
  deriving Repr, DecidableEq

namespace SlotLog

/-- The log of a slot that nobody used yet. -/
def empty : SlotLog := ⟨0, none⟩

/-- What a slot with this log holds. -/
def slot (log : SlotLog) (i : UInt32) : Slot := ⟨i, UInt32.ofNat log.executed, log.reply⟩

/-- What becomes of the last request if it is presented again. -/
def replay (log : SlotLog) : Admission :=
  match log.reply with
  | some reply => .replay reply
  | none => .replayUncached

/-- One more request was let through. -/
def execute (log : SlotLog) : SlotLog := ⟨log.executed + 1, none⟩

/-- What the answer to a SEQUENCE adds to the log of a slot. -/
def noteSequence (log : SlotLog) (no : SessionNo) (slot : UInt32) :
    Except Error Request.BoundRequest → SlotLog
  | .ok b => if b.session = no ∧ b.slot = slot ∧ b.admission = .execute then log.execute else log
  | .error _ => log

/-- What the answer to a reply on a slot adds to the log of the slot. -/
def noteReply (log : SlotLog) (data : Bytes) : Except Error Unit → SlotLog
  | .ok () => { log with reply := some data }
  | .error _ => log

/-- What an action on a server adds to the log of a slot. -/
def note (s : Server) (no : SessionNo) (slot : UInt32) (log : SlotLog) : Action → SlotLog
  | .sequence id i seq operations connection =>
    log.noteSequence no slot ((Request.sequence id i seq operations connection).exec s).1
  | .reply session i data =>
    if session = no ∧ i = slot ∧ no.value < s.sessions.size then
      log.noteReply data ((Request.replyOn session i data).exec s).1
    else log
  | _ => log

/-- The log of a slot after a run. -/
def after (no : SessionNo) (slot : UInt32) : Server → SlotLog → List Action → SlotLog
  | _, log, [] => log
  | s, log, a :: rest => after no slot (s.perform a) (log.note s no slot a) rest

/-- A slot lets the next number through, knows the last one, and refuses all others. -/
theorem acquire_slot (log : SlotLog) (i seq : UInt32) :
    (log.slot i).acquire seq =
      if seq = UInt32.ofNat log.executed then .ok (log.replay, log.slot i)
      else if seq = UInt32.ofNat (log.executed + 1) then .ok (.execute, log.execute.slot i)
      else .error (.seqMisordered (UInt32.ofNat (log.executed + 1)) seq) := by
  -- numbers are counted in the log, and come round in the slot
  have hnext : UInt32.ofNat log.executed + 1 = UInt32.ofNat (log.executed + 1) :=
    (UInt32.ofNat_add _ 1).symm
  unfold Slot.acquire slot replay execute
  simp only [hnext]
  split
  · cases log.reply with
    | none => rfl
    | some reply => rfl
  · split
    · rename_i hseq
      rw [hseq]
    · rfl

/-- The slot holds what the log says; a session that does not exist has an empty log. -/
def Agrees (log : SlotLog) (s : Server) (no : SessionNo) (slot : UInt32) : Prop :=
  if no.value < s.sessions.size then (s.session no).slotAt slot = log.slot slot else log = empty

end SlotLog

namespace Server

open SlotLog

variable {e : Effect} {s s' : Server} {no : SessionNo} {slot : UInt32} {log : SlotLog}

/-- A session that was not there before is a new one. -/
theorem Update.session_new (h : Update e s s') (hnew : s.sessions.size ≤ no.value)
    (hno : no.value < s'.sessions.size) :
    ∃ id client attributes, s'.session no = .new id client attributes := by
  by_cases hmade : e = .sessionMade
  · subst hmade
    obtain ⟨_, client, attributes, _, rfl⟩ := h.session_made
    rcases eq_nextNo_or_lt hno with hlast | ⟨_, hold⟩
    · rw [session_withSession, if_pos hlast]
      exact ⟨_, _, _, rfl⟩
    · omega
  · have hsize := h.sessions_size_eq hmade
    omega

/-- Slots change only when they are used. -/
theorem Update.slotAt_eq (h : Update e s s') (he : e ≠ .slotUsed) (hno : no.value < s.sessions.size)
    (i : UInt32) : (s'.session no).slotAt i = (s.session no).slotAt i := by
  rcases h.session_update hno with hsame | hupdate
  · rw [hsame]
  · exact hupdate.slotAt_eq he i

/-- A log goes on agreeing while its slot is not used. -/
theorem agrees_update (h : Update e s s') (he : e ≠ .slotUsed) (hs : log.Agrees s no slot) :
    log.Agrees s' no slot := by
  unfold SlotLog.Agrees at *
  rcases Nat.lt_or_ge no.value s.sessions.size with hold | hnew
  · rw [if_pos hold] at hs
    rw [if_pos (Nat.lt_of_lt_of_le hold h.sessions_size_le), h.slotAt_eq he hold]
    exact hs
  · rw [if_neg (Nat.not_lt.2 hnew)] at hs
    split
    · rename_i hno
      obtain ⟨_, _, _, hsession⟩ := h.session_new hnew hno
      rw [hsession, hs]
      rfl
    · exact hs

/-- Of a session that was made, the slot itself is what the log agrees with. -/
theorem agrees_iff (hno : no.value < s.sessions.size) :
    log.Agrees s no slot ↔ (s.session no).slotAt slot = log.slot slot := by
  unfold SlotLog.Agrees
  rw [if_pos hno]

/-- A log agrees as long as its slot holds the same. -/
theorem Agrees.of_slotAt_eq (hs : log.Agrees s no slot) (hsize : s'.sessions.size = s.sessions.size)
    (hslot : (s'.session no).slotAt slot = (s.session no).slotAt slot) : log.Agrees s' no slot := by
  unfold SlotLog.Agrees at *
  rw [hsize, hslot]
  exact hs

theorem sessions_size_amendSession (s : Server) (t : SessionNo) (f : Session → Session) :
    (s.amendSession t f).sessions.size = s.sessions.size :=
  Ledger.size_modify ..

theorem sessions_size_letThrough (s : Server) (client : ClientNo) (t : SessionNo) (u : Session)
    (connection : Connection) : (s.letThrough client t u connection).sessions.size = s.sessions.size := by
  unfold letThrough
  rw [sessions_size_amendSession]
  exact sessions_size_amendSession ..

theorem session_amendSession_of_lt {t : SessionNo} (ht : t.value < s.sessions.size)
    (f : Session → Session) (other : SessionNo) :
    (s.amendSession t f).session other =
      if other = t then f (s.session other) else s.session other := by
  rw [session_amendSession]
  simp only [ht, and_true]

/-- Whoever is let through changes the session that he came by, and no other. -/
theorem session_letThrough {t : SessionNo} (ht : t.value < s.sessions.size) (client : ClientNo)
    (u : Session) (connection : Connection) (other : SessionNo) :
    (s.letThrough client t u connection).session other =
      if other = t then u.bindIfNone connection else s.session other := by
  have hinner : ((s.amendSession t fun _ => u).amendClient client (·.refreshLease s.now)).session
      other = (s.amendSession t fun _ => u).session other := rfl
  have hsize : t.value <
      ((s.amendSession t fun _ => u).amendClient client (·.refreshLease s.now)).sessions.size :=
    Nat.lt_of_lt_of_eq ht (sessions_size_amendSession ..).symm
  unfold letThrough
  rw [session_amendSession_of_lt hsize, hinner, session_amendSession_of_lt ht]
  split
  · rfl
  · rfl

/-! ## Actions and the log -/

/-- What was done is never to be done again. -/
theorem replay_ne_execute (log : SlotLog) : log.replay ≠ .execute := by
  unfold SlotLog.replay
  split
  · exact nofun
  · exact nofun

/-- The log follows a request on the slot: it notes the ones that are let through as new. -/
theorem agrees_sequence (hrouted : s.Routed) (hs : log.Agrees s no slot) (id : SessionId)
    (i seq operations : UInt32) (connection : Connection) :
    (log.note s no slot (.sequence id i seq operations connection)).Agrees
      (s.after (Request.sequence id i seq operations connection)) no slot := by
  show (log.noteSequence no slot _).Agrees _ no slot
  rw [Request.after_eq_exec]
  rcases Request.sequence_cases id i seq operations connection s with
    ⟨e, hexec⟩ | ⟨client, t, _, hclient, ht, _, _, hacquired⟩
  · rw [hexec]
    exact hs
  · obtain ⟨hknown, _⟩ := hrouted.registered _ _ hclient
    obtain ⟨htsize, _⟩ := hrouted.sessions client hknown id t ht
    rcases hacquired with ⟨e, t', hacquire, hexec⟩ | ⟨admission, t', hacquire, hexec⟩
    · rw [hexec]
      refine Agrees.of_slotAt_eq hs (sessions_size_amendSession ..) ?_
      rw [session_amendSession_of_lt htsize]
      split
      · rename_i hsame
        rw [(Session.slotAt_of_acquire_error hacquire).1, hsame]
      · rfl
    · rw [hexec]
      obtain ⟨_, after, haccepted, hslots⟩ := Session.slotAt_of_acquire_ok hacquire
      -- the log notes the answer if it is about this slot, and only if it is to be carried out
      by_cases hthis : t = no ∧ i = slot
      · obtain ⟨rfl, rfl⟩ := hthis
        rw [agrees_iff htsize] at hs
        rw [hs, acquire_slot] at haccepted
        rw [agrees_iff (by rw [sessions_size_letThrough]; exact htsize), session_letThrough htsize, if_pos rfl,
          Session.slotAt_bindIfNone, hslots, if_pos rfl]
        unfold SlotLog.noteSequence
        split at haccepted
        · cases haccepted
          simp only [replay_ne_execute, and_false, if_false]
        · split at haccepted
          · cases haccepted
            simp only [and_self, if_true]
          · cases haccepted
      · have hother : ¬ (t = no ∧ i = slot ∧ admission = .execute) := fun h => hthis ⟨h.1, h.2.1⟩
        unfold SlotLog.noteSequence
        simp only [if_neg hother]
        refine Agrees.of_slotAt_eq hs (sessions_size_letThrough ..) ?_
        rw [session_letThrough htsize]
        split
        · rename_i hsame
          subst hsame
          rw [Session.slotAt_bindIfNone, hslots, if_neg fun h => hthis ⟨rfl, h⟩]
        · rfl

/-- The log follows a reply on the slot: it keeps the last one. -/
theorem agrees_reply (hs : log.Agrees s no slot) {session : SessionNo}
    (hsession : session.value < s.sessions.size) (i : UInt32) (data : Bytes) :
    (log.note s no slot (.reply session i data)).Agrees
      (s.after (Request.replyOn session i data)) no slot := by
  show (if session = no ∧ i = slot ∧ no.value < s.sessions.size then log.noteReply data _
    else log).Agrees _ no slot
  rw [Request.after_eq_exec, Request.exec_replyOn, Session.reply_eq]
  by_cases hrange : (s.session session).highestSlot < i
  · simp only [if_pos hrange]
    split
    · exact hs
    · exact hs
  · simp only [if_neg hrange]
    -- the slot of the log gets the reply, or another slot does
    by_cases hthis : session = no ∧ i = slot
    · obtain ⟨rfl, rfl⟩ := hthis
      rw [if_pos ⟨rfl, rfl, hsession⟩]
      rw [agrees_iff hsession] at hs
      rw [agrees_iff (Nat.lt_of_lt_of_eq hsession (sessions_size_amendSession ..).symm),
        session_amendSession_of_lt hsession, if_pos rfl, Session.slotAt_putSlot, if_pos rfl, hs]
      rfl
    · rw [if_neg fun h => hthis ⟨h.1, h.2.1⟩]
      refine Agrees.of_slotAt_eq hs (sessions_size_amendSession ..) ?_
      rw [session_amendSession_of_lt hsession]
      split
      · rename_i hsame
        subst hsame
        rw [Session.slotAt_putSlot, if_neg fun h => hthis ⟨rfl, h⟩, Session.slotAt_putSlot_self]
      · rfl

/-- An action that asks for no slot leaves every log as it is. -/
theorem agrees_of_chain {E : List Effect} (h : Chain E s s') (hE : .slotUsed ∉ E)
    (hs : log.Agrees s no slot) : log.Agrees s' no slot := by
  refine h.preserve (I := fun s => log.Agrees s no slot) (fun he hupdate => ?_) hs
  exact agrees_update hupdate fun hused => hE (hused ▸ he)

/-- Every action keeps slot and log in agreement. -/
theorem agrees_perform (hrouted : s.Routed) (hs : log.Agrees s no slot) (a : Action) :
    (log.note s no slot a).Agrees (s.perform a) no slot := by
  have hchain := chain_perform s a
  cases a with
  | sequence id i seq operations connection =>
    exact agrees_sequence hrouted hs id i seq operations connection
  | reply session i data =>
    unfold perform
    split
    · rename_i hknown
      exact agrees_reply hs (of_decide_eq_true hknown) i data
    · rename_i hunknown
      -- a reply to an unknown session is not noted, either
      have hnot : ¬ (session = no ∧ i = slot ∧ no.value < s.sessions.size) := fun h =>
        hunknown (decide_eq_true (h.1 ▸ h.2.2))
      show (if session = no ∧ i = slot ∧ no.value < s.sessions.size then log.noteReply data _
        else log).Agrees s no slot
      rw [if_neg hnot]
      exact hs
  | _ =>
    refine agrees_of_chain hchain ?_ hs
    dsimp only [Action.effects]
    decide

/-- Slot and log agree after every run in which no record is made outside the table. -/
theorem agrees_performAll (hs : s.Identified) (hlog : log.Agrees s no slot) {actions : List Action}
    (h : ∀ a ∈ actions, .entered ∉ a.effects) :
    (SlotLog.after no slot s log actions).Agrees (s.performAll actions) no slot := by
  induction actions generalizing s log with
  | nil => exact hlog
  | cons a rest ih =>
    have hnext : (s.perform a).Identified := by
      refine (chain_perform s a).preserve (fun he hupdate => identified_update hupdate ?_) hs
      intro hentered
      exact h a List.mem_cons_self (hentered ▸ he)
    exact ih hnext (agrees_perform hs.routed hlog a) fun b hb => h b (List.mem_cons_of_mem _ hb)

/-! ## Admission -/

/-- A request of so many operations on a slot is admitted: the server runs, the session is one of a
registered client with a valid lease, and operations and slot are within its limits. -/
def Admits (s : Server) (no : SessionNo) (slot operations : UInt32) : Prop :=
  s.running = true ∧ ∃ client, s.registered.get? (s.session no).id.client = some client ∧
    (s.client client).sessions.get? (s.session no).id = some no ∧
    operations ≤ (s.session no).attributes.maxOperations ∧ s.leaseValid client = true ∧
    slot ≤ (s.session no).highestSlot

/-- Every slot, every lease and every connection that is bound is as it was. -/
structure Unmoved (s s' : Server) : Prop where
  slots : ∀ no i, (s'.session no).slotAt i = (s.session no).slotAt i
  leases : ∀ no, (s'.client no).lease = (s.client no).lease
  bound : ∀ no, (s'.session no).bound = (s.session no).bound

theorem Unmoved.refl (s : Server) : Unmoved s s := ⟨fun _ _ => rfl, fun _ => rfl, fun _ => rfl⟩

/-- A request that is refused moves nothing, though its slot may count as used. -/
theorem unmoved_of_refused {id : SessionId} {i seq operations : UInt32} {connection : Connection}
    {e : Error}
    (h : (Request.sequence id i seq operations connection).exec s = (.error e, s')) :
    Unmoved s s' := by
  rcases Request.sequence_cases id i seq operations connection s with
    ⟨_, hexec⟩ | ⟨client, t, _, _, _, _, _, hacquired⟩
  · cases hexec.symm.trans h
    exact .refl s
  · rcases hacquired with ⟨_, t', hacquire, hexec⟩ | ⟨_, _, _, hexec⟩
    · cases hexec.symm.trans h
      -- a slot that was touched for the first time is as it would have been read
      obtain ⟨hslots, hbound⟩ := Session.slotAt_of_acquire_error hacquire
      refine ⟨fun no i => ?_, fun _ => rfl, fun no => ?_⟩
      · rw [session_amendSession]
        split
        · rename_i hsame
          rw [hsame.1, hslots]
        · rfl
      · rw [session_amendSession]
        split
        · rename_i hsame
          rw [hsame.1, hbound]
        · rfl
    · cases hexec.symm.trans h

/-- What became of a request that was not refused. -/
def admission? : Except Error Request.BoundRequest → Option Admission
  | .ok b => some b.admission
  | .error _ => none

/-- A request of which nothing became was refused. -/
theorem eq_error_of_admission?_eq_none {answer : Except Error Request.BoundRequest}
    (h : admission? answer = none) : ∃ e, answer = .error e := by
  cases answer with
  | ok b => cases h
  | error e => exact ⟨e, rfl⟩

/-- The log of its slot tells what becomes of a request that is admitted. -/
theorem admission?_of_admits (hno : no.value < s.sessions.size) (hlog : log.Agrees s no slot)
    {operations : UInt32} (hadmits : s.Admits no slot operations) (seq : UInt32)
    (connection : Connection) :
    admission? ((Request.sequence (s.session no).id slot seq operations connection).exec s).1 =
      if seq = UInt32.ofNat log.executed then some log.replay
      else if seq = UInt32.ofNat (log.executed + 1) then some .execute
      else none := by
  obtain ⟨hrunning, client, hclient, hsession, hops, hvalid, hrange⟩ := hadmits
  rw [agrees_iff hno] at hlog
  rw [Request.exec_sequence, if_pos hrunning]
  simp only [hclient, hsession]
  rw [if_neg (UInt32.not_lt.2 hops), if_pos hvalid, Session.acquire_eq,
    if_neg (UInt32.not_lt.2 hrange), hlog, acquire_slot]
  -- the last number again, the next number, or any other
  by_cases hlast : seq = UInt32.ofNat log.executed
  · simp only [if_pos hlast]
    rfl
  · simp only [if_neg hlast]
    by_cases hnext : seq = UInt32.ofNat (log.executed + 1)
    · simp only [if_pos hnext]
      rfl
    · simp only [if_neg hnext]
      rfl

/-- A request that is not admitted is refused: only the session leads from its identifier. -/
theorem admission?_of_not_admits (hrouted : s.Routed) (hcounted : s.Counted)
    (hno : no.value < s.sessions.size) {operations : UInt32} (hadmits : ¬ s.Admits no slot operations)
    (seq : UInt32) (connection : Connection) :
    admission? ((Request.sequence (s.session no).id slot seq operations connection).exec s).1 =
      none := by
  rcases Request.sequence_cases (s.session no).id slot seq operations connection s with
    ⟨_, hexec⟩ | ⟨client, t, hrunning, hclient, ht, hops, hvalid, hacquired⟩
  · rw [hexec]
    rfl
  · rcases hacquired with ⟨_, _, _, hexec⟩ | ⟨_, _, hacquire, _⟩
    · rw [hexec]
      rfl
    -- what is let through is admitted, on the one session that bears the identifier
    · exfalso
      obtain ⟨hknown, _⟩ := hrouted.registered _ _ hclient
      obtain ⟨htsize, hid, _⟩ := hrouted.sessions client hknown _ t ht
      obtain rfl : t = no := hcounted.unique t no htsize hno hid
      obtain ⟨hrange, _⟩ := Session.slotAt_of_acquire_ok hacquire
      exact hadmits ⟨hrunning, client, hclient, ht, UInt32.not_lt.1 hops, hvalid,
        UInt32.not_lt.1 hrange⟩

end Server

/-! ## What the log decides -/

/-- The action asks for a slot of a session. -/
def Action.AsksFor (s : Server) (no : SessionNo) (slot : UInt32) : Action → Prop
  | .sequence id i .. => id = (s.session no).id ∧ i = slot
  | .reply session i _ => session = no ∧ i = slot
  | _ => False

namespace SlotLog

open Server

/-- The log of a slot decides about the requests on it: the next one is carried out, the last one is
replayed, any other is refused and moves nothing; and what is not asked of the slot leaves it
alone. -/
structure Decides (log : SlotLog) (s : Server) (no : SessionNo) (slot : UInt32) : Prop where
  executes : ∀ seq operations connection,
    admission? ((Request.sequence (s.session no).id slot seq operations connection).exec s).1 =
        some .execute ↔
      s.Admits no slot operations ∧ seq = UInt32.ofNat (log.executed + 1)
  replays : ∀ seq operations connection, s.Admits no slot operations →
    seq = UInt32.ofNat log.executed →
    admission? ((Request.sequence (s.session no).id slot seq operations connection).exec s).1 =
      some log.replay
  refuses : ∀ seq operations connection,
    ¬ (s.Admits no slot operations ∧
      (seq = UInt32.ofNat (log.executed + 1) ∨ seq = UInt32.ofNat log.executed)) →
    ∃ e s', (Request.sequence (s.session no).id slot seq operations connection).exec s =
      (.error e, s') ∧ s.Unmoved s'
  others : ∀ a : Action, ¬ a.AsksFor s no slot →
    ((s.perform a).session no).slotAt slot = (s.session no).slotAt slot

variable {s : Server} {no : SessionNo} {slot : UInt32} {log : SlotLog}

/-- What does not ask for the slot leaves its log as it is. -/
theorem note_of_not_asksFor (hrouted : s.Routed) {a : Action} (h : ¬ a.AsksFor s no slot) :
    log.note s no slot a = log := by
  cases a with
  | sequence id i seq operations connection =>
    show log.noteSequence no slot _ = log
    rcases Request.sequence_cases id i seq operations connection s with
      ⟨_, hexec⟩ | ⟨client, t, _, hclient, ht, _, _, hacquired⟩
    · rw [hexec]
      rfl
    · rcases hacquired with ⟨_, _, _, hexec⟩ | ⟨_, _, _, hexec⟩
      · rw [hexec]
        rfl
      · rw [hexec]
        refine if_neg fun hthis => h ?_
        -- a session is found by its own identifier, so the log's would have been asked for
        obtain ⟨hknown, _⟩ := hrouted.registered _ _ hclient
        obtain ⟨_, hid, _⟩ := hrouted.sessions client hknown id t ht
        obtain ⟨rfl, rfl, _⟩ := hthis
        exact ⟨hid.symm, rfl⟩
  | reply session i data => exact if_neg fun hthis => h ⟨hthis.1, hthis.2.1⟩
  | _ => rfl

/-- A log that agrees with its slot decides about it. -/
theorem Agrees.decides (hlog : log.Agrees s no slot) (hrouted : s.Routed) (hcounted : s.Counted)
    (hno : no.value < s.sessions.size) : log.Decides s no slot := by
  have hdistinct : UInt32.ofNat (log.executed + 1) ≠ UInt32.ofNat log.executed := by
    intro h
    have h := congrArg UInt32.toNat h
    simp only [UInt32.toNat_ofNat'] at h
    omega
  constructor
  · intro seq operations connection
    by_cases hadmits : s.Admits no slot operations
    · rw [admission?_of_admits hno hlog hadmits]
      constructor
      · intro hexecute
        split at hexecute
        · exact absurd (Option.some.inj hexecute) (replay_ne_execute log)
        · split at hexecute
          · rename_i hseq
            exact ⟨hadmits, hseq⟩
          · cases hexecute
      · rintro ⟨_, rfl⟩
        rw [if_neg hdistinct, if_pos rfl]
    · rw [admission?_of_not_admits hrouted hcounted hno hadmits]
      exact iff_of_false nofun fun h => hadmits h.1
  · intro seq operations connection hadmits hseq
    rw [admission?_of_admits hno hlog hadmits, if_pos hseq]
  · intro seq operations connection hnot
    have hnone : admission?
        ((Request.sequence (s.session no).id slot seq operations connection).exec s).1 = none := by
      by_cases hadmits : s.Admits no slot operations
      · rw [admission?_of_admits hno hlog hadmits, if_neg fun h => hnot ⟨hadmits, .inr h⟩,
          if_neg fun h => hnot ⟨hadmits, .inl h⟩]
      · exact admission?_of_not_admits hrouted hcounted hno hadmits seq connection
    obtain ⟨e, he⟩ := eq_error_of_admission?_eq_none hnone
    have hexec : (Request.sequence (s.session no).id slot seq operations connection).exec s =
        (.error e, _) := Prod.ext he rfl
    exact ⟨e, _, hexec, unmoved_of_refused hexec⟩
  -- an action that notes nothing in the log leaves the slot that agrees with it
  · intro a ha
    have hafter := agrees_perform hrouted hlog a
    rw [note_of_not_asksFor hrouted ha] at hafter
    have hsize := Nat.lt_of_lt_of_le hno (chain_perform s a).sessions_size_le
    rw [agrees_iff hno] at hlog
    rw [agrees_iff hsize] at hafter
    rw [hafter, hlog]

end SlotLog

namespace Server

/-- After every run, as long as no counter has wrapped, the log of a slot decides about it: a request
is carried out exactly if it is admitted and bears the number after the one that was carried out
last, and is answered from the log if it bears that one. -/
theorem sequence_exactly_once (timers : Bool) (config : Config) (store : Recovery.Store)
    (wall : WallTime) (now : Nat) (actions : List Action) (h : ∀ a ∈ actions, .entered ∉ a.effects)
    (hbounded : ((start timers config store wall now).performAll actions).Bounded) (no : SessionNo)
    (hno : no.value < ((start timers config store wall now).performAll actions).sessions.size)
    (slot : UInt32) :
    (SlotLog.after no slot (start timers config store wall now) .empty actions).Decides
      ((start timers config store wall now).performAll actions) no slot := by
  have hidentified := identified_performAll timers config store wall now h
  have hempty : SlotLog.empty.Agrees (start timers config store wall now) no slot := by
    -- no session is there at the start, and the log is empty
    have hsessions : (start timers config store wall now).sessions = .empty := by
      cases timers <;> rfl
    have hnone : ¬ no.value < (Ledger.empty : Ledger .session Session).size := Nat.not_lt_zero _
    unfold SlotLog.Agrees
    rw [hsessions, if_neg hnone]
  have hlog := agrees_performAll (identified_start timers config store wall now) hempty h
  exact hlog.decides hidentified.routed (hidentified.counted hbounded) hno

/-- A request that is carried out, answered, and replayed when it comes again. -/
theorem sequence_carried_out_and_replayed :
    let session : SessionId := .ofParts ⟨1⟩ 1
    let actions : List Action := [.register (.ofOwner [1]), .createSession ⟨1⟩ 1 ⟨4, 16, 4, 0⟩,
      .sequence session 2 1 1 default, .reply ⟨0⟩ 2 [5], .sequence session 2 1 1 default]
    let s := (start false {} default ⟨0⟩).performAll actions
    let log := SlotLog.after ⟨0⟩ 2 (start false {} default ⟨0⟩) .empty actions
    (∀ a ∈ actions, .entered ∉ a.effects) ∧ s.Bounded ∧ (⟨0⟩ : SessionNo).value < s.sessions.size ∧
      log = ⟨1, some [5]⟩ ∧ s.Admits ⟨0⟩ 2 1 ∧ log.Decides s ⟨0⟩ 2 := by
  intro session actions s log
  have hactions : ∀ a ∈ actions, .entered ∉ a.effects := by decide +kernel
  have hclients : s.clients.size = 1 := by decide +kernel
  have hsessions : s.sessions.size = 1 := by decide +kernel
  have hno : (⟨0⟩ : SessionNo).value < s.sessions.size := by
    rw [hsessions]
    decide
  have hbounded : s.Bounded := by
    constructor
    · rw [hclients]
      decide
    · intro no _
      refine Nat.lt_of_le_of_lt (s.sessionsOf_le_size _) ?_
      rw [hsessions]
      decide
  have hdecides := sequence_exactly_once false {} default ⟨0⟩ 0 actions hactions hbounded ⟨0⟩ hno 2
  exact ⟨hactions, hbounded, hno, by decide +kernel, ⟨by decide +kernel, ⟨0⟩, by decide +kernel⟩,
    hdecides⟩

end Server

end Leasehold

import Leasehold.Proofs.Run

/-!
# Proofs.LeaseExpiry — what becomes of a lease that has ended

A lease that has ended is not renewed by a request that looks at it first. Two
things bring it back nevertheless: a session made for its client, which renews the
lease without a look at it, and so many milliseconds since the start that their
count wraps around in 64 bits (`Action.Revives`).

* `Server.leaseValid_perform_iff` — one action makes an ended lease valid exactly
  if it is one of these two;
* `Server.lease_valid_again_iff` — so a run makes it valid exactly if some action
  of the run does;
* `Server.Update.leaseLasts` — measured by a count that does not wrap, a lease that
  has ended stays so under every update but the renewal without a look.
-/

namespace Leasehold

/-! ## Leases -/

namespace Lease

/-- The end of the lease is still to come, by a count of milliseconds that never wraps. -/
def Lasts (l : Lease) (now : Nat) : Prop := (now - l.start) / 1_000_000 < l.expiry.toNat

variable {l : Lease} {now : Nat}

/-- The age of a lease is counted in whole milliseconds and in sixty-four bits. -/
theorem isValid_iff : l.isValid now = true ↔
    (now - l.start) / 1_000_000 % UInt64.size < l.expiry.toNat := by
  unfold isValid elapsed
  rw [decide_eq_true_iff, UInt64.lt_iff_toNat_lt, UInt64.toNat_ofNat']

/-- A lease that lasts is valid, whether or not its count has wrapped. -/
theorem isValid_of_lasts (h : l.Lasts now) : l.isValid now = true := by
  rw [isValid_iff]
  exact Nat.lt_of_le_of_lt (Nat.mod_le _ _) h

/-- Until the milliseconds wrap, the two readings of a lease agree. -/
theorem lasts_iff_isValid (h : (now - l.start) / 1_000_000 < UInt64.size) :
    l.Lasts now ↔ l.isValid now = true := by
  rw [isValid_iff, Nat.mod_eq_of_lt h]
  rfl

/-- Whatever lasts until later lasts now. -/
theorem Lasts.of_le {later : Nat} (hle : now ≤ later) (h : l.Lasts later) : l.Lasts now := by
  unfold Lasts at *
  omega

/-- The renewal of a valid lease gives no life to one that has ended. -/
theorem lasts_of_renew (hvalid : l.isValid now = true) (h : (l.renew now).Lasts now) :
    l.Lasts now := by
  have hbound : (now - l.start) / 1_000_000 < UInt64.size :=
    Nat.lt_trans h (UInt64.toNat_lt_size _)
  exact (lasts_iff_isValid hbound).2 hvalid

/-- The renewal of a lease that has ended brings it back if the new end is still to come. -/
theorem isValid_renew_iff (hended : l.isValid now = false) :
    (l.renew now).isValid now = true ↔ l.elapsed now < l.renewedExpiry now := by
  have hended : ¬ l.elapsed now < l.expiry := of_decide_eq_false hended
  unfold isValid
  rw [decide_eq_true_iff]
  show l.elapsed now < (if l.expiry < l.renewedExpiry now then _ else _) ↔ _
  split
  · exact Iff.rfl
  · rename_i hle
    constructor
    · intro h
      exact absurd h hended
    · intro h
      rw [UInt64.lt_iff_toNat_lt] at *
      omega

/-- A lease that has ended is valid later only if its milliseconds have wrapped. -/
theorem size_le_of_isValid {nanos : Nat} (hended : l.isValid now = false)
    (hvalid : l.isValid (now + nanos) = true) :
    UInt64.size ≤ (now + nanos - l.start) / 1_000_000 := by
  rcases Nat.lt_or_ge ((now + nanos - l.start) / 1_000_000) UInt64.size with hlt | hge
  · have hlasts : l.Lasts now :=
      ((lasts_iff_isValid hlt).2 hvalid).of_le (Nat.le_add_right now nanos)
    rw [isValid_of_lasts hlasts] at hended
    cases hended
  · exact hge

end Lease

/-- A lease that has ended changes only when it is renewed without a look at it. -/
theorem Client.Update.lease_eq_of_ended {now : Nat} {e : Effect} {c c' : Client}
    (h : Update now e c c') (hrevived : e ≠ .revived) (hended : c.isLeaseValid now = false) :
    c'.lease = c.lease := by
  by_cases hrenewed : e = .renewed
  · subst hrenewed
    cases h with
    | renewed _ hvalid =>
      rw [hended] at hvalid
      cases hvalid
  · exact h.lease_eq hrenewed hrevived

namespace Server

variable {E : List Effect} {e : Effect} {s s' : Server} {no : ClientNo}

/-- The end of a client's lease is still to come, by a count of milliseconds that never wraps. -/
def LeaseLasts (s : Server) (no : ClientNo) : Prop := (s.client no).lease.Lasts s.now

/-- A lease that lasts after an update has lasted before it. -/
theorem Update.leaseLasts (h : Update e s s') (he : e ≠ .revived) (hno : no.value < s.clients.size)
    (hlasts : s'.LeaseLasts no) : s.LeaseLasts no := by
  have hlasts : (s'.client no).lease.Lasts s.now := hlasts.of_le h.now_le
  by_cases hrenewed : e = .renewed
  -- a renewal needs a valid lease; one that lasts after it has not wrapped, so it lasted before
  · rcases h.client_update hno with hsame | hupdate | ⟨hmade, _⟩
    · rw [hsame] at hlasts
      exact hlasts
    · subst hrenewed
      generalize s'.client no = c' at *
      generalize hc : s.client no = c at *
      cases hupdate with
      | renewed _ hvalid =>
        unfold LeaseLasts
        rw [hc]
        exact Lease.lasts_of_renew hvalid hlasts
    · rw [hrenewed] at hmade
      cases hmade
  · rw [h.lease_eq hno hrenewed he] at hlasts
    exact hlasts

/-- While no time passes, a lease that has ended changes only by a renewal without a look at it. -/
theorem lease_eq_of_ended (h : Chain E s s') (hrevived : .revived ∉ E) (hpassed : .passed ∉ E)
    (hno : no.value < s.clients.size) (hended : s.leaseValid no = false) :
    (s'.client no).lease = (s.client no).lease := by
  -- the clock is kept beside the lease, so that an ended lease stays ended along the chain
  have hkept : no.value < s'.clients.size ∧ s'.now = s.now ∧
      (s'.client no).lease = (s.client no).lease := by
    refine h.preserve (I := fun s' => no.value < s'.clients.size ∧ s'.now = s.now ∧
      (s'.client no).lease = (s.client no).lease) ?_ ⟨hno, rfl, rfl⟩
    intro e a b he hupdate ⟨hsize, hnow, hlease⟩
    refine ⟨Nat.lt_of_lt_of_le hsize hupdate.clients_size_le, ?_, ?_⟩
    · rw [hupdate.now_eq fun h => hpassed (h ▸ he), hnow]
    · rcases hupdate.client_update hsize with hsame | hclient | ⟨hmade, _⟩
      · rw [hsame, hlease]
      · rw [hclient.lease_eq_of_ended (fun h => hrevived (h ▸ he)) ?_, hlease]
        unfold Client.isLeaseValid
        rw [hlease, hnow]
        exact hended
      · rw [hupdate.lease_eq hsize (by rw [hmade]; decide) (by rw [hmade]; decide), hlease]
  exact hkept.2.2

/-- The passing of time leaves leases as they are. -/
theorem lease_eq_of_elapsing (h : Chain Effect.elapsing s s') (hno : no.value < s.clients.size) :
    (s'.client no).lease = (s.client no).lease := by
  have hkept : no.value < s'.clients.size ∧ (s'.client no).lease = (s.client no).lease := by
    refine h.preserve (I := fun s' => no.value < s'.clients.size ∧
      (s'.client no).lease = (s.client no).lease) ?_ ⟨hno, rfl⟩
    intro e a b he hupdate ⟨hsize, hlease⟩
    refine ⟨Nat.lt_of_lt_of_le hsize hupdate.clients_size_le, ?_⟩
    rw [hupdate.lease_eq hsize, hlease]
    · exact fun h => absurd (h ▸ he) (by decide)
    · exact fun h => absurd (h ▸ he) (by decide)
  exact hkept.2

end Server

/-! ## What brings an ended lease back -/

/-- The action makes the lease of a client valid that has ended: it makes a session for the client,
or it lets so much time pass that the milliseconds of the lease wrap. -/
def Action.Revives (s : Server) (no : ClientNo) : Action → Prop
  | .createSession id seq _ =>
    s.running = true ∧ s.registered.get? id = some no ∧ seq = (s.client no).sessionSequence
      ∧ (s.client no).lease.elapsed s.now < (s.client no).lease.renewedExpiry s.now
  | .elapse nanos =>
    UInt64.size ≤ (s.now + nanos - (s.client no).lease.start) / 1_000_000
      ∧ (s.client no).isLeaseValid (s.now + nanos) = true
  | _ => False

namespace Server

variable {s : Server} {no : ClientNo}

/-- A session that is made leaves every lease but that of its client alone. -/
theorem lease_of_session_made (hno : no.value < s.clients.size) (client : ClientNo)
    (attributes : ChannelAttributes) :
    (((s.withSession client attributes).amendClient client
      (·.refreshLease s.now)).client no).lease =
        if no = client then (s.client no).lease.renew s.now else (s.client no).lease := by
  have hsize : (s.withSession client attributes).clients.size = s.clients.size :=
    Ledger.size_modify ..
  rw [client_amendClient, client_withSession, hsize]
  by_cases hclient : no = client
  · subst hclient
    rw [if_pos ⟨rfl, hno⟩, if_pos ⟨rfl, hno⟩, if_pos rfl]
    rfl
  · rw [if_neg fun h => hclient h.1, if_neg fun h => hclient h.1, if_neg hclient]

/-- A session made in turn is what revives a lease that has ended. -/
theorem leaseValid_createSession_iff (hno : no.value < s.clients.size)
    (hended : s.leaseValid no = false) (id : ClientId) (seq : UInt32) (asked : ChannelAttributes) :
    (s.perform (.createSession id seq asked)).leaseValid no = true ↔
      (Action.createSession id seq asked).Revives s no := by
  have hstays : ¬ s.leaseValid no = true := by
    rw [hended]
    decide
  show (((Request.createSession id seq asked).exec s).2).leaseValid no = true ↔ _
  rw [Request.exec_createSession]
  unfold Action.Revives
  split
  · rename_i hrunning
    split
    · rename_i hnone
      simp [hnone, hstays]
    · rename_i client hclient
      by_cases hseq : seq = (s.client client).sessionSequence
      -- a session that is made renews the lease of its own client without asking whether it has
      -- ended
      · have hlease := lease_of_session_made (s := s) hno client (Request.grantedAttributes s.config asked)
        rw [if_neg (not_not_intro hseq)]
        unfold leaseValid Client.isLeaseValid
        rw [hlease]
        by_cases hsame : no = client
        · subst hsame
          rw [if_pos rfl]
          refine (Lease.isValid_renew_iff hended).trans ⟨fun h => ?_, fun h => h.2.2.2⟩
          exact ⟨hrunning, hclient, hseq, h⟩
        · rw [if_neg hsame]
          refine iff_of_false hstays fun h => hsame ?_
          exact Option.some.inj (h.2.1.symm.trans hclient)
      · rw [if_pos hseq]
        refine iff_of_false hstays fun h => hseq ?_
        rw [h.2.2.1, Option.some.inj (hclient.symm.trans h.2.1)]
  · rename_i hrunning
    exact iff_of_false hstays fun h => hrunning h.1

/-- Time revives a lease only by making its count wrap. -/
theorem leaseValid_elapse_iff (hno : no.value < s.clients.size) (hended : s.leaseValid no = false)
    (nanos : Nat) :
    (s.perform (.elapse nanos)).leaseValid no = true ↔ (Action.elapse nanos).Revives s no := by
  show (s.elapse nanos).leaseValid no = true ↔ _
  unfold leaseValid Action.Revives Client.isLeaseValid
  rw [lease_eq_of_elapsing (chain_elapse s nanos) hno, now_elapse]
  exact ⟨fun h => ⟨Lease.size_le_of_isValid hended h, h⟩, fun h => h.2⟩

/-- The other actions look at a lease before they renew it, and take no time. -/
theorem leaseValid_perform_of_ended (hno : no.value < s.clients.size)
    (hended : s.leaseValid no = false) {a : Action} (hrevived : .revived ∉ a.effects)
    (hpassed : .passed ∉ a.effects) : ¬ (s.perform a).leaseValid no = true := by
  have hchain := chain_perform s a
  unfold leaseValid Client.isLeaseValid
  rw [lease_eq_of_ended hchain hrevived hpassed hno hended, hchain.now_eq hpassed]
  show ¬ s.leaseValid no = true
  rw [hended]
  decide

/-- An action makes an ended lease valid exactly if it is one of those that do. -/
theorem leaseValid_perform_iff (hno : no.value < s.clients.size) (hended : s.leaseValid no = false)
    (a : Action) : (s.perform a).leaseValid no = true ↔ a.Revives s no := by
  cases a with
  | createSession id seq asked => exact leaseValid_createSession_iff hno hended id seq asked
  | elapse nanos => exact leaseValid_elapse_iff hno hended nanos
  | _ =>
    refine iff_of_false (leaseValid_perform_of_ended hno hended ?_ ?_) id
    all_goals
      dsimp only [Action.effects]
      decide

/-- A lease that has ended is valid again at some point of a run exactly if some action of the run
is one of those that bring it back. -/
theorem lease_valid_again_iff (s : Server) {no : ClientNo} (hno : no.value < s.clients.size)
    (hended : s.leaseValid no = false) (actions : List Action) :
    (∃ n, (s.performAll (actions.take n)).leaseValid no = true) ↔
      ∃ before a rest, actions = before ++ a :: rest ∧ a.Revives (s.performAll before) no := by
  induction actions generalizing s with
  | nil =>
    constructor
    · rintro ⟨n, hn⟩
      rw [List.take_nil] at hn
      exact absurd hn (by rw [performAll, List.foldl_nil, hended]; decide)
    · rintro ⟨before, a, rest, h, _⟩
      cases before <;> cases h
  | cons first others ih =>
    have hsize : no.value < (s.perform first).clients.size :=
      Nat.lt_of_lt_of_le hno (chain_perform s first).clients_size_le
    have hfirst := leaseValid_perform_iff hno hended first
    -- either the first action brings the lease back, or the others start from an ended lease
    cases hvalid : (s.perform first).leaseValid no with
    | true =>
      constructor
      · intro _
        exact ⟨[], first, others, rfl, hfirst.1 hvalid⟩
      · intro _
        exact ⟨1, hvalid⟩
    | false =>
      rw [hvalid] at hfirst
      constructor
      · rintro ⟨n, hn⟩
        cases n with
        | zero => exact absurd hn (by rw [List.take_zero, performAll, List.foldl_nil, hended]; decide)
        | succ n =>
          obtain ⟨before, a, rest, rfl, hrevives⟩ := (ih _ hsize hvalid).1 ⟨n, hn⟩
          exact ⟨first :: before, a, rest, rfl, hrevives⟩
      · rintro ⟨before, a, rest, hsplit, hrevives⟩
        cases before with
        | nil =>
          cases hsplit
          exact absurd (hfirst.2 hrevives) (by decide)
        | cons b before =>
          cases hsplit
          obtain ⟨n, hn⟩ := (ih _ hsize hvalid).2 ⟨before, a, rest, rfl, hrevives⟩
          exact ⟨n + 1, hn⟩

/-- A client whose lease has ended lives again once a session is made for it. -/
theorem lease_valid_again_by_session :
    let s := (start false {} default ⟨0⟩).performAll
      [.register (.ofOwner [1]), .elapse 90_000_000_000]
    let again := [Action.createSession (s.client ⟨0⟩).id 1 default]
    0 < s.clients.size ∧ s.leaseValid ⟨0⟩ = false ∧
      ((∃ n, (s.performAll (again.take n)).leaseValid ⟨0⟩ = true) ↔
        ∃ before a rest, again = before ++ a :: rest ∧ a.Revives (s.performAll before) ⟨0⟩) :=
  ⟨by decide +kernel, by decide +kernel,
    lease_valid_again_iff _ (by decide +kernel) (by decide +kernel) _⟩

/-- The open of a client whose lease has ended is overridden by another client, and holds again
beside the open that overrode it once a session is made for its client. -/
theorem overridden_open_holds_again :
    let s := (start false {} default ⟨0⟩).performAll
      [.register (.ofOwner [1]), .nameOwner ⟨0⟩ [7] 0, .openFile ⟨0⟩ ⟨0⟩ ⟨[9]⟩ 3 3, .elapse 90_000_000_000,
        .register (.ofOwner [2]), .nameOwner ⟨1⟩ [7] 0, .openFile ⟨1⟩ ⟨1⟩ ⟨[9]⟩ 3 3]
    let s' := s.perform (.createSession (s.client ⟨0⟩).id 1 default)
    s.leaseValid ⟨0⟩ = false ∧ s'.leaseValid ⟨0⟩ = true ∧ s'.leaseValid ⟨1⟩ = true ∧
      (s'.opens.opens ⟨[9]⟩).map (fun r => (r.client, r.mode)) =
        [(⟨0⟩, ⟨3, 3⟩), (⟨1⟩, ⟨3, 3⟩)] := by
  decide +kernel

end Server

end Leasehold

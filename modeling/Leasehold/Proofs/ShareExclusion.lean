import Leasehold.Proofs.LeaseExpiry

/-!
# Proofs.ShareExclusion — share reservations exclude one another

Two opens of a file may stand beside one another if they are of different owners
and, while both their clients' leases last, neither takes what the other denies
(`OpenRecord.Beside`). The check of a new mode looks at the mode that is asked
for and not at the one that it is merged into; the invariant fills the gap, for
the mode that was held before was compatible, too.

* `Server.apart_update` — every update but the renewal of an ended lease keeps the
  opens of every file apart;
* `Server.shares_exclude` — so they are apart after every run without one.
-/

namespace Leasehold

/-! ## Modes -/

/-- Two words have no bit in common exactly if no bit of the one is in the other. -/
theorem bits_apart_iff (a b : UInt32) :
    a &&& b = 0 ↔ ∀ i, a.toBitVec.getLsbD i = true → b.toBitVec.getLsbD i = false := by
  rw [← UInt32.toBitVec_inj, UInt32.toBitVec_and]
  constructor
  · intro h i ha
    have hbit := congrArg (·.getLsbD i) h
    simpa [ha] using hbit
  · intro h
    apply BitVec.eq_of_getLsbD_eq
    intro i _
    have hbit := h i
    simp only [BitVec.getLsbD_and, UInt32.toBitVec_zero, BitVec.getLsbD_zero]
    grind

/-- Nothing of a word is outside another exactly if every bit of the one is in the other. -/
theorem bits_within_iff (a b : UInt32) :
    a &&& ~~~b = 0 ↔ ∀ i, a.toBitVec.getLsbD i = true → b.toBitVec.getLsbD i = true := by
  rw [bits_apart_iff]
  refine forall_congr' fun i => imp_congr_right fun ha => ?_
  have hlt : i < 32 := BitVec.lt_of_getLsbD ha
  simp [hlt]

namespace ShareMode

variable {a b c : ShareMode}

/-- Two modes are compatible if neither takes what the other one denies. -/
theorem not_conflictsWith_iff :
    a.conflictsWith b = false ↔ a.access &&& b.deny = 0 ∧ a.deny &&& b.access = 0 := by
  unfold conflictsWith
  rw [Bool.or_eq_false_iff, bne_eq_false_iff_eq, bne_eq_false_iff_eq]

/-- What conflicts with neither of two modes does not conflict with their union. -/
theorem not_conflictsWith_union (ha : a.conflictsWith c = false) (hb : b.conflictsWith c = false) :
    (a.union b).conflictsWith c = false := by
  rw [not_conflictsWith_iff, bits_apart_iff, bits_apart_iff] at *
  have hbit {x y : UInt32} {i : Nat} (h : (x ||| y).toBitVec.getLsbD i = true) :
      x.toBitVec.getLsbD i = true ∨ y.toBitVec.getLsbD i = true := by
    rw [UInt32.toBitVec_or, BitVec.getLsbD_or, Bool.or_eq_true] at h
    exact h
  exact ⟨fun i hi => (hbit hi).elim (ha.1 i) (hb.1 i), fun i hi => (hbit hi).elim (ha.2 i) (hb.2 i)⟩

/-- What does not conflict with a mode does not conflict with a part of it. -/
theorem not_conflictsWith_of_isSubsetOf (hsub : a.isSubsetOf b = true)
    (hb : b.conflictsWith c = false) : a.conflictsWith c = false := by
  unfold isSubsetOf at hsub
  rw [Bool.and_eq_true, beq_iff_eq, beq_iff_eq, bits_within_iff, bits_within_iff] at hsub
  rw [not_conflictsWith_iff, bits_apart_iff, bits_apart_iff] at *
  exact ⟨fun i hi => hb.1 i (hsub.1 i hi), fun i hi => hb.2 i (hsub.2 i hi)⟩

end ShareMode

/-! ## Opens beside one another -/

namespace OpenRecord

/-- Two opens that may stand on one file: they are of different owners, and while both their
clients' leases last, neither takes what the other denies. -/
structure Beside (lasts : ClientNo → Prop) (a b : OpenRecord) : Prop where
  other_owner : ¬ (a.clientId = b.clientId ∧ a.owner = b.owner)
  no_conflict : lasts a.client → lasts b.client → a.mode.conflictsWith b.mode = false

variable {lasts lasts' : ClientNo → Prop} {a b : OpenRecord}

/-- Which of two opens is named first makes no difference. -/
theorem Beside.symm (h : Beside lasts a b) : Beside lasts b a where
  other_owner := fun hsame => h.other_owner ⟨hsame.1.symm, hsame.2.symm⟩
  no_conflict := fun hb ha => (ShareMode.conflictsWith_comm ..).trans (h.no_conflict ha hb)

theorem isOf_iff (r : OpenRecord) (client : ClientId) (owner : Bytes) :
    r.isOf client owner = true ↔ r.clientId = client ∧ r.owner = owner := by
  unfold isOf
  rw [Bool.and_eq_true, beq_iff_eq, beq_iff_eq]

theorem isState_iff (r : OpenRecord) (client : ClientId) (key : StateKey) :
    r.isState client key = true ↔ r.clientId = client ∧ r.key = key := by
  unfold isState
  rw [Bool.and_eq_true, beq_iff_eq, beq_iff_eq]

/-- A mode that an open can go back to: it takes something and is a part of the mode that the open
has, and both its access and what it denies were granted before. -/
structure Permits (r : OpenRecord) (mode : ShareMode) : Prop where
  access : mode.access ≠ 0
  subset : mode.isSubsetOf r.mode = true
  seen_access : r.seen.hasAccess mode.access = true
  seen_deny : r.seen.hasDeny mode.deny = true

end OpenRecord

namespace OpenTable

open OpenRecord

variable {t : OpenTable} {file : FileId} {client : ClientId} {owner : Bytes} {mode : ShareMode}

/-- A mode that is let in conflicts with no open of another owner whose lease is valid. -/
theorem not_conflictsWith_of_check {leaseValid : ClientNo → Bool}
    (hcheck : t.conflict? file leaseValid client owner mode = none) {r : OpenRecord}
    (hr : r ∈ t.opens file) (hother : ¬ (r.clientId = client ∧ r.owner = owner))
    (hvalid : leaseValid r.client = true) : r.mode.conflictsWith mode = false := by
  have hpass := List.find?_eq_none.1 hcheck r hr
  have hisOf : r.isOf client owner = false := by
    rw [Bool.eq_false_iff, Ne, isOf_iff]
    exact hother
  simpa [hisOf, hvalid] using hpass

/-- The open that is amended is the first that passes the test. -/
theorem mem_amendFirst {p : OpenRecord → Bool} {f : OpenRecord → OpenRecord} {rs : List OpenRecord}
    {x : OpenRecord} (h : x ∈ amendFirst p f rs) :
    x ∈ rs ∨ ∃ r, rs.find? p = some r ∧ x = f r := by
  -- on the list, as far as the first record that is meant
  induction rs with
  | nil => cases h
  | cons r rest ih =>
    unfold amendFirst at h
    by_cases hp : p r = true
    · rw [if_pos hp] at h
      rcases List.mem_cons.1 h with hx | hx
      · exact .inr ⟨r, List.find?_cons_of_pos hp, hx⟩
      · exact .inl (List.mem_cons_of_mem _ hx)
    · rw [if_neg hp] at h
      rw [List.find?_cons_of_neg hp]
      rcases List.mem_cons.1 h with hx | hx
      · exact .inl (hx ▸ List.mem_cons_self)
      · exact (ih hx).imp_left (List.mem_cons_of_mem _)

/-- Opens that are told from the one that is amended, before and after, stay as they are. -/
theorem filter_amendFirst {p q : OpenRecord → Bool} {f : OpenRecord → OpenRecord}
    {rs : List OpenRecord} (hf : ∀ r, rs.find? p = some r → q r = false ∧ q (f r) = false) :
    (amendFirst p f rs).filter q = rs.filter q := by
  induction rs with
  | nil => rfl
  | cons r rest ih =>
    unfold amendFirst
    by_cases hp : p r = true
    · obtain ⟨hbefore, hafter⟩ := hf r (List.find?_cons_of_pos hp)
      simp [hp, hbefore, hafter]
    · rw [List.find?_cons_of_neg hp] at hf
      simp only [hp, Bool.false_eq_true, if_false, List.filter_cons, ih hf]

/-- Opens stay beside one another if the one that is amended stays beside the others. -/
theorem pairwise_amendFirst {lasts : ClientNo → Prop} {p : OpenRecord → Bool}
    {f : OpenRecord → OpenRecord} {rs : List OpenRecord} (hrs : rs.Pairwise (Beside lasts))
    (hf : ∀ r, rs.find? p = some r → ∀ other ∈ rs, Beside lasts r other → Beside lasts (f r) other) :
    (amendFirst p f rs).Pairwise (Beside lasts) := by
  induction rs with
  | nil => exact .nil
  | cons r rest ih =>
    rw [List.pairwise_cons] at hrs
    obtain ⟨hr, hrest⟩ := hrs
    unfold amendFirst
    by_cases hp : p r = true
    · rw [if_pos hp, List.pairwise_cons]
      refine ⟨fun other hother => ?_, hrest⟩
      exact hf r (List.find?_cons_of_pos hp) other (List.mem_cons_of_mem _ hother) (hr other hother)
    · rw [if_neg hp, List.pairwise_cons]
      rw [List.find?_cons_of_neg hp] at hf
      constructor
      · intro other hother
        rcases mem_amendFirst hother with hmem | ⟨amended, hfound, rfl⟩
        · exact hr other hmem
        -- the amended open is behind this one, so being beside one another is turned round
        · have hbefore := hr amended (List.mem_of_find?_eq_some hfound)
          exact (hf amended hfound r List.mem_cons_self hbefore.symm).symm
      · exact ih hrest fun r' hr' other hother => hf r' hr' other (List.mem_cons_of_mem _ hother)

/-- The first open with the key is what is forgotten. -/
theorem remove?_eq_some {t' : OpenTable} {key : StateKey} (h : t.remove? file key = some t') :
    t' = t.setOpens file ((t.opens file).eraseP (·.key == key)) := by
  unfold remove? at h
  split at h
  · exact (Option.some.inj h).symm
  · cases h

/-- An open is given a mode that it permits, and is refused any other. -/
theorem downgrade_cases {key : StateKey} {r : OpenRecord}
    (hopen : t.openState? file client key = some r) (mode : ShareMode) :
    (r.Permits mode ∧ t.downgrade file client key mode = .ok (r.state,
      t.setOpens file (amendFirst (·.isState client key) ({ · with mode }) (t.opens file)))) ∨
    (¬ r.Permits mode ∧ ∃ fault, t.downgrade file client key mode = .error fault ∧
      fault ≠ .unknownOpen) := by
  unfold downgrade
  rw [hopen]
  dsimp only
  by_cases haccess : mode.access = 0
  · rw [if_pos haccess]
    exact .inr ⟨fun h => h.access haccess, _, rfl, nofun⟩
  rw [if_neg haccess]
  -- each check that fails is one that the open would have to pass to permit the mode
  cases hsub : mode.isSubsetOf r.mode with
  | false => exact .inr ⟨fun h => absurd (hsub.symm.trans h.subset) nofun, _, rfl, nofun⟩
  | true =>
  cases hseen : r.seen.hasAccess mode.access with
  | false => exact .inr ⟨fun h => absurd (hseen.symm.trans h.seen_access) nofun, _, rfl, nofun⟩
  | true =>
  cases hdeny : r.seen.hasDeny mode.deny with
  | false => exact .inr ⟨fun h => absurd (hdeny.symm.trans h.seen_deny) nofun, _, rfl, nofun⟩
  | true => exact .inl ⟨⟨haccess, hsub, hseen, hdeny⟩, rfl⟩

/-- A downgrade that is granted permits the mode, and sets nothing but that. -/
theorem downgrade_eq_ok {key : StateKey} {state : StateNo} {opens : OpenTable}
    (h : t.downgrade file client key mode = .ok (state, opens)) :
    ∃ r, t.openState? file client key = some r ∧ r.Permits mode ∧ r.state = state ∧
      opens = t.setOpens file (amendFirst (·.isState client key) ({ · with mode }) (t.opens file)) := by
  cases hopen : t.openState? file client key with
  | none =>
    unfold downgrade at h
    rw [hopen] at h
    cases h
  | some r =>
    rcases downgrade_cases hopen mode with ⟨hpermits, hok⟩ | ⟨-, _, herror, -⟩
    · rw [hok] at h
      injection h with h
      injection h with hstate hopens
      exact ⟨r, rfl, hpermits, hstate, hopens.symm⟩
    · rw [herror] at h
      cases h

end OpenTable

/-! ## The invariant -/

namespace Server

open OpenRecord

/-- Every open is one of a record that was handed out, and the opens of a file stand beside one
another. -/
structure Apart (s : Server) : Prop where
  known : ∀ file, ∀ r ∈ s.opens.opens file, r.client.value < s.clients.size
  beside : ∀ file, (s.opens.opens file).Pairwise (Beside s.LeaseLasts)

variable {e : Effect} {s s' : Server}

theorem apart_of_no_opens (h : s.opens = .empty) : s.Apart := by
  constructor
  · intro file r hr
    rw [h] at hr
    cases hr
  · intro file
    rw [h]
    exact .nil

/-- Opens of which none is touched stay apart: leases that have ended do not come back. -/
theorem Apart.of_opens_eq (hs : s.Apart) (hopens : s'.opens = s.opens)
    (hsize : s.clients.size ≤ s'.clients.size)
    (hlasts : ∀ no : ClientNo, no.value < s.clients.size → s'.LeaseLasts no → s.LeaseLasts no) :
    s'.Apart := by
  constructor
  · intro file r hr
    rw [hopens] at hr
    exact Nat.lt_of_lt_of_le (hs.known file r hr) hsize
  · intro file
    rw [hopens]
    refine (hs.beside file).imp_of_mem fun {a b} ha hb hab => ⟨hab.other_owner, ?_⟩
    intro hlastsa hlastsb
    exact hab.no_conflict (hlasts _ (hs.known file a ha) hlastsa) (hlasts _ (hs.known file b hb) hlastsb)

/-- Only the opens of the file that is changed have to be looked at. -/
theorem Apart.setOpens (hs : s.Apart) {file : FileId} {rs : List OpenRecord}
    (hknown : ∀ r ∈ rs, r.client.value < s.clients.size)
    (hbeside : rs.Pairwise (Beside s.LeaseLasts)) :
    Apart { s with opens := s.opens.setOpens file rs } := by
  constructor
  · intro other r hr
    -- opens of another file are where they were
    rw [OpenTable.opens_setOpens] at hr
    split at hr
    · exact hknown r hr
    · exact hs.known other r hr
  · intro other
    show ((s.opens.setOpens file rs).opens other).Pairwise (Beside s.LeaseLasts)
    rw [OpenTable.opens_setOpens]
    split
    · exact hbeside
    · exact hs.beside other

/-- An open that is amended stays the one of its client. -/
theorem Apart.known_amendFirst (hs : s.Apart) (file : FileId) {p : OpenRecord → Bool}
    {f : OpenRecord → OpenRecord} (hf : ∀ r, (f r).client = r.client) :
    ∀ r ∈ OpenTable.amendFirst p f (s.opens.opens file), r.client.value < s.clients.size := by
  intro r hr
  rcases OpenTable.mem_amendFirst hr with hmem | ⟨before, hfound, rfl⟩
  · exact hs.known file r hmem
  · rw [hf]
    exact hs.known file before (List.mem_of_find?_eq_some hfound)

/-- Opens that stand apart do so when one of them goes. -/
theorem apart_openForgotten (hs : s.Apart) {file : FileId} {key : StateKey} {opens : OpenTable}
    (h : s.opens.remove? file key = some opens) : Apart { s with opens } := by
  rw [OpenTable.remove?_eq_some h]
  refine hs.setOpens (fun r hr => ?_) ?_
  · exact hs.known file r (List.eraseP_subset hr)
  · exact (hs.beside file).sublist List.eraseP_sublist

/-- An open that is widened was checked against the others, and each part of its mode with it. -/
theorem apart_openWidened (hs : s.Apart) {file : FileId} {client : ClientId} {owner : Bytes}
    {mode : ShareMode} (hcheck : s.opens.conflict? file s.leaseValid client owner mode = none) :
    Apart { s with opens := s.opens.widen file client owner mode } := by
  refine hs.setOpens (hs.known_amendFirst file fun _ => rfl) ?_
  refine OpenTable.pairwise_amendFirst (hs.beside file) fun r hr other hother hbeside => ?_
  have howner := List.find?_some hr
  simp only [isOf_iff] at howner
  obtain ⟨rfl, rfl⟩ := howner
  refine ⟨hbeside.other_owner, fun hlasts hlasts' => ?_⟩
  -- the mode held before is compatible by the invariant, the mode asked for by the check
  refine ShareMode.not_conflictsWith_union (hbeside.no_conflict hlasts hlasts') ?_
  rw [ShareMode.conflictsWith_comm]
  exact OpenTable.not_conflictsWith_of_check hcheck hother hbeside.symm.other_owner
    (Lease.isValid_of_lasts hlasts')

/-- A new open was checked against the others. -/
theorem apart_openAdded (hs : s.Apart) {file : FileId} {r : OpenRecord}
    (hclient : r.client.value < s.clients.size)
    (hcheck : s.opens.conflict? file s.leaseValid r.clientId r.owner r.mode = none)
    (hnew : s.opens.openOf? file r.clientId r.owner = none) :
    Apart { s with opens := s.opens.add file r } := by
  refine hs.setOpens (fun r' hr' => ?_) ?_
  · rcases List.mem_append.1 hr' with hmem | hmem
    · exact hs.known file r' hmem
    · rw [List.mem_singleton.1 hmem]
      exact hclient
  · refine List.pairwise_append.2 ⟨hs.beside file, List.pairwise_singleton .., fun a ha b hb => ?_⟩
    rw [List.mem_singleton.1 hb]
    have hother : ¬ (a.clientId = r.clientId ∧ a.owner = r.owner) := by
      rw [← isOf_iff]
      exact List.find?_eq_none.1 hnew a ha
    -- a lease that lasts is valid, so the check has looked at the open
    refine ⟨hother, fun hlasts _ => ?_⟩
    exact OpenTable.not_conflictsWith_of_check hcheck ha hother (Lease.isValid_of_lasts hlasts)

/-- An open that takes and denies less is in nobody's way. -/
theorem apart_openLowered (hs : s.Apart) {file : FileId} {client : ClientId} {key : StateKey}
    {mode : ShareMode} {state : StateNo} {opens : OpenTable}
    (h : s.opens.downgrade file client key mode = .ok (state, opens)) : Apart { s with opens } := by
  obtain ⟨lowered, hlowered, hpermits, -, rfl⟩ := OpenTable.downgrade_eq_ok h
  refine hs.setOpens (hs.known_amendFirst file fun _ => rfl) ?_
  refine OpenTable.pairwise_amendFirst (hs.beside file) fun r hr other _ hbeside => ?_
  obtain rfl : lowered = r := Option.some.inj (hlowered.symm.trans hr)
  refine ⟨hbeside.other_owner, fun hlasts hlasts' => ?_⟩
  exact ShareMode.not_conflictsWith_of_isSubsetOf hpermits.subset (hbeside.no_conflict hlasts hlasts')

/-- Every update but the renewal of an ended lease keeps the opens of every file apart. -/
theorem apart_update (h : Update e s s') (he : e ≠ .revived) (hs : s.Apart) : s'.Apart := by
  -- said before the cases are split, for the updates that leave the opens alone
  have hsize := h.clients_size_le
  have hlasts (no : ClientNo) (hno : no.value < s.clients.size) := h.leaseLasts he hno
  cases h with
  | openForgotten _ file key opens h => exact apart_openForgotten hs h
  | openWidened _ file client owner mode hcheck => exact apart_openWidened hs hcheck
  | openAdded _ file r hclient hcheck hnew => exact apart_openAdded hs hclient hcheck hnew
  | openLowered _ file client key mode state opens h => exact apart_openLowered hs h
  | _ => exact hs.of_opens_eq rfl hsize hlasts

/-- After every run in which no ended lease is renewed, the opens of every file exclude one another
as long as the leases of their clients last; until the milliseconds of a lease wrap, that is as long
as it is valid. -/
theorem shares_exclude (timers : Bool) (config : Config) (store : Recovery.Store) (wall : WallTime)
    (now : Nat) (actions : List Action) (h : ∀ a ∈ actions, .revived ∉ a.effects) :
    let s := (start timers config store wall now).performAll actions
    (∀ file, (s.opens.opens file).Pairwise fun a b =>
      s.LeaseLasts a.client → s.LeaseLasts b.client →
        a.mode.access &&& b.mode.deny = 0 ∧ a.mode.deny &&& b.mode.access = 0) ∧
    ∀ no, (s.now - (s.client no).lease.start) / 1_000_000 < UInt64.size →
      (s.LeaseLasts no ↔ s.leaseValid no = true) := by
  intro s
  have hstart : (start timers config store wall now).Apart := by
    apply apart_of_no_opens
    cases timers <;> rfl
  have hapart : s.Apart := by
    -- step by step, since no step of the run revives a lease that has ended
    refine performAll_preserve (fun a ha e he {s s'} hupdate => apart_update hupdate ?_) hstart
    intro hrevived
    exact h a ha (hrevived ▸ he)
  constructor
  · intro file
    refine (hapart.beside file).imp fun {a b} hbeside ha hb => ?_
    exact ShareMode.not_conflictsWith_iff.1 (hbeside.no_conflict ha hb)
  · exact fun no hnow => Lease.lasts_iff_isValid hnow

/-- Two clients that have one file open: one takes what the other leaves. -/
theorem shares_exclude_beside_one_another :
    let actions : List Action := [.register (.ofOwner [1]), .nameOwner ⟨0⟩ [7] 0,
      .openFile ⟨0⟩ ⟨0⟩ ⟨[9]⟩ 3 0, .downgrade ⟨0⟩ ⟨⟨⟨1⟩, 257⟩, 0⟩ ⟨[9]⟩ 3 0, .elapse 80_000_000_000,
      .register (.ofOwner [2]), .nameOwner ⟨1⟩ [7] 0, .openFile ⟨1⟩ ⟨1⟩ ⟨[9]⟩ 1 0]
    let s := (start false {} default ⟨0⟩).performAll actions
    (∀ a ∈ actions, .revived ∉ a.effects) ∧
      (s.opens.opens ⟨[9]⟩).map (fun r => (r.client, r.mode, s.leaseValid r.client)) =
        [(⟨0⟩, ⟨3, 0⟩, true), (⟨1⟩, ⟨1, 0⟩, true)] ∧
      (∀ file, (s.opens.opens file).Pairwise fun a b =>
        s.LeaseLasts a.client → s.LeaseLasts b.client →
          a.mode.access &&& b.mode.deny = 0 ∧ a.mode.deny &&& b.mode.access = 0) ∧
      ∀ no, (s.now - (s.client no).lease.start) / 1_000_000 < UInt64.size →
        (s.LeaseLasts no ↔ s.leaseValid no = true) := by
  intro actions s
  have hactions : ∀ a ∈ actions, .revived ∉ a.effects := by decide +kernel
  exact ⟨hactions, by decide +kernel, shares_exclude false {} default ⟨0⟩ 0 actions hactions⟩

end Server

end Leasehold

import Mathlib.Data.List.Induction
import Mathlib.Data.List.Pairwise
import Leasehold.Proofs.OpenGrants

/-!
# Proofs.Downgrades — going back to what was granted

An open can go back to an access and to a deny value that were granted to it before,
if both are parts of what it has now. What was granted is not kept as such: every
value leaves a mark, the bit that it numbers, and a value above 31 leaves none. The
modes that a run granted to an open (`Server.grants`) say what its marks stand for,
however it was widened and lowered in between.

* `seenBits_and_seenBit_iff` — the marks tell of each value below 32 whether it is
  among those that left them, and of no larger value;
* `Server.recorded_happenAll` — after every run an open has the marks of the modes that
  it was granted;
* `Server.downgrades_to_granted_modes` — so it is lowered exactly to the parts of its
  mode whose values were granted and are below 32.
-/

namespace Leasehold

/-! ## Marks -/

/-- A value below 32 leaves its mark at the bit that it numbers. -/
theorem getLsbD_seenBit (value : UInt32) (i : Nat) :
    (seenBit value).toBitVec.getLsbD i = true ↔ value.toNat < 32 ∧ i = value.toNat := by
  unfold seenBit
  by_cases hvalue : value < 32
  · have hlt : value.toNat < 32 := hvalue
    -- a shift by less than the width is a single bit
    have hmark : (1 <<< value : UInt32).toBitVec = BitVec.twoPow 32 value.toNat := by
      apply BitVec.eq_of_toNat_eq
      have hshift := UInt32.toNat_shiftLeft 1 value
      rw [Nat.mod_eq_of_lt hlt, Nat.shiftLeft_eq] at hshift
      rw [BitVec.toNat_twoPow]
      simpa using hshift
    rw [if_pos hvalue, hmark, BitVec.getLsbD_twoPow]
    simp only [Bool.and_eq_true, decide_eq_true_eq]
    omega
  · have hge : ¬ value.toNat < 32 := hvalue
    rw [if_neg hvalue]
    simp [hge]

/-- The marks of values. -/
def seenBits (values : List UInt32) : UInt32 :=
  values.foldl (fun bits value => bits ||| seenBit value) 0

/-- The marks of one more value are one more mark. -/
theorem seenBits_concat (values : List UInt32) (value : UInt32) :
    seenBits (values ++ [value]) = seenBits values ||| seenBit value :=
  List.foldl_append ..

/-- A bit is set exactly for the values that were seen, as far as they have bits. -/
theorem getLsbD_seenBits (values : List UInt32) (i : Nat) :
    (seenBits values).toBitVec.getLsbD i = true ↔
      ∃ value ∈ values, value.toNat < 32 ∧ i = value.toNat := by
  -- value by value, in the order in which they were seen
  induction values using List.reverseRecOn with
  | nil => simp [seenBits]
  | append_singleton values value ih =>
    rw [seenBits_concat, UInt32.toBitVec_or, BitVec.getLsbD_or, Bool.or_eq_true, ih, getLsbD_seenBit]
    simp only [List.mem_append, List.mem_singleton, or_and_right, exists_or, exists_eq_left]

/-- The marks tell of a value below 32 whether it is among the values, and of no larger one. -/
theorem seenBits_and_seenBit_iff (values : List UInt32) (value : UInt32) :
    (seenBits values &&& seenBit value != 0) = true ↔ value < 32 ∧ value ∈ values := by
  rw [bne_iff_ne, ne_eq, bits_apart_iff]
  simp only [getLsbD_seenBits, not_forall, Bool.not_eq_false, getLsbD_seenBit, exists_prop]
  constructor
  · rintro ⟨i, ⟨other, hmem, -, rfl⟩, hlt, hsame⟩
    obtain rfl : other = value := UInt32.toNat_inj.1 hsame
    exact ⟨hlt, hmem⟩
  · rintro ⟨hlt, hmem⟩
    exact ⟨_, ⟨value, hmem, hlt, rfl⟩, hlt, rfl⟩

namespace SeenModes

/-- The marks of modes. -/
def ofModes (modes : List ShareMode) : SeenModes :=
  ⟨seenBits (modes.map (·.access)), seenBits (modes.map (·.deny))⟩

theorem ofModes_singleton (mode : ShareMode) : ofModes [mode] = .ofMode mode := by
  simp [ofModes, ofMode, seenBits]

/-- The marks of one more mode are added to those of the others. -/
theorem ofModes_concat (modes : List ShareMode) (mode : ShareMode) :
    ofModes (modes ++ [mode]) = (ofModes modes).add mode := by
  simp [ofModes, add, seenBits_concat]

/-- An access is marked exactly if it was granted and has a bit. -/
theorem hasAccess_ofModes_iff (modes : List ShareMode) (access : UInt32) :
    (ofModes modes).hasAccess access = true ↔ access < 32 ∧ ∃ m ∈ modes, m.access = access := by
  rw [← List.mem_map]
  exact seenBits_and_seenBit_iff ..

/-- A denial is marked exactly if it was granted and has a bit. -/
theorem hasDeny_ofModes_iff (modes : List ShareMode) (deny : UInt32) :
    (ofModes modes).hasDeny deny = true ↔ deny < 32 ∧ ∃ m ∈ modes, m.deny = deny := by
  rw [← List.mem_map]
  exact seenBits_and_seenBit_iff ..

end SeenModes

/-- Whatever a mode takes and denies, another does as well. -/
structure ShareMode.Within (a b : ShareMode) : Prop where
  access : ∀ i, a.access.toBitVec.getLsbD i = true → b.access.toBitVec.getLsbD i = true
  deny : ∀ i, a.deny.toBitVec.getLsbD i = true → b.deny.toBitVec.getLsbD i = true

theorem ShareMode.isSubsetOf_iff (a b : ShareMode) : a.isSubsetOf b = true ↔ a.Within b := by
  unfold isSubsetOf
  rw [Bool.and_eq_true, beq_iff_eq, beq_iff_eq, bits_within_iff, bits_within_iff]
  exact ⟨fun h => ⟨h.1, h.2⟩, fun h => ⟨h.access, h.deny⟩⟩

/-- What an open permits, by the modes that left its marks. -/
theorem OpenRecord.permits_iff {r : OpenRecord} {granted : List ShareMode}
    (hseen : r.seen = .ofModes granted) (mode : ShareMode) :
    r.Permits mode ↔ mode.access ≠ 0 ∧ mode.Within r.mode ∧
      (mode.access < 32 ∧ ∃ m ∈ granted, m.access = mode.access) ∧
      (mode.deny < 32 ∧ ∃ m ∈ granted, m.deny = mode.deny) := by
  rw [← ShareMode.isSubsetOf_iff, ← SeenModes.hasAccess_ofModes_iff, ← SeenModes.hasDeny_ofModes_iff,
    ← hseen]
  exact ⟨fun h => ⟨h.access, h.subset, h.seen_access, h.seen_deny⟩,
    fun h => ⟨h.1, h.2.1, h.2.2.1, h.2.2.2⟩⟩

/-- Of opens with different states, the one that is amended is told by its state. -/
theorem OpenTable.amendFirst_eq_map {p : OpenRecord → Bool} {f : OpenRecord → OpenRecord}
    {rs : List OpenRecord} {r : OpenRecord} (hstates : rs.Pairwise fun a b => a.state ≠ b.state)
    (hfound : rs.find? p = some r) :
    amendFirst p f rs = rs.map fun o => if o.state = r.state then f o else o := by
  induction rs with
  | nil => cases hfound
  | cons a rest ih =>
    rw [List.pairwise_cons] at hstates
    obtain ⟨ha, hrest⟩ := hstates
    unfold amendFirst
    by_cases hp : p a = true
    · rw [List.find?_cons_of_pos hp] at hfound
      -- the states of opens are distinct, so the rest of the list is left alone
      obtain rfl : a = r := Option.some.inj hfound
      have hsame : rest.map (fun o => if o.state = a.state then f o else o) = rest := by
        refine (List.map_congr_left fun o ho => ?_).trans (List.map_id _)
        exact if_neg (ha o ho).symm
      rw [if_pos hp, List.map_cons, if_pos rfl, hsame]
    · rw [List.find?_cons_of_neg hp] at hfound
      have hne : a.state ≠ r.state := ha r (List.mem_of_find?_eq_some hfound)
      rw [if_neg hp, List.map_cons, if_neg hne, ih hrest hfound]

namespace Server

open Request

variable {e : Effect} {s t : Server} {client : ClientNo} {owner : OwnerNo} {file : FileId}
  {log : FileId → StateNo → List ShareMode}

/-! ## What was granted -/

/-- The mode that a step grants to the open of a file that stands for a state: it opens the file for
the client and the owner whose open it is, and is not refused. -/
def grantOf? (s : Server) (file : FileId) (no : StateNo) : Step → Option ShareMode
  | .act (.openFile client owner opened access deny) =>
    let outcome := (Request.openFile client owner opened access deny).exec s
    let held := outcome.2.opens.openOf? file (s.client client).id (s.owner owner).name
    if Action.known s (.openFile client owner opened access deny) ∧ outcome.1.isOk ∧ opened = file ∧
      held.map (·.state) = some no then some (.ofRequest access deny) else none
  | _ => none

/-- The modes that a run grants to an open, oldest first. -/
def grants (s : Server) (file : FileId) (no : StateNo) : List Step → List ShareMode
  | [] => []
  | step :: rest => (s.grantOf? file no step).toList ++ (s.happen step).grants file no rest

/-- Every open has the marks of the modes that a log has for its state, and no state is in the log
before it is made. -/
structure Recorded (s : Server) (log : FileId → StateNo → List ShareMode) : Prop where
  seen : ∀ file, ∀ r ∈ s.opens.opens file, r.seen = .ofModes (log file r.state)
  fresh : ∀ file no, s.states.size ≤ no.value → log file no = []

/-- Opens that keep their states and their marks stay on record. -/
theorem Recorded.of_opens (hs : s.Recorded log) (hsize : s.states.size ≤ t.states.size)
    (hopens : ∀ file, ∀ r ∈ t.opens.opens file,
      ∃ before ∈ s.opens.opens file, r.state = before.state ∧ r.seen = before.seen) :
    t.Recorded log where
  seen := by
    intro file r hr
    obtain ⟨before, hbefore, hstate, hseen⟩ := hopens file r hr
    rw [hstate, hseen]
    exact hs.seen file before hbefore
  fresh := fun file no hno => hs.fresh file no (Nat.le_trans hsize hno)

/-- No update leaves a mark on an open but those that open a file. -/
theorem recorded_update (h : Update e s t) (he : e ∉ [.openAdded, .openWidened])
    (hs : s.Recorded log) : t.Recorded log := by
  simp only [List.mem_cons, List.not_mem_nil, or_false, not_or] at he
  refine hs.of_opens h.states_size_le ?_
  cases h with
  | openAdded => exact absurd rfl he.1
  | openWidened => exact absurd rfl he.2
  | openForgotten _ forgotten key opens h =>
    -- an open that is left was there before
    intro file r hr
    rw [OpenTable.remove?_eq_some h, OpenTable.opens_setOpens] at hr
    split at hr
    · rename_i hfile
      exact ⟨r, hfile ▸ List.eraseP_subset hr, rfl, rfl⟩
    · exact ⟨r, hr, rfl, rfl⟩
  | openLowered _ lowered _ _ _ _ _ h =>
    obtain ⟨_, _, _, _, hopens⟩ := OpenTable.downgrade_eq_ok h
    intro file r hr
    rw [hopens, OpenTable.opens_setOpens] at hr
    split at hr
    · rename_i hfile
      -- what is lowered has another mode but the same marks
      rcases OpenTable.mem_amendFirst hr with hold | ⟨before, hfound, rfl⟩
      · exact ⟨r, hfile ▸ hold, rfl, rfl⟩
      · exact ⟨before, hfile ▸ List.mem_of_find?_eq_some hfound, rfl, rfl⟩
    · exact ⟨r, hr, rfl, rfl⟩
  | _ => exact fun _ r hr => ⟨r, hr, rfl, rfl⟩

/-- Only opens that are added or widened get marks. -/
theorem recorded_chain {E : List Effect} (h : Chain E s t)
    (hE : ∀ e ∈ E, e ∉ [.openAdded, .openWidened]) (hs : s.Recorded log) : t.Recorded log :=
  h.preserve (fun he hupdate => recorded_update hupdate (hE _ he)) hs

/-- The open that a request grants has the marks from before and those of the mode that is granted. -/
theorem Recorded.granted {mode : ShareMode} {answer : Except Error StateId} {id : StateId}
    (hs : s.Recorded log) (hgrants : s.Grants client owner file mode answer t)
    (hok : answer = .ok id) :
    ∃ r, t.opens.openOf? file (s.client client).id (s.owner owner).name = some r ∧
      r.seen = .ofModes (log file r.state ++ [mode]) := by
  cases hopen : s.opens.openOf? file (s.client client).id (s.owner owner).name with
  | some r =>
    obtain ⟨hwidened, -⟩ := hgrants.widened id r hok hopen
    have hseen := hs.seen file r (List.mem_of_find?_eq_some hopen)
    refine ⟨_, hwidened, ?_⟩
    rw [SeenModes.ofModes_concat, ← hseen]
  | none =>
    obtain ⟨r, hadded, -, -, hseen, hstate, -⟩ := hgrants.added id hok hopen
    refine ⟨r, hadded, ?_⟩
    have hfresh : log file s.states.nextNo = [] := hs.fresh file _ (Nat.le_refl _)
    rw [hseen, hstate, hfresh]
    exact (SeenModes.ofModes_singleton _).symm

/-- Besides the open that a request grants there are those from before, which are of other states. -/
theorem Grants.mem_opens {mode : ShareMode} {answer : Except Error StateId} {r other : OpenRecord}
    {f : FileId} (hgrants : s.Grants client owner file mode answer t) (ht : t.Filed)
    (hr : t.opens.openOf? file (s.client client).id (s.owner owner).name = some r)
    (hother : other ∈ t.opens.opens f) :
    file = f ∧ other = r ∨ other ∈ s.opens.opens f ∧ ¬ (file = f ∧ r.state = other.state) := by
  by_cases hfile : file = f
  · subst hfile
    by_cases hsame : other = r
    · exact .inl ⟨rfl, hsame⟩
    · have hdistinct := (ht.distinct file).forall hother (List.mem_of_find?_eq_some hr) hsame
      have hpair := (r.isOf_iff _ _).1 (List.find?_some hr :)
      have hnot : (!other.isOf (s.client client).id (s.owner owner).name) = true := by
        rw [Bool.not_eq_true', Bool.eq_false_iff, Ne, OpenRecord.isOf_iff]
        rintro ⟨hid, hname⟩
        exact hdistinct.pair ⟨hid.trans hpair.1.symm, hname.trans hpair.2.symm⟩
      have hkept : other ∈ (t.opens.opens file).filter fun r =>
          !r.isOf (s.client client).id (s.owner owner).name := List.mem_filter.2 ⟨hother, hnot⟩
      rw [hgrants.others.1] at hkept
      exact .inr ⟨(List.mem_filter.1 hkept).1, fun h => hdistinct.state h.2.symm⟩
  · rw [hgrants.others.2 f (Ne.symm hfile)] at hother
    exact .inr ⟨hother, fun h => hfile h.1⟩

/-- Opening a file leaves the marks of the mode on the open that it grants, and on no other. -/
theorem recorded_openFile (hs : s.Recorded log) (hfiled : s.Filed) (access deny : UInt32)
    (hknown : Action.known s (.openFile client owner file access deny) = true) :
    (s.after (openFile client owner file access deny)).Recorded fun f no =>
      log f no ++ (s.grantOf? f no (.act (.openFile client owner file access deny))).toList := by
  have hclient : client.value < s.clients.size := by
    rw [Action.known, Bool.and_eq_true] at hknown
    exact of_decide_eq_true hknown.1
  have hgrants := hfiled.grants hclient owner file access deny
  have hfiled' := hfiled.openFile hclient owner file access deny
  have hsize := (chain_carryOut s _ hknown).states_size_le
  rw [after_eq_exec] at hfiled' ⊢
  cases hanswer : ((openFile client owner file access deny).exec s).1 with
  | error e =>
    have hnone (f : FileId) (no : StateNo) :
        s.grantOf? f no (.act (.openFile client owner file access deny)) = none := by
      simp [grantOf?, hanswer, Except.isOk, Except.toBool]
    rw [hgrants.refused e hanswer]
    simpa only [hnone, Option.toList_none, List.append_nil] using hs
  | ok id =>
    obtain ⟨r, hr, hseen⟩ := hs.granted hgrants hanswer
    have hsome (f : FileId) (no : StateNo) :
        s.grantOf? f no (.act (.openFile client owner file access deny)) =
          if file = f ∧ r.state = no then some (.ofRequest access deny) else none := by
      by_cases hfile : file = f
      · subst hfile
        simp [grantOf?, hknown, hanswer, hr, Except.isOk, Except.toBool]
      · simp [grantOf?, hfile]
    constructor
    · intro f other hother
      rcases hgrants.mem_opens hfiled' hr hother with ⟨rfl, rfl⟩ | ⟨hold, hapart⟩
      · rw [hsome, if_pos ⟨rfl, rfl⟩, hseen]
        rfl
      · rw [hsome, if_neg hapart, hs.seen f other hold, Option.toList_none, List.append_nil]
    · intro f no hno
      have hmem : r.core ∈ _ := List.mem_map_of_mem (List.mem_of_find?_eq_some hr)
      have hne : ¬ (file = f ∧ r.state = no) := by
        rintro ⟨-, rfl⟩
        exact absurd (hfiled'.owned file r.core hmem).1 (Nat.not_lt.2 hno)
      rw [hsome, if_neg hne, hs.fresh f no (Nat.le_trans hsize hno)]
      rfl

/-- The log grows with the marks: whatever a step grants is marked, and nothing else is. -/
theorem recorded_happen (hs : s.Recorded log) (hfiled : s.Filed) (step : Step) :
    (s.happen step).Recorded fun file no => log file no ++ (s.grantOf? file no step).toList := by
  -- what opens no file grants nothing
  have hrest {E : List Effect} (h : Chain E s (s.happen step))
      (hE : ∀ e ∈ E, e ∉ [.openAdded, .openWidened])
      (hnone : ∀ file no, s.grantOf? file no step = none) :
      (s.happen step).Recorded fun file no => log file no ++ (s.grantOf? file no step).toList := by
    simpa only [hnone, Option.toList_none, List.append_nil] using recorded_chain h hE hs
  cases step with
  | act a =>
    cases a with
    | openFile client owner file access deny =>
      cases hknown : Action.known s (.openFile client owner file access deny) with
      | true =>
        have hafter : s.happen (.act (.openFile client owner file access deny)) =
            s.after (openFile client owner file access deny) := if_pos hknown
        rw [hafter]
        exact recorded_openFile hs hfiled access deny hknown
      | false =>
        have hafter : s.happen (.act (.openFile client owner file access deny)) = s :=
          if_neg (Bool.eq_false_iff.1 hknown)
        rw [hafter]
        simpa [grantOf?, hknown] using hs
    | _ =>
      exact hrest (chain_perform s _) (by dsimp only [Action.effects]; decide) fun _ _ => rfl
  | endState no => exact hrest (does_endState (List.Subset.refl _) no s) (by decide) fun _ _ => rfl
  | endStateLeniently no =>
    exact hrest (does_endStateLeniently (List.Subset.refl _) no s) (by decide) fun _ _ => rfl

/-- After every run an open has the marks of the modes that the run granted to it. -/
theorem recorded_happenAll (hs : s.Recorded log) (hfiled : s.Filed) (steps : List Step) :
    (s.happenAll steps).Recorded fun file no => log file no ++ s.grants file no steps := by
  induction steps generalizing s log with
  | nil => simpa [grants, happenAll] using hs
  | cons step rest ih =>
    have hrest := ih (recorded_happen hs hfiled step) (filed_happen hfiled step)
    have hruns : s.happenAll (step :: rest) = (s.happen step).happenAll rest := rfl
    rw [hruns]
    simpa only [grants, List.append_assoc] using hrest

theorem recorded_start (timers : Bool) (config : Config) (store : Recovery.Store)
    (wall : WallTime) (now : Nat) : (start timers config store wall now).Recorded fun _ _ => [] := by
  obtain ⟨sweepDue, graceDue, hstart⟩ := start_eq timers config store wall now
  rw [hstart]
  exact ⟨fun file r hr => absurd hr List.not_mem_nil, fun _ _ _ => rfl⟩

/-! ## What is lowered -/

/-- What comes of a request that lowers an open to a mode, by the modes that the open was granted: the
answer, and the server after it. -/
structure Lowers (s : Server) (file : FileId) (r : OpenRecord) (granted : List ShareMode)
    (mode : ShareMode) (answer : Except Error StateId) (t : Server) : Prop where
  granted_iff : (∃ id, answer = .ok id) ↔ mode.access ≠ 0 ∧ mode.Within r.mode ∧
    (mode.access < 32 ∧ ∃ m ∈ granted, m.access = mode.access) ∧
    (mode.deny < 32 ∧ ∃ m ∈ granted, m.deny = mode.deny)
  /-- A refused request changes nothing. -/
  refused : ∀ e, answer = .error e → t = s ∧ ∃ text, e = .invalid text
  /-- The open gets the mode, whose state is counted on; all others stay as they are. -/
  lowered : ∀ id, answer = .ok id →
    t.opens.opens file =
      (s.opens.opens file).map (fun o => if o.state = r.state then { o with mode } else o) ∧
    (∀ other, other ≠ file → t.opens.opens other = s.opens.opens other) ∧
    id = (s.state r.state).id.bump ∧ t.state r.state = { s.state r.state with id }

/-- The mode that an open permits becomes its mode. -/
theorem Filed.lowers_of_permits (hs : s.Filed) {id : ClientId} {key : StateKey} {r : OpenRecord}
    {granted : List ShareMode} {mode : ShareMode} (hopen : s.opens.openState? file id key = some r)
    (hseen : r.seen = .ofModes granted) (hpermits : r.Permits mode) :
    let opens := s.opens.setOpens file
      (OpenTable.amendFirst (·.isState id key) ({ · with mode }) (s.opens.opens file))
    let t := ({ s with opens }).amendState r.state .bump
    s.Lowers file r granted mode (.ok (t.state r.state).id) t := by
  intro opens t
  have hstate : t.state r.state = (s.state r.state).bump :=
    hs.state_bumped (List.mem_of_find?_eq_some hopen) opens
  have hopens (other : FileId) : t.opens.opens other = if file = other then
      OpenTable.amendFirst (·.isState id key) ({ · with mode }) (s.opens.opens file)
      else s.opens.opens other :=
    OpenTable.opens_setOpens ..
  have hstates := (hs.distinct file).imp OpenRecord.Distinct.state
  rw [hstate]
  refine ⟨⟨fun _ => (OpenRecord.permits_iff hseen mode).1 hpermits, fun _ => ⟨_, rfl⟩⟩, nofun, ?_⟩
  rintro _ ⟨⟩
  refine ⟨?_, fun other hother => ?_, rfl, hstate⟩
  · rw [hopens, if_pos rfl]
    exact OpenTable.amendFirst_eq_map hstates hopen
  · rw [hopens, if_neg (Ne.symm hother)]

/-- A mode that an open does not permit is refused. -/
theorem lowers_of_not_permits {id : StateId} {r : OpenRecord} {granted : List ShareMode}
    {mode : ShareMode} {fault : DowngradeFault} (hseen : r.seen = .ofModes granted)
    (hnot : ¬ r.Permits mode) (hfault : fault ≠ .unknownOpen) :
    s.Lowers file r granted mode (.error (fault.toError id)) s where
  granted_iff := by
    constructor
    · rintro ⟨id, hid⟩
      cases hid
    · intro h
      exact absurd ((OpenRecord.permits_iff hseen mode).2 h) hnot
  refused := by
    rintro _ ⟨⟩
    refine ⟨rfl, ?_⟩
    cases fault with
    | unknownOpen => exact absurd rfl hfault
    | _ => exact ⟨_, rfl⟩
  lowered := nofun

/-- An open is lowered exactly to the modes that it permits. -/
theorem Filed.lowers (hs : s.Filed) {id : StateId} {r : OpenRecord} {granted : List ShareMode}
    (hopen : s.opens.openState? file (s.client client).id id.key = some r)
    (hseen : r.seen = .ofModes granted) (access deny : UInt32) :
    s.Lowers file r granted (.ofRequest access deny)
      ((downgrade client id file access deny).exec s).1
      ((downgrade client id file access deny).exec s).2 := by
  rw [exec_downgrade]
  rcases OpenTable.downgrade_cases hopen (.ofRequest access deny) with
    ⟨hpermits, hlowered⟩ | ⟨hnot, fault, hrefused, hfault⟩
  · rw [hlowered]
    exact hs.lowers_of_permits hopen hseen hpermits
  · rw [hrefused]
    exact lowers_of_not_permits hseen hnot hfault

/-- After every run, an open is lowered exactly to a part of its mode whose access and deny it was
granted along the run, each by some request; but a value above 31 counts as never granted. -/
theorem downgrades_to_granted_modes (timers : Bool) (config : Config) (store : Recovery.Store)
    (wall : WallTime) (now : Nat) (steps : List Step) (client : ClientNo) (id : StateId)
    (file : FileId)
    (r : OpenRecord)
    (hopen : let s := (start timers config store wall now).happenAll steps
      s.opens.openState? file (s.client client).id id.key = some r) (access deny : UInt32) :
    let s := (start timers config store wall now).happenAll steps
    let granted := (start timers config store wall now).grants file r.state steps
    let outcome := (Request.downgrade client id file access deny).exec s
    s.Lowers file r granted (.ofRequest access deny) outcome.1 outcome.2 := by
  intro s granted outcome
  have hstart := filed_start timers config store wall now
  have hfiled : s.Filed := filed_happenAll hstart steps
  have hrecorded := recorded_happenAll (recorded_start timers config store wall now) hstart steps
  exact hfiled.lowers hopen (hrecorded.seen file r (List.mem_of_find?_eq_some hopen)) access deny

/-- Two requests that read and write a file leave an open that does both, and that can go back to
reading, but not again to both: no request asked for it. -/
theorem downgrades_to_granted_modes_of_two :
    let steps : List Step := [.act (.register (.ofOwner [1])), .act (.nameOwner ⟨0⟩ [7] 0),
      .act (.openFile ⟨0⟩ ⟨0⟩ ⟨[9]⟩ 1 0), .act (.openFile ⟨0⟩ ⟨0⟩ ⟨[9]⟩ 0x102 2)]
    let s := (start false {} default ⟨0⟩).happenAll steps
    let id : StateId := ⟨⟨⟨1⟩, 257⟩, 0⟩
    let r : OpenRecord := ⟨⟨0⟩, ⟨1⟩, [7], ⟨0⟩, ⟨⟨1⟩, 257⟩, ⟨3, 2⟩, ⟨6, 5⟩⟩
    let granted := (start false {} default ⟨0⟩).grants ⟨[9]⟩ r.state steps
    let request := Request.downgrade ⟨0⟩ id ⟨[9]⟩ 1 2
    s.opens.openState? ⟨[9]⟩ (s.client ⟨0⟩).id id.key = some r ∧
      granted = [⟨1, 0⟩, ⟨2, 2⟩] ∧ (request.exec s).1.toOption = some ⟨⟨⟨1⟩, 257⟩, 2⟩ ∧
      ((Request.downgrade ⟨0⟩ id ⟨[9]⟩ 3 2).exec s).1.toOption = none ∧
      s.Lowers ⟨[9]⟩ r granted (.ofRequest 1 2) (request.exec s).1 (request.exec s).2 := by
  intro steps s id r granted request
  have hopen : s.opens.openState? ⟨[9]⟩ (s.client ⟨0⟩).id id.key = some r := by decide +kernel
  exact ⟨hopen, by decide +kernel, by decide +kernel, by decide +kernel,
    downgrades_to_granted_modes false {} default ⟨0⟩ 0 steps ⟨0⟩ id ⟨[9]⟩ r hopen 1 2⟩

/-- An open that was granted the access 32 cannot go back to it, although it has nothing else. -/
theorem downgrade_above_marks_refused :
    let steps : List Step := [.act (.register (.ofOwner [1])), .act (.nameOwner ⟨0⟩ [7] 0),
      .act (.openFile ⟨0⟩ ⟨0⟩ ⟨[9]⟩ 32 0)]
    let s := (start false {} default ⟨0⟩).happenAll steps
    let id : StateId := ⟨⟨⟨1⟩, 257⟩, 0⟩
    (s.opens.openState? ⟨[9]⟩ (s.client ⟨0⟩).id id.key).map (·.mode) = some ⟨32, 0⟩ ∧
      (start false {} default ⟨0⟩).grants ⟨[9]⟩ ⟨0⟩ steps = [⟨32, 0⟩] ∧
      ((Request.downgrade ⟨0⟩ id ⟨[9]⟩ 32 0).exec s).1.toOption = none := by
  intro steps s id
  exact ⟨by decide +kernel, by decide +kernel, by decide +kernel⟩

end Server

end Leasehold

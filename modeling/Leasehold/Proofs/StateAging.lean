import Mathlib.Control.Monad.Basic
import Mathlib.Logic.Function.Iterate
import Leasehold.Proofs.Serving

/-!
# Proofs.StateAging — which identifiers of a state are superseded

Each change of a state takes the number in its identifier one further. A new state
bears zero; from then on the numbers go round from one to the largest one, for zero is
kept for "the latest".

* `StateId.toNat_seqid_iterate_bump` — the number after so many changes;
* `Server.state_iterate_bumpState` — requests that count a change of a state count it
  on the record of the state;
* `Server.superseded_ids_are_told` — of the identifiers that a state has had in the
  present round every one is told from the latest, and of those that it has not had every
  one is taken for never issued;
* `Server.first_id_stays_current` — the identifier of the new state itself is never
  superseded.
-/

namespace Leasehold

namespace StateId

variable {current given : StateId}

/-! ## Presenting an identifier -/

/-- Zero stands for the most recent number. -/
theorem check_of_zero (h : given.seqid = 0) : current.check given = .ok () := by
  unfold check standing
  rw [if_pos h]

theorem check_of_eq (h : given.seqid = current.seqid) : current.check given = .ok () := by
  have hless : ¬ current.seqid < current.seqid := UInt32.lt_irrefl _
  unfold check standing
  rw [h, if_neg hless, if_neg hless, ite_self]

/-- A number that the state does not bear yet is none of its own. -/
theorem check_of_gt (h : current.seqid < given.seqid) :
    current.check given = .error (.badStateId given) := by
  have hzero : given.seqid ≠ 0 := fun hzero => UInt32.not_lt_zero (hzero ▸ h)
  unfold check standing
  rw [if_neg hzero, if_pos h]

/-- A number that the state has borne is told to be old. -/
theorem check_of_lt (hzero : given.seqid ≠ 0) (h : given.seqid < current.seqid) :
    current.check given = .error (.oldStateId given current.seqid) := by
  have hnotAhead : ¬ current.seqid < given.seqid := UInt32.lt_asymm h
  unfold check standing
  rw [if_neg hzero, if_neg hnotAhead, if_pos h]

/-- An identifier with a number is superseded exactly if its number is smaller. -/
theorem check_eq_oldStateId_iff (hzero : given.seqid ≠ 0) :
    current.check given = .error (.oldStateId given current.seqid) ↔
      given.seqid < current.seqid := by
  refine ⟨fun h => ?_, check_of_lt hzero⟩
  by_contra hnotBehind
  rcases UInt32.lt_or_eq_of_le (UInt32.not_lt.1 hnotBehind) with hahead | hsame
  · rw [check_of_gt hahead] at h
    cases h
  · rw [check_of_eq hsame.symm] at h
    cases h

/-! ## Counting changes -/

/-- How many numbers a state bears before they come round again: all but zero. -/
def numbersPerRound : Nat := UInt32.size - 1

theorem key_iterate_bump (id : StateId) (n : Nat) : (bump^[n] id).key = id.key := by
  induction n with
  | zero => rfl
  | succ n ih =>
    rw [Function.iterate_succ_apply']
    exact ih

/-- After the last number comes one, not zero. -/
theorem toNat_seqid_bump (id : StateId) :
    id.bump.seqid.toNat = id.seqid.toNat % numbersPerRound + 1 := by
  have hlt : id.seqid.toNat < 4294967296 := id.seqid.toNat_lt
  have hnext : (id.seqid + 1).toNat = (id.seqid.toNat + 1) % 4294967296 := UInt32.toNat_add ..
  unfold bump numbersPerRound UInt32.size
  by_cases hlargest : id.seqid + 1 = 0
  · have hzero : (id.seqid + 1).toNat = 0 := congrArg UInt32.toNat hlargest
    simp only [if_pos hlargest, UInt32.toNat_one]
    omega
  · have hpos : (id.seqid + 1).toNat ≠ 0 := fun hzero => hlargest (UInt32.toNat_inj.1 hzero)
    simp only [if_neg hlargest]
    omega

/-- A new state bears zero, and then the numbers go round from one on. -/
theorem toNat_seqid_iterate_bump {id : StateId} (hnew : id.seqid = 0) (n : Nat) :
    (bump^[n + 1] id).seqid.toNat = n % numbersPerRound + 1 := by
  induction n with
  | zero =>
    have hzero : id.seqid.toNat = 0 := congrArg UInt32.toNat hnew
    rw [Function.iterate_one, toNat_seqid_bump, hzero]
  | succ n ih =>
    rw [Function.iterate_succ_apply', toNat_seqid_bump, ih, Nat.mod_add_mod]

/-- Once a state has changed it never bears zero again. -/
theorem seqid_iterate_bump_ne_zero {id : StateId} (hnew : id.seqid = 0) {n : Nat} (hn : 0 < n) :
    (bump^[n] id).seqid ≠ 0 := by
  obtain ⟨m, rfl⟩ := Nat.exists_eq_add_one_of_ne_zero (Nat.ne_of_gt hn)
  intro hzero
  have hnumber := toNat_seqid_iterate_bump hnew m
  rw [hzero] at hnumber
  simp at hnumber

/-- Numbers are in the order in which they came, within one round. -/
theorem seqid_iterate_bump_lt_iff {id : StateId} (hnew : id.seqid = 0) {i j : Nat} (hi : 0 < i)
    (hj : 0 < j) : (bump^[i] id).seqid < (bump^[j] id).seqid ↔
      (i - 1) % numbersPerRound < (j - 1) % numbersPerRound := by
  obtain ⟨i, rfl⟩ := Nat.exists_eq_add_one_of_ne_zero (Nat.ne_of_gt hi)
  obtain ⟨j, rfl⟩ := Nat.exists_eq_add_one_of_ne_zero (Nat.ne_of_gt hj)
  rw [UInt32.lt_iff_toNat_lt, toNat_seqid_iterate_bump hnew, toNat_seqid_iterate_bump hnew]
  exact Nat.succ_lt_succ_iff

/-- Within a round, later identifiers have larger numbers. -/
theorem mod_numbersPerRound_lt {i j : Nat} (hi : 0 < i) (hij : i < j)
    (hround : (i - 1) / numbersPerRound = (j - 1) / numbersPerRound) :
    (i - 1) % numbersPerRound < (j - 1) % numbersPerRound := by
  unfold numbersPerRound UInt32.size at hround ⊢
  omega

/-- A number up to that of the latest identifier was that of one before it, or of itself. -/
theorem exists_iterate_bump_eq {id x : StateId} (hnew : id.seqid = 0) {j : Nat}
    (hkey : x.key = id.key) (hpos : x.seqid ≠ 0) (hle : x.seqid ≤ (bump^[j] id).seqid) :
    ∃ i, i ≤ j ∧ x = bump^[i] id := by
  have hlt : x.seqid.toNat < 4294967296 := x.seqid.toNat_lt
  have hnumber : x.seqid.toNat ≠ 0 := fun hzero => hpos (UInt32.toNat_inj.1 hzero)
  obtain ⟨n, hn⟩ := Nat.exists_eq_add_one_of_ne_zero hnumber
  rw [UInt32.le_iff_toNat_le, hn] at hle
  cases j with
  | zero =>
    -- the new state bears zero, and no number is as small
    rw [Function.iterate_zero_apply, hnew] at hle
    exact absurd hle (Nat.not_succ_le_zero n)
  | succ m =>
    rw [toNat_seqid_iterate_bump hnew] at hle
    have hlater : n ≤ m := Nat.le_trans (Nat.le_of_succ_le_succ hle) (Nat.mod_le ..)
    refine ⟨n + 1, Nat.succ_le_succ hlater, ?_⟩
    have hseqid : x.seqid = (bump^[n + 1] id).seqid := by
      apply UInt32.toNat_inj.1
      rw [hn, toNat_seqid_iterate_bump hnew, Nat.mod_eq_of_lt]
      unfold numbersPerRound UInt32.size
      omega
    rcases x with ⟨key, seqid⟩
    obtain rfl : seqid = _ := hseqid
    obtain rfl : key = _ := hkey.trans (key_iterate_bump id (n + 1)).symm
    rfl

end StateId

namespace Server

open Request

variable {s : Server}

/-! ## Counting the changes of a state -/

/-- The server after so many requests to count one more change of a state. -/
def changed (s : Server) (no : StateNo) (n : Nat) : Server :=
  (fun s => s.after (bumpState no))^[n] s

/-- Requests that count changes count every one of them. -/
theorem state_iterate_bumpState {no : StateNo} (hno : no.value < s.states.size) (n : Nat) :
    no.value < (s.changed no n).states.size ∧
      ((s.changed no n).state no).id = StateId.bump^[n] (s.state no).id := by
  unfold changed
  induction n with
  | zero => exact ⟨hno, rfl⟩
  | succ n ih =>
    rw [Function.iterate_succ_apply', Function.iterate_succ_apply']
    constructor
    · exact Nat.lt_of_lt_of_eq ih.1 (Ledger.size_modify ..).symm
    · rw [← ih.2]
      exact congrArg HeldState.id ((state_amendState ..).trans (if_pos ⟨rfl, ih.1⟩))

/-- A new state has a number of its own, and no change of it was counted. -/
theorem id_of_createState (s : Server) (client : ClientNo) (owner : OwnerNo) (kind : StateKind)
    (parent : Option StateNo) :
    s.states.nextNo.value < (s.after (createState client owner kind parent)).states.size ∧
      ((s.after (createState client owner kind parent)).state s.states.nextNo).id =
        ⟨(s.client client).nextStateKey kind, 0⟩ := by
  constructor
  · exact Nat.lt_of_lt_of_eq (Nat.lt_succ_self _) (states_size_withState ..).symm
  · exact congrArg HeldState.id ((Ledger.get_add ..).trans (if_pos rfl))

/-- Among the identifiers that a state has had since it was made, the first one, which bears zero,
counts as the latest forever. Any other is told to be superseded by one that has a larger number, as
all later ones have until the numbers come round, and what the state has not had counts as never
issued. -/
theorem superseded_ids_are_told (s : Server) (client : ClientNo) (owner : OwnerNo)
    (kind : StateKind) (parent : Option StateNo) :
    let made := s.after (createState client owner kind parent)
    let ids n := ((made.changed s.states.nextNo n).state s.states.nextNo).id
    ((ids 0).seqid = 0 ∧ ∀ j, (ids j).check (ids 0) = .ok ()) ∧
    (∀ i j, 0 < i → i < j →
      ((ids j).check (ids i) = .error (.oldStateId (ids i) (ids j).seqid) ↔
          (i - 1) % StateId.numbersPerRound < (j - 1) % StateId.numbersPerRound) ∧
        ((i - 1) / StateId.numbersPerRound = (j - 1) / StateId.numbersPerRound →
          (ids j).check (ids i) = .error (.oldStateId (ids i) (ids j).seqid))) ∧
    (∀ j, (ids j).check (ids j) = .ok ()) ∧
    ∀ j x, x.key = (ids j).key → x.seqid ≠ 0 → (∀ i, i ≤ j → x ≠ ids i) →
      (ids j).check x = .error (.badStateId x) := by
  intro made ids
  obtain ⟨hmade, hid⟩ := s.id_of_createState client owner kind parent
  have hids (n : Nat) :
      ids n = StateId.bump^[n] ⟨(s.client client).nextStateKey kind, 0⟩ := by
    rw [← hid]
    exact (state_iterate_bumpState hmade n).2
  simp only [hids]
  refine ⟨⟨rfl, fun j => StateId.check_of_zero rfl⟩, ?_, fun j => StateId.check_of_eq rfl, ?_⟩
  · intro i j hi hij
    have hnew : (⟨(s.client client).nextStateKey kind, 0⟩ : StateId).seqid = 0 := rfl
    have holder := (StateId.check_eq_oldStateId_iff (StateId.seqid_iterate_bump_ne_zero hnew hi)).trans
      (StateId.seqid_iterate_bump_lt_iff hnew hi (Nat.lt_trans hi hij))
    exact ⟨holder, fun hround => holder.2 (StateId.mod_numbersPerRound_lt hi hij hround)⟩
  · intro j x hkey hpos hnone
    -- a number that is not ahead of the latest was had by the latest or before it
    apply StateId.check_of_gt
    rw [← UInt32.not_le]
    intro hle
    rw [StateId.key_iterate_bump] at hkey
    obtain ⟨i, hij, hsame⟩ := StateId.exists_iterate_bump_eq rfl hkey hpos hle
    exact hnone i hij hsame

/-- The second identifier of an open is superseded by the third; the fourth is not issued yet. -/
theorem superseded_ids_are_told_of_open :
    let s := (start false {} default ⟨0⟩).performAll [.register (.ofOwner [1])]
    let made := s.after (createState ⟨0⟩ ⟨0⟩ .share none)
    let ids n := ((made.changed ⟨0⟩ n).state ⟨0⟩).id
    (ids 2).check (ids 1) = .error (.oldStateId (ids 1) 2) ∧
      (ids 2).check { ids 2 with seqid := 3 } = .error (.badStateId { ids 2 with seqid := 3 }) := by
  intro s made ids
  have htold := superseded_ids_are_told s ⟨0⟩ ⟨0⟩ .share none
  constructor
  · exact (htold.2.1 1 2 (by decide) (by decide)).2 (by decide)
  · refine htold.2.2.2 2 _ rfl (by decide) fun i hi => ?_
    rcases i with _ | _ | _ | i
    · decide +kernel
    · decide +kernel
    · decide +kernel
    · omega

/-- An open that was widened since it was granted is still found under the identifier that came with
the grant, and that is not the identifier that it has now. When the numbers came round, its second
identifier counts as the latest again. -/
theorem first_id_stays_current :
    let granted := (start false {} default ⟨0⟩).performAll [.register (.ofOwner [1]),
      .nameOwner ⟨0⟩ [7] 0, .openFile ⟨0⟩ ⟨0⟩ ⟨[9]⟩ 1 0]
    let widened := granted.perform (.openFile ⟨0⟩ ⟨0⟩ ⟨[9]⟩ 2 0)
    let first := (granted.state ⟨0⟩).id
    let round := StateId.numbersPerRound
    ((widened.state ⟨0⟩).id = first.bump ∧ first.bump ≠ first ∧ first.bump.check first = .ok () ∧
      ((currentStateOf ⟨0⟩ first).exec widened).1 = .ok ⟨0⟩) ∧
      (((granted.changed ⟨0⟩ (round + 1)).state ⟨0⟩).id.check first.bump = .ok ()) := by
  intro granted widened first round
  have hnew : first.seqid = 0 := by decide +kernel
  refine ⟨⟨by decide +kernel, by decide +kernel, StateId.check_of_zero hnew, ?_⟩, ?_⟩
  · decide +kernel
  · have hmade : (⟨0⟩ : StateNo).value < granted.states.size := by decide +kernel
    rw [(state_iterate_bumpState hmade (round + 1)).2]
    apply StateId.check_of_eq
    apply UInt32.toNat_inj.1
    have hlater := StateId.toNat_seqid_iterate_bump hnew round
    rw [Nat.mod_self] at hlater
    exact (StateId.toNat_seqid_iterate_bump hnew 0).trans hlater.symm

end Server

end Leasehold

import Leasehold.Proofs.RangeSubtraction

/-!
# Proofs.LockExclusion — who may hold which bytes at once

A lock table is changed by calls, and a refused call changes nothing. Two locks
on a file may stand side by side if they do not overlap, or if their owners
differ and both are for reading (`RangeLock.Compatible`).

* `exclusive_lock`, `exclusive_unlock` — a granted call keeps the locks of every
  file compatible in pairs, whatever pieces the locks of its owner are cut into;
* `tidy_setLocks` — a file has an entry only while it has locks;
* `locks_exclude` — so it is after any sequence of calls.
-/

namespace Leasehold

namespace LockTable

/-! ## Calls -/

/-- A call that changes the lock table. -/
inductive Call where
  | lock (file : FileId) (l : RangeLock)
  | unlock (file : FileId) (l : RangeLock)
  deriving Repr, DecidableEq

/-- The answer to a call: the table after it, or a refusal. -/
def answer (t : LockTable) : Call → Except LockError LockTable
  | .lock file l => t.lock file l
  | .unlock file l => t.unlock file l

/-- The table after a call; a refused call leaves it as it was. -/
def serve (t : LockTable) (call : Call) : LockTable :=
  match t.answer call with
  | .ok t' => t'
  | .error _ => t

/-- The table after a sequence of calls. -/
def serveAll (t : LockTable) (calls : List Call) : LockTable := calls.foldl serve t

end LockTable

/-! ## Compatible locks -/

namespace RangeLock

/-- Two locks may stand side by side on a file: where they overlap, two owners read. -/
def Compatible (a b : RangeLock) : Prop :=
  a.overlaps b = true → a.owner ≠ b.owner ∧ a.kind = .read ∧ b.kind = .read

/-- Which of two locks is named first makes no difference. -/
theorem Compatible.symm {a b : RangeLock} (h : a.Compatible b) : b.Compatible a := by
  intro ho
  rw [overlaps_comm] at ho
  obtain ⟨hne, ha, hb⟩ := h ho
  exact ⟨hne.symm, hb, ha⟩

theorem compatible_of_not_overlaps {a b : RangeLock} (h : a.overlaps b = false) :
    a.Compatible b := by
  intro ho
  rw [h] at ho
  cases ho

/-- A part of a lock is compatible with whatever the lock is compatible with. -/
theorem Compatible.part {whole part l : RangeLock} (h : whole.Compatible l)
    (hwithin : part.Within whole) (howner : part.owner = whole.owner)
    (hkind : part.kind = whole.kind) : part.Compatible l := by
  intro ho
  rw [howner, hkind]
  exact h (hwithin.overlaps ho)

/-- Locks of two owners are compatible if the later one does not conflict with the earlier. -/
theorem compatible_of_not_conflictsWith {a b : RangeLock} (howner : a.owner ≠ b.owner)
    (h : a.conflictsWith b = false) : a.Compatible b := by
  intro ho
  have hsame : a.sameOwner b = false := by simpa [sameOwner] using howner
  simp only [conflictsWith, hsame, ho, Bool.not_false, Bool.true_and, Bool.or_eq_false_iff,
    beq_eq_false_iff_ne, ne_eq] at h
  refine ⟨howner, ?_, ?_⟩
  · cases hk : a.kind with
    | read => rfl
    | write => exact absurd hk h.1
  · cases hk : b.kind with
    | read => rfl
    | write => exact absurd hk h.2

/-! ## Cutting a range out of a list of locks -/

/-- What is left of one lock once the owner of a range holds nothing in it. -/
def leftOf (held range : RangeLock) : List RangeLock :=
  if held.sameOwner range then held.subtract range else [held]

/-- A range is cut out of each lock by itself. -/
theorem carve_eq_flatMap (held : List RangeLock) (range : RangeLock) :
    carve held range = held.flatMap (·.leftOf range) := rfl

/-- What is left of a lock lies within it, and is of the same owner and kind. -/
theorem part_of_mem_leftOf {held range part : RangeLock} (h : part ∈ held.leftOf range) :
    part.Within held ∧ part.owner = held.owner ∧ part.kind = held.kind := by
  unfold leftOf at h
  split at h
  · exact ⟨within_of_mem_subtract h, owner_kind_of_mem_subtract h⟩
  · obtain rfl := List.mem_singleton.1 h
    exact ⟨.refl _, rfl, rfl⟩

/-- The parts that are left of a lock lie beside each other. -/
theorem pairwise_leftOf (held range : RangeLock) : (held.leftOf range).Pairwise Compatible := by
  unfold leftOf
  split
  · exact (pairwise_subtract held range).imp compatible_of_not_overlaps
  · exact List.pairwise_singleton ..

/-- The parts of compatible locks are compatible: those of one lock lie apart, those of two lie
within their locks. -/
theorem pairwise_carve {held : List RangeLock} (range : RangeLock)
    (h : held.Pairwise Compatible) : (carve held range).Pairwise Compatible := by
  rw [carve_eq_flatMap, List.pairwise_flatMap]
  refine ⟨fun l _ => pairwise_leftOf l range, ?_⟩
  refine h.imp ?_
  intro a b hab x hx y hy
  obtain ⟨hxa, hxo, hxk⟩ := part_of_mem_leftOf hx
  obtain ⟨hyb, hyo, hyk⟩ := part_of_mem_leftOf hy
  have hxb : x.Compatible b := hab.part hxa hxo hxk
  exact (hxb.symm.part hyb hyo hyk).symm

/-- Nothing that is left of its owner's locks reaches into the range. -/
theorem not_overlaps_of_mem_carve {held : List RangeLock} {range part : RangeLock}
    (h : part ∈ carve held range) (howner : part.owner = range.owner) :
    part.overlaps range = false := by
  rw [carve_eq_flatMap, List.mem_flatMap] at h
  obtain ⟨l, -, hpart⟩ := h
  obtain ⟨-, hlo, -⟩ := part_of_mem_leftOf hpart
  have hsame : l.sameOwner range = true := by
    simp only [sameOwner, beq_iff_eq]
    exact hlo.symm.trans howner
  rw [leftOf, if_pos hsame] at hpart
  exact not_overlaps_of_mem_subtract hpart

/-- A lock of somebody else is left as it is. -/
theorem mem_of_mem_carve {held : List RangeLock} {range part : RangeLock}
    (h : part ∈ carve held range) (howner : part.owner ≠ range.owner) : part ∈ held := by
  rw [carve_eq_flatMap, List.mem_flatMap] at h
  obtain ⟨l, hl, hpart⟩ := h
  obtain ⟨-, hlo, -⟩ := part_of_mem_leftOf hpart
  have hsame : ¬ l.sameOwner range = true := by
    simp only [sameOwner, beq_iff_eq]
    exact fun e => howner (hlo.trans e)
  rw [leftOf, if_neg hsame, List.mem_singleton] at hpart
  exact hpart ▸ hl

end RangeLock

/-! ## The invariant of the table -/

namespace LockTable

/-- The locks on every file are compatible in pairs. -/
def Exclusive (t : LockTable) : Prop := ∀ file, (t.locks file).Pairwise RangeLock.Compatible

/-- No file has an entry without locks. -/
def Tidy (t : LockTable) : Prop := ∀ file, t.files.get? file ≠ some []

/-- The locks of a file are set by themselves. -/
theorem exclusive_setLocks {t : LockTable} {file : FileId} {ls : List RangeLock}
    (h : t.Exclusive) (hls : ls.Pairwise RangeLock.Compatible) :
    (t.setLocks file ls).Exclusive := by
  intro other
  rw [locks_setLocks]
  split
  · exact hls
  · exact h other

theorem tidy_setLocks {t : LockTable} (h : t.Tidy) (file : FileId) (ls : List RangeLock) :
    (t.setLocks file ls).Tidy := by
  intro other
  unfold setLocks
  cases ls with
  | nil =>
    simp only [List.isEmpty_nil, if_true, Table.get?_erase]
    split
    · simp
    · exact h other
  | cons l rest =>
    simp only [List.isEmpty_cons, Bool.false_eq_true, if_false, Table.get?_insert]
    split
    · simp
    · exact h other

/-- A lock that nothing stands in the way of is compatible with all that is left on the file. -/
theorem exclusive_lock {t t' : LockTable} {file : FileId} {l : RangeLock} (h : t.Exclusive)
    (hlock : t.lock file l = .ok t') : t'.Exclusive := by
  unfold lock at hlock
  split at hlock
  · cases hlock
  · rename_i hfree
    injection hlock with ht'
    subst ht'
    apply exclusive_setLocks h
    rw [List.pairwise_append]
    refine ⟨RangeLock.pairwise_carve l (h file), List.pairwise_singleton .., ?_⟩
    intro part hpart l' hl'
    obtain rfl := List.mem_singleton.1 hl'
    by_cases howner : part.owner = l'.owner
    · exact RangeLock.compatible_of_not_overlaps
        (RangeLock.not_overlaps_of_mem_carve hpart howner)
    · -- a lock of somebody else was looked at before the grant
      have hheld := RangeLock.mem_of_mem_carve hpart howner
      have hclear : l'.conflictsWith part = false := by
        simpa using List.find?_eq_none.1 hfree part hheld
      exact (RangeLock.compatible_of_not_conflictsWith (Ne.symm howner) hclear).symm

/-- Cutting a range out leaves compatible locks compatible. -/
theorem exclusive_unlock {t t' : LockTable} {file : FileId} {l : RangeLock} (h : t.Exclusive)
    (hunlock : t.unlock file l = .ok t') : t'.Exclusive := by
  unfold unlock at hunlock
  split at hunlock
  · injection hunlock with ht'
    subst ht'
    -- nothing is added, so the parts of compatible locks are all there is
    exact exclusive_setLocks h (RangeLock.pairwise_carve l (h file))
  · cases hunlock

/-- A call that is answered leaves no empty list behind. -/
theorem tidy_of_answer {t t' : LockTable} {call : Call} (h : t.Tidy)
    (hans : t.answer call = .ok t') : t'.Tidy := by
  cases call with
  | lock file l =>
    simp only [answer, lock] at hans
    split at hans
    · cases hans
    · injection hans with ht'
      exact ht' ▸ tidy_setLocks h file _
  | unlock file l =>
    simp only [answer, unlock] at hans
    split at hans
    · injection hans with ht'
      exact ht' ▸ tidy_setLocks h file _
    · cases hans

/-! ## Every run -/

/-- A call that is refused leaves everything as it is, and one that is answered keeps locks
compatible. -/
theorem inv_serve {t : LockTable} (h : t.Exclusive ∧ t.Tidy) (call : Call) :
    (t.serve call).Exclusive ∧ (t.serve call).Tidy := by
  obtain ⟨hex, htidy⟩ := h
  unfold serve
  cases hans : t.answer call with
  | error e => exact ⟨hex, htidy⟩
  | ok t' =>
    refine ⟨?_, tidy_of_answer htidy hans⟩
    cases call with
    | lock file l => exact exclusive_lock hex hans
    | unlock file l => exact exclusive_unlock hex hans

/-- Any number of calls keeps locks compatible and leaves no empty list. -/
theorem inv_serveAll {t : LockTable} (h : t.Exclusive ∧ t.Tidy) (calls : List Call) :
    (t.serveAll calls).Exclusive ∧ (t.serveAll calls).Tidy := by
  induction calls generalizing t with
  | nil => exact h
  | cons call rest ih => exact ih (inv_serve h call)

theorem inv_empty : empty.Exclusive ∧ empty.Tidy := by
  refine ⟨fun file => ?_, fun file => ?_⟩
  · exact List.Pairwise.nil
  · simp [empty]

/-- After any sequence of calls: locks of different owners overlap only where both are for reading,
locks of one owner do not overlap, and no file has an entry without locks. -/
theorem locks_exclude (calls : List Call) :
    (∀ file, ((empty.serveAll calls).locks file).Pairwise fun a b =>
      (a.owner ≠ b.owner → a.overlaps b = true → a.kind = .read ∧ b.kind = .read) ∧
      (a.owner = b.owner → a.overlaps b = false)) ∧
    ∀ file, (empty.serveAll calls).files.get? file ≠ some [] := by
  obtain ⟨hex, htidy⟩ := inv_serveAll inv_empty calls
  refine ⟨fun file => (hex file).imp ?_, htidy⟩
  intro a b hab
  refine ⟨fun _ ho => (hab ho).2, fun howner => ?_⟩
  rw [← Bool.not_eq_true]
  exact fun ho => (hab ho).1 howner

end LockTable

end Leasehold

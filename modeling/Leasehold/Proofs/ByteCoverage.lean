import Leasehold.Proofs.RefusedLocks

/-!
# Proofs.ByteCoverage — a lock table as a map from bytes to kinds

A lock table is a list of ranges for every file; what it means is in which kinds an
owner holds a byte (`LockTable.kindsAt`). The ranges are those that pass the check of
a request and the parts these are cut into; for such ranges to overlap is to share a
byte (`RangeLock.overlaps_iff_covers`), and so calls can be read byte by byte:

* `kindsAt_lock`, `kindsAt_unlock` — a granted call writes the bytes of its range for
  its owner, and no others;
* `lock_eq_ok_iff`, `unlock_eq_ok_iff` — which calls are granted;
* `calls_mean_bytes` — so it is after any sequence of calls;
* `everything_released_iff` — giving back the whole file gives back every byte, and
  leaves exactly the locks at offset 2^64 - 1, which cover none.
-/

namespace Leasehold

namespace RangeLock

variable {a b l held range part : RangeLock} {owner : LockOwner} {byte : Nat}

/-! ## Ranges that requests may name -/

/-- The range passes the check of a request. -/
def Admitted (l : RangeLock) : Prop := LockRequest.checkRange ⟨l.kind, l.offset, l.length⟩ = .ok ()

/-- A range is admitted if it has bytes, and stops before the end or at it. -/
theorem admitted_iff : l.Admitted ↔ 0 < l.length.toNat ∧
    (l.length = toEnd ∨ l.offset.toNat + l.length.toNat < UInt64.size) := by
  have hzero : l.length = 0 ↔ l.length.toNat = 0 := by
    rw [← UInt64.toNat_inj]
    rfl
  unfold Admitted LockRequest.checkRange
  dsimp only
  by_cases hempty : l.length = 0
  · simp [hempty]
  · have hpos : 0 < l.length.toNat := Nat.pos_of_ne_zero (mt hzero.2 hempty)
    rw [if_neg hempty]
    by_cases hend : l.length = toEnd
    · simp [hend]
      decide
    · by_cases hfits : l.offset.toNat + l.length.toNat < UInt64.size
      · simp [hend, hpos, hfits]
      · simp [hend, hfits, Nat.le_of_not_lt hfits]

/-- A range that may be named has a byte unless it begins where all files have ended. -/
theorem Admitted.offset_lt_stop (h : l.Admitted) (hoffset : l.offset.toNat < UInt64.size - 1) :
    l.offset.toNat < l.stop.toNat := by
  obtain ⟨hpos, hfits⟩ := admitted_iff.1 h
  rw [toNat_stop]
  split
  · exact hoffset
  · rename_i hend
    have hlt := hfits.resolve_left hend
    omega

/-- The parts of a range that may be named may be named, too. -/
theorem Admitted.of_mem_subtract (h : held.Admitted) (hpart : part ∈ held.subtract range) :
    part.Admitted := by
  have hstop := held.stop_lt
  rcases mem_subtract.1 hpart with ⟨-, rfl⟩ | ⟨ho, hlt, rfl⟩ | ⟨ho, hlt, rfl⟩
  · exact h
  -- before the range: a length that is counted, and ends where the range starts
  · have hlen := toNat_length_front hlt
    rw [UInt64.lt_iff_toNat_lt] at hlt
    have hfrom : (held.front range).offset = held.offset := rfl
    have hto := (overlaps_iff.1 ho).2
    refine admitted_iff.2 ⟨by omega, .inr ?_⟩
    rw [hfrom]
    omega
  -- behind the range: to the end if the lock was, and counted otherwise
  · by_cases hend : held.length = toEnd
    · have hlen := (length_back_eq_toEnd_iff hlt ho).2 hend
      refine admitted_iff.2 ⟨?_, .inl hlen⟩
      rw [hlen]
      decide
    · have hlen := toNat_length_back hlt hend
      have hfrom : (held.back range).offset = range.stop := rfl
      rw [UInt64.lt_iff_toNat_lt] at hlt
      rw [admitted_iff, hlen, hfrom]
      exact ⟨by omega, .inr (by omega)⟩

/-- Ranges that may be named overlap where they share a byte. -/
theorem overlaps_iff_covers (ha : a.Admitted) (hb : b.Admitted) :
    a.overlaps b = true ↔ ∃ byte, a.Covers byte ∧ b.Covers byte := by
  constructor
  · intro ho
    obtain ⟨hab, hba⟩ := overlaps_iff.1 ho
    have hastop := a.stop_lt
    have hbstop := b.stop_lt
    have ha' := ha.offset_lt_stop (by omega)
    have hb' := hb.offset_lt_stop (by omega)
    refine ⟨max a.offset.toNat b.offset.toNat, ⟨?_, ?_⟩, ⟨?_, ?_⟩⟩ <;> omega
  · rintro ⟨byte, hcovers, hcovers'⟩
    exact overlaps_of_covers hcovers hcovers'

/-- Locks of two owners that overlap are in conflict unless both read. -/
theorem conflictsWith_iff : a.conflictsWith b = true ↔
    a.owner ≠ b.owner ∧ a.overlaps b = true ∧ (a.kind = .write ∨ b.kind = .write) := by
  simp only [conflictsWith, sameOwner, Bool.and_eq_true, Bool.not_eq_true', beq_eq_false_iff_ne,
    Bool.or_eq_true, beq_iff_eq, ne_eq, and_assoc]

/-! ## Lists of ranges byte by byte -/

/-- The kinds of the locks of an owner that cover a byte, one for each of them. -/
def kindsOver (ls : List RangeLock) (owner : LockOwner) (byte : Nat) : List LockKind :=
  (ls.filter fun l => l.owner = owner ∧ l.Covers byte).map (·.kind)

@[simp] theorem kindsOver_nil : kindsOver [] owner byte = [] := rfl

/-- Of two lists of locks, each counts for itself. -/
theorem kindsOver_append (ls rest : List RangeLock) :
    kindsOver (ls ++ rest) owner byte = kindsOver ls owner byte ++ kindsOver rest owner byte := by
  simp [kindsOver]

theorem kindsOver_cons (l : RangeLock) (rest : List RangeLock) :
    kindsOver (l :: rest) owner byte =
      (if l.owner = owner ∧ l.Covers byte then [l.kind] else []) ++ kindsOver rest owner byte := by
  by_cases h : l.owner = owner ∧ l.Covers byte <;> simp [kindsOver, h]

/-- A kind is held over a byte by a lock that covers it. -/
theorem mem_kindsOver {ls : List RangeLock} {kind : LockKind} :
    kind ∈ kindsOver ls owner byte ↔
      ∃ l ∈ ls, l.owner = owner ∧ l.Covers byte ∧ l.kind = kind := by
  simp only [kindsOver, List.mem_map, List.mem_filter, decide_eq_true_eq, and_assoc]

/-- The front of a lock covers its bytes before the range. -/
theorem kindsOver_front (ho : held.overlaps range = true) :
    kindsOver (if held.offset < range.offset then [held.front range] else []) owner byte =
      if held.owner = owner ∧ held.offset.toNat ≤ byte ∧ byte < range.offset.toNat then [held.kind]
      else [] := by
  split
  · rename_i hlt
    have hcovers : (held.front range).Covers byte ↔
        held.offset.toNat ≤ byte ∧ byte < range.offset.toNat := by
      rw [← toNat_stop_front hlt ho]
      rfl
    have howner : (held.front range).owner = held.owner := rfl
    have hkind : (held.front range).kind = held.kind := rfl
    simp only [kindsOver_cons, kindsOver_nil, List.append_nil, hcovers, howner, hkind]
  · rename_i hge
    rw [UInt64.lt_iff_toNat_lt] at hge
    rw [if_neg (by omega), kindsOver_nil]

/-- The back of a lock covers its bytes behind the range. -/
theorem kindsOver_back (ho : held.overlaps range = true) :
    kindsOver (if range.stop < held.stop then [held.back range] else []) owner byte =
      if held.owner = owner ∧ range.stop.toNat ≤ byte ∧ byte < held.stop.toNat then [held.kind]
      else [] := by
  split
  · rename_i hlt
    have hcovers : (held.back range).Covers byte ↔
        range.stop.toNat ≤ byte ∧ byte < held.stop.toNat := by
      rw [← toNat_stop_back hlt ho]
      rfl
    have howner : (held.back range).owner = held.owner := rfl
    have hkind : (held.back range).kind = held.kind := rfl
    simp only [kindsOver_cons, kindsOver_nil, List.append_nil, hcovers, howner, hkind]
  · rename_i hge
    rw [UInt64.lt_iff_toNat_lt] at hge
    rw [if_neg (by omega), kindsOver_nil]

/-- Cutting a range out of a lock takes the bytes of the range from it, and no others. -/
theorem kindsOver_subtract (held range : RangeLock) (owner : LockOwner) (byte : Nat) :
    kindsOver (held.subtract range) owner byte =
      if range.Covers byte then [] else kindsOver [held] owner byte := by
  rw [kindsOver_cons held [], kindsOver_nil, List.append_nil]
  by_cases ho : held.overlaps range = true
  · -- a byte of the lock is before the range, in it or behind it
    have hparts : held.subtract range =
        (if held.offset < range.offset then [held.front range] else []) ++
          (if range.stop < held.stop then [held.back range] else []) := if_pos ho
    have hrange := range.offset_le_stop
    obtain ⟨hstart, hstop⟩ := overlaps_iff.1 ho
    rw [hparts, kindsOver_append, kindsOver_front ho, kindsOver_back ho]
    unfold Covers
    grind
  · have hparts : held.subtract range = [held] := if_neg ho
    have hnot (hcovers : range.Covers byte) : ¬ held.Covers byte := fun hheld =>
      ho (overlaps_of_covers hheld hcovers)
    rw [hparts, kindsOver_cons, kindsOver_nil, List.append_nil]
    by_cases hcovers : range.Covers byte
    · simp [hcovers, hnot hcovers]
    · simp [hcovers]

/-- A range is cut out of the locks of its owner alone. -/
theorem kindsOver_carve (ls : List RangeLock) (range : RangeLock) (owner : LockOwner)
    (byte : Nat) : kindsOver (carve ls range) owner byte =
      if owner = range.owner ∧ range.Covers byte then [] else kindsOver ls owner byte := by
  induction ls with
  | nil => simp [carve]
  | cons held rest ih =>
    have hsplit : carve (held :: rest) range = held.leftOf range ++ carve rest range := by
      simp [carve_eq_flatMap]
    rw [hsplit, kindsOver_append, ih, kindsOver_cons held rest]
    by_cases hsame : held.owner = range.owner
    · have hleft : held.leftOf range = held.subtract range := if_pos (beq_iff_eq.2 hsame)
      rw [hleft, kindsOver_subtract, kindsOver_cons, kindsOver_nil, List.append_nil, hsame]
      by_cases howner : owner = range.owner
      · by_cases hcovers : range.Covers byte <;> simp [howner, hcovers]
      · simp [howner, Ne.symm howner]
    · have hleft : held.leftOf range = [held] := if_neg (mt beq_iff_eq.1 hsame)
      rw [hleft, kindsOver_cons, kindsOver_nil, List.append_nil]
      by_cases howner : owner = range.owner
      · have hother : ¬ held.owner = owner := howner ▸ hsame
        by_cases hcovers : range.Covers byte <;> simp [hother, hcovers]
      · simp [howner]

/-! ## The end of the offsets -/

/-- A range that begins at 2^64 - 1 reaches into nothing. -/
theorem overlaps_of_offset_eq_toEnd (h : a.offset = toEnd) (b : RangeLock) :
    a.overlaps b = false := by
  have hoffset : a.offset.toNat = UInt64.size - 1 := by
    rw [h]
    rfl
  have hstop := b.stop_lt
  rw [← Bool.not_eq_true, overlaps_iff]
  omega

/-- Cutting neither takes a lock at 2^64 - 1 nor leaves a new one. -/
theorem mem_carve_of_offset_eq_toEnd {ls : List RangeLock} (h : part.offset = toEnd) :
    part ∈ carve ls range ↔ part ∈ ls := by
  have hpart : part.offset.toNat = UInt64.size - 1 := by
    rw [h]
    rfl
  have hleft (held : RangeLock) : part ∈ held.leftOf range ↔ part = held := by
    unfold leftOf
    split
    · rw [mem_subtract]
      constructor
      · rintro (⟨-, rfl⟩ | ⟨ho, -, rfl⟩ | ⟨-, hlt, rfl⟩)
        · rfl
        · have hheld : held.offset = toEnd := h
          rw [overlaps_of_offset_eq_toEnd hheld] at ho
          cases ho
        · rw [UInt64.lt_iff_toNat_lt] at hlt
          have hfrom : (held.back range).offset = range.stop := rfl
          have hstop := held.stop_lt
          rw [hfrom] at hpart
          omega
      · rintro rfl
        exact .inl ⟨overlaps_of_offset_eq_toEnd h range, rfl⟩
    · exact List.mem_singleton
  simp [carve_eq_flatMap, hleft]

/-- Of the locks that may be named, those stay with a holder who gives everything back that begin
at 2^64 - 1. -/
theorem Admitted.goesWith_iff (h : l.Admitted) (holder : LockOwner) :
    l.GoesWith holder ↔ l.owner = holder ∧ l.offset ≠ toEnd := by
  refine and_congr_right fun _ => ⟨fun ho hend => ?_, fun hend => ?_⟩
  · rw [overlaps_of_offset_eq_toEnd hend] at ho
    cases ho
  · have hlt : l.offset.toNat < UInt64.size - 1 := by
      have hle := l.offset_le_stop
      have hstop := l.stop_lt
      have hne : l.offset.toNat ≠ UInt64.size - 1 := fun heq => hend (UInt64.toNat_inj.1 heq)
      omega
    exact overlaps_everything ⟨Nat.le_refl _, h.offset_lt_stop hlt⟩ holder

end RangeLock

/-! ## Calls byte by byte -/

namespace LockTable

open RangeLock

variable {t t' : LockTable} {file : FileId} {l : RangeLock}

/-- The kinds in which an owner holds a byte of a file, one for each lock that covers it. -/
def kindsAt (t : LockTable) (file : FileId) (owner : LockOwner) (byte : Nat) : List LockKind :=
  kindsOver (t.locks file) owner byte

/-- Every other owner leaves the bytes of a lock to it: who holds one of them reads, and so would
the lock. -/
def Free (t : LockTable) (file : FileId) (l : RangeLock) : Prop :=
  ∀ byte, l.Covers byte → ∀ owner, owner ≠ l.owner → ∀ kind ∈ t.kindsAt file owner byte,
    kind = .read ∧ l.kind = .read

/-- The range that a call names. -/
def Call.range : Call → RangeLock
  | .lock _ l | .unlock _ l => l

/-- Every lock has a range that a request may name. -/
def Admitted (t : LockTable) : Prop := ∀ file, ∀ l ∈ t.locks file, l.Admitted

theorem serve_of_ok {call : Call} (h : t.answer call = .ok t') : t.serve call = t' := by
  unfold serve
  rw [h]

theorem serve_of_error {call : Call} {e : LockError} (h : t.answer call = .error e) :
    t.serve call = t := by
  unfold serve
  rw [h]

/-- A lock that is granted is cut into what its owner had, and added at the end. -/
theorem lock_eq_ok (h : t.lock file l = .ok t') :
    t' = t.setLocks file (carve (t.locks file) l ++ [l]) := by
  unfold lock at h
  split at h
  · cases h
  · injection h with h
    exact h.symm

/-- A range that is given back is cut out of what its owner had. -/
theorem unlock_eq_ok (h : t.unlock file l = .ok t') :
    t' = t.setLocks file (carve (t.locks file) l) := by
  unfold unlock at h
  split at h
  · injection h with h
    exact h.symm
  · cases h

theorem Admitted.setLocks (ht : t.Admitted) {ls : List RangeLock} (h : ∀ l ∈ ls, l.Admitted) :
    (t.setLocks file ls).Admitted := by
  intro other l hl
  rw [locks_setLocks] at hl
  split at hl
  · exact h l hl
  · exact ht other l hl

/-- What is left of admitted locks is admitted. -/
theorem Admitted.of_mem_carve (ht : t.Admitted) {part : RangeLock}
    (h : part ∈ carve (t.locks file) l) : part.Admitted := by
  rw [carve_eq_flatMap, List.mem_flatMap] at h
  obtain ⟨held, hheld, hpart⟩ := h
  have hadmitted := ht file held hheld
  unfold leftOf at hpart
  split at hpart
  · exact hadmitted.of_mem_subtract hpart
  · rw [List.mem_singleton.1 hpart]
    exact hadmitted

/-- What a call leaves of the locks that may be named may be named, too. -/
theorem Admitted.serve (ht : t.Admitted) {call : Call} (hcall : call.range.Admitted) :
    (t.serve call).Admitted := by
  cases hanswer : t.answer call with
  | error e =>
    rw [serve_of_error hanswer]
    exact ht
  | ok t' =>
    rw [serve_of_ok hanswer]
    cases call with
    | lock file l =>
      rw [lock_eq_ok hanswer]
      refine ht.setLocks fun part hpart => ?_
      rcases List.mem_append.1 hpart with hleft | hnew
      · exact ht.of_mem_carve hleft
      · rw [List.mem_singleton.1 hnew]
        exact hcall
    | unlock file l =>
      rw [unlock_eq_ok hanswer]
      exact ht.setLocks fun part hpart => ht.of_mem_carve hpart

/-- Calls of admitted ranges leave admitted locks. -/
theorem Admitted.serveAll (ht : t.Admitted) {calls : List Call}
    (hcalls : ∀ call ∈ calls, call.range.Admitted) : (t.serveAll calls).Admitted := by
  induction calls generalizing t with
  | nil => exact ht
  | cons call rest ih =>
    have hfirst : (t.serve call).Admitted := ht.serve (hcalls call List.mem_cons_self)
    exact ih hfirst fun call' hmem => hcalls call' (List.mem_cons_of_mem _ hmem)

theorem admitted_empty : empty.Admitted := fun _ _ hl => absurd hl List.not_mem_nil

/-! ### Which calls are granted -/

/-- A lock is granted if the bytes of its range are free. -/
theorem lock_eq_ok_iff (ht : t.Admitted) (hl : l.Admitted) :
    (∃ t', t.lock file l = .ok t') ↔ t.Free file l := by
  have hgranted : (∃ t', t.lock file l = .ok t') ↔ t.conflict? file l = none := by
    unfold lock
    cases t.conflict? file l <;> simp
  have hconflict : t.conflict? file l = none ↔
      ∀ held ∈ t.locks file, ¬ l.conflictsWith held = true := by
    unfold conflict?
    exact List.find?_eq_none
  rw [hgranted, hconflict]
  constructor
  · intro hclear byte hcovers owner hother kind hkind
    obtain ⟨held, hheld, rfl, hbyte, rfl⟩ := mem_kindsOver.1 hkind
    have hoverlaps := overlaps_of_covers hcovers hbyte
    have hno := mt conflictsWith_iff.2 (hclear held hheld)
    cases hheldKind : held.kind <;> cases hkind : l.kind <;> simp_all
  · intro hfree held hheld hconflicts
    obtain ⟨hother, hoverlaps, hwrite⟩ := conflictsWith_iff.1 hconflicts
    obtain ⟨byte, hcovers, hbyte⟩ := (overlaps_iff_covers hl (ht file held hheld)).1 hoverlaps
    have hreads := hfree byte hcovers held.owner (Ne.symm hother) held.kind
      (mem_kindsOver.2 ⟨held, hheld, rfl, hbyte, rfl⟩)
    rw [hreads.1, hreads.2] at hwrite
    simp at hwrite

/-- A range is given back if its owner holds one of its bytes. -/
theorem unlock_eq_ok_iff (ht : t.Admitted) (hl : l.Admitted) :
    (∃ t', t.unlock file l = .ok t') ↔ ∃ byte, l.Covers byte ∧ t.kindsAt file l.owner byte ≠ [] := by
  -- the check is for a lock of the same owner that overlaps, which is then told by its bytes
  have hgranted : (∃ t', t.unlock file l = .ok t') ↔
      ∃ held ∈ t.locks file, held.owner = l.owner ∧ held.overlaps l = true := by
    unfold unlock
    by_cases hany : (t.locks file).any (fun held => held.sameOwner l && held.overlaps l) = true
    · rw [if_pos hany]
      simpa [sameOwner] using hany
    · rw [if_neg hany]
      simpa [sameOwner] using hany
  rw [hgranted]
  constructor
  · rintro ⟨held, hheld, howner, hoverlaps⟩
    obtain ⟨byte, hbyte, hcovers⟩ := (overlaps_iff_covers (ht file held hheld) hl).1 hoverlaps
    exact ⟨byte, hcovers, List.ne_nil_of_mem (mem_kindsOver.2 ⟨held, hheld, howner, hbyte, rfl⟩)⟩
  · rintro ⟨byte, hcovers, hheld⟩
    obtain ⟨kind, hkind⟩ := List.exists_mem_of_ne_nil _ hheld
    obtain ⟨held, hmem, howner, hbyte, -⟩ := mem_kindsOver.1 hkind
    exact ⟨held, hmem, howner, overlaps_of_covers hbyte hcovers⟩

/-- A refusal names a lock of somebody else that shares a byte with the range. -/
theorem denied_of_lock (ht : t.Admitted) (hl : l.Admitted) {e : LockError}
    (h : t.lock file l = .error e) : ∃ held ∈ t.locks file, e = .denied held ∧
      held.owner ≠ l.owner ∧ ∃ byte, held.Covers byte ∧ l.Covers byte := by
  unfold lock at h
  cases hfound : t.conflict? file l with
  | none => simp [hfound] at h
  | some held =>
    simp only [hfound, Except.error.injEq] at h
    unfold conflict? at hfound
    have hheld := List.mem_of_find?_eq_some hfound
    obtain ⟨hother, hoverlaps, -⟩ := conflictsWith_iff.1 (List.find?_some hfound)
    obtain ⟨byte, hcovers, hbyte⟩ := (overlaps_iff_covers hl (ht file held hheld)).1 hoverlaps
    exact ⟨held, hheld, h.symm, Ne.symm hother, byte, hbyte, hcovers⟩

/-! ### What a granted call writes -/

/-- A granted lock writes the bytes of its range for its owner. -/
theorem kindsAt_lock (h : t.lock file l = .ok t') (other : FileId) (owner : LockOwner)
    (byte : Nat) : t'.kindsAt other owner byte =
      if other = file ∧ owner = l.owner ∧ l.Covers byte then [l.kind]
      else t.kindsAt other owner byte := by
  rw [lock_eq_ok h]
  unfold kindsAt
  rw [locks_setLocks]
  by_cases hfile : file = other
  · rw [if_pos hfile, kindsOver_append, kindsOver_carve, kindsOver_cons, kindsOver_nil]
    by_cases hwritten : owner = l.owner ∧ l.Covers byte
    · simp [hfile, hwritten]
    · have hnot : ¬ (l.owner = owner ∧ l.Covers byte) := fun hit => hwritten ⟨hit.1.symm, hit.2⟩
      simp [hfile, hwritten, hnot]
  · rw [if_neg hfile, if_neg fun hit => hfile hit.1.symm]

/-- A range that is given back is taken from its owner byte by byte. -/
theorem kindsAt_unlock (h : t.unlock file l = .ok t') (other : FileId) (owner : LockOwner)
    (byte : Nat) : t'.kindsAt other owner byte =
      if other = file ∧ owner = l.owner ∧ l.Covers byte then []
      else t.kindsAt other owner byte := by
  rw [unlock_eq_ok h]
  unfold kindsAt
  rw [locks_setLocks]
  by_cases hfile : file = other
  · rw [if_pos hfile, kindsOver_carve]
    simp [hfile]
  · rw [if_neg hfile, if_neg fun hit => hfile hit.1.symm]

/-- What a call of a range means byte by byte. -/
structure MeansBytes (t : LockTable) (file : FileId) (l : RangeLock) : Prop where
  lock_iff : (∃ t', t.lock file l = .ok t') ↔ t.Free file l
  locked : ∀ t', t.lock file l = .ok t' →
    (∀ other owner byte, t'.kindsAt other owner byte =
      if other = file ∧ owner = l.owner ∧ l.Covers byte then [l.kind]
      else t.kindsAt other owner byte) ∧
    ∀ other, other ≠ file → t'.locks other = t.locks other
  denied : ∀ e, t.lock file l = .error e →
    (∃ held ∈ t.locks file, e = .denied held ∧ held.owner ≠ l.owner ∧
      ∃ byte, held.Covers byte ∧ l.Covers byte) ∧ t.serve (.lock file l) = t
  tested : t.test file l = (t.lock file l).map fun _ => ()
  unlock_iff : (∃ t', t.unlock file l = .ok t') ↔
    ∃ byte, l.Covers byte ∧ t.kindsAt file l.owner byte ≠ []
  unlocked : ∀ t', t.unlock file l = .ok t' →
    (∀ other owner byte, t'.kindsAt other owner byte =
      if other = file ∧ owner = l.owner ∧ l.Covers byte then []
      else t.kindsAt other owner byte) ∧
    ∀ other, other ≠ file → t'.locks other = t.locks other
  unavailable : ∀ e, t.unlock file l = .error e →
    e = .rangeUnavailable l ∧ t.serve (.unlock file l) = t

/-- Calls of a table of ranges that may be named mean what they say byte by byte. -/
theorem Admitted.meansBytes (ht : t.Admitted) (hl : l.Admitted) : t.MeansBytes file l where
  lock_iff := lock_eq_ok_iff ht hl
  locked := by
    intro t' h
    refine ⟨kindsAt_lock h, fun other hne => ?_⟩
    rw [lock_eq_ok h, locks_setLocks, if_neg (Ne.symm hne)]
  denied := fun e h => ⟨denied_of_lock ht hl h, serve_of_error h⟩
  tested := by
    unfold test lock
    cases t.conflict? file l <;> rfl
  unlock_iff := unlock_eq_ok_iff ht hl
  unlocked := by
    intro t' h
    refine ⟨kindsAt_unlock h, fun other hne => ?_⟩
    rw [unlock_eq_ok h, locks_setLocks, if_neg (Ne.symm hne)]
  unavailable := by
    intro e h
    refine ⟨?_, serve_of_error h⟩
    unfold unlock at h
    split at h
    · cases h
    · injection h with h
      exact h.symm

/-- After any sequence of calls whose ranges pass the check of a request, the next such call means
what it says byte by byte. -/
theorem calls_mean_bytes (calls : List Call) (hcalls : ∀ call ∈ calls, call.range.Admitted)
    (file : FileId) (l : RangeLock) (hl : l.Admitted) :
    (empty.serveAll calls).MeansBytes file l :=
  (admitted_empty.serveAll hcalls).meansBytes hl

/-- Between two writers, one of whom has given back a part of its range, and up to the end of the
file: the first turns the bytes next to the gap into bytes that it reads, and may not have the gap. -/
theorem calls_mean_bytes_beside_gap :
    let mine : LockOwner := ⟨⟨1⟩, [1]⟩
    let other : LockOwner := ⟨⟨2⟩, [1]⟩
    let calls : List Call := [.lock ⟨[9]⟩ ⟨mine, .write, 0, toEnd⟩, .unlock ⟨[9]⟩ ⟨mine, .write, 40, 20⟩,
      .lock ⟨[9]⟩ ⟨other, .write, 45, 10⟩, .lock ⟨[9]⟩ ⟨other, .read, toEnd, toEnd⟩]
    let l : RangeLock := ⟨mine, .read, 30, 15⟩
    let t := empty.serveAll calls
    (∀ call ∈ calls, call.range.Admitted) ∧ l.Admitted ∧
      (t.locks ⟨[9]⟩).map (fun held => (held.owner.client.value, held.offset, held.length)) =
        [(1, 0, 40), (1, 60, toEnd), (2, 45, 10), (2, toEnd, toEnd)] ∧
      t.test ⟨[9]⟩ l = .ok () ∧
      t.test ⟨[9]⟩ ⟨mine, .read, 30, 16⟩ = .error (.denied ⟨other, .write, 45, 10⟩) ∧
      t.MeansBytes ⟨[9]⟩ l := by
  intro mine other calls l t
  have hcalls : ∀ call ∈ calls, call.range.Admitted := by
    simp only [calls, List.forall_mem_cons, List.not_mem_nil, false_implies, implies_true, and_true,
      Call.range, admitted_iff]
    decide
  have hl : l.Admitted := admitted_iff.2 (by decide)
  exact ⟨hcalls, hl, by decide +kernel, by decide +kernel, by decide +kernel,
    calls_mean_bytes calls hcalls ⟨[9]⟩ l hl⟩

/-! ## Giving back the whole file -/

/-- A lock at 2^64 - 1 is there once it was asked for, whatever is called. -/
theorem mem_serve_of_offset_eq_toEnd (hend : l.offset = toEnd) (call : Call) :
    l ∈ (t.serve call).locks file ↔ l ∈ t.locks file ∨ call = .lock file l := by
  cases call with
  | lock other asked =>
    cases hlock : t.answer (.lock other asked) with
    | ok t' =>
      rw [serve_of_ok hlock, lock_eq_ok hlock, locks_setLocks]
      by_cases hfile : other = file
      · rw [if_pos hfile, List.mem_append, mem_carve_of_offset_eq_toEnd hend, List.mem_singleton,
          hfile, Call.lock.injEq]
        simp [eq_comm]
      · rw [if_neg hfile, Call.lock.injEq]
        simp [hfile]
    | error e =>
      rw [serve_of_error hlock]
      constructor
      · exact .inl
      · rintro (hmem | hcall)
        · exact hmem
        -- it is in nobody's way, so it is not the one that was refused
        · obtain ⟨rfl, rfl⟩ := Call.lock.inj hcall
          have hfree : t.conflict? other asked = none := by
            unfold conflict?
            refine List.find?_eq_none.2 fun held _ hconflicts => ?_
            have hoverlaps := (conflictsWith_iff.1 hconflicts).2.1
            rw [overlaps_of_offset_eq_toEnd hend] at hoverlaps
            cases hoverlaps
          simp [answer, lock, hfree] at hlock
  | unlock other asked =>
    simp only [reduceCtorEq, or_false]
    cases hunlock : t.answer (.unlock other asked) with
    | ok t' =>
      rw [serve_of_ok hunlock, unlock_eq_ok hunlock, locks_setLocks]
      by_cases hfile : other = file
      · rw [if_pos hfile, mem_carve_of_offset_eq_toEnd hend, hfile]
      · rw [if_neg hfile]
    | error e => rw [serve_of_error hunlock]

/-- A lock on nothing but the last offset is never cut and never goes. -/
theorem mem_serveAll_of_offset_eq_toEnd (hend : l.offset = toEnd) (calls : List Call) :
    l ∈ (t.serveAll calls).locks file ↔ l ∈ t.locks file ∨ .lock file l ∈ calls := by
  induction calls generalizing t with
  | nil => simp [serveAll]
  | cons call rest ih =>
    have hrest : t.serveAll (call :: rest) = (t.serve call).serveAll rest := rfl
    rw [hrest, ih, mem_serve_of_offset_eq_toEnd hend, List.mem_cons, or_assoc, eq_comm]

/-- Giving back the whole file succeeds, and takes from its owner all locks but those that were asked
for at offset 2^64 - 1, which cover no byte; so it takes all locks exactly if no such lock was asked
for. Nobody else's locks change. -/
theorem everything_released_iff (calls : List Call) (hcalls : ∀ call ∈ calls, call.range.Admitted)
    (file : FileId) (owner : LockOwner) :
    let t := empty.serveAll calls
    ∃ t', t.unlockIfHeld file (.everything owner) = .ok t' ∧
      ((∀ l ∈ t'.locks file, l.owner ≠ owner) ↔
        ∀ l, .lock file l ∈ calls → l.owner = owner → l.offset ≠ toEnd) ∧
      (∀ l ∈ t'.locks file, l.owner = owner → ∀ byte, ¬ l.Covers byte) ∧
      (t'.locks file).filter (·.owner ≠ owner) = (t.locks file).filter (·.owner ≠ owner) ∧
      ∀ other, other ≠ file → t'.locks other = t.locks other := by
  intro t
  have ht : t.Admitted := admitted_empty.serveAll hcalls
  obtain ⟨t', hok, -, hnone⟩ := t.unlockIfHeld_everything file owner
  have hlocks := locks_of_unlockIfHeld_everything hok
  -- what stays is what the request for everything does not reach
  have hmem (l : RangeLock) : l ∈ t'.locks file ↔ l ∈ t.locks file ∧ ¬ l.GoesWith owner := by
    rw [hlocks file, if_pos rfl, List.mem_filter, decide_eq_true_eq]
  refine ⟨t', hok, ⟨?_, ?_⟩, hnone, ?_, fun other hne => ?_⟩
  · intro hgone l hcall howner hend
    -- a lock at the last offset is on the table for good once asked for
    have hheld : l ∈ t.locks file := (mem_serveAll_of_offset_eq_toEnd hend calls).2 (.inr hcall)
    have hstays : ¬ l.GoesWith owner := fun hgoes => ((ht file l hheld).goesWith_iff owner).1 hgoes |>.2 hend
    exact hgone l ((hmem l).2 ⟨hheld, hstays⟩) howner
  · intro hasked l hl howner
    obtain ⟨hheld, hstays⟩ := (hmem l).1 hl
    have hend : l.offset = toEnd := by
      -- a lock with bytes of its own would have gone
      by_contra hne
      exact hstays (((ht file l hheld).goesWith_iff owner).2 ⟨howner, hne⟩)
    rcases (mem_serveAll_of_offset_eq_toEnd hend calls).1 hheld with hempty | hcall
    · exact absurd hempty List.not_mem_nil
    · exact hasked l hcall howner hend
  · rw [hlocks file, if_pos rfl, List.filter_filter]
    refine List.filter_congr fun l _ => ?_
    by_cases howner : l.owner = owner
    · simp [howner]
    · simp [howner, GoesWith]
  · rw [hlocks other, if_neg hne]

/-- One of two owners gives everything back: its lock at 2^64 - 1 stays, and the other's lock. -/
theorem everything_released_of_two :
    let mine : LockOwner := ⟨⟨1⟩, [1]⟩
    let other : LockOwner := ⟨⟨1⟩, [2]⟩
    let calls : List Call := [.lock ⟨[9]⟩ ⟨mine, .write, 0, 100⟩, .unlock ⟨[9]⟩ ⟨mine, .write, 40, 20⟩,
      .lock ⟨[9]⟩ ⟨other, .read, 200, toEnd⟩, .lock ⟨[9]⟩ ⟨mine, .write, toEnd, toEnd⟩]
    let t := empty.serveAll calls
    (∀ call ∈ calls, call.range.Admitted) ∧ ((t.locks ⟨[9]⟩).map (·.offset) = [0, 60, 200, toEnd]) ∧
      ∃ t', t.unlockIfHeld ⟨[9]⟩ (.everything mine) = .ok t' ∧
        ((∀ l ∈ t'.locks ⟨[9]⟩, l.owner ≠ mine) ↔
          ∀ l, .lock ⟨[9]⟩ l ∈ calls → l.owner = mine → l.offset ≠ toEnd) ∧
        (∀ l ∈ t'.locks ⟨[9]⟩, l.owner = mine → ∀ byte, ¬ l.Covers byte) ∧
        (t'.locks ⟨[9]⟩).filter (·.owner ≠ mine) = (t.locks ⟨[9]⟩).filter (·.owner ≠ mine) ∧
        ∀ file, file ≠ ⟨[9]⟩ → t'.locks file = t.locks file := by
  intro mine other calls t
  have hcalls : ∀ call ∈ calls, call.range.Admitted := by
    simp only [calls, List.forall_mem_cons, List.not_mem_nil, false_implies, implies_true, and_true,
      Call.range, admitted_iff]
    decide
  exact ⟨hcalls, by decide +kernel, everything_released_iff calls hcalls ⟨[9]⟩ mine⟩

/-- Who locks from offset 2^64 - 1 to the end of the file cannot give it back, not even with the whole
file. -/
theorem lock_at_end_stays :
    let l : RangeLock := ⟨⟨⟨1⟩, [1]⟩, .write, toEnd, toEnd⟩
    let t := empty.serve (.lock ⟨[9]⟩ l)
    l.Admitted ∧ ∃ t', t.unlockIfHeld ⟨[9]⟩ (.everything l.owner) = .ok t' ∧ t'.locks ⟨[9]⟩ = [l] :=
  ⟨admitted_iff.2 (by decide), _, rfl, by decide +kernel⟩

end LockTable

end Leasehold

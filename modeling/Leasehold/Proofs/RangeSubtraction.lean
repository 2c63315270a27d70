import Leasehold.LockTable

/-!
# Proofs.RangeSubtraction — what is left of a lock outside a range

Offsets and stops are words, and a stop saturates at 2^64 - 1. Once every stop is
known to lie behind its offset, the comparisons of a subtraction are comparisons
of numbers, and the parts it leaves are described by three facts:

* `within_of_mem_subtract` — a part lies within the lock it was cut from;
* `not_overlaps_of_mem_subtract` — a part does not reach into the range;
* `pairwise_subtract` — two parts do not reach into one another.
-/

namespace Leasehold

namespace RangeLock

/-! ## Offsets and stops as numbers -/

theorem stop_lt (l : RangeLock) : l.stop.toNat < UInt64.size := l.stop.toNat_lt

/-- Neither a saturated stop nor "to the end of the file" lies before the offset. -/
theorem offset_le_stop (l : RangeLock) : l.offset.toNat ≤ l.stop.toNat := by
  have hoff : l.offset.toNat < UInt64.size := l.offset.toNat_lt
  rw [toNat_stop]
  split
  · omega
  · omega

/-- Two locks overlap if each starts before the other one stops. -/
theorem overlaps_iff {a b : RangeLock} :
    a.overlaps b = true ↔ a.offset.toNat < b.stop.toNat ∧ b.offset.toNat < a.stop.toNat := by
  simp only [overlaps, Bool.and_eq_true, decide_eq_true_eq, UInt64.lt_iff_toNat_lt]

theorem overlaps_comm (a b : RangeLock) : a.overlaps b = b.overlaps a := by
  simp only [overlaps]
  exact Bool.and_comm ..

/-- Ranges that share a byte overlap. An empty range in the middle of another one overlaps it too,
though it shares none of its bytes. -/
theorem overlaps_of_covers {a b : RangeLock} {byte : Nat} (ha : a.Covers byte)
    (hb : b.Covers byte) : a.overlaps b = true := by
  obtain ⟨ha1, ha2⟩ := ha
  obtain ⟨hb1, hb2⟩ := hb
  exact overlaps_iff.2 ⟨by omega, by omega⟩

/-! ## Parts of a lock -/

/-- The part starts no earlier and stops no later than the whole. -/
def Within (part whole : RangeLock) : Prop :=
  whole.offset.toNat ≤ part.offset.toNat ∧ part.stop.toNat ≤ whole.stop.toNat

theorem Within.refl (l : RangeLock) : l.Within l := ⟨Nat.le_refl _, Nat.le_refl _⟩

/-- What a part reaches into, the whole reaches into. -/
theorem Within.overlaps {part whole l : RangeLock} (h : part.Within whole)
    (ho : part.overlaps l = true) : whole.overlaps l = true := by
  obtain ⟨h1, h2⟩ := h
  obtain ⟨ho1, ho2⟩ := overlaps_iff.1 ho
  exact overlaps_iff.2 ⟨by omega, by omega⟩

/-- The part of a lock before a range. -/
def front (held range : RangeLock) : RangeLock :=
  { held with length := range.offset - held.offset }

/-- The part of a lock behind a range. -/
def back (held range : RangeLock) : RangeLock :=
  { held with
    offset := range.stop
    length := if held.length = toEnd then toEnd else held.stop - range.stop }

section parts

variable {held range : RangeLock}

/-- The front is as long as the lock reaches before the range. -/
theorem toNat_length_front (hlt : held.offset < range.offset) :
    (held.front range).length.toNat = range.offset.toNat - held.offset.toNat :=
  UInt64.toNat_sub_of_le _ _ (UInt64.le_of_lt hlt)

/-- The range begins before the lock's stop, so the front is too short to mean "to the end". -/
theorem length_front_ne_toEnd (hlt : held.offset < range.offset)
    (ho : held.overlaps range = true) : (held.front range).length ≠ toEnd := by
  intro h
  have hlen := toNat_length_front hlt
  have hend : toEnd.toNat = UInt64.size - 1 := rfl
  have hstop := (overlaps_iff.1 ho).2
  have hmax := held.stop_lt
  rw [h] at hlen
  omega

/-- The front stops where the range begins. -/
theorem toNat_stop_front (hlt : held.offset < range.offset) (ho : held.overlaps range = true) :
    (held.front range).stop.toNat = range.offset.toNat := by
  rw [toNat_stop, if_neg (length_front_ne_toEnd hlt ho), toNat_length_front hlt]
  rw [UInt64.lt_iff_toNat_lt] at hlt
  have hstop := (overlaps_iff.1 ho).2
  have hmax := held.stop_lt
  show min (held.offset.toNat + _) _ = _
  omega

/-- The back of a lock that does not go to the end is as long as the lock reaches behind the
range. -/
theorem toNat_length_back (hlt : range.stop < held.stop) (hend : held.length ≠ toEnd) :
    (held.back range).length.toNat = held.stop.toNat - range.stop.toNat := by
  unfold back
  rw [if_neg hend]
  exact UInt64.toNat_sub_of_le _ _ (UInt64.le_of_lt hlt)

/-- The range stops behind the lock's offset, so what is left of a lock that does not go to the end
is shorter than the marker. -/
theorem length_back_eq_toEnd_iff (hlt : range.stop < held.stop) (ho : held.overlaps range = true) :
    (held.back range).length = toEnd ↔ held.length = toEnd := by
  refine ⟨fun h => Decidable.byContradiction fun hne => ?_, fun h => if_pos h⟩
  have hlen := toNat_length_back hlt hne
  have hend : toEnd.toNat = UInt64.size - 1 := rfl
  have hstart := (overlaps_iff.1 ho).1
  have hmax := held.stop_lt
  rw [h, hend] at hlen
  rw [UInt64.lt_iff_toNat_lt] at hlt
  omega

/-- The back stops where the lock did. -/
theorem toNat_stop_back (hlt : range.stop < held.stop) (ho : held.overlaps range = true) :
    (held.back range).stop.toNat = held.stop.toNat := by
  have hmax := held.stop_lt
  rw [toNat_stop]
  by_cases hend : held.length = toEnd
  · rw [if_pos ((length_back_eq_toEnd_iff hlt ho).2 hend), toNat_stop, if_pos hend]
  · rw [if_neg (mt (length_back_eq_toEnd_iff hlt ho).1 hend), toNat_length_back hlt hend]
    rw [UInt64.lt_iff_toNat_lt] at hlt
    show min (range.stop.toNat + _) _ = _
    omega

end parts

/-- What is left of a lock: all of it, the part before the range, or the part behind it. -/
theorem mem_subtract {held range part : RangeLock} :
    part ∈ held.subtract range ↔
      (held.overlaps range = false ∧ part = held) ∨
      (held.overlaps range = true ∧ held.offset < range.offset ∧ part = held.front range) ∨
      (held.overlaps range = true ∧ range.stop < held.stop ∧ part = held.back range) := by
  unfold subtract front back
  by_cases ho : held.overlaps range = true
  · simp only [ho, if_true, List.mem_append, Bool.true_eq_false, false_and, true_and, false_or]
    by_cases h1 : held.offset < range.offset <;> by_cases h2 : range.stop < held.stop <;>
      simp [h1, h2]
  · simp [ho]

/-- Cutting a range out of a lock leaves its owner and its kind. -/
theorem owner_kind_of_mem_subtract {held range part : RangeLock}
    (h : part ∈ held.subtract range) : part.owner = held.owner ∧ part.kind = held.kind := by
  rcases mem_subtract.1 h with ⟨-, rfl⟩ | ⟨-, -, rfl⟩ | ⟨-, -, rfl⟩
  · exact ⟨rfl, rfl⟩
  · exact ⟨rfl, rfl⟩
  · exact ⟨rfl, rfl⟩

/-- Nothing is left but parts of the lock. -/
theorem within_of_mem_subtract {held range part : RangeLock} (h : part ∈ held.subtract range) :
    part.Within held := by
  rcases mem_subtract.1 h with ⟨-, rfl⟩ | ⟨ho, hlt, rfl⟩ | ⟨ho, hlt, rfl⟩
  · exact .refl _
  · obtain ⟨-, hstop⟩ := overlaps_iff.1 ho
    have hfront := toNat_stop_front hlt ho
    exact ⟨Nat.le_refl _, by omega⟩
  · obtain ⟨hstart, -⟩ := overlaps_iff.1 ho
    exact ⟨Nat.le_of_lt hstart, Nat.le_of_eq (toNat_stop_back hlt ho)⟩

/-- Nothing is left that lies in the range. -/
theorem not_overlaps_of_mem_subtract {held range part : RangeLock}
    (h : part ∈ held.subtract range) : part.overlaps range = false := by
  rw [← Bool.not_eq_true, overlaps_iff]
  rcases mem_subtract.1 h with ⟨ho, rfl⟩ | ⟨ho, hlt, rfl⟩ | ⟨ho, hlt, rfl⟩
  · rw [← Bool.not_eq_true, overlaps_iff] at ho
    exact ho
  · rw [toNat_stop_front hlt ho]
    omega
  · rintro ⟨hstart, -⟩
    change range.stop.toNat < range.stop.toNat at hstart
    omega

/-- The part before the range and the part behind it lie apart. -/
theorem pairwise_subtract (held range : RangeLock) :
    (held.subtract range).Pairwise fun a b => a.overlaps b = false := by
  by_cases ho : held.overlaps range = true
  · -- two parts only if the range lies inside the lock: then one stops before the other starts
    have hle := range.offset_le_stop
    by_cases h1 : held.offset < range.offset
    · by_cases h2 : range.stop < held.stop
      · have hparts : held.subtract range = [held.front range, held.back range] := by
          simp [subtract, ho, h1, h2, front, back]
        rw [hparts, List.pairwise_pair, ← Bool.not_eq_true, overlaps_iff]
        rintro ⟨-, hlt⟩
        rw [toNat_stop_front h1 ho] at hlt
        change range.stop.toNat < range.offset.toNat at hlt
        omega
      · simp [subtract, ho, h1, h2]
    · by_cases h2 : range.stop < held.stop <;> simp [subtract, ho, h1, h2]
  · simp [subtract, ho]

end RangeLock

end Leasehold

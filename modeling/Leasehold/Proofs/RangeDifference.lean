import Leasehold.Proofs.ByteCoverage

/-!
# Proofs.RangeDifference — a subtraction of ranges is exact

Offsets and lengths are any words. Both ends of a range saturate, and the greatest
length means "to the end of the file"; still a subtraction leaves the bytes of the
lock that lie outside the range, no more and no fewer.

* `RangeLock.checkedSubtract` — the same subtraction, where a difference of words that
  would be below zero is none;
* `RangeLock.IsRest` — what the parts of a lock outside a range are;
* `RangeLock.subtract_exact` — no difference is below zero, and the parts are those.
-/

namespace Leasehold

namespace RangeLock

variable {held range part : RangeLock}

/-! ## Differences of words -/

/-- The difference of two words, if it is not below zero. -/
def difference? (a b : UInt64) : Option UInt64 := if b ≤ a then some (a - b) else none

/-- A smaller word can be taken from a greater one. -/
theorem difference?_of_lt {a b : UInt64} (h : b < a) : difference? a b = some (a - b) :=
  if_pos (UInt64.le_of_lt h)

/-- What is before a range, if the difference is not below zero. -/
def checkedFront (held range : RangeLock) : Option (List RangeLock) :=
  if held.offset < range.offset then
    (difference? range.offset held.offset).map fun length => [{ held with length }]
  else some []

/-- What is behind a range, if the difference is not below zero. -/
def checkedBack (held range : RangeLock) : Option (List RangeLock) :=
  if range.stop < held.stop then
    (if held.length = toEnd then some toEnd else difference? held.stop range.stop).map
      fun length => [{ held with offset := range.stop, length }]
  else some []

/-- The parts of a held lock that lie outside a range, if no difference on the way is below zero. -/
def checkedSubtract (held range : RangeLock) : Option (List RangeLock) :=
  if held.overlaps range then do
    let front ← held.checkedFront range
    let back ← held.checkedBack range
    return front ++ back
  else some [held]

/-- What is before the range is worked out only where there is something. -/
theorem checkedFront_eq (held range : RangeLock) :
    held.checkedFront range =
      some (if held.offset < range.offset then [held.front range] else []) := by
  unfold checkedFront
  split
  · rename_i hlt
    rw [difference?_of_lt hlt]
    rfl
  · rfl

/-- What is behind the range is worked out only where there is something. -/
theorem checkedBack_eq (held range : RangeLock) :
    held.checkedBack range =
      some (if range.stop < held.stop then [held.back range] else []) := by
  unfold checkedBack back
  split
  · rename_i hlt
    rw [difference?_of_lt hlt]
    split <;> rfl
  · rfl

/-- Each difference is taken only where it is above zero. -/
theorem checkedSubtract_eq (held range : RangeLock) :
    held.checkedSubtract range = some (held.subtract range) := by
  unfold checkedSubtract subtract
  rw [checkedFront_eq, checkedBack_eq]
  split <;> rfl

/-! ## The parts -/

/-- The parts are what is left of a held lock outside a range. -/
structure IsRest (held range : RangeLock) (parts : List RangeLock) : Prop where
  whole : held.overlaps range = false → parts = [held]
  few : held.overlaps range = true → parts.length ≤ 2
  alike : ∀ part ∈ parts, part.owner = held.owner ∧ part.kind = held.kind
  nonempty : held.overlaps range = true → ∀ part ∈ parts, 0 < part.length.toNat
  toEnd : ∀ part ∈ parts, part.length = RangeLock.toEnd → held.length = RangeLock.toEnd
  disjoint : parts.Pairwise fun a b => ∀ byte, ¬ (a.Covers byte ∧ b.Covers byte)
  covers_iff : ∀ byte, (∃ part ∈ parts, part.Covers byte) ↔ held.Covers byte ∧ ¬ range.Covers byte

/-- A range leaves two parts of a lock at most. -/
theorem length_subtract_le (held range : RangeLock) : (held.subtract range).length ≤ 2 := by
  unfold subtract
  split
  · rw [List.length_append]
    split <;> split <;> simp
  · simp

/-- The parts that are cut out of a lock are not empty, whatever the lock and the range are. -/
theorem length_pos_of_mem_subtract (ho : held.overlaps range = true)
    (h : part ∈ held.subtract range) : 0 < part.length.toNat := by
  rcases mem_subtract.1 h with ⟨hapart, -⟩ | ⟨-, hlt, rfl⟩ | ⟨-, hlt, rfl⟩
  · rw [ho] at hapart
    cases hapart
  · rw [toNat_length_front hlt]
    rw [UInt64.lt_iff_toNat_lt] at hlt
    omega
  · by_cases hend : held.length = RangeLock.toEnd
    · rw [(length_back_eq_toEnd_iff hlt ho).2 hend]
      decide
    · rw [toNat_length_back hlt hend]
      rw [UInt64.lt_iff_toNat_lt] at hlt
      omega

/-- No part is taken for one that goes to the end unless the lock does. -/
theorem toEnd_of_mem_subtract (h : part ∈ held.subtract range)
    (hend : part.length = RangeLock.toEnd) : held.length = RangeLock.toEnd := by
  rcases mem_subtract.1 h with ⟨-, rfl⟩ | ⟨ho, hlt, rfl⟩ | ⟨ho, hlt, rfl⟩
  · exact hend
  · exact absurd hend (length_front_ne_toEnd hlt ho)
  · exact (length_back_eq_toEnd_iff hlt ho).1 hend

/-- The parts cover the bytes of the lock outside the range. -/
theorem exists_covers_subtract_iff (held range : RangeLock) (byte : Nat) :
    (∃ part ∈ held.subtract range, part.Covers byte) ↔ held.Covers byte ∧ ¬ range.Covers byte := by
  have hparts : (∃ part ∈ held.subtract range, part.Covers byte) ↔
      held.kind ∈ kindsOver (held.subtract range) held.owner byte := by
    rw [mem_kindsOver]
    refine exists_congr fun part => and_congr_right fun hmem => ?_
    obtain ⟨howner, hkind⟩ := owner_kind_of_mem_subtract hmem
    exact ⟨fun hcovers => ⟨howner, hcovers, hkind⟩, fun h => h.2.1⟩
  rw [hparts, kindsOver_subtract]
  by_cases hrange : range.Covers byte
  · simp [hrange]
  · by_cases hheld : held.Covers byte <;> simp [hrange, hheld, kindsOver]

/-- Whatever the offsets and lengths of a held lock and of a range are: no difference that is taken
is below zero, and what is left is the lock itself if the two do not overlap, and otherwise at most
two parts of it that are not empty, lie apart, and cover its bytes outside the range. -/
theorem subtract_exact (held range : RangeLock) :
    held.checkedSubtract range = some (held.subtract range) ∧
      held.IsRest range (held.subtract range) := by
  refine ⟨checkedSubtract_eq held range, ?_⟩
  constructor
  case whole =>
    intro hapart
    exact if_neg (Bool.not_eq_true _ ▸ hapart)
  case few => exact fun _ => length_subtract_le held range
  case alike => exact fun _ hmem => owner_kind_of_mem_subtract hmem
  case nonempty => exact fun ho _ hmem => length_pos_of_mem_subtract ho hmem
  case toEnd => exact fun _ hmem hend => toEnd_of_mem_subtract hmem hend
  case disjoint =>
    refine (pairwise_subtract held range).imp fun {a b} hapart byte ⟨ha, hb⟩ => ?_
    rw [overlaps_of_covers ha hb] at hapart
    cases hapart
  case covers_iff => exact exists_covers_subtract_iff held range

end RangeLock

end Leasehold

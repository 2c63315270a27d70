import Leasehold.Proofs.Octets
import Leasehold.Recovery.Record

/-!
# Proofs.RecordTimes — times on disk

A record keeps the time at which its client was first seen in eight octets. Every
reading of the calendar comes back from there, at the start of its millisecond.

* `signedOfBytes_encodeTime` — eight octets keep a number with its sign;
* `decodeTime_encodeTime` — what is written of a calendar reading is read again,
  without the part below a millisecond.
-/

namespace Leasehold

namespace WallTime

/-- The calendar has a date for this reading. -/
def OnCalendar (t : WallTime) : Prop := firstMillis ≤ t.millis ∧ t.millis ≤ lastMillis

instance (t : WallTime) : Decidable t.OnCalendar :=
  inferInstanceAs (Decidable (firstMillis ≤ t.millis ∧ t.millis ≤ lastMillis))

/-- The reading at which its millisecond began. -/
def wholeMillis (t : WallTime) : WallTime := ⟨t.millis * 1_000_000⟩

/-- A reading that has a date has one at the start of its millisecond. -/
theorem ofMillis?_millis {t : WallTime} (h : t.OnCalendar) :
    ofMillis? t.millis = some t.wholeMillis := if_pos h

/-- The calendar ends well within sixty-four signed bits. -/
theorem OnCalendar.millis_bounds {t : WallTime} (h : t.OnCalendar) :
    -0x8000_0000_0000_0000 ≤ t.millis ∧ t.millis < 0x8000_0000_0000_0000 := by
  obtain ⟨hfirst, hlast⟩ := h
  unfold firstMillis at hfirst
  unfold lastMillis at hlast
  omega

end WallTime

namespace Recovery

/-- A number of milliseconds with its sign survives on disk. -/
theorem signedOfBytes_encodeTime {t : WallTime} (hlow : -0x8000_0000_0000_0000 ≤ t.millis)
    (hhigh : t.millis < 0x8000_0000_0000_0000) : signedOfBytes (encodeTime t) = t.millis := by
  obtain ⟨word, hword⟩ : ∃ word : Nat, (word : Int) = t.millis % 0x1_0000_0000_0000_0000 :=
    ⟨_, Int.toNat_of_nonneg (by omega)⟩
  have hread : (encodeTime t).foldl (fun m b => 256 * m + b.toNat) 0 = word := by
    have hfits : word < Nat.pow 256 8 := by
      show word < 0x1_0000_0000_0000_0000
      omega
    unfold encodeTime
    rw [← hword]
    exact (Octets.toNat_ofNat 8 word).trans (Nat.mod_eq_of_lt hfits)
  unfold signedOfBytes
  rw [hread]
  -- the upper half of the words stands for the numbers below zero
  show (if word < _ then (word : Int) else _) = _
  split <;> omega

theorem length_encodeTime (t : WallTime) : (encodeTime t).length = 8 := rfl

/-- What is written of a calendar reading is read again as the start of its millisecond. -/
theorem decodeTime_encodeTime (owner : Bytes) {t : WallTime} (h : t.OnCalendar) :
    decodeTime owner (encodeTime t) = .ok t.wholeMillis := by
  have hread : WallTime.ofMillis? (signedOfBytes (encodeTime t)) = some t.wholeMillis := by
    rw [signedOfBytes_encodeTime h.millis_bounds.1 h.millis_bounds.2]
    exact WallTime.ofMillis?_millis h
  unfold decodeTime
  rw [if_pos (length_encodeTime t), hread]

end Recovery

end Leasehold

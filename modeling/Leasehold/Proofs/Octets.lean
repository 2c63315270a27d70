import Leasehold.Text.Hex

/-!
# Proofs.Octets — numbers as octets

Identifiers on the wire and times on disk are numbers in fields of so many octets,
the highest octet first. A field holds as much of a number as fits in it.

* `Octets.toNat_ofNat` — a field is read as what fits in it;
* `Octets.ofNat_add` — two fields side by side are one wider field;
* `Octets.ofNat_eq_iff` — two numbers are alike in a field just if what fits of them is;
* `Octets.encode_ofNat` — the digits of the octets are the digits of the number.
-/

namespace Leasehold

namespace Octets

/-- The octets of a number in a field of that width, the highest first. -/
def ofNat (width n : Nat) : Bytes :=
  (List.range width).map fun i => UInt8.ofNat (n / Nat.pow 256 (width - 1 - i))

/-- The number that octets write, the highest octet first. -/
def toNat (bytes : Bytes) : Nat := bytes.foldl (fun n b => 256 * n + b.toNat) 0

@[simp] theorem length_ofNat (width n : Nat) : (ofNat width n).length = width := by
  simp [ofNat]

/-- All octets but the last are those of the number without its lowest one. -/
theorem ofNat_succ (width n : Nat) :
    ofNat (width + 1) n = ofNat width (n / 256) ++ [UInt8.ofNat n] := by
  have hhigh : ((List.range width).map fun i =>
      UInt8.ofNat (n / Nat.pow 256 (width + 1 - 1 - i))) = ofNat width (n / 256) := by
    refine List.map_congr_left fun i hi => congrArg UInt8.ofNat ?_
    have hlt : i < width := List.mem_range.1 hi
    have hexp : width + 1 - 1 - i = (width - 1 - i) + 1 := by omega
    rw [hexp, Nat.div_div_eq_div_mul, Nat.mul_comm]
    rfl
  have hlow : UInt8.ofNat (n / Nat.pow 256 (width + 1 - 1 - width)) = UInt8.ofNat n := by
    have hexp : width + 1 - 1 - width = 0 := by omega
    rw [hexp]
    exact congrArg UInt8.ofNat (Nat.div_one n)
  rw [ofNat, List.range_succ, List.map_append, hhigh, List.map_singleton, hlow]

/-- One more octet is one more digit at the end. -/
theorem toNat_concat (bytes : Bytes) (b : UInt8) :
    toNat (bytes ++ [b]) = 256 * toNat bytes + b.toNat := by
  rw [toNat, List.foldl_append]
  rfl

/-- A field is read as what fits in it. -/
theorem toNat_ofNat (width n : Nat) : toNat (ofNat width n) = n % Nat.pow 256 width := by
  induction width generalizing n with
  | zero => exact (Nat.mod_one n).symm
  | succ width ih =>
    have hlow : (UInt8.ofNat n).toNat = n % 256 := UInt8.toNat_ofNat'
    rw [ofNat_succ, toNat_concat, ih, hlow]
    show 256 * (n / 256 % Nat.pow 256 width) + n % 256 = n % (Nat.pow 256 width * 256)
    rw [Nat.mul_comm (Nat.pow 256 width) 256, Nat.mod_mul]
    omega

/-- A field of two parts holds the low octets in the second part, and what is above them in the
first. -/
theorem ofNat_add (high low n : Nat) :
    ofNat (high + low) n = ofNat high (n / Nat.pow 256 low) ++ ofNat low n := by
  induction low generalizing n with
  | zero => exact (congrArg (ofNat high) (Nat.div_one n).symm).trans (List.append_nil _).symm
  | succ low ih =>
    have hdiv : n / Nat.pow 256 (low + 1) = n / 256 / Nat.pow 256 low := by
      rw [Nat.div_div_eq_div_mul, Nat.mul_comm]
      rfl
    rw [← Nat.add_assoc, ofNat_succ, ih, ofNat_succ, hdiv, List.append_assoc]

/-- Two numbers are alike in a field just if what fits of them is. -/
theorem ofNat_eq_iff {width m n : Nat} :
    ofNat width m = ofNat width n ↔ m % Nat.pow 256 width = n % Nat.pow 256 width := by
  constructor
  · intro h
    rw [← toNat_ofNat, ← toNat_ofNat, h]
  · intro h
    induction width generalizing m n with
    | zero => rfl
    | succ width ih =>
      have hpow : Nat.pow 256 (width + 1) = 256 * Nat.pow 256 width := Nat.mul_comm ..
      rw [hpow, Nat.mod_mul, Nat.mod_mul] at h
      have hhigh : ofNat width (m / 256) = ofNat width (n / 256) := ih (by omega)
      have hlow : UInt8.ofNat m = UInt8.ofNat n := by
        rw [UInt8.ofNat_eq_iff_mod_eq_toNat, UInt8.toNat_ofNat']
        show m % 256 = n % 256
        omega
      rw [ofNat_succ, ofNat_succ, hhigh, hlow]

end Octets

/-! ## Digits -/

namespace Text.Hex

/-- The last digit of a number that is written with at least two stands behind those of its
sixteenth part. -/
theorem padded_succ (width n : Nat) :
    padded (width + 2) n = padded (width + 1) (n / 16) ++ String.ofList [(n % 16).digitChar] := by
  unfold padded
  rw [← String.ofList_append, List.append_assoc]
  refine congrArg String.ofList ?_
  rcases Nat.lt_or_ge n 16 with hlt | hge
  · have hdiv : n / 16 = 0 := Nat.div_eq_of_lt hlt
    rw [hdiv, Nat.mod_eq_of_lt hlt, Nat.toDigits_of_lt_base hlt, Nat.toDigits_zero]
    show List.replicate (width + 1) '0' ++ _ = List.replicate width '0' ++ ('0' :: _)
    rw [List.replicate_succ', List.append_assoc]
    rfl
  · rw [Nat.toDigits_of_base_le (by decide) hge, List.length_append, List.length_singleton]
    have hwidth : width + 2 - ((Nat.toDigits 16 (n / 16)).length + 1) =
        width + 1 - (Nat.toDigits 16 (n / 16)).length := by omega
    rw [hwidth]

/-- The last two digits of a number are those of its low octet. -/
theorem padded_add_two (width n : Nat) :
    padded (width + 3) n = padded (width + 1) (n / 256) ++ padded 2 (n % 256) := by
  have hhigh : n / 16 / 16 = n / 256 := Nat.div_div_eq_div_mul ..
  have hdigit : n / 16 % 16 = n % 256 / 16 % 16 := by omega
  have hlast : n % 16 = n % 256 % 16 := by omega
  have htwo : padded 2 (n % 256) =
      String.ofList [(n % 256 / 16 % 16).digitChar] ++ String.ofList [(n % 256 % 16).digitChar] := by
    have hlt : n % 256 / 16 < 16 := by omega
    have hone : padded 1 (n % 256 / 16) = String.ofList [(n % 256 / 16 % 16).digitChar] := by
      rw [padded, Nat.toDigits_of_lt_base hlt, Nat.mod_eq_of_lt hlt]
      rfl
    rw [padded_succ, hone]
  rw [padded_succ, padded_succ, hhigh, hdigit, hlast, htwo, String.append_assoc]

/-- Octets are written one after the other. -/
theorem encode_append (a b : Bytes) : encode (a ++ b) = encode a ++ encode b := by
  unfold encode
  rw [List.map_append, String.join_append]

theorem encode_singleton (b : UInt8) : encode [b] = padded 2 b.toNat := by
  simp [encode]

end Text.Hex

/-- The digits of the octets of a number that fits in its field are the digits of the number,
padded to the field. -/
theorem Octets.encode_ofNat {width n : Nat} (h : n < Nat.pow 256 (width + 1)) :
    Text.Hex.encode (ofNat (width + 1) n) = Text.Hex.padded (2 * width + 2) n := by
  induction width generalizing n with
  | zero =>
    have hlow : (UInt8.ofNat n).toNat = n := UInt8.toNat_ofNat_of_lt' h
    rw [ofNat_succ, Text.Hex.encode_append, Text.Hex.encode_singleton, hlow]
    exact String.empty_append
  | succ width ih =>
    have hfits : n / 256 < Nat.pow 256 (width + 1) := Nat.div_lt_of_lt_mul (Nat.mul_comm .. ▸ h)
    have hlow : (UInt8.ofNat n).toNat = n % 256 := UInt8.toNat_ofNat'
    rw [ofNat_succ, Text.Hex.encode_append, Text.Hex.encode_singleton, hlow, ih hfits]
    exact (Text.Hex.padded_add_two (2 * width + 1) n).symm

end Leasehold

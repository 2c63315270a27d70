import Leasehold.Text.Hex

/-!
# Text.Utf8 — reading octets as text

`next` splits the first character off a string of octets, or the longest run
that begins a character without finishing it. `decode?` reads text that is
well formed throughout; `decodeLossy` puts U+FFFD for every ill-formed run.
-/

namespace Leasehold.Text.Utf8

/-- What the first octet of a character promises: how many octets follow it, the
range that the first of them must lie in, and the octet's own share of the value. -/
def lead (b : UInt8) : Option (Nat × UInt8 × UInt8 × Nat) :=
  if b < 0x80 then some (0, 0x80, 0xBF, b.toNat)
  else if b < 0xC2 then none
  else if b < 0xE0 then some (1, 0x80, 0xBF, b.toNat - 0xC0)
  else if b = 0xE0 then some (2, 0xA0, 0xBF, 0)
  else if b = 0xED then some (2, 0x80, 0x9F, 0xD)
  else if b < 0xF0 then some (2, 0x80, 0xBF, b.toNat - 0xE0)
  else if b = 0xF0 then some (3, 0x90, 0xBF, 0)
  else if b < 0xF4 then some (3, 0x80, 0xBF, b.toNat - 0xF0)
  else if b = 0xF4 then some (3, 0x80, 0x8F, 4)
  else none

/-- Takes up to `count` continuation octets, the first of them in the given range.
Answers the value, whether all were there, and what follows. -/
def tail : Nat → UInt8 → UInt8 → Nat → Bytes → Nat × Bool × Bytes
  | 0, _, _, value, rest => (value, true, rest)
  | _ + 1, _, _, value, [] => (value, false, [])
  | count + 1, low, high, value, b :: rest =>
    if low ≤ b ∧ b ≤ high then tail count 0x80 0xBF (64 * value + (b.toNat - 0x80)) rest
    else (value, false, b :: rest)

theorem length_tail_le (count : Nat) (low high : UInt8) (value : Nat) (bytes : Bytes) :
    (tail count low high value bytes).2.2.length ≤ bytes.length := by
  induction count generalizing low high value bytes with
  | zero => simp [tail]
  | succ n ih =>
    cases bytes with
    | nil => simp [tail]
    | cons b rest =>
      simp only [tail]
      split
      · exact Nat.le_succ_of_le (ih ..)
      · exact Nat.le_refl _

/-- The first character, or `none` for an ill-formed run, and what follows. -/
def next (b : UInt8) (rest : Bytes) : Option Char × Bytes :=
  match lead b with
  | none => (none, rest)
  | some (count, low, high, value) =>
    match tail count low high value rest with
    | (value, true, rest) => (some (Char.ofNat value), rest)
    | (_, false, rest) => (none, rest)

theorem length_next_le (b : UInt8) (rest : Bytes) : (next b rest).2.length ≤ rest.length := by
  unfold next
  split
  · exact Nat.le_refl _
  · rename_i count low high value _
    have := length_tail_le count low high value rest
    split <;> simp_all

/-- The characters and ill-formed runs of a string of octets, in order. -/
def decodeRuns : Bytes → List (Option Char)
  | [] => []
  | b :: rest =>
    let r := next b rest
    r.1 :: decodeRuns r.2
termination_by bytes => bytes.length
decreasing_by
  have := length_next_le b rest
  simp only [List.length_cons]
  omega

/-- The text that well-formed octets write. -/
def decode? (bytes : Bytes) : Option String :=
  ((decodeRuns bytes).mapM id).map String.ofList

/-- The text with every ill-formed run replaced by U+FFFD. -/
def decodeLossy (bytes : Bytes) : String :=
  String.ofList ((decodeRuns bytes).map (·.getD '\ufffd'))

/-- The octets of a text. -/
def encode (text : String) : Bytes := text.toUTF8.toList

end Leasehold.Text.Utf8

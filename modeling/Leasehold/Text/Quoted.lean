import Leasehold.Text.Hex

/-!
# Text.Quoted — text between quotes

A quoted text shows on one line. Quotes, backslashes and the characters that would
leave no mark of their own are escaped.
-/

namespace Leasehold.Text.Quoted

/-- The ranges of separators and of invisible characters, first and last of each. -/
def invisible : List (Nat × Nat) :=
  [(0x0, 0x1F), (0x7F, 0xA0), (0xAD, 0xAD), (0x61C, 0x61C), (0x1680, 0x1680), (0x180E, 0x180E),
   (0x2000, 0x200F), (0x2028, 0x202F), (0x205F, 0x206F), (0x3000, 0x3000), (0xE000, 0xF8FF),
   (0xFEFF, 0xFEFF), (0xFFF0, 0xFFFB)]

/-- Whether a character leaves no mark of its own. -/
def isInvisible (c : Char) : Bool :=
  invisible.any fun r => r.1 ≤ c.toNat && c.toNat ≤ r.2

/-- A character between quotes. -/
def escape (c : Char) : String :=
  if c = '"' then "\\\"" else if c = '\\' then "\\\\"
  else if c = '\n' then "\\n" else if c = '\r' then "\\r" else if c = '\t' then "\\t"
  else if c.toNat = 0 then "\\0"
  else if isInvisible c then "\\u\x7b" ++ Hex.ofNat c.toNat ++ "\x7d"
  else String.singleton c

/-- A text between quotes. -/
def quote (text : String) : String := "\"" ++ String.join (text.toList.map escape) ++ "\""

end Leasehold.Text.Quoted

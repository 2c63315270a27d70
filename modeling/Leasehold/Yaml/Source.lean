/-!
# Yaml.Source — characters and where they stand

A source is a text cut into characters that know their line, their column and
their number. Line breaks of every spelling become one line feed, except the line
and paragraph separators, which stay what they are. A source holds only
characters that a document may hold, so the rest of a reader need not look for
others.
-/

namespace Leasehold.Yaml

/-! ## Classes of characters -/

/-- A blank within a line. -/
def isBlank (c : Char) : Bool := c == ' ' || c == '\t'

/-- The end of a line. -/
def isBreak (c : Char) : Bool := c == '\n' || c == '\u2028' || c == '\u2029'

/-- A blank, a break, or nothing at all. -/
def isGap : Option Char → Bool
  | none => true
  | some c => isBlank c || isBreak c

/-- A letter, a digit, a dash or a low line: what names are made of. -/
def isNameChar (c : Char) : Bool := c.isAlphanum || c == '-' || c == '_'

/-- A character that sets off a collection in flow style. -/
def isFlowMark (c : Char) : Bool := c == ',' || c == '[' || c == ']' || c == '{' || c == '}'

/-- A character that a document may hold. -/
def isAllowed (c : Char) : Bool :=
  let n := c.toNat
  n == 0x9 || n == 0xA || n == 0xD || (0x20 ≤ n && n ≤ 0x7E) || n == 0x85
    || (0xA0 ≤ n && n ≤ 0xFFFD) || 0x10000 ≤ n

/-! ## Sources -/

/-- A character and where it stands. -/
structure Place where
  char : Char
  line : Nat
  column : Nat
  /-- How many characters of the text are before it. -/
  index : Nat
  deriving Repr, DecidableEq

/-- What is left of a text to read. -/
abbrev Source := List Place

namespace Source

/-- Gives every character its place. A carriage return and the line feed behind it are one
break, and the next line is the new one. -/
def ofChars (line column index : Nat) : List Char → Source
  | [] => []
  | '\r' :: '\n' :: rest => ⟨'\n', line, column, index⟩ :: ofChars (line + 1) 0 (index + 2) rest
  | c :: rest =>
    let c := if c == '\r' || c == '\u0085' then '\n' else c
    ⟨c, line, column, index⟩ ::
      if isBreak c then ofChars (line + 1) 0 (index + 1) rest
      else ofChars line (column + 1) (index + 1) rest

/-- The source of a text, if it holds only what a document may hold. -/
def ofText? (text : String) : Option Source :=
  if text.toList.all isAllowed then some (ofChars 0 0 0 text.toList) else none

/-- The character some places ahead. -/
def peek (s : Source) (ahead : Nat) : Option Char := (s[ahead]?).map (·.char)

/-- The text up to the first character outside a class, and what follows. -/
def spanText (p : Char → Bool) (s : Source) : String × Source :=
  (String.ofList ((s.takeWhile fun q => p q.char).map (·.char)), s.dropWhile fun q => p q.char)

/-- What follows the blanks. -/
def skipBlanks (s : Source) : Source := s.dropWhile fun q => isBlank q.char

/-- What follows the rest of the line, which stays to be read. -/
def skipComment (s : Source) : Source :=
  if s.peek 0 == some '#' then s.dropWhile fun q => !isBreak q.char else s

/-- What follows blanks and a comment, which must end the line; the break goes with them. -/
def skipLineEnd? (s : Source) : Option Source :=
  match s.skipBlanks.skipComment with
  | [] => some []
  | p :: rest => if isBreak p.char then some rest else none

/-- Whether three of a character stand here alone at the start of a line. -/
def startsMark (s : Source) (c : Char) : Bool :=
  match s with
  | p :: _ => p.column == 0 && p.char == c && s.peek 1 == some c && s.peek 2 == some c
      && isGap (s.peek 3)
  | [] => false

/-- Whether a document starts or ends here. -/
def atDocumentMark (s : Source) : Bool := s.startsMark '-' || s.startsMark '.'

end Source

end Leasehold.Yaml

import Leasehold.Yaml.Scalar
import Leasehold.Yaml.Source
import Leasehold.Yaml.Token

/-!
# Yaml.Writer — text as a scalar

A text is written plain if it then reads as that text, else in single quotes, and
in double quotes where it holds what only escapes can write. A text of several
lines becomes a literal block. Lines are never folded.
-/

namespace Leasehold.Yaml.Writer

/-! ## What a text allows -/

/-- A character that may be written as it is. -/
def isPrintable (c : Char) : Bool :=
  let n := c.toNat
  c == '\n' || (0x20 ≤ n && n ≤ 0x7E) || (0xA0 ≤ n && n ≤ 0xFFFD && n != 0xFEFF) || 0x10000 ≤ n

/-- Whether two neighbours of the text pass a test. -/
def hasNeighbours (p : Char → Char → Bool) : List Char → Bool
  | a :: b :: rest => p a b || hasNeighbours p (b :: rest)
  | _ => false

/-- A character that a plain text cannot start with. -/
def isLeadIndicator (c : Char) : Bool :=
  ['#', ',', '[', ']', '{', '}', '&', '*', '!', '|', '>', '\'', '"', '%', '@', '\x60'].contains c

/-- Whether a text would read as something else than text if it were plain: it starts like a mark
or a token, or it has a colon before a gap, or a number sign behind one. -/
def hasIndicators (cs : List Char) : Bool :=
  cs.take 3 == ['-', '-', '-'] || cs.take 3 == ['.', '.', '.']
    || cs.head?.any isLeadIndicator
    || (cs.head?.any (['-', '?'].contains ·) && isGap (cs.drop 1).head?)
    || hasNeighbours (fun a b => a == ':' && isGap (some b)) cs
    || cs.getLast? == some ':'
    || hasNeighbours (fun a b => b == '#' && isGap (some a)) cs

/-- Whether only escapes can write a text: it holds a character that cannot be written as it is, or
a space before a break. -/
def needsEscapes (cs : List Char) : Bool :=
  !cs.all isPrintable || hasNeighbours (fun a b => a == ' ' && isBreak b) cs

/-- Whether a text may be written plain in a block. -/
def allowsPlain (cs : List Char) : Bool :=
  !needsEscapes cs && !hasIndicators cs && !cs.any isBreak
    && cs.head? != some ' ' && cs.getLast? != some ' '

/-- Whether a text may be written in single quotes. -/
def allowsSingleQuotes (cs : List Char) : Bool :=
  !needsEscapes cs && !hasNeighbours (fun a b => isBreak a && b == ' ') cs

/-- Whether a text may be written as a block. -/
def allowsBlock (cs : List Char) : Bool :=
  !cs.isEmpty && !needsEscapes cs && cs.getLast? != some ' '

/-- Whether plain text would mean something else than itself, or starts with an idle zero. -/
def isAmbiguous (text : String) : Bool :=
  Scalar.meaning text != .text || Scalar.isIdleNumber text

/-- The style that a text is written in. -/
def styleOf (text : String) : ScalarStyle :=
  let cs := text.toList
  let quoted : ScalarStyle := if allowsSingleQuotes cs then .singleQuoted else .doubleQuoted
  if cs.contains '\n' then if allowsBlock cs then .literal else .doubleQuoted
  else if isAmbiguous text then quoted
  else if allowsPlain cs then .plain
  else quoted

/-! ## Writing -/

/-- The indentation of a level. -/
def margin (indent : Nat) : List Char := List.replicate indent ' '

/-- The text in single quotes; a line feed is written twice, and a line that follows is
indented. -/
def singleQuoted (indent : Nat) (cs : List Char) : List Char :=
  '\'' :: go false cs
where
  go (afterBreak : Bool) : List Char → List Char
    | [] => (if afterBreak then margin indent else []) ++ ['\'']
    | c :: rest =>
      if isBreak c then
        (if c == '\n' && !afterBreak then ['\n', '\n'] else [c]) ++ go true rest
      else
        (if afterBreak then margin indent else []) ++ (if c == '\'' then ['\'', '\''] else [c])
          ++ go false rest

/-- The letter that escapes a character. -/
def escapeLetter? (c : Char) : Option Char :=
  [('\x00', '0'), ('\x07', 'a'), ('\x08', 'b'), ('\t', 't'), ('\n', 'n'), ('\x0b', 'v'),
   ('\x0c', 'f'), ('\r', 'r'), ('\x1b', 'e'), ('"', '"'), ('\\', '\\'), ('\u0085', 'N'),
   ('\u00a0', '_'), ('\u2028', 'L'), ('\u2029', 'P')].lookup c

/-- The number of a character in upper-case hexadecimal digits, up to a width. -/
def numberDigits (width n : Nat) : List Char :=
  (Text.Hex.padded width n).toList.map Char.toUpper

/-- A character in double quotes. -/
def doubleQuotedChar (c : Char) : List Char :=
  if isPrintable c && !isBreak c && c != '"' && c != '\\' then [c]
  else match escapeLetter? c with
    | some letter => ['\\', letter]
    | none =>
      let n := c.toNat
      if n ≤ 0xFF then '\\' :: 'x' :: numberDigits 2 n
      else if n ≤ 0xFFFF then '\\' :: 'u' :: numberDigits 4 n
      else '\\' :: 'U' :: numberDigits 8 n

/-- The text in double quotes. -/
def doubleQuoted (cs : List Char) : List Char :=
  '"' :: (cs.flatMap doubleQuotedChar ++ ['"'])

/-- The sign that says what becomes of the breaks at the end of a block: none is kept, the one is
kept, or all are. -/
def chompingSign (cs : List Char) : List Char :=
  match cs.reverse with
  | [] => ['-']
  | [last] => if isBreak last then ['+'] else ['-']
  | last :: before :: _ =>
    if !isBreak last then ['-'] else if isBreak before then ['+'] else []

/-- The text as a literal block, without the break that ends its line. A text that starts with a
space or a break says how far it is indented. -/
def literal (indent : Nat) (cs : List Char) : List Char :=
  let hint := if cs.head?.any fun c => c == ' ' || isBreak c then ['2'] else []
  '|' :: (hint ++ chompingSign cs ++ '\n' :: lines true cs)
where
  lines (afterBreak : Bool) : List Char → List Char
    | [] => []
    | c :: rest =>
      if isBreak c then c :: lines true rest
      else (if afterBreak then margin indent else []) ++ c :: lines false rest

/-- Writes a text as a scalar whose further lines are indented. -/
def scalar (indent : Nat) (text : String) : String :=
  let cs := text.toList
  String.ofList <| match styleOf text with
    | .plain => cs
    | .singleQuoted => singleQuoted indent cs
    | .doubleQuoted => doubleQuoted cs
    | .literal | .folded => literal indent cs

/-- An entry of a block mapping whose value is a text. A block that ends with a break ends the
line. -/
def entry (indent : Nat) (key text : String) : String :=
  let written := scalar (indent + 2) text
  let line := String.ofList (margin indent) ++ key ++ ": " ++ written
  if styleOf text = .literal && text.toList.getLast?.any isBreak then line else line ++ "\n"

end Leasehold.Yaml.Writer

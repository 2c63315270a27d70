import Leasehold.Yaml.Source
import Leasehold.Text.Hex

/-!
# Yaml.Token.Flow — plain and quoted scalars

Scalars that may stand in a line with other tokens. Where one goes on over a line
break, the break is folded: a single one becomes a space, of several the first is
dropped. Blanks around a folded break do not count.
-/

namespace Leasehold.Yaml

/-! ## Folding -/

/-- The line breaks between two words of a scalar. -/
structure Fold where
  /-- The first break, unless it was escaped. -/
  first : Option Char
  /-- The breaks of the empty lines behind it. -/
  others : List Char

namespace Fold

/-- The text that the breaks stand for. A line or paragraph separator is kept as it is. -/
def text (f : Fold) : List Char :=
  match f.first with
  | none => f.others
  | some '\n' => if f.others.isEmpty then [' '] else f.others
  | some c => c :: f.others

/-- One more break. -/
def add (f : Option Fold) (c : Char) : Fold :=
  match f with
  | none => ⟨some c, []⟩
  | some f => { f with others := f.others ++ [c] }

end Fold

/-- What a scalar is known to be so far. The gap behind its last word counts only if another word
follows. -/
structure Words where
  /-- The text up to the last word, last character first. -/
  done : List Char := []
  /-- The blanks behind it, last one first, if no break is there. -/
  blanks : List Char := []
  /-- The breaks behind it. -/
  fold : Option Fold := none

namespace Words

/-- The text with the gap. -/
def joined (w : Words) : List Char :=
  match w.fold with
  | none => w.blanks ++ w.done
  | some f => f.text.reverse ++ w.done

/-- One more character of a word. -/
def push (w : Words) (c : Char) : Words := { done := c :: w.joined }

/-- One more blank or break of a gap. -/
def pushGap (w : Words) (c : Char) : Words :=
  if isBreak c then { w with blanks := [], fold := some (Fold.add w.fold c) }
  else if w.fold.isSome then w
  else { w with blanks := c :: w.blanks }

/-- Whether the last word has a gap behind it. -/
def inGap (w : Words) : Bool := w.fold.isSome || !w.blanks.isEmpty

/-- The text without the gap. -/
def trimmed (w : Words) : String := String.ofList w.done.reverse

/-- The text with the gap. -/
def whole (w : Words) : String := String.ofList w.joined.reverse

end Words

/-! ## Plain scalars -/

/-- A plain scalar that was read: its text, whether a line ended behind it, and what follows. -/
structure PlainScalar where
  text : String
  brokeLine : Bool
  rest : Source

/-- Reads a plain scalar. In block style a line that is indented less than `margin` ends it, and in
flow style the marks of collections do; a comment, a document mark and a colon before a gap end
it everywhere. -/
def readPlain (inFlow : Bool) (margin : Nat) (w : Words) : Source → Option PlainScalar
  | [] => some ⟨w.trimmed, w.fold.isSome, []⟩
  | p :: rest =>
    let stop : Option PlainScalar := some ⟨w.trimmed, w.fold.isSome, p :: rest⟩
    let next := Source.peek rest 0
    if isBreak p.char then readPlain inFlow margin (w.pushGap p.char) rest
    else if isBlank p.char then
      if w.fold.isSome && p.column < margin && p.char == '\t' then none
      else readPlain inFlow margin (w.pushGap p.char) rest
    else if w.fold.isSome && !inFlow && p.column < margin then stop
    else if w.inGap && (p.char == '#' || Source.atDocumentMark (p :: rest)) then stop
    else if inFlow && p.char == ':' && next.any (fun c => c == '?' || isFlowMark c) then none
    else if p.char == ':' && isGap next then stop
    else if inFlow && isFlowMark p.char then stop
    else readPlain inFlow margin (w.push p.char) rest

/-! ## Quoted scalars -/

/-- The character that an escaped letter stands for. -/
def escaped? (c : Char) : Option Char :=
  [('0', '\x00'), ('a', '\x07'), ('b', '\x08'), ('t', '\t'), ('\t', '\t'), ('n', '\n'),
   ('v', '\x0b'), ('f', '\x0c'), ('r', '\r'), ('e', '\x1b'), (' ', ' '), ('"', '"'), ('/', '/'),
   ('\\', '\\'), ('N', '\u0085'), ('_', '\u00a0'), ('L', '\u2028'), ('P', '\u2029')].lookup c

/-- How many digits follow a letter that escapes a character's number. -/
def escapeDigits? (c : Char) : Option Nat := [('x', 2), ('u', 4), ('U', 8)].lookup c

/-- The character with a number. -/
def scalarValue? (n : Nat) : Option Char :=
  if n < 0xD800 || (0xE000 ≤ n && n < 0x110000) then some (Char.ofNat n) else none

/-- What the characters before say about the next one. -/
inductive QuoteMode where
  /-- Nothing. -/
  | text
  /-- A backslash was read. -/
  | escape
  /-- So many digits of a character's number are still to come. -/
  | number (digits value : Nat)
  /-- A single quote was read, which ends the scalar unless another one follows. -/
  | quote

/-- Reads a quoted scalar behind its first quote: its text and what follows. -/
def readQuoted (single : Bool) (mode : QuoteMode) (w : Words) : Source → Option (String × Source)
  | [] =>
    match mode with
    | .quote => some (w.whole, [])
    | _ => none
  | p :: rest =>
    let c := p.char
    match mode with
    | .quote =>
      if c == '\'' then readQuoted single .text (w.push c) rest else some (w.whole, p :: rest)
    | .escape =>
      if isBreak c then readQuoted single .text { w with fold := some ⟨none, []⟩ } rest
      else
        match escaped? c, escapeDigits? c with
        | some e, _ => readQuoted single .text (w.push e) rest
        | none, some digits => readQuoted single (.number digits 0) w rest
        | none, none => none
    | .number digits value =>
      match Text.Hex.digit? c with
      | none => none
      | some d =>
        let value := 16 * value + d
        if 1 < digits then readQuoted single (.number (digits - 1) value) w rest
        else
          match scalarValue? value with
          | none => none
          | some e => readQuoted single .text (w.push e) rest
    | .text =>
      if isBlank c || isBreak c then readQuoted single .text (w.pushGap c) rest
      else if Source.atDocumentMark (p :: rest) then none
      else if single && c == '\'' then readQuoted single .quote w rest
      else if !single && c == '"' then some (w.whole, rest)
      else if !single && c == '\\' then readQuoted single .escape { done := w.joined } rest
      else readQuoted single .text (w.push c) rest

end Leasehold.Yaml

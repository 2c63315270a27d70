import Leasehold.Yaml.Source
import Leasehold.Yaml.Token

/-!
# Yaml.Token.Block — literal and folded scalars

A block scalar is a row of indented lines behind a header. The header may say how
far the lines are indented and what becomes of the line breaks at the end.
-/

namespace Leasehold.Yaml

/-- What becomes of the line breaks behind the last line. -/
inductive Chomping where
  | strip | clip | keep
  deriving Repr, DecidableEq

/-- The header of a block scalar. -/
structure BlockHeader where
  chomping : Chomping
  /-- How much further than their parent the lines are indented, if that is said. -/
  indentation : Option Nat

/-- The sign of a way to treat the line breaks at the end. -/
def chomping? : Option Char → Option Chomping
  | some '+' => some .keep
  | some '-' => some .strip
  | _ => none

/-- A step of indentation, unless no digit is there; zero is none. -/
def indentation? (s : Source) : Option (Option Nat × Source) :=
  match s with
  | p :: rest =>
    if p.char == '0' then none
    else if p.char.isDigit then some (some (p.char.toNat - '0'.toNat), rest)
    else some (none, s)
  | [] => some (none, [])

/-- Reads the header up to the end of its line; its two parts come in either order. -/
def readBlockHeader (s : Source) : Option (BlockHeader × Source) := do
  match chomping? (s.peek 0) with
  | some chomping => do
    let (indentation, s) ← indentation? (s.drop 1)
    let s ← Source.skipLineEnd? s
    return (⟨chomping, indentation⟩, s)
  | none => do
    let (indentation, s) ← indentation? s
    let after := if indentation.isSome then chomping? (s.peek 0) else none
    let s ← Source.skipLineEnd? (if after.isSome then s.drop 1 else s)
    return (⟨after.getD .clip, indentation⟩, s)

/-- The empty lines before the first line: how far the widest of them reaches, their breaks, and
what follows. Indentation is spaces, up to `indent` if that is known. -/
def readBlockLead (indent : Option Nat) (widest : Nat) (breaks : List Char) :
    Source → Option (Nat × List Char × Source)
  | [] => some (widest, breaks, [])
  | p :: rest =>
    let indented := indent.all (p.column < ·)
    if p.char == ' ' && indented then readBlockLead indent widest breaks rest
    else if p.char == '\t' && indented then none
    else if isBreak p.char then
      readBlockLead indent (max widest p.column) (breaks ++ [p.char]) rest
    else some (max widest p.column, breaks, p :: rest)

/-- What a block scalar is known to be so far. -/
structure BlockLines where
  /-- The text of the lines, last character first. -/
  done : List Char
  /-- The break behind the last line. -/
  first : Option Char
  /-- The breaks of the empty lines behind it. -/
  others : List Char
  /-- The last line starts with a blank. -/
  blank : Bool

namespace BlockLines

/-- Starts a line with a character. In a folded scalar, the break between two lines that start
with no blank becomes a space, or nothing if empty lines are between them. -/
def startLine (b : BlockLines) (folds : Bool) (c : Char) : BlockLines :=
  let between :=
    if folds && b.first == some '\n' && !b.blank && !isBlank c then
      if b.others.isEmpty then [' '] else b.others
    else b.first.toList ++ b.others
  ⟨c :: (between.reverse ++ b.done), none, [], isBlank c⟩

/-- The text, with as many line breaks at its end as the header says. -/
def finish (b : BlockLines) (chomping : Chomping) : String :=
  String.ofList (b.done.reverse ++
    match chomping with
    | .strip => []
    | .clip => b.first.toList
    | .keep => b.first.toList ++ b.others)

end BlockLines

/-- Reads the lines of a block scalar that are indented to a column, up to the first that is
indented less. -/
def readBlockLines (folds : Bool) (indent : Nat) (inLine : Bool) (b : BlockLines) :
    Source → Option (BlockLines × Source)
  | [] => some (b, [])
  | p :: rest =>
    if inLine then
      if isBreak p.char then readBlockLines folds indent false { b with first := some p.char } rest
      else readBlockLines folds indent true { b with done := p.char :: b.done } rest
    else if p.column < indent && p.char == ' ' then readBlockLines folds indent false b rest
    else if p.column < indent && p.char == '\t' then none
    else if isBreak p.char then
      readBlockLines folds indent false { b with others := b.others ++ [p.char] } rest
    else if p.column == indent then readBlockLines folds indent true (b.startLine folds p.char) rest
    else some (b, p :: rest)

/-- Reads a block scalar behind its first mark, inside a block whose content starts at `margin` or
further right. -/
def readBlockScalar (folds : Bool) (margin : Nat) (s : Source) : Option (String × Source) := do
  let (header, s) ← readBlockHeader s
  let given := header.indentation.map (margin - 1 + ·)
  let (widest, breaks, s) ← readBlockLead given 0 [] s
  let indent := given.getD (max widest (max margin 1))
  let (b, s) ← readBlockLines folds indent false ⟨[], none, breaks, false⟩ s
  return (b.finish header.chomping, s)

end Leasehold.Yaml

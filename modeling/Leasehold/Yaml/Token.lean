/-!
# Yaml.Token — the words of a document

The tokens of a document in the order in which they are to be read. Indentation
has become tokens too: a block collection starts with its own token and ends with
`blockEnd`, and a key stands behind `key` even where the text has no mark for it.
-/

namespace Leasehold.Yaml

/-- How a scalar is written. -/
inductive ScalarStyle where
  | plain | singleQuoted | doubleQuoted | literal | folded
  deriving Repr, DecidableEq, Inhabited

/-- A word of a document. -/
inductive Token where
  /-- A directive that names the version of the language. -/
  | version (major minor : Nat)
  /-- A directive that gives a handle of tags its meaning. -/
  | handle (handle meaning : String)
  | documentStart
  | documentEnd
  | blockSequence
  | blockMapping
  | blockEnd
  | flowSequence
  | flowSequenceEnd
  | flowMapping
  | flowMappingEnd
  /-- The dash before an item of a block sequence. -/
  | blockEntry
  /-- The comma between the items of a flow collection. -/
  | flowEntry
  | key
  | value
  | alias (name : String)
  | anchor (name : String)
  | tag (handle suffix : String)
  | scalar (style : ScalarStyle) (text : String)
  deriving Repr, DecidableEq, Inhabited

end Leasehold.Yaml

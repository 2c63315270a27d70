import Leasehold.Yaml.Node
import Leasehold.Yaml.Scalar

/-!
# Yaml.Value — what a tree means

The value of a node: aliases are replaced by what they stand for, and scalars by
what they mean. A node with a tag of the document's own has no value here. Nesting
and the number of aliases that are followed are limited, so that a small document
does not mean a huge value.
-/

namespace Leasehold.Yaml

/-- A value. Of numbers and truth values it says only what they are. -/
inductive Value where
  | null
  | bool
  | natural (n : Nat)
  | negative
  | float
  | text (s : String)
  | sequence (items : List Value)
  | mapping (entries : List (Value × Value))
  deriving Inhabited

/-! ## Tags -/

/-- A tag of the language's own repository of types. -/
def coreTag (name : String) : String := "tag:yaml.org,2002:" ++ name

/-- Whether a tag is one of the document's own. -/
def isLocalTag (tag : Option String) : Bool := tag.any (·.startsWith "!")

namespace Value

/-- The value of a plain text; integers of more than 64 bits have none. -/
def ofMeaning? (text : String) : Scalar.Meaning → Option Value
  | .null => some .null
  | .bool => some .bool
  | .natural n => if n < UInt64.size then some (.natural n) else none
  | .negative n => if n ≤ 0x8000_0000_0000_0000 then some .negative else none
  | .float => some .float
  | .text => some (.text text)

/-- The value of a scalar. A core tag says what its text has to be; without a tag, plain text says
itself what it is. -/
def ofScalar? (tag : Option String) (style : ScalarStyle) (text : String) : Option Value :=
  match tag with
  | none => if style = .plain then ofMeaning? text (Scalar.meaning text) else some (.text text)
  | some tag =>
    if tag = coreTag "bool" then if Scalar.isBool text then some .bool else none
    else if tag = coreTag "int" then (Scalar.integer? text).bind (ofMeaning? text)
    else if tag = coreTag "float" then if Scalar.isFloat text then some .float else none
    else if tag = coreTag "null" then if Scalar.isNull text then some .null else none
    else some (.text text)

/-- Follows one more alias, if it may. -/
def spend : StateT Nat Option Unit := do
  match ← get with
  | 0 => failure
  | n + 1 => set n

mutual

/-- The value of a node whose collections are nested at most so deep; the state is how many aliases
may be followed. -/
def ofNode? (d : Document) (depth : Nat) : Node → StateT Nat Option Value
  | .alias number => do
    spend
    match d.resolve? number with
    | some node => ofTree? d depth node
    | none => failure
  | node => ofTree? d depth node
termination_by (depth, 1)

/-- The value of a node that is no alias. -/
def ofTree? (d : Document) (depth : Nat) (node : Node) : StateT Nat Option Value :=
  match node, depth with
  | .scalar tag style written, _ =>
    if isLocalTag tag then failure
    else match ofScalar? tag style written with
      | some v => return v
      | none => failure
  | .sequence tag items, depth + 1 => do
    if isLocalTag tag then failure
    return .sequence (← items.mapM (ofNode? d depth))
  | .mapping tag entries, depth + 1 => do
    if isLocalTag tag then failure
    return .mapping (← entries.mapM fun (k, v) => do
      let key ← ofNode? d depth k
      let value ← ofNode? d depth v
      return (key, value))
  | _, _ => failure
termination_by (depth, 0)

end

end Value

mutual

/-- How many events it takes to tell a tree: one for a scalar or alias, two for a collection. -/
def Node.events : Node → Nat
  | .scalar .. | .alias _ => 1
  | .sequence _ items => 2 + eventsOfItems items
  | .mapping _ entries => 2 + eventsOfEntries entries

def Node.eventsOfItems : List Node → Nat
  | [] => 0
  | item :: rest => item.events + eventsOfItems rest

def Node.eventsOfEntries : List (Node × Node) → Nat
  | [] => 0
  | (k, v) :: rest => k.events + v.events + eventsOfEntries rest

end

end Leasehold.Yaml

import Leasehold.Table
import Leasehold.Yaml.Token

/-!
# Yaml.Node — documents as trees

A document is a tree of scalars, sequences and mappings. A node may be anchored
under a name, and an alias stands for the node that its name was given to. Names
are numbered: a name gets as its number how many names there were when it was
given, and of two nodes with one number the later one has it.
-/

namespace Leasehold.Yaml

/-- A node of a document, with its tag if it has one. -/
inductive Node where
  | scalar (tag : Option String) (style : ScalarStyle) (text : String)
  | sequence (tag : Option String) (items : List Node)
  | mapping (tag : Option String) (entries : List (Node × Node))
  /-- What is anchored under a number. -/
  | alias (number : Nat)
  deriving Inhabited

/-- The empty plain scalar, which stands wherever nothing is written. -/
def Node.nothing : Node := .scalar none .plain ""

/-- A document. -/
structure Document where
  /-- The tree, or nothing at all if the text holds no document. -/
  root : Option Node
  /-- The place of the node that has a number, among the anchored nodes. -/
  numbered : List (Nat × Nat)
  /-- The anchored nodes by their places. -/
  anchored : List (Nat × Node)
  deriving Inhabited

namespace Document

/-- What an alias stands for. -/
def resolve? (d : Document) (number : Nat) : Option Node :=
  (d.numbered.lookup number).bind fun place => d.anchored.lookup place

/-- A node, or what it stands for if it is an alias. -/
def follow? (d : Document) : Node → Option Node
  | .alias number => d.resolve? number
  | node => some node

end Document

end Leasehold.Yaml

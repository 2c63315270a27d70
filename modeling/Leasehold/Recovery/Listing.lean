import Leasehold.Recovery.Durable

/-!
# Recovery.Listing — a database as text

Each entry of a database is a line: the name of its table, the owner and the value in
hexadecimal digits, with a blank between.
-/

namespace Leasehold.Recovery.Listing

/-- The lines of a table. -/
def table (name : String) (entries : Table Bytes Bytes) : String :=
  String.join ((sortedEntries entries).map fun (owner, value) =>
    name ++ " " ++ Text.Hex.encode owner ++ " " ++ Text.Hex.encode value ++ "\n")

/-- The text of a database. -/
def render (db : Database) : String :=
  table "current" db.current ++ table "recovering" db.recovering

/-- The database with the entry that a line writes; an empty line writes none. -/
def addLine? (db : Database) (line : String) : Option Database :=
  match line.splitOn " " with
  | [name, owner, value] => do
    let owner ← Text.Hex.decode? owner
    let value ← Text.Hex.decode? value
    if name = "current" || name = "recovering" then return db.put (name = "current") owner value
    else none
  | _ => if line.isEmpty then some db else none

/-- The database that a text writes. -/
def parse? (text : String) : Option Database := (text.splitOn "\n").foldlM addLine? .empty

end Leasehold.Recovery.Listing

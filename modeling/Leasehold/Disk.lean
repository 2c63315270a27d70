import Leasehold.Recovery.Durable

/-!
# Disk — files, directories and databases

A disk is what the program can know of the files around it: an entry at each path. A
path is a list of names from the working directory on; one that starts at the root
starts with an empty name. A directory is also there if something is below it.
-/

namespace Leasehold

/-- The names on the way to an entry. -/
abbrev Path := List String

namespace Path

/-- Whether a name leads further than the directory it stands in. -/
def isName (name : String) : Bool := name ≠ "" && name ≠ "."

/-- Goes on from a path. Two dots lead back, and nowhere from the root. -/
def step (path : Path) (name : String) : Path :=
  if !isName name then path
  else if name = ".." then
    match path.getLast? with
    | none => [name]
    | some last => if last = ".." then path ++ [name] else if last = "" then path else path.dropLast
  else path ++ [name]

/-- The path that a text leads along. -/
def ofText (text : String) : Path :=
  match text.splitOn "/" with
  | "" :: rest@(_ :: _) => rest.foldl step [""]
  | names => names.foldl step []

/-- Whether a text leads to a directory by the way it ends. -/
def asksForDirectory (text : String) : Bool :=
  (text.splitOn "/").getLast?.all fun name => !isName name || name == ".."

end Path

/-- What is at a path. -/
inductive Entry where
  | file (text : String)
  /-- A file that is not text or cannot be read. -/
  | unreadable
  | directory
  /-- A directory with a database of client records. -/
  | database (db : Recovery.Database)
  deriving Inhabited

/-- Whether nothing can be below an entry. -/
def Entry.isFile : Entry → Bool
  | file _ => true
  | unreadable => true
  | _ => false

/-- Entries by their paths. -/
structure Disk where
  entries : List (Path × Entry)
  deriving Inhabited

namespace Disk

def empty : Disk := ⟨[]⟩

/-- Whether a path leads to a directory: the working directory, one above it, the root, or an entry
that is a directory or has something below it. -/
def isDirectory (d : Disk) (path : Path) : Bool :=
  path.all (· == "..") || path == [""]
    || d.entries.any fun (p, e) => path.isPrefixOf (if e.isFile then p.dropLast else p)

/-- Whether a text leads to a file or a directory. -/
def isThere (d : Disk) (text : String) : Bool :=
  let path := Path.ofText text
  text ≠ "" && (d.isDirectory path
    || (d.entries.lookup path).isSome && !Path.asksForDirectory text)

/-- The text of the file that a text leads to. -/
def readText? (d : Disk) (text : String) : Option String :=
  match d.entries.lookup (Path.ofText text) with
  | some (.file content) => if Path.asksForDirectory text then none else some content
  | _ => none

/-- The database in the directory that a text leads to. Where there is none yet it is empty; where
a file is at the end or on the way, there can be none. -/
def readDatabase? (d : Disk) (text : String) : Option Recovery.Database :=
  let path := Path.ofText text
  if text = "" || d.entries.any fun (p, e) => e.isFile && p.isPrefixOf path then none
  else
    match d.entries.lookup path with
    | some (.database db) => some db
    | _ => some .empty

/-- Keeps a database in the directory that a text leads to. -/
def writeDatabase (d : Disk) (text : String) (db : Recovery.Database) : Disk :=
  let path := Path.ofText text
  ⟨(path, .database db) :: d.entries.filter (·.1 ≠ path)⟩

end Disk

end Leasehold

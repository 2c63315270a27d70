import Leasehold.Recovery.Record
import Leasehold.Table

/-!
# Recovery.Durable — records that outlive the server

A database has two tables from client owners to times on disk: the clients of
this server, and the clients of the one before that have not reclaimed. Opening
the database moves the first table into the second; a server that stops in the
middle of a grace period leaves both, so nobody's claim is lost.
-/

namespace Leasehold.Recovery

/-- The two tables on disk. -/
structure Database where
  current : Table Bytes Bytes
  recovering : Table Bytes Bytes
  deriving Inhabited

/-- The entries of a table by owner. -/
def sortedEntries (table : Table Bytes Bytes) : List (Bytes × Bytes) :=
  table.entries.mergeSort fun a b => ownerLe a.1 b.1

/-- The records of a table by owner; the first one without a time decides the error. -/
def tableRecords (table : Table Bytes Bytes) (recovering : Bool) :
    Except RecoveryError (List Record) :=
  (sortedEntries table).mapM fun (owner, value) => do
    let firstSeen ← decodeTime owner value
    return ⟨owner, firstSeen, recovering⟩

namespace Database

def empty : Database := ⟨.empty, .empty⟩

/-- All records: the current ones, then those still to reclaim. -/
def inspect (db : Database) : Except RecoveryError (List Record) := do
  let current ← tableRecords db.current false
  let recovering ← tableRecords db.recovering true
  return current ++ recovering

/-- How many records there are. -/
def size (db : Database) : Nat := db.current.size + db.recovering.size

/-- Puts a value for an owner into one of the tables. -/
def put (db : Database) (current : Bool) (owner value : Bytes) : Database :=
  if current then { db with current := db.current.insert owner value }
  else { db with recovering := db.recovering.insert owner value }

/-- Stages the current records for reclaim; each takes the place of an older one of its owner. -/
def stage (db : Database) : Database where
  current := .empty
  recovering := (sortedEntries db.current).foldl (fun t (owner, value) => t.insert owner value)
    db.recovering

end Database

/-- An open database. -/
structure Durable where
  database : Database
  closed : Bool
  deriving Inhabited

namespace Durable

/-- Opens a database, which stages its current records. -/
def openOn (db : Database) : Durable := ⟨db.stage, false⟩

/-- Answers only while the store is open. -/
def whileOpen {α : Type} (d : Durable) (answer : α) : Except RecoveryError α :=
  if d.closed then .error .closed else .ok answer

def addClient (d : Durable) (now : WallTime) (owner : Bytes) : Except RecoveryError Durable :=
  d.whileOpen { d with database.current := d.database.current.insertNew owner (encodeTime now) }

def removeClient (d : Durable) (owner : Bytes) : Except RecoveryError Durable :=
  d.whileOpen { d with database.current := d.database.current.erase owner }

def reclaimClient (d : Durable) (owner : Bytes) : Except RecoveryError Durable :=
  d.whileOpen { d with database.recovering := d.database.recovering.erase owner }

def wantReclaim (d : Durable) (owner : Bytes) : Except RecoveryError Bool :=
  d.whileOpen (d.database.recovering.contains owner)

def waitingForReclaim (d : Durable) : Except RecoveryError Bool :=
  d.whileOpen (!d.database.recovering.isEmpty)

def reclaimComplete (d : Durable) : Except RecoveryError Durable :=
  d.whileOpen { d with database.recovering := .empty }

def records (d : Durable) : Except RecoveryError (List Record) :=
  if d.closed then .error .closed else d.database.inspect

def close (d : Durable) : Durable := { d with closed := true }

end Durable

end Leasehold.Recovery

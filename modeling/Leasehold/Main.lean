import Leasehold.Command.Execution
import Leasehold.Recovery.Listing
import Std.Time.DateTime.Timestamp

/-!
# Main — the command line

Reads what a command looks at, carries the command out, and keeps and prints what
comes of it. A server that runs is stopped by the end of the standard input.
-/

namespace Leasehold.Main

/-- The variables that the program looks at. -/
def variableNames : List String :=
  ["HOME", "RUST_LOG", "NFS4D_CONFIG_PATH", "NFS4D_LOG_LEVEL", "NFS4D_LEASE_TIME",
   "NFS4D_INSTANCE_ID", "NFS4D_RECOVERY_PATH"]

/-- The environment before anything has been read. -/
def readVariables : IO Environment := do
  let bindings ← variableNames.filterMapM fun name => do
    return (← IO.getEnv name).map (name, ·)
  return ⟨bindings, (bindings.lookup "HOME").filter (· ≠ ""), .empty⟩

/-- The text of a file. -/
def readFile (path : String) : IO Entry := do
  try
    return .file (← IO.FS.readFile path)
  catch _ => return .unreadable

/-- What is at a path, if anything is. -/
def lookUp (path : String) : IO (Option Entry) := do
  try
    let place ← IO.FS.realPath path
    if ← place.isDir then return some .directory else return some (← readFile path)
  catch _ => return none

/-- The environment with what is at some paths. -/
def readFiles (env : Environment) (paths : List String) : IO Environment := do
  let entries ← paths.filterMapM fun path => do
    return (← lookUp path).map (Path.ofText path, ·)
  return { env with disk := ⟨env.disk.entries ++ entries⟩ }

/-- The file of a database in its directory. -/
def recordsFile (path : String) : String := path ++ "/clients.txt"

/-- What a database has at a path, where a directory is made if there is none. -/
def lookUpDatabase (path : String) : IO Entry := do
  try
    IO.FS.createDirAll path
    match ← lookUp (recordsFile path) with
    | none => return .database .empty
    | some (.file text) => return (Recovery.Listing.parse? text).elim .unreadable .database
    | some _ => return .unreadable
  catch _ => return .unreadable

/-- The environment with the database at a path. -/
def readDatabase (env : Environment) (path : String) : IO Environment := do
  let entry ← lookUpDatabase path
  return { env with disk := ⟨(Path.ofText path, entry) :: env.disk.entries⟩ }

/-- Keeps the database at a path. -/
def keepDatabase (disk : Disk) (path : String) : IO Unit := do
  if let some db := disk.readDatabase? path then
    IO.FS.writeFile (recordsFile path) (Recovery.Listing.render db)

/-- The reading of the calendar clock. -/
def clock : IO WallTime := do
  let now ← Std.Time.Timestamp.now
  return ⟨now.toNanosecondsSinceUnixEpoch.toInt⟩

/-- Waits for the end of the standard input. -/
partial def waitForEnd (input : IO.FS.Stream) : IO Unit := do
  let line ← input.getLine
  if line.isEmpty then pure () else waitForEnd input

/-- Prints what a command printed, and answers its exit code. -/
def finish (o : Outcome) : IO UInt32 := do
  IO.print o.output
  IO.eprint o.errors
  return o.code

/-- Carries an invocation out. -/
def execute (env : Environment) (i : Invocation) : IO UInt32 := do
  let env ← readFiles env (Command.filesOf env i)
  let database? := Command.databaseOf? env i
  let env ← database?.elim (pure env) (readDatabase env)
  let keep (disk : Disk) : IO Unit := database?.forM (keepDatabase disk)
  match Command.execute env (← clock) i with
  | (.ended o, disk) => do
    keep disk
    finish o
  | (.serving s, disk) => do
    keep disk
    let started ← IO.monoMsNow
    IO.println (Command.greeting s)
    waitForEnd (← IO.getStdin)
    let (o, disk) := Command.stop disk s ((← IO.monoMsNow) - started)
    keep disk
    if o.code = 0 then IO.println Command.farewell
    finish o

end Leasehold.Main

/-- The program. -/
def main (words : List String) : IO UInt32 := do
  let env ← Leasehold.Main.readVariables
  match Leasehold.Invocation.ofWords env words with
  | .ok i => Leasehold.Main.execute env i
  | .error r => Leasehold.Main.finish (Leasehold.Command.refused env r)

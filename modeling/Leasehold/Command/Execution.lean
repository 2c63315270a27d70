import Leasehold.Command.Arguments
import Leasehold.Command.Help
import Leasehold.Command.Report
import Leasehold.Config.Writer
import Leasehold.LogFilter
import Leasehold.Server.Clock
import Leasehold.Text.Quoted

/-!
# Command.Execution — carrying commands out

Every command but one is carried out at once and has an outcome: an exit code, what
was printed, and what went wrong. A server that starts has no outcome until it is
stopped.
-/

namespace Leasehold

/-- Why a command fails. -/
inductive Failure where
  | logFilter
  | loadConfig (cause : Config.LoadError)
  | invalidConfig (cause : ConfigFault)
  | openStore
  | readDatabase (path : String) (cause? : Option RecoveryError)
  | purgeDatabase (path : String)
  | stopServer (cause : Error)
  deriving Repr, DecidableEq

namespace Failure

def message : Failure → String
  | logFilter => "Failed to create log filter"
  | loadConfig _ => "Failed to load configuration"
  | invalidConfig _ => "Configuration validation failed"
  | openStore => "Failed to open recovery store"
  | readDatabase path _ => "Failed to read recovery database at " ++ Text.Quoted.quote path
  | purgeDatabase path => "Failed to purge recovery database at " ++ Text.Quoted.quote path
  | stopServer _ => "Failed to shut down client registry"

/-- What is behind a failure. -/
def cause? : Failure → Option String
  | loadConfig (.asked path) =>
    some ("Failed to load config at " ++ Text.Quoted.quote path)
  | invalidConfig fault => some fault.message
  | readDatabase _ cause? => cause?.map RecoveryError.message
  | stopServer cause => some cause.message
  | _ => none

/-- What is written to the error stream. -/
def report (f : Failure) : String :=
  "Error: " ++ f.message ++ "\n" ++ f.cause?.elim "" ("\nCaused by:\n    " ++ · ++ "\n")

end Failure

/-- How a command ends. -/
structure Outcome where
  code : UInt32 := 0
  output : String := ""
  errors : String := ""
  deriving Repr, DecidableEq, Inhabited

namespace Outcome

/-- The end of a command that fails, with what it had printed before. -/
def failed (f : Failure) (output : String) : Outcome := { code := 1, output, errors := f.report }

/-- The end of a command that comes to a number out of range. -/
def outOfRange (output : String) : Outcome :=
  { code := 101, output, errors := "A number of the configuration is out of range\n" }

end Outcome

/-- What has become of a command. -/
inductive Progress where
  | ended (outcome : Outcome)
  /-- A server runs and waits for an interrupt. -/
  | serving (server : Server)

namespace Command

/-! ## Records -/

def listRecordsIn (env : Environment) (path : String) : Outcome :=
  match env.disk.readDatabase? path with
  | none => .failed (.readDatabase path none) ""
  | some db =>
    match db.inspect with
    | .error e => .failed (.readDatabase path (some e)) ""
    | .ok records => { output := Report.records records }

def purgeRecordsIn (env : Environment) (path : String) (confirmed : Bool) : Outcome × Disk :=
  if confirmed then
    match env.disk.readDatabase? path with
    | some db =>
      ({ output := "✓ Removed " ++ toString db.size ++ " record(s)\n" },
        env.disk.writeDatabase path .empty)
    | none => (.failed (.purgeDatabase path) "", env.disk)
  else
    ({ output := "Refusing to purge without --yes; clients of the last server instance lose "
        ++ "their reclaim window.\n" }, env.disk)

/-! ## Configurations -/

def printConfig (env : Environment) (file? : Option String) (places yaml : Bool) : Outcome :=
  match Config.load env file? with
  | .error e => .failed (.loadConfig e) ""
  | .ok c =>
    let head := if places then Report.places file? (env.valueOf? Config.pathVariable) else ""
    if yaml then { output := head ++ c.render }
    else
      let (text, isCut) := Report.config c
      if isCut then .outOfRange (head ++ text) else { output := head ++ text }

/-- A configuration that a server can start with. -/
def usableConfig (env : Environment) (file? : Option String) : Except Failure Config := do
  let c ← (Config.load env file?).mapError .loadConfig
  c.validate.mapError .invalidConfig
  return c

def validateConfig (env : Environment) (file? : Option String) : Outcome :=
  let head := "Validating configuration...\n"
  match usableConfig env file? with
  | .error f => .failed f head
  | .ok _ => { output := head ++ "✓ Configuration is valid\n" }

/-! ## Serving -/

/-- Opens the store that a configuration chooses. -/
def openStore (disk : Disk) : RecoveryChoice → Except Failure Recovery.Store
  | .ephemeral => .ok (.volatile .empty)
  | .database path =>
    (disk.readDatabase? path).elim (.error .openStore) fun db => .ok (.durable (.openOn db))

/-- The disk with what a server has to keep. -/
def keepStore (disk : Disk) (s : Server) : Disk :=
  match s.config.recovery, s.store with
  | .database path, .durable d => disk.writeDatabase path d.database
  | _, _ => disk

/-- Starts a server. -/
def start (env : Environment) (wall : WallTime) (file? : Option String) : Progress × Disk :=
  let opened := do
    let c ← usableConfig env file?
    return (c, ← openStore env.disk c.recovery)
  match opened with
  | .error f => (.ended (.failed f ""), env.disk)
  | .ok (c, store) =>
    let server := Server.launch c store wall
    (if c.sweepInterval?.isSome && c.lockStripes?.isSome then .serving server
      else .ended (.outOfRange ""), keepStore env.disk server)

/-- What a server says when it has started. -/
def greeting (s : Server) : String :=
  let grace := match (Request.inGrace.run.run s).1 with
    | .ok grace => grace
    | .error _ => false
  "nfs4d state core running instance_id=" ++ toString s.config.instanceId.toNat ++ " lease_time="
    ++ s.config.leaseTime.describe ++ " grace=" ++ toString grace

/-- What a server says when it has stopped. -/
def farewell : String := "nfs4d stopped"

/-- Stops a server that has run for some milliseconds. -/
def stop (disk : Disk) (s : Server) (elapsed : Nat) : Outcome × Disk :=
  let (answer, s) := Request.shutdown.run.run (s.advance elapsed)
  match answer with
  | .ok () => ({}, keepStore disk s)
  | .error e => (.failed (.stopServer e) "", keepStore disk s)

/-! ## The command line -/

/-- Whether there is a log filter: the one in the environment, or else the one that was asked for,
or that is configured. -/
def hasLogFilter (env : Environment) (i : Invocation) : Bool :=
  let configured := match Config.load env i.configFile? with
    | .ok c => c.logLevel
    | .error _ => "info"
  (env.valueOf? "RUST_LOG").any LogFilter.isValid
    || LogFilter.isValid (i.logFilter?.getD configured)

/-- Carries an invocation out. Answers what became of it, and the disk after it. -/
def execute (env : Environment) (wall : WallTime) (i : Invocation) : Progress × Disk :=
  let unchanged (o : Outcome) : Progress × Disk := (.ended o, env.disk)
  if hasLogFilter env i then
    match i.command with
    | .run => start env wall i.configFile?
    | .listRecords path => unchanged (listRecordsIn env path)
    | .purgeRecords path confirmed =>
      let (o, disk) := purgeRecordsIn env path confirmed
      (.ended o, disk)
    | .showConfig places yaml => unchanged (printConfig env i.configFile? places yaml)
    | .checkConfig file? => unchanged (validateConfig env (file?.or i.configFile?))
  else unchanged (.failed .logFilter "")

/-- What is printed where no command is carried out. -/
def refused (env : Environment) : Refused → Outcome
  | .usage => { code := 2, errors := "Usage: " ++ Help.usage .program ++ "\n" }
  | .version level => { output := level.versionText }
  | .help level => { output := Help.text env level }

/-- Carries the words of a command line out. -/
def executeWords (env : Environment) (wall : WallTime) (words : List String) : Progress × Disk :=
  match Invocation.ofWords env words with
  | .ok i => execute env wall i
  | .error r => (.ended (refused env r), env.disk)

/-! ## What a command looks at -/

/-- The files that a command may read. -/
def filesOf (env : Environment) (i : Invocation) : List String :=
  let named := match i.command with
    | .checkConfig file? => file?.toList
    | _ => []
  named ++ i.configFile?.toList ++ Config.places env

/-- The database that a command works on. -/
def databaseOf? (env : Environment) (i : Invocation) : Option String :=
  match i.command with
  | .listRecords path => some path
  | .purgeRecords path confirmed => if confirmed then some path else none
  | .run =>
    match usableConfig env i.configFile? with
    | .ok { recovery := .database path, .. } => some path
    | _ => none
  | _ => none

end Command

end Leasehold

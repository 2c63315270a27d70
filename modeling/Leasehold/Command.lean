/-!
# Command — what the program can be asked to do

The program has commands in groups: a level is the program, a group or a command. A
user names one command, beside options of its own and options that hold for all.
-/

namespace Leasehold

/-- What the program is asked to do. -/
inductive Command where
  /-- Serve until there is an interrupt. -/
  | run
  /-- List the records of the database in a directory. -/
  | listRecords (path : String)
  /-- Drop the records of the database in a directory. -/
  | purgeRecords (path : String) (confirmed : Bool)
  /-- Show the configuration, as YAML or in words, and where it is looked for. -/
  | showConfig (places yaml : Bool)
  /-- Check the configuration in a file. -/
  | checkConfig (file? : Option String)
  deriving Repr, DecidableEq

/-- A command, and the settings that hold for all commands. -/
structure Invocation where
  command : Command
  /-- The configuration file that was asked for. -/
  configFile? : Option String
  /-- The log filter that was asked for. -/
  logFilter? : Option String
  deriving Repr, DecidableEq

/-- The program, a group of commands, or a command. -/
inductive Level where
  | program | run | recovery | list | purge | config | display | check
  deriving Repr, DecidableEq, Inhabited

/-- An option. -/
inductive Switch where
  | config | logLevel | path | yes | places | yaml | help | version
  deriving Repr, DecidableEq

namespace Switch

/-- The name behind two dashes. -/
def long : Switch → String
  | config => "config"
  | logLevel => "log-level"
  | path => "path"
  | yes => "yes"
  | places => "paths"
  | yaml => "yaml"
  | help => "help"
  | version => "version"

/-- The letter behind one dash. -/
def short? : Switch → Option Char
  | config => some 'c'
  | yes => some 'y'
  | help => some 'h'
  | version => some 'V'
  | _ => none

/-- What the value is called, for an option that takes one. -/
def valueName? : Switch → Option String
  | config => some "FILE"
  | logLevel => some "LOG_LEVEL"
  | path => some "DIR"
  | _ => none

/-- The environment's variable that stands in for an option. -/
def standIn? : Switch → Option String
  | config => some "NFS4D_CONFIG_PATH"
  | logLevel => some "NFS4D_LOG_LEVEL"
  | _ => none

/-- Whether a text can be the value of an option. No path is empty. -/
def accepts : Switch → String → Bool
  | config, value => value ≠ ""
  | path, value => value ≠ ""
  | _, _ => true

/-- What an option is for. -/
def purpose : Switch → String
  | config => "Path to configuration file (overrides discovery)"
  | logLevel =>
    "Log level (trace, debug, info, warn, error); defaults to the configured level"
  | path => "Recovery database directory"
  | yes => "Do not ask for confirmation"
  | places => "Show config file paths checked"
  | yaml => "Print the effective configuration as YAML"
  | help => "Print help"
  | version => "Print version"

/-- The options that stand at every level. -/
def common : List Switch := [config, logLevel, help, version]

end Switch

namespace Level

/-- The levels below a level, by the names they are called. -/
def below : Level → List (String × Level)
  | program => [("run", run), ("recovery", recovery), ("config", config)]
  | recovery => [("list", list), ("purge", purge)]
  | config => [("show", display), ("validate", check)]
  | _ => []

/-- The options that can stand at a level. -/
def switches : Level → List Switch
  | list => .path :: Switch.common
  | purge => .path :: .yes :: Switch.common
  | display => .places :: .yaml :: Switch.common
  | _ => Switch.common

/-- The names that lead to a level. -/
def names : Level → List String
  | program => ["nfs4d"]
  | run => ["nfs4d", "run"]
  | recovery => ["nfs4d", "recovery"]
  | list => ["nfs4d", "recovery", "list"]
  | purge => ["nfs4d", "recovery", "purge"]
  | config => ["nfs4d", "config"]
  | display => ["nfs4d", "config", "show"]
  | check => ["nfs4d", "config", "validate"]

/-- What a level is for. -/
def purpose : Level → String
  | program => "nfs4d state core daemon and administration CLI"
  | run => "Start the state core"
  | recovery => "Recovery database inspection"
  | list => "List client records"
  | purge => "Drop every client record. Restarted servers skip the grace period"
  | config => "Configuration management"
  | display => "Show current configuration"
  | check => "Validate configuration file"

/-- The option of a level that has a name, or a letter. -/
def long? (level : Level) (name : String) : Option Switch :=
  level.switches.find? (·.long == name)

def short? (level : Level) (letter : Char) : Option Switch :=
  level.switches.find? (·.short? == some letter)

/-- The name of a level and the version of the program. -/
def versionText (level : Level) : String := "-".intercalate level.names ++ " 0.4.0-pre-alpha\n"

end Level

end Leasehold

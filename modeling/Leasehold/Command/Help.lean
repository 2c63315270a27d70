import Leasehold.Command
import Leasehold.Environment

/-!
# Command.Help — what the program says about itself

The help of a level has what the level is for, how it is used, the levels below it
and its options, each with a line.
-/

namespace Leasehold.Help

/-- Entries with their texts, the texts under each other. -/
def columns (entries : List (String × String)) : String :=
  let width := entries.foldl (fun w e => max w e.1.length) 0
  String.join (entries.map fun (entry, text) =>
    "  " ++ entry ++ String.ofList (List.replicate (width - entry.length + 2) ' ') ++ text ++ "\n")

/-- How an option is written. -/
def spelling (s : Switch) : String :=
  s.short?.elim "    " (fun c => "-" ++ String.singleton c ++ ", ") ++ "--" ++ s.long
    ++ s.valueName?.elim "" (" <" ++ · ++ ">")

/-- What an option is for, and what stands in for it. -/
def explanation (env : Environment) (s : Switch) : String :=
  s.purpose ++ s.standIn?.elim "" fun name =>
    " [env: " ++ name ++ "=" ++ (env.valueOf? name).getD "" ++ "]"

/-- How a level is used. -/
def usage (level : Level) : String :=
  " ".intercalate level.names
    ++ (if level = .list || level = .purge then " [OPTIONS] --path <DIR>" else " [OPTIONS]")
    ++ (if level = .check then " [FILE]" else "")
    ++ (if level.below.isEmpty then "" else " <COMMAND>")

/-- The help of a level. -/
def text (env : Environment) (level : Level) : String :=
  let commands := level.below.map fun (name, l) => (name, l.purpose)
  let groups := if commands.isEmpty then "" else "Commands:\n" ++ columns commands ++ "\n"
  let options := level.switches.map fun s => (spelling s, explanation env s)
  level.purpose ++ "\n\nUsage: " ++ usage level ++ "\n\n" ++ groups ++ "Options:\n"
    ++ columns options

end Leasehold.Help

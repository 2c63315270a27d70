import Leasehold.Command
import Leasehold.Environment

/-!
# Command.Arguments — commands from the words of a command line

Words are read from left to right. A word is an option, several options of one
letter each, the value of the option before it, the name of a level below, or a
file. Behind two dashes every word is a file. The options of all commands can stand
at any level on the way; the last level that has one decides, and then the
environment.
-/

namespace Leasehold

/-- Why no command is carried out. -/
inductive Refused where
  /-- The words make no sense. -/
  | usage
  /-- The user asks for the version, or for help. -/
  | version (level : Level)
  | help (level : Level)
  deriving Repr, DecidableEq

/-- What has been read at one level. -/
structure Reading where
  level : Level
  /-- The options with their values; an option that takes none has an empty one. -/
  given : List (Switch × String) := []
  /-- The option that was read last, if it takes a value from a word of its own, and that word, if
  it has been read. It is looked at when the next option or file comes, or at the end. -/
  pending : Option (Switch × Option String) := none
  file? : Option String := none
  /-- There was a word of two dashes. -/
  filesOnly : Bool := false
  deriving Repr, DecidableEq

namespace Reading

/-- Gives an option its value, which can be done once. -/
def give (r : Reading) (s : Switch) (value : String) : Except Refused Reading :=
  if (r.given.lookup s).isSome || !s.accepts value then .error .usage
  else .ok { r with given := (s, value) :: r.given }

/-- Looks at the option that is pending. -/
def settle (r : Reading) : Except Refused Reading :=
  match r.pending with
  | none => .ok r
  | some (s, some value) => give { r with pending := none } s value
  | some (_, none) => .error .usage

/-- Whether the next word is the value of an option, unless it looks like an option. -/
def awaitsValue (r : Reading) : Bool :=
  match r.pending with
  | some (_, none) => true
  | _ => false

/-- Reads an option, with the value that is attached to it, if any. -/
def option (r : Reading) (s : Switch) (attached? : Option String) : Except Refused Reading := do
  if s.valueName?.isSome then
    let r ← r.settle
    match attached? with
    | some value => r.give s value
    | none => return { r with pending := some (s, none) }
  else if attached?.isSome then .error .usage
  else
    let r ← r.settle
    match s with
    | .help => .error (.help r.level)
    | .version => .error (.version r.level)
    | _ => r.give s ""

/-- Reads the options of a word that starts with one dash. What follows the letter of an option that
takes a value is the value, with an equals sign between or without. -/
def letters (r : Reading) : List Char → Except Refused Reading
  | [] => .ok r
  | c :: cs =>
    match r.level.short? c with
    | none => .error .usage
    | some s =>
      if s.valueName?.isSome then
        match cs with
        | [] => r.option s none
        | '=' :: value => r.option s (some (String.ofList value))
        | value => r.option s (some (String.ofList value))
      else do (← r.option s none).letters cs

/-- Reads the option of a word that starts with two dashes, and the value behind an equals sign. -/
def name (r : Reading) (cs : List Char) : Except Refused Reading :=
  match r.level.long? (String.ofList (cs.takeWhile (· ≠ '='))) with
  | none => .error .usage
  | some s =>
    match cs.dropWhile (· ≠ '=') with
    | [] => r.option s none
    | _ :: value => r.option s (some (String.ofList value))

/-- Reads a file, which one command has. -/
def file (r : Reading) (word : String) : Except Refused Reading := do
  let r ← r.settle
  if r.level = .check && r.file?.isNone && word ≠ "" then return { r with file? := some word }
  else .error .usage

/-- Reads a word that is neither a value nor an option. -/
def plain (r : Reading) (word : String) : Except Refused Reading :=
  match r.pending with
  | some (s, none) => .ok { r with pending := some (s, some word) }
  | _ => r.file word

/-- Reads one word. -/
def word (r : Reading) (word : String) : Except Refused Reading :=
  if r.filesOnly then r.file word
  else
    match word.toList with
    | ['-', '-'] => .ok { r with filesOnly := true }
    | '-' :: '-' :: cs => r.name cs
    | '-' :: c :: cs => r.letters (c :: cs)
    | _ => r.plain word

end Reading

/-- The level below another one that words lead to; the user asks for help on it. -/
def helpOn (level : Level) : List String → Refused
  | [] => .help level
  | ["help"] => .help level
  | name :: names =>
    match level.below.lookup name with
    | some level => helpOn level names
    | none => .usage

/-- Reads words, and answers what was read at each level, the last level first. -/
def readWords (here : Reading) (above : List Reading) :
    List String → Except Refused (List Reading)
  | [] => .ok (here :: above)
  | word :: words =>
    let below := if here.awaitsValue || here.filesOnly then [] else here.level.below
    match below.lookup word with
    | some level => readWords { level } (here :: above) words
    | none =>
      if word = "help" && !below.isEmpty then .error (helpOn here.level words)
      else do readWords (← here.word word) above words

namespace Invocation

/-- The value of an option: at the last level that has it, or in the environment. -/
def valueOf? (env : Environment) (levels : List Reading) (s : Switch) :
    Option String :=
  (levels.findSome? fun r => r.given.lookup s).or (s.standIn?.bind env.valueOf?)

/-- Whether each level can do with what the environment has for the options it lacks. -/
def environmentFits (env : Environment) (levels : List Reading) : Bool :=
  levels.all fun r => Switch.common.all fun s =>
    (r.given.lookup s).isSome || ((s.standIn?.bind env.valueOf?).all s.accepts)

/-- The command that was named at the last level. -/
def commandOf? (r : Reading) : Option Command :=
  let has (s : Switch) : Bool := (r.given.lookup s).isSome
  match r.level with
  | .run => some .run
  | .list => (r.given.lookup .path).map .listRecords
  | .purge => (r.given.lookup .path).map (.purgeRecords · (has .yes))
  | .display => some (.showConfig (has .places) (has .yaml))
  | .check => some (.checkConfig r.file?)
  | _ => none

/-- The invocation that the words of a command line and an environment make. -/
def ofWords (env : Environment) (words : List String) :
    Except Refused Invocation := do
  let levels ← (← readWords { level := .program } [] words).mapM Reading.settle
  match levels.head?.bind commandOf? with
  | some command =>
    if environmentFits env levels then
      return {
        command
        configFile? := valueOf? env levels .config
        logFilter? := valueOf? env levels .logLevel }
    else .error .usage
  | none => .error .usage

end Invocation

end Leasehold

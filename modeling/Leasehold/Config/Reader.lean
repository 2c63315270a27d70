import Leasehold.Config
import Leasehold.Yaml.Node.Reader
import Leasehold.Yaml.Value

/-!
# Config.Reader — configurations from text

A configuration is a YAML mapping from the names of settings to their values. A
setting that is not there has its default, one that is there twice is an error,
and names of nothing are passed over. A text without any document says nothing, so
all settings have their defaults.
-/

namespace Leasehold.Config

open Yaml

/-! ## Values of one kind -/

/-- The text of a scalar, however it is written. -/
def textOf? (d : Document) (n : Node) : Option String :=
  match d.follow? n with
  | some (.scalar _ _ text) => some text
  | _ => none

/-- A whole number below a limit: plain text, or a literal block that is tagged as an integer. -/
def numberOf? (limit : Nat) (d : Document) (n : Node) : Option Nat := do
  let .scalar tag style text ← d.follow? n | none
  if style = .plain || (style = .literal && tag == some (coreTag "int")) then do
    let n ← Scalar.natural? text
    if n < limit then return n else none
  else none

/-- A span of time. -/
def durationOf? (d : Document) (n : Node) : Option Duration :=
  (textOf? d n).bind Duration.parse?

/-- Whether a node says that a setting is not set, if it may say so. -/
def isUnset? (d : Document) (n : Node) : Option Bool := do
  match ← d.follow? n with
  | .scalar tag .plain text =>
    if tag == some (coreTag "null") then if Scalar.isNull text then return true else none
    else return tag.isNone && (text.isEmpty || Scalar.isNull text)
  | _ => return false

/-! ## The choice of a recovery store -/

/-- The names of the kinds of store. -/
inductive StoreKind where
  | ephemeral | sled
  deriving Repr, DecidableEq

def StoreKind.ofText? : String → Option StoreKind
  | "ephemeral" => some ephemeral
  | "sled" => some sled
  | _ => none

/-- Whether a key of the entries of a store names its path: by its name, or by its place. Keys that
are neither text nor numbers name nothing, which is an error. -/
def namesPath? : Value → Option Bool
  | .text s => some (s == "path")
  | .natural n => some (n == 0)
  | _ => none

/-- The path among the entries of a store, which must be there once. -/
def pathOf? (entries : List (Value × Value)) : Option String := do
  let named : List (Bool × Value) ← entries.mapM fun (k, v) => (namesPath? k).map (·, v)
  match named.filter (·.1) with
  | [(_, .text path)] => some path
  | _ => none

/-- The store that the entries beside the kind describe. -/
def storeOfEntries? (kind : StoreKind) (entries : List (Value × Value)) : Option RecoveryChoice :=
  match kind with
  | .ephemeral => some .ephemeral
  | .sled => (pathOf? entries).map .database

/-- The store that the items behind the kind describe. -/
def storeOfItems? (kind : StoreKind) (items : List Value) : Option RecoveryChoice :=
  match kind, items with
  | .ephemeral, [] => some .ephemeral
  | .sled, [.text path] => some (.database path)
  | _, _ => none

/-- How deep collections may be nested inside of a setting. -/
def maxDepth : Nat := 127

/-- Whether a node is the text that a key has to be. -/
def isKey (d : Document) (key : String) (n : Node) : Bool :=
  match d.follow? n with
  | some (.scalar tag style text) =>
    match Value.ofScalar? tag style text with
    | some (.text s) => !isLocalTag tag && s == key
    | _ => false
  | _ => false

/-- The store that a node describes: a mapping with its kind under `backend`, or a sequence that
starts with it. -/
def recoveryOf? (d : Document) (n : Node) : Option RecoveryChoice := do
  let kindOf (n : Node) : Option StoreKind := (textOf? d n).bind StoreKind.ofText?
  let valueOf (n : Node) : StateT Nat Option Value := Value.ofNode? d (maxDepth - 1) n
  let entryOf (e : Node × Node) : StateT Nat Option (Value × Value) := do
    return (← valueOf e.1, ← valueOf e.2)
  let aliases := 100 * (d.root.elim 0 Node.events)
  match ← d.follow? n with
  | .mapping tag entries =>
    if isLocalTag tag then none
    else do
      let kinds := entries.filter fun e => isKey d "backend" e.1
      let others := entries.filter fun e => !isKey d "backend" e.1
      let [(_, kind)] := kinds | none
      let (values, _) ← (others.mapM entryOf).run aliases
      storeOfEntries? (← kindOf kind) values
  | .sequence tag (kind :: items) =>
    if isLocalTag tag then none
    else do
      let (values, _) ← (items.mapM valueOf).run aliases
      storeOfItems? (← kindOf kind) values
  | _ => none

/-! ## Settings -/

/-- The names of the settings. -/
def settings : List String :=
  ["lease_time", "grace_period", "max_slots", "max_operations", "max_cb_operations",
   "instance_id", "worker_threads", "recovery", "log_level"]

/-- Gives a setting its value. -/
def set? (d : Document) (c : Config) (name : String) (n : Node) : Option Config := do
  match name with
  | "lease_time" => return { c with leaseTime := ← durationOf? d n }
  | "grace_period" =>
    if ← isUnset? d n then return { c with gracePeriod := none }
    else return { c with gracePeriod := some (← durationOf? d n) }
  | "max_slots" => return { c with maxSlots := .ofNat (← numberOf? UInt32.size d n) }
  | "max_operations" => return { c with maxOperations := .ofNat (← numberOf? UInt32.size d n) }
  | "max_cb_operations" =>
    return { c with maxCallbackOperations := .ofNat (← numberOf? UInt32.size d n) }
  | "instance_id" => return { c with instanceId := .ofNat (← numberOf? UInt8.size d n) }
  | "worker_threads" => return { c with workerThreads := .ofNat (← numberOf? UInt64.size d n) }
  | "recovery" => return { c with recovery := ← recoveryOf? d n }
  | "log_level" => return { c with logLevel := ← textOf? d n }
  | _ => return c

/-- Gives settings their values, each once. -/
def setAll? (d : Document) (c : Config) (given : List String) :
    List (Node × Node) → Option Config
  | [] => some c
  | (k, v) :: rest => do
    let name ← textOf? d k
    if settings.contains name && given.contains name then none
    else setAll? d (← set? d c name v) (name :: given) rest

/-- The configuration that a document describes. -/
def ofDocument? (d : Document) : Option Config :=
  match d.root with
  | none => some {}
  | some (.mapping _ entries) => setAll? d {} [] entries
  | some (.scalar _ .plain "") => some {}
  | some _ => none

/-- The configuration that a text describes. -/
def parse? (text : String) : Option Config := (Document.ofText? text).bind ofDocument?

end Leasehold.Config

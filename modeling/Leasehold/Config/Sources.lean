import Leasehold.Config.Reader
import Leasehold.Environment

/-!
# Config.Sources — where a configuration comes from

A configuration is read from a file that was asked for, or else from the first one
that is found in the usual places; without any, the defaults hold. What the
environment says comes last and wins, and is ignored where it makes no sense.
-/

namespace Leasehold

namespace Config

/-- The variable that names a configuration file. -/
def pathVariable : String := "NFS4D_CONFIG_PATH"

/-- The octet that a text writes in decimal; a plus sign may stand in front. -/
def octet? (text : String) : Option UInt8 := do
  let n ← Yaml.Scalar.digits? 10 (Yaml.Scalar.withoutPlus text.toList)
  if n < UInt8.size then return .ofNat n else none

/-- The configuration with the settings that variables give. -/
def overridden (c : Config) (bindings : List (String × String)) : Config :=
  { c with
    leaseTime := ((bindings.lookup "NFS4D_LEASE_TIME").bind Duration.parse?).getD c.leaseTime
    instanceId := ((bindings.lookup "NFS4D_INSTANCE_ID").bind octet?).getD c.instanceId
    recovery := (bindings.lookup "NFS4D_RECOVERY_PATH").elim c.recovery .database }

/-- Why no configuration could be loaded. -/
inductive LoadError where
  /-- The file that was asked for is not there or has no configuration. -/
  | asked (path : String)
  /-- The file that was found has no configuration. -/
  | found (path : String)
  deriving Repr, DecidableEq

/-- The places where a configuration file may be, in the order in which they are tried. -/
def places (env : Environment) : List String :=
  (env.valueOf? pathVariable).toList ++ ["./nfs4d.yaml"]
    ++ (env.home?.map (· ++ "/.nfs4d/config.yaml")).toList ++ ["/etc/nfs4d/config.yaml"]

/-- The first place where there is something. -/
def discover (env : Environment) : Option String := (places env).find? env.disk.isThere

/-- The configuration in a file, or the error that there is none. -/
def read (env : Environment) (path : String) (failure : LoadError) : Except LoadError Config :=
  ((env.disk.readText? path).bind parse?).elim (.error failure) .ok

/-- The configuration that applies where a file is asked for, or none is. -/
def load (env : Environment) (asked? : Option String) : Except LoadError Config :=
  let given :=
    match asked?, discover env with
    | some path, _ => read env path (.asked path)
    | none, some path => read env path (.found path)
    | none, none => .ok {}
  given.map (·.overridden env.bindings)

end Config

end Leasehold

import Leasehold.Config
import Leasehold.Yaml.Writer

/-!
# Config.Writer — configurations as text

Every setting is written on a line of its own, in a fixed order. A grace period
that is not set is left out.
-/

namespace Leasehold.Config

open Yaml

/-- The lines of a choice of store. -/
def recoveryEntries : RecoveryChoice → String
  | .ephemeral => Writer.entry 2 "backend" "ephemeral"
  | .database path => Writer.entry 2 "backend" "sled" ++ Writer.entry 2 "path" path

/-- The line of a number. -/
def numberEntry (key : String) (n : Nat) : String := key ++ ": " ++ toString n ++ "\n"

/-- The text of a configuration. -/
def render (c : Config) : String :=
  String.join [
    Writer.entry 0 "lease_time" c.leaseTime.render,
    c.gracePeriod.elim "" fun grace => Writer.entry 0 "grace_period" grace.render,
    numberEntry "max_slots" c.maxSlots.toNat,
    numberEntry "max_operations" c.maxOperations.toNat,
    numberEntry "max_cb_operations" c.maxCallbackOperations.toNat,
    numberEntry "instance_id" c.instanceId.toNat,
    numberEntry "worker_threads" c.workerThreads.toNat,
    "recovery:\n",
    recoveryEntries c.recovery,
    Writer.entry 0 "log_level" c.logLevel]

end Leasehold.Config

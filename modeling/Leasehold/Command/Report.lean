import Leasehold.Config.Sources
import Leasehold.Text.Blank

/-!
# Command.Report — what commands print

Configurations and client records in words, for people to read.
-/

namespace Leasehold.Report

/-! ## Configurations -/

/-- A span in whole seconds. -/
def seconds (d : Duration) : String := toString d.wholeSeconds ++ "s"

/-- The choice of a store. -/
def recovery : RecoveryChoice → String
  | .ephemeral => "ephemeral (no grace period)"
  | .database path => "sled at " ++ path

/-- The places where a configuration is looked for, as far as they were told. -/
def places (asked? inEnvironment? : Option String) : String :=
  "Configuration discovery paths:\n"
    ++ "  1. --config flag: " ++ asked?.getD "(not set)" ++ "\n"
    ++ "  2. " ++ Config.pathVariable ++ ": " ++ inEnvironment?.getD "(not set)" ++ "\n"
    ++ "  3. ./nfs4d.yaml\n  4. ~/.nfs4d/config.yaml\n  5. /etc/nfs4d/config.yaml\n\n"

/-- The lines of a configuration. There is no line where a number is out of range. -/
def configLines (c : Config) : List (Option String) :=
  [some "Current configuration:", some "",
   some "Leases:",
   some ("  Lease time: " ++ seconds c.leaseTime),
   some ("  Grace period: " ++ seconds c.grace),
   c.sweepInterval?.map ("  Sweep interval: " ++ seconds ·),
   some "",
   some "Sessions:",
   some ("  Max slots: " ++ toString c.maxSlots.toNat),
   some ("  Max operations: " ++ toString c.maxOperations.toNat),
   some ("  Max callback operations: " ++ toString c.maxCallbackOperations.toNat),
   some "",
   some "Registry:",
   some ("  Instance ID: " ++ toString c.instanceId.toNat),
   c.lockStripes?.map fun stripes =>
     "  Worker threads: " ++ toString c.workerThreads.toNat ++ " (" ++ toString stripes
       ++ " lock stripes)",
   some ("  Recovery: " ++ recovery c.recovery),
   some ("  Log level: " ++ c.logLevel),
   some ""]

/-- A configuration up to the first number that is out of range, and whether there is one. -/
def config (c : Config) : String × Bool :=
  let lines := (configLines c).takeWhile (·.isSome)
  (String.join (lines.map fun line => line.getD "" ++ "\n"), lines.length < (configLines c).length)

/-! ## Client records -/

/-- An owner: its text if it has one that shows, else its octets. -/
def owner (name : Bytes) : String :=
  match Text.Utf8.decode? name with
  | some text => if text.toList.any Text.isControl then Text.Hex.encode name else text
  | none => Text.Hex.encode name

/-- The line of a record. -/
def record (r : Recovery.Record) : String :=
  (if r.recovering then "  recovering  " else "  current     ") ++ r.firstSeen.toText ++ "  "
    ++ owner r.owner ++ "\n"

/-- Records, those first that were seen first. -/
def records (rs : List Recovery.Record) : String :=
  if rs.isEmpty then "No client records\n"
  else
    let sorted := rs.mergeSort fun a b => a.firstSeen.nanos ≤ b.firstSeen.nanos
    "Client records:\n" ++ String.join (sorted.map record) ++ "\n" ++ toString rs.length
      ++ " record(s)\n"

end Leasehold.Report

import Leasehold.Duration.Text
import Leasehold.Stripes

/-!
# Config — what a server can be told

Every setting has a default. `validate` accepts a configuration that a server can
start with, and names the first fault of any other.
-/

namespace Leasehold

/-- Where client records are kept. -/
inductive RecoveryChoice where
  /-- In memory: nothing outlives the server. -/
  | ephemeral
  /-- In a database in a directory. -/
  | database (path : String)
  deriving Repr, DecidableEq, Inhabited

/-- The settings of a server. -/
structure Config where
  leaseTime : Duration := .ofSeconds 90
  /-- How long clients of the server before may reclaim; one lease time if unset. -/
  gracePeriod : Option Duration := none
  maxSlots : UInt32 := 128
  maxOperations : UInt32 := 128
  maxCallbackOperations : UInt32 := 16
  /-- Tells apart servers that start within one second. -/
  instanceId : UInt8 := 0
  workerThreads : UInt64 := 16
  recovery : RecoveryChoice := .ephemeral
  logLevel : String := "info"
  deriving Repr, DecidableEq

/-- Why a configuration cannot be used. -/
inductive ConfigFault where
  | leaseTimeZero
  | graceShorterThanLease (grace lease : Duration)
  | noSlots
  | tooFewOperations
  | emptyRecoveryPath
  deriving Repr, DecidableEq

def ConfigFault.message : ConfigFault → String
  | leaseTimeZero => "lease_time must be greater than zero"
  | graceShorterThanLease grace lease =>
    "grace_period (" ++ grace.describe ++ ") must not be shorter than lease_time ("
      ++ lease.describe ++ ")"
  | noSlots => "max_slots must be at least 1"
  | tooFewOperations => "max_operations must allow at least SEQUENCE plus one operation"
  | emptyRecoveryPath => "recovery.path cannot be empty"

namespace Config

instance : Inhabited Config := ⟨{}⟩

/-- The grace period that applies. -/
def grace (c : Config) : Duration := c.gracePeriod.getD c.leaseTime

/-- The time from one sweep of expired clients to the next: four lease times, if there is such a
span. -/
def sweepInterval? (c : Config) : Option Duration := c.leaseTime.times? 4

/-- How many stripes locks are divided into, if there are so many. -/
def lockStripes? (c : Config) : Option Nat := Stripes.forWorkers? c.workerThreads.toNat

/-- Accepts a configuration that a server can start with. -/
def validate (c : Config) : Except ConfigFault Unit :=
  if c.leaseTime.isZero then .error .leaseTimeZero
  else if c.grace.nanos < c.leaseTime.nanos then
    .error (.graceShorterThanLease c.grace c.leaseTime)
  else if c.maxSlots = 0 then .error .noSlots
  else if c.maxOperations < 2 then .error .tooFewOperations
  else if c.recovery = .database "" then .error .emptyRecoveryPath
  else .ok ()

end Config

end Leasehold

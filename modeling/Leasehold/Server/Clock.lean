import Leasehold.Server.Grace

/-!
# Server.Clock — the passing of time

A launched server sweeps every four lease times, and closes the grace period once
when it has lasted long enough. Timers fire on whole milliseconds of the clock: one
that is due between two of them waits for the later one. When time passes, the timers
that fire on the way, or at its end, do so in their order.
-/

namespace Leasehold

namespace Server

/-- The reading at which a timer fires that is due at a given one: the first whole millisecond from
there on. -/
@[irreducible] def tick (due : Nat) : Nat := (due + 999_999) / 1_000_000 * 1_000_000

/-- A server that starts with its timers running. A sweep with no time between is never due. -/
def launch (config : Config) (store : Recovery.Store) (wall : WallTime) (now : Nat := 0) : Server :=
  let period := (config.sweepInterval?.map Duration.nanos).getD 0
  { Server.new config store wall now with
    sweepDue := if period = 0 then none else some (now + period)
    graceDue := some (now + config.grace.nanos) }

/-- The server that takes the place of another one, over the records that outlive it. The clocks go
on. -/
def successor (s : Server) (config : Config) (timers : Bool) : Server :=
  if timers then launch config s.store.reopen s.wall s.now
  else new config s.store.reopen s.wall s.now

/-- The nanoseconds from one sweep to the next. -/
def sweepPeriod (s : Server) : Nat := (s.config.sweepInterval?.map Duration.nanos).getD 0

/-- Lets time pass up to a later reading of the clock, with no timer due. -/
def passTo (s : Server) (later : Nat) : Server :=
  { s with now := later, wall := s.wall.addNanos (later - s.now) }

/-- Carries a request out for what it changes. -/
def after {α : Type} (s : Server) (r : Request α) : Server := (r.run.run s).2

/-- The timer that fires first and by a given time: when it is due, and whether it is the sweep. -/
def nextDue? (s : Server) (limit : Nat) : Option (Nat × Bool) :=
  let due (timer : Option Nat) (isSweep : Bool) : List (Nat × Bool) :=
    (timer.filter (tick · ≤ limit)).toList.map (·, isSweep)
  match due s.sweepDue true ++ due s.graceDue false with
  | [] => none
  | [first] => some first
  | first :: second :: _ => if tick second.1 < tick first.1 then some second else some first

/-- Fires the sweep timer, which is due next a period after it was due and not after it fired. -/
def fireSweep (s : Server) (due : Nat) : Server :=
  { (s.passTo (max s.now (tick due))).after Request.sweep with
    sweepDue := some (due + s.sweepPeriod) }

/-- Fires the grace timer, which fires once. -/
def fireGrace (s : Server) (due : Nat) : Server :=
  { (s.passTo (max s.now (tick due))).after Request.endGrace with graceDue := none }

/-- Fires timers in their order until none fires by the end, at most so many. -/
def fireUntil : Nat → Server → Nat → Server
  | 0, s, _ => s
  | fuel + 1, s, limit =>
    match s.nextDue? limit with
    | none => s
    | some (due, true) => fireUntil fuel (s.fireSweep due) limit
    | some (due, false) => fireUntil fuel (s.fireGrace due) limit

/-- Lets nanoseconds pass. Every firing of the sweep moves its timer on, so there are no more firings
than nanoseconds and one for the grace period. -/
def elapse (s : Server) (nanos : Nat) : Server :=
  let limit := s.now + nanos
  (fireUntil (limit + 2) s limit).passTo limit

/-- Lets milliseconds pass. -/
def advance (s : Server) (ms : Nat) : Server := s.elapse (ms * 1_000_000)

end Server

end Leasehold

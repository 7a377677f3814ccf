import Diorama.Time.Duration

/-! Pulses: a timer at a fixed rate.  A poll that comes late fires once, and moves the deadline by
whole periods past its own time. -/

namespace Diorama

/-- A point of time, in nanoseconds from a common start. -/
abbrev Instant := Nat

structure Pulse where
  period : Duration
  /-- The deadline: when the next pulse is due. -/
  next : Instant
  /-- When the last pulse fired. -/
  last : Instant
deriving DecidableEq, Repr

namespace Pulse

/-- The period of a rate in pulses per second.  A rate of 0 counts as 1. -/
def periodOf (hz : UInt32) : Duration := Duration.ofSeconds (1 / (max hz 1).toFloat)

/-- A pulse that is first due one period after `now`. -/
def new (hz : UInt32) (now : Instant) : Pulse := ⟨periodOf hz, now + periodOf hz, now⟩

/-- Changes the rate; the deadline stays. -/
def setRate (pulse : Pulse) (hz : UInt32) : Pulse := { pulse with period := periodOf hz }

/-- The number of periods that move the deadline past `now`, as a word of 32 bits. -/
def periodsPast (pulse : Pulse) (now : Instant) : Nat :=
  ((now - pulse.next) / max pulse.period 1 + 1) % UInt32.size

/-- Fires if the deadline has come, and then gives the time since the last pulse. -/
def poll (pulse : Pulse) (now : Instant) : Option Duration × Pulse :=
  if now < pulse.next then (none, pulse)
  else
    (some (now - pulse.last),
      { pulse with next := pulse.next + pulse.period * pulse.periodsPast now, last := now })

end Pulse

end Diorama

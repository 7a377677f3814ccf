import Diorama.Warning
import Diorama.Time.Pulse

/-! The loads that a start waits for.  Each load has a ticket, which is handed back when the load
is done or has failed; the barrier opens when all tickets are back. -/

namespace Diorama

/-- The proof that a load was registered. -/
abbrev Ticket := Nat

structure PendingLoads where
  issued : Nat := 0
  outstanding : Nat := 0
  /-- Why loads failed, in the order in which they did. -/
  failures : List String := []
  started : Instant := 0
deriving DecidableEq, Repr

inductive LoadError where
  | timeout (outstanding : Nat) (waited : Duration)
deriving DecidableEq, Repr

def LoadError.message : LoadError → String
  | timeout outstanding waited => s!"{outstanding} load(s) still pending after {waited.text}"

namespace PendingLoads

def start (loads : PendingLoads) (now : Instant) : PendingLoads := { loads with started := now }

/-- Registers a load.  Its ticket is the number of loads registered by then. -/
def enqueue (loads : PendingLoads) : Ticket × PendingLoads :=
  (loads.issued + 1,
    { loads with issued := loads.issued + 1, outstanding := loads.outstanding + 1 })

/-- Registers a load that runs by itself and keeps its ticket until it is done. -/
def spawn (loads : PendingLoads) : PendingLoads := loads.enqueue.2

def complete (loads : PendingLoads) (_ticket : Ticket) : PendingLoads :=
  { loads with outstanding := loads.outstanding - 1 }

def fail (loads : PendingLoads) (ticket : Ticket) (reason : String) : Logged PendingLoads := do
  Logged.warn (.failedLoad reason)
  return { loads with failures := loads.failures ++ [reason] }.complete ticket

/-- Whether no ticket is out. -/
def isSettled (loads : PendingLoads) : Bool := loads.outstanding == 0

def waited (loads : PendingLoads) (now : Instant) : Duration := now - loads.started

/-- Whether the barrier is open; it gives up once it has waited for `timeout`. -/
def pollBarrier (loads : PendingLoads) (now : Instant) (timeout : Duration) :
    Except LoadError Bool :=
  if loads.isSettled then .ok true
  else if timeout ≤ loads.waited now then .error (.timeout loads.outstanding (loads.waited now))
  else .ok false

end PendingLoads

end Diorama

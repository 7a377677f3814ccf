import Diorama.Warning

/-! Latches: open after a fixed number of arrivals. -/

namespace Diorama

/-- A latch that waits for `remaining` arrivals. -/
structure Latch where
  remaining : Nat
deriving DecidableEq, Repr

namespace Latch

def isOpen (latch : Latch) : Bool := latch.remaining == 0

/-- Records an arrival, and says whether it opened the latch. -/
def arrive (latch : Latch) : Logged (Bool × Latch) :=
  match latch.remaining with
  | 0 => do
    Logged.warn .extraArrival
    return (false, latch)
  | n + 1 => pure (n == 0, ⟨n⟩)

/-- A latch for `n` arrivals: one more is counted, and has arrived with the latch itself. -/
def new (n : Nat) : Latch := (arrive ⟨n + 1⟩).value.2

end Latch

end Diorama

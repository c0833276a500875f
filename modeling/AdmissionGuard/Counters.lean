import AdmissionGuard.Decision
/-!
Counters of what the guard has decided. They are 64-bit words and wrap around.
-/

namespace AdmissionGuard

structure Counters where
  total : UInt64 := 0
  exempt : UInt64 := 0
  admitted : UInt64 := 0
  rateLimited : UInt64 := 0
  blocked : UInt64 := 0
  blocksStarted : UInt64 := 0
  sweeps : UInt64 := 0
  swept : UInt64 := 0
deriving DecidableEq

structure Snapshot extends Counters where
  tracked : Nat
deriving DecidableEq

namespace Counters

def record (c : Counters) (d : Decision) : Counters :=
  let c := { c with total := c.total + 1 }
  match d with
  | .exempt => { c with exempt := c.exempt + 1 }
  | .admitted => { c with admitted := c.admitted + 1 }
  | .blocked _ => { c with blocked := c.blocked + 1 }
  | .rateLimited _ false => { c with rateLimited := c.rateLimited + 1 }
  | .rateLimited _ true =>
    { c with rateLimited := c.rateLimited + 1, blocksStarted := c.blocksStarted + 1 }

def recordSweep (c : Counters) (removed : Nat) : Counters :=
  { c with sweeps := c.sweeps + 1, swept := c.swept + removed.toUInt64 }

def snapshot (c : Counters) (tracked : Nat) : Snapshot := { c with tracked }

end Counters

end AdmissionGuard

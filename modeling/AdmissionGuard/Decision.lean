import AdmissionGuard.Time
/-!
Outcomes of an admission check, and what a denied client is told.
-/

namespace AdmissionGuard

inductive Decision where
  | exempt
  | admitted
  | blocked (remaining : Span)
  /-- A bucket was empty. `strikes` counts this denial; `blocks` says that it starts a block. -/
  | rateLimited (strikes : Nat) (blocks : Bool)
deriving DecidableEq

namespace Decision

def Allows : Decision → Prop
  | exempt | admitted => True
  | blocked _ | rateLimited .. => False

instance : ∀ d : Decision, Decidable d.Allows
  | exempt | admitted => isTrue trivial
  | blocked _ | rateLimited .. => isFalse id

end Decision

inductive Rejection where
  | blocked (remainingSeconds : Nat)
  | rateLimited
deriving DecidableEq

namespace Rejection

def ofDecision? : Decision → Option Rejection
  | .exempt | .admitted => none
  | .blocked remaining => some (blocked remaining.seconds)
  | .rateLimited .. => some rateLimited

def retryAfter : Nat := 60

def message : Rejection → String
  | blocked _ => "Request blocked by anti-DDoS guard."
  | rateLimited => "Too many requests. Please slow down."

end Rejection

end AdmissionGuard

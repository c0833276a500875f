import AdmissionGuard.Settings.Limits
import AdmissionGuard.TokenBucket
/-!
What the guard remembers of one client.
-/

namespace AdmissionGuard

structure Client where
  bucket : TokenBucket
  strikes : Nat
  /-- The end of the client's last block, kept until a later check finds it over. -/
  blockedUntil : Option Instant
  lastSeen : Instant
deriving DecidableEq

namespace Client

def fresh (limits : Limits) (now : Instant) : Client where
  bucket := .full limits.perClientPerMinute limits.perClientBurst now
  strikes := 0
  blockedUntil := none
  lastSeen := now

def blockRemaining? (c : Client) (now : Instant) : Option Span :=
  (c.blockedUntil.filter (now < ·)).map (·.since now)

def seen (c : Client) (now : Instant) : Client := { c with lastSeen := c.lastSeen.latest now }

end Client

structure ClientStatus where
  strikes : Nat
  remaining : Option Span
  available : Nat
deriving DecidableEq

namespace ClientStatus

def blocked (s : ClientStatus) : Bool := s.remaining.isSome

def remainingSeconds (s : ClientStatus) : Nat := (s.remaining.map Span.seconds).getD 0

end ClientStatus

def Client.status (c : Client) (now : Instant) : ClientStatus where
  strikes := c.strikes
  remaining := c.blockRemaining? now
  available := c.bucket.available now

end AdmissionGuard

import AdmissionGuard.Binary64
import AdmissionGuard.Time
/-!
Token buckets with continuous refill. A bucket starts full; tokens accrue in proportion to the time
passed, up to the capacity, and an attempt takes one whole token. All token arithmetic is binary64.
-/

namespace AdmissionGuard

/-- The length of a span in seconds: the rounded whole seconds plus the rounded fraction. -/
def Span.inSeconds (d : Span) : Rat :=
  Binary64.add (Binary64.round d.seconds) (Binary64.div d.subsecNanos nanosPerSecond)

structure TokenBucket where
  capacity : Nat
  rate : Rat
  level : Rat
  refilledAt : Instant
deriving DecidableEq

namespace TokenBucket

def full (perMinute burst : UInt32) (now : Instant) : TokenBucket where
  capacity := max burst.toNat 1
  rate := Binary64.div (max perMinute.toNat 1 : Nat) 60
  level := (max burst.toNat 1 : Nat)
  refilledAt := now

/-- Adds the tokens gained by `now`. An instant that is not later than the last refill changes
nothing, so an older reading of the clock takes nothing back. -/
def refill (b : TokenBucket) (now : Instant) : TokenBucket :=
  let elapsed := now.since b.refilledAt
  if elapsed.nanos = 0 then b
  else
    let level := Binary64.add b.level (Binary64.mul b.rate elapsed.inSeconds)
    { b with
      level := if level ≤ b.capacity then level else b.capacity
      refilledAt := now }

def whole (b : TokenBucket) : Nat := b.level.floor.toNat

def attempt (b : TokenBucket) (now : Instant) : Bool × TokenBucket :=
  let b := b.refill now
  if 1 ≤ b.level then (true, { b with level := Binary64.sub b.level 1 }) else (false, b)

def available (b : TokenBucket) (now : Instant) : Nat := (b.refill now).whole

def attempts (b : TokenBucket) : List Instant → List Bool × TokenBucket
  | [] => ([], b)
  | t :: ts =>
    let (granted, b) := b.attempt t
    let (rest, b) := b.attempts ts
    (granted :: rest, b)

end TokenBucket

end AdmissionGuard

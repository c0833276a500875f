import AdmissionGuard.Allowlist
import AdmissionGuard.Counters
import AdmissionGuard.Event
import AdmissionGuard.Store
/-!
The admission guard. A check passes clients on the allowlist, turns away blocked ones and charges
the others a token of their own bucket and one of the bucket that all share. A denial is a strike,
and enough strikes start a block; an admission makes up for one strike.
-/

namespace AdmissionGuard

structure Guard where
  limits : Limits
  allowlist : Allowlist
  shared : TokenBucket
  clients : Store
  /-- Checks of clients that are not on the allowlist. -/
  checked : UInt64
  counters : Counters

structure Outcome (α : Type) where
  answer : α
  guard : Guard
  events : List Event

namespace Guard

def sweepEvery : UInt64 := 1024

def mostStrikes : Nat := 0xffffffff

def create (limits : Limits) (now : Instant) : Guard where
  limits
  allowlist := .ofEntries limits.allowlist
  shared := .full limits.globalPerMinute limits.globalBurst now
  clients := .empty
  checked := 0
  counters := {}

def createEvents (limits : Limits) : List Event :=
  (Allowlist.malformed limits.allowlist).map .entryIgnored

def sweep (g : Guard) (now : Instant) : Outcome Nat :=
  let clients := g.clients.sweep now g.limits.staleAfter
  let removed := g.clients.size - clients.size
  { answer := removed
    guard := { g with clients, counters := g.counters.recordSweep removed }
    events := [.swept removed clients.size] }

/-- Judges a client that is not blocked: charges both buckets, whatever either says, and settles the
strikes. -/
def charge (g : Guard) (key : String) (c : Client) (now : Instant) : Outcome Decision :=
  let (ownGrant, bucket) := c.bucket.attempt now
  let (sharedGrant, shared) := g.shared.attempt now
  let c := { c with bucket, blockedUntil := none }
  if ownGrant && sharedGrant then
    let c := { c with strikes := c.strikes - 1 }
    { answer := .admitted, guard := { g with shared, clients := g.clients.set key c }, events := [] }
  else
    let strikes := min (c.strikes + 1) mostStrikes
    if g.limits.strikeThreshold.toNat ≤ strikes then
      let c := { c with strikes := 0, blockedUntil := some (now.blockEnd g.limits.block) }
      { answer := .rateLimited strikes true
        guard := { g with shared, clients := g.clients.set key c }
        events := [.blockStarted key g.limits.blockSeconds.toNat] }
    else
      let c := { c with strikes }
      { answer := .rateLimited strikes false
        guard := { g with shared, clients := g.clients.set key c }
        events := [] }

def judge (g : Guard) (key : String) (now : Instant) : Outcome Decision :=
  let c := g.clients.sighted g.limits key now
  match c.blockRemaining? now with
  | some remaining =>
    { answer := .blocked remaining
      guard := { g with clients := g.clients.touch g.limits key now }
      events := [] }
  | none => g.charge key c now

def check (g : Guard) (key : String) (now : Instant) : Outcome Decision :=
  if g.allowlist.contains key then
    { answer := .exempt, guard := { g with counters := g.counters.record .exempt }, events := [] }
  else
    let { answer, guard, events } := g.judge key now
    let checked := guard.checked + 1
    let guard := { guard with checked, counters := guard.counters.record answer }
    if checked % sweepEvery = 0 then
      let swept := guard.sweep now
      { answer, guard := swept.guard, events := events ++ swept.events }
    else { answer, guard, events }

def status? (g : Guard) (key : String) (now : Instant) : Option ClientStatus :=
  (g.clients.get? key).map (·.status now)

def tracked (g : Guard) : Nat := g.clients.size

def snapshot (g : Guard) : Snapshot := g.counters.snapshot g.tracked

inductive Call where
  | check (key : String) (now : Instant)
  | sweep (now : Instant)
  | status (key : String) (now : Instant)
deriving DecidableEq

inductive Reply where
  | decided (d : Decision)
  | swept (removed : Nat)
  | status (s : Option ClientStatus)
deriving DecidableEq

def step (g : Guard) : Call → Outcome Reply
  | .check key now =>
    let o := g.check key now
    { answer := .decided o.answer, guard := o.guard, events := o.events }
  | .sweep now =>
    let o := g.sweep now
    { answer := .swept o.answer, guard := o.guard, events := o.events }
  | .status key now => { answer := .status (g.status? key now), guard := g, events := [] }

def run (g : Guard) : List Call → Outcome (List Reply)
  | [] => { answer := [], guard := g, events := [] }
  | c :: cs =>
    let first := g.step c
    let rest := first.guard.run cs
    { answer := first.answer :: rest.answer
      guard := rest.guard
      events := first.events ++ rest.events }

end Guard

end AdmissionGuard

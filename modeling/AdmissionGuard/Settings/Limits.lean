import AdmissionGuard.Settings.Options
import AdmissionGuard.Time
/-!
The limits that a guard enforces, and how options out of range are moved into it.
-/

namespace AdmissionGuard

structure Limits where
  enabled : Bool
  perClientPerMinute : UInt32
  perClientBurst : UInt32
  globalPerMinute : UInt32
  globalBurst : UInt32
  strikeThreshold : UInt32
  blockSeconds : UInt64
  allowlist : List String
deriving DecidableEq

namespace Limits

def leastPerMinute : Int := 30
def leastBurst : Int := 1
def leastStrikes : Int := 1
def leastBlockSeconds : Int := 30

def greatest : Int := 0xffffffff

def clamp (low n : Int) : Int := max low (min n greatest)

def ofOptions (o : GuardOptions) : Limits :=
  let perMinute := clamp leastPerMinute o.perClientPerMinute
  let burst := clamp leastBurst o.perClientBurst
  { enabled := o.enabled
    perClientPerMinute := perMinute.toNat.toUInt32
    perClientBurst := burst.toNat.toUInt32
    globalPerMinute := (clamp perMinute o.globalPerMinute).toNat.toUInt32
    globalBurst := (clamp burst o.globalBurst).toNat.toUInt32
    strikeThreshold := (clamp leastStrikes o.strikeThreshold).toNat.toUInt32
    blockSeconds := (clamp leastBlockSeconds o.blockSeconds).toNat.toUInt64
    allowlist := o.allowlist }

def block (l : Limits) : Span := Span.ofSeconds l.blockSeconds

def staleAfter (l : Limits) : Span := l.block.saturatingMul 3

end Limits

end AdmissionGuard

/-!
Lengths of time and points on a clock, both in whole nanoseconds. A length has 64-bit seconds; a
clock reading has signed 64-bit seconds, so moving one by a length can leave the range.
-/

namespace AdmissionGuard

def nanosPerSecond : Nat := 1000000000

def spanLimit : Nat := 0x10000000000000000 * nanosPerSecond

def clockLimit : Nat := 0x8000000000000000 * nanosPerSecond

@[ext] structure Span where
  nanos : Nat
  nanos_lt : nanos < spanLimit
deriving DecidableEq

namespace Span

def longest : Span := ⟨spanLimit - 1, by decide⟩

def ofNanos (n : Nat) : Span where
  nanos := min n longest.nanos
  nanos_lt := Nat.lt_of_le_of_lt (Nat.min_le_right ..) longest.nanos_lt

def ofSeconds (s : UInt64) : Span where
  nanos := s.toNat * nanosPerSecond
  nanos_lt := Nat.mul_lt_mul_of_pos_right s.toNat_lt (by decide)

def seconds (d : Span) : Nat := d.nanos / nanosPerSecond

def subsecNanos (d : Span) : Nat := d.nanos % nanosPerSecond

def half (d : Span) : Span where
  nanos := d.nanos / 2
  nanos_lt := Nat.lt_of_le_of_lt (Nat.div_le_self ..) d.nanos_lt

def saturatingMul (d : Span) (k : Nat) : Span := ofNanos (d.nanos * k)

end Span

/-- A reading of the clock: nanoseconds from a fixed origin, earlier ones negative. -/
@[ext] structure Instant where
  nanos : Int
  le_nanos : -(clockLimit : Int) ≤ nanos
  nanos_lt : nanos < clockLimit
deriving DecidableEq

namespace Instant

def ofNanos? (n : Int) : Option Instant :=
  if h : -(clockLimit : Int) ≤ n ∧ n < clockLimit then
    some ⟨n, h.1, h.2⟩
  else none

def origin : Instant := ⟨0, by decide, by decide⟩

instance : LT Instant := ⟨fun s t => s.nanos < t.nanos⟩
instance : LE Instant := ⟨fun s t => s.nanos ≤ t.nanos⟩
instance (s t : Instant) : Decidable (s < t) := inferInstanceAs (Decidable (s.nanos < t.nanos))
instance (s t : Instant) : Decidable (s ≤ t) := inferInstanceAs (Decidable (s.nanos ≤ t.nanos))

def later? (t : Instant) (d : Span) : Option Instant := ofNanos? (t.nanos + d.nanos)

def earlier? (t : Instant) (d : Span) : Option Instant := ofNanos? (t.nanos - d.nanos)

def since (t s : Instant) : Span where
  nanos := (t.nanos - s.nanos).toNat
  nanos_lt := by
    have := t.nanos_lt
    have := s.le_nanos
    simp only [spanLimit, clockLimit, nanosPerSecond] at *
    omega

def latest (s t : Instant) : Instant := if s < t then t else s

theorem later?_eq_none_iff {t : Instant} {d : Span} :
    t.later? d = none ↔ clockLimit ≤ t.nanos + d.nanos := by
  have := t.le_nanos
  have : 0 ≤ (d.nanos : Int) := Int.natCast_nonneg _
  rw [later?, ofNanos?]
  split <;> simp <;> omega

/-- The end of a block of length `block` from `now` on: the block is halved until its end is an
instant that the clock can show. -/
def blockEnd (now : Instant) (block : Span) : Instant :=
  match _h : now.later? block with
  | some t => t
  | none => blockEnd now block.half
termination_by block.nanos
decreasing_by
  have h := later?_eq_none_iff.1 _h
  have := now.nanos_lt
  simp only [Span.half]
  omega

end Instant

end AdmissionGuard

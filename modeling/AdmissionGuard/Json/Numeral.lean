import AdmissionGuard.Binary64
import AdmissionGuard.Json.Reader
import AdmissionGuard.Text.Numeral
/-!
JSON numbers. One with a fraction or an exponent is no integer, nor is `-0` or one beyond 64 bits. Its
value is then a binary64 number: the leading digits that fit in 64 bits, times a power of ten, each of
them rounded. It must not exceed the range of these numbers.
-/

namespace AdmissionGuard.Json

structure Numeral where
  whole : List Char
  fraction : List Char := []
  /-- The exponent's digits, and whether it is negative. -/
  exponent : Option (Bool × List Char) := none
deriving DecidableEq

def scanExponent (atEnd : Cause) (cs : List Char) : Except Fault ((Bool × List Char) × List Char) :=
  let (negative, cs) :=
    match cs with
    | '+' :: r => (false, r)
    | '-' :: r => (true, r)
    | r => (false, r)
  match cs with
  | [] => fail atEnd []
  | c :: r =>
    if c.isDigit then .ok ((negative, c :: r.takeWhile Char.isDigit), r.dropWhile Char.isDigit)
    else failAt .badNumber (c :: r)

def scanScale (atEnd : Cause) (n : Numeral) : List Char → Except Fault (Numeral × List Char)
  | 'e' :: r | 'E' :: r =>
    match scanExponent atEnd r with
    | .error f => .error f
    | .ok (e, r) => .ok ({ n with exponent := some e }, r)
  | r => .ok (n, r)

def scanFraction (atEnd : Cause) (n : Numeral) : List Char → Except Fault (Numeral × List Char)
  | '.' :: r =>
    match r with
    | [] => fail atEnd []
    | c :: r =>
      if c.isDigit then
        scanScale atEnd { n with fraction := c :: r.takeWhile Char.isDigit }
          (r.dropWhile Char.isDigit)
      else failAt .badNumber (c :: r)
  | r => scanScale atEnd n r

def scanNumeral (atEnd : Cause) : List Char → Except Fault (Numeral × List Char)
  | [] => fail atEnd []
  | '0' :: r =>
    if (r.head?.map Char.isDigit).getD false then failAt .badNumber r
    else scanFraction atEnd { whole := ['0'] } r
  | c :: r =>
    if c.isDigit then
      scanFraction atEnd { whole := c :: r.takeWhile Char.isDigit } (r.dropWhile Char.isDigit)
    else failAt .badNumber (c :: r)

theorem length_le_of_scanScale {atEnd : Cause} {n m : Numeral} {cs rest : List Char}
    (h : scanScale atEnd n cs = .ok (m, rest)) : rest.length ≤ cs.length := by
  have exponent {r : List Char} {e} (h : scanExponent atEnd r = .ok (e, rest)) :
      rest.length ≤ r.length := by
    unfold scanExponent fail failAt at h
    split at h
    all_goals
      rename_i hr
      split at hr <;> simp only [Prod.mk.injEq] at hr <;> obtain ⟨-, rfl⟩ := hr <;>
        grind [length_dropWhile_le]
  unfold scanScale at h
  grind

theorem length_le_of_scanFraction {atEnd : Cause} {n m : Numeral} {cs rest : List Char}
    (h : scanFraction atEnd n cs = .ok (m, rest)) : rest.length ≤ cs.length := by
  unfold scanFraction fail failAt at h
  grind [length_dropWhile_le, → length_le_of_scanScale]

theorem length_lt_of_scanNumeral {atEnd : Cause} {n : Numeral} {cs rest : List Char}
    (h : scanNumeral atEnd cs = .ok (n, rest)) : rest.length < cs.length := by
  unfold scanNumeral fail failAt at h
  grind [length_dropWhile_le, → length_le_of_scanFraction]

def digitValue (c : Char) : Nat := c.toNat - '0'.toNat

def significandLimit : Nat := 0x10000000000000000

/-- Appends digits to a significand as long as it fits in 64 bits; the others are counted. -/
def appendWhole : Nat × Int → List Char → Nat × Int
  | sig, [] => sig
  | (n, dropped), c :: cs =>
    let next := n * 10 + digitValue c
    if dropped = 0 ∧ next < significandLimit then appendWhole (next, 0) cs
    else appendWhole (n, dropped + 1) cs

/-- Appends digits of the fraction as long as the significand fits in 64 bits; each that does lowers
the power of ten. -/
def appendFraction : Nat × Int → List Char → Nat × Int
  | sig, [] => sig
  | (n, scale), c :: cs =>
    let next := n * 10 + digitValue c
    if next < significandLimit then appendFraction (next, scale - 1) cs else (n, scale)

namespace Numeral

def value (n : Numeral) : Nat × Int :=
  let (sig, scale) := appendFraction (appendWhole (0, 0) n.whole) n.fraction
  let e : Int :=
    match n.exponent with
    | none => 0
    | some (negative, ds) =>
      let e : Int := (ds.foldl (fun e c => e * 10 + digitValue c) 0 : Nat)
      if negative then -e else e
  (sig, scale + e)

/-- The digits of a number divided by a power of ten that is no number of the format itself, by way
of one that is. -/
def scaleDown (f : Rat) (power : Nat) : Rat :=
  if f = 0 then 0
  else if power ≤ 308 then Binary64.roundGradual (f / Binary64.round ((10 : Rat) ^ (power : Int)))
  else
    scaleDown (Binary64.roundGradual (f / Binary64.round ((10 : Rat) ^ (308 : Int)))) (power - 308)
termination_by power

def magnitude? (n : Numeral) : Option Rat :=
  let (sig, scale) := n.value
  if sig = 0 then some 0
  else if scale < 0 then some (scaleDown (Binary64.round sig) scale.natAbs)
  else if 308 < scale then none
  else
    some (Binary64.mul (Binary64.round sig) (Binary64.round ((10 : Rat) ^ scale))) |>.filter
      (· < (2 : Rat) ^ (1024 : Int))

def natural? (n : Numeral) : Option Nat :=
  if n.fraction.isEmpty ∧ n.exponent.isNone then Text.readBelow? significandLimit n.whole else none

def number? (negative : Bool) (n : Numeral) : Option Number :=
  match n.natural? with
  | none => n.magnitude?.map (.real negative)
  | some k =>
    if !negative then some (.whole k)
    else if k = 0 ∨ 0x8000000000000000 < k then some (.real true (Binary64.round k))
    else some (.whole (-k))

/-- The number of digits behind the one that takes an exponent beyond 32 bits. -/
def digitsBehind : Nat → List Char → Nat
  | _, [] => 0
  | e, c :: cs =>
    let next := e * 10 + digitValue c
    if next < 0x80000000 then digitsBehind next cs else cs.length

end Numeral

def readNumber (negative : Bool) (cs : List Char) : Except Fault (Number × List Char) :=
  match scanNumeral .endInValue cs with
  | .error f => .error f
  | .ok (n, rest) =>
    match n.number? negative with
    | some a => .ok (a, rest)
    | none =>
      let behind := (n.exponent.map fun e => Numeral.digitsBehind 0 e.2).getD 0
      .error ⟨.numberTooLarge, byteCount rest + behind⟩

theorem length_lt_of_readNumber {negative : Bool} {cs rest : List Char} {n : Number}
    (h : readNumber negative cs = .ok (n, rest)) : rest.length < cs.length := by
  unfold readNumber at h
  grind [→ length_lt_of_scanNumeral]

end AdmissionGuard.Json

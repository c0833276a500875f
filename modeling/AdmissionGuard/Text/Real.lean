import AdmissionGuard.Binary64
import AdmissionGuard.Text.Numeral
/-!
Decimal texts of binary64 numbers: as few digits as read back as the number, and the nearest to it of
those.
-/

namespace AdmissionGuard.Text

structure Decimal where
  digits : Nat
  scale : Int
deriving DecidableEq

def Decimal.value (d : Decimal) : Rat := d.digits * (10 : Rat) ^ d.scale

/-- The `k` with `10 ^ k ≤ q < 10 ^ (k + 1)`, for positive `q`. -/
def decimalExponent (q : Rat) : Int :=
  let k : Int := (write 10 q.num.natAbs).length - (write 10 q.den).length
  if (10 : Rat) ^ k ≤ q then k else k - 1

def decimalsAt (q : Rat) (scale : Int) : List Decimal :=
  let units := q / (10 : Rat) ^ scale
  let near := Binary64.nearest units
  let far := if near = units.floor then near + 1 else near - 1
  [⟨near.toNat, scale⟩, ⟨far.toNat, scale⟩]

def shortestFrom (q : Rat) (scale : Int) : Nat → Option Decimal
  | 0 => none
  | more + 1 =>
    ((decimalsAt q scale).find? fun d => Binary64.roundGradual d.value = q).or
      (shortestFrom q (scale - 1) more)

/-- The shortest decimal that reads back as `q`, of seventeen digits at most. -/
def shortest (q : Rat) : Decimal := (shortestFrom q (decimalExponent q) 17).getD ⟨0, 0⟩

def writeDecimal (d : Decimal) : List Char :=
  let all := write 10 d.digits
  let digits := (all.reverse.dropWhile (· = '0')).reverse
  let exponent : Int := all.length - 1 + d.scale
  let sign := if exponent < 0 then '-' else '+'
  if exponent < -5 ∨ 15 < exponent then
    digits.take 1 ++ (if 1 < digits.length then ['.'] else []) ++ digits.drop 1 ++ ['e', sign] ++
      write 10 exponent.natAbs
  else if exponent < 0 then
    ['0', '.'] ++ List.replicate (exponent.natAbs - 1) '0' ++ digits
  else
    let whole := exponent.toNat + 1
    digits.take whole ++ List.replicate (whole - digits.length) '0' ++ ['.'] ++
      (if whole < digits.length then digits.drop whole else ['0'])

def real (negative : Bool) (magnitude : Rat) : String :=
  let text := if magnitude = 0 then ['0', '.', '0'] else writeDecimal (shortest magnitude)
  String.ofList (if negative then '-' :: text else text)

end AdmissionGuard.Text

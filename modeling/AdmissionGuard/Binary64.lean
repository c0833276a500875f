/-!
Binary64 arithmetic on exact rationals. Each operation is the exact one followed by `round`, the
nearest number of 53 significant bits, ties to the even neighbour. The exponent is left unbounded:
token levels, rates and waiting times are zero or lie between `2 ^ -60` and `2 ^ 96`, far inside the
range of the format, so neither its overflow nor its subnormal numbers can arise. Numbers that are read
from a text may be smaller; `roundGradual` is for them.
-/

namespace AdmissionGuard.Binary64

/-- The `k` with `2 ^ k ≤ q < 2 ^ (k + 1)`, for positive `q`. -/
def exponent (q : Rat) : Int :=
  let k : Int := Nat.log2 q.num.natAbs - Nat.log2 q.den
  if (2 : Rat) ^ k ≤ q then k else k - 1

def nearest (q : Rat) : Int :=
  let n := q.floor
  let rest := q - n
  if rest < 1 / 2 then n
  else if 1 / 2 < rest then n + 1
  else if n % 2 = 0 then n else n + 1

def ulp (q : Rat) : Rat := (2 : Rat) ^ (exponent q - 52)

/-- The binary64 number nearest to `q`, for `q` not negative. -/
def round (q : Rat) : Rat :=
  if q = 0 then 0 else nearest (q / ulp q) * ulp q

def add (a b : Rat) : Rat := round (a + b)
def sub (a b : Rat) : Rat := round (a - b)
def mul (a b : Rat) : Rat := round (a * b)
def div (a b : Rat) : Rat := round (a / b)

/-- As `round`, but below `2 ^ -1022` the numbers of the format lie `2 ^ -1074` apart. -/
def roundGradual (q : Rat) : Rat :=
  if q < (2 : Rat) ^ (-1022 : Int) then
    nearest (q / (2 : Rat) ^ (-1074 : Int)) * (2 : Rat) ^ (-1074 : Int)
  else round q

def bits (q : Rat) : Nat :=
  if q = 0 then 0
  else (exponent q + 1022).toNat <<< 52 + (q / ulp q).floor.toNat

end AdmissionGuard.Binary64

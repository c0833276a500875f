/-!
Numerals. Digits are ASCII and, for bases above ten, of either case; written digits are lower case.
-/

namespace AdmissionGuard.Text

def digit? (base : Nat) (c : Char) : Option Nat :=
  let d :=
    if '0' ≤ c ∧ c ≤ '9' then c.toNat - '0'.toNat
    else if 'a' ≤ c ∧ c ≤ 'f' then c.toNat - 'a'.toNat + 10
    else if 'A' ≤ c ∧ c ≤ 'F' then c.toNat - 'A'.toNat + 10
    else base
  if d < base then some d else none

def readOn? (base n : Nat) : List Char → Option Nat
  | [] => some n
  | c :: cs => (digit? base c).bind fun d => readOn? base (n * base + d) cs

def read? (base : Nat) (cs : List Char) : Option Nat :=
  if cs.isEmpty then none else readOn? base 0 cs

def write (base n : Nat) : List Char := Nat.toDigits base n

def writePadded (base width n : Nat) : List Char :=
  let ds := write base n
  List.replicate (width - ds.length) '0' ++ ds

def decimal (n : Nat) : String := String.ofList (write 10 n)

def inInt64 (n : Int) : Bool := -0x8000000000000000 ≤ n && n < 0x8000000000000000

def readInt? (cs : List Char) : Option Int :=
  let magnitude? :=
    match cs with
    | '-' :: ds => (read? 10 ds).map fun n => -(n : Int)
    | '+' :: ds => (read? 10 ds).map Int.ofNat
    | ds => (read? 10 ds).map Int.ofNat
  magnitude?.filter inInt64

def readBelow? (limit : Nat) (cs : List Char) : Option Nat :=
  (read? 10 cs).filter (· < limit)

end AdmissionGuard.Text

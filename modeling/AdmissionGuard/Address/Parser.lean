import AdmissionGuard.Address.Basic
import AdmissionGuard.Text.Numeral
import AdmissionGuard.Text.Split
/-!
Reading addresses. Two readings differ in details: a plain address has octets without leading zeros,
and its gap `::` stands for at least one group; inside a range an octet may have leading zeros, and
the gap may stand for no group. `Strictness` holds what differs.
-/

namespace AdmissionGuard

structure Strictness where
  leadingZeros : Bool
  leastGap : Nat

def Strictness.plain : Strictness := ⟨false, 1⟩

def Strictness.ranged : Strictness := ⟨true, 0⟩

namespace Address

def octet? (strict : Strictness) (cs : List Char) : Option UInt8 :=
  if 3 < cs.length ∨ (strict.leadingZeros = false ∧ 1 < cs.length ∧ cs.head? = some '0') then none
  else (Text.readBelow? 256 cs).map Nat.toUInt8

def quad? (strict : Strictness) (cs : List Char) : Option IPv4 :=
  ((Text.split '.' cs).mapM (octet? strict)).bind fun os =>
    if h : os.length = 4 then some ⟨os, h⟩ else none

def group? (cs : List Char) : Option UInt16 :=
  if 4 < cs.length then none else (Text.read? 16 cs).map Nat.toUInt16

def groups? (strict : Strictness) (quads : Bool) : List (List Char) → Option (List UInt16)
  | [] => some []
  | [p] =>
    if quads ∧ '.' ∈ p then (quad? strict p).map IPv4.toGroups
    else (group? p).map fun g => [g]
  | p :: ps => (group? p).bind fun g => (groups? strict quads ps).map (g :: ·)

def side? (strict : Strictness) (quads : Bool) (cs : List Char) : Option (List UInt16) :=
  if cs.isEmpty then some [] else groups? strict quads (Text.split ':' cs)

def cutGap? : List Char → Option (List Char × List Char)
  | [] => none
  | ':' :: ':' :: cs => some ([], cs)
  | c :: cs => (cutGap? cs).map fun (front, back) => (c :: front, back)

def fillGap? (leastGap : Nat) (front back : List UInt16) : Option (List UInt16) :=
  if front.length < 8 ∧ front.length + leastGap + back.length ≤ 8 then
    some (front ++ List.replicate (8 - front.length - back.length) 0 ++ back)
  else none

/-- An IPv6 address. A dotted quad may only end it, so none stands before a gap. -/
def ipv6? (strict : Strictness) (cs : List Char) : Option IPv6 :=
  let gs? :=
    match cutGap? cs with
    | none => groups? strict true (Text.split ':' cs)
    | some (front, back) =>
      (side? strict false front).bind fun f =>
        (side? strict true back).bind fun b => fillGap? strict.leastGap f b
  gs?.bind fun gs => if h : gs.length = 8 then some ⟨gs, h⟩ else none

def ofText? (cs : List Char) : Option Address :=
  match quad? .plain cs with
  | some a => some (v4 a)
  | none => (ipv6? .plain cs).map v6

def ofString? (s : String) : Option Address := ofText? s.toList

end Address

end AdmissionGuard

import AdmissionGuard.Address.Parser
/-!
Address ranges: all addresses of one family that agree with a given one on a number of leading bits.
-/

namespace AdmissionGuard

structure AddressRange where
  base : Address
  length : Nat
  length_le : length ≤ base.width
deriving DecidableEq

namespace AddressRange

def Contains (r : AddressRange) (a : Address) : Prop :=
  r.base.SameFamily a ∧
    r.base.toNat >>> (r.base.width - r.length) = a.toNat >>> (a.width - r.length)

instance (r : AddressRange) (a : Address) : Decidable (r.Contains a) :=
  inferInstanceAs (Decidable (_ ∧ _))

def single (a : Address) : AddressRange := ⟨a, a.width, Nat.le_refl _⟩

def ofPrefix? (a : Address) (digits : Nat) (cs : List Char) : Option AddressRange :=
  if digits < cs.length then none
  else
    (Text.read? 10 cs).bind fun n => if h : n ≤ a.width then some ⟨a, n, h⟩ else none

def cidr? (cs : List Char) : Option AddressRange :=
  (Text.cut? '/' cs).bind fun (a, n) =>
    match Address.quad? .ranged a with
    | some a => ofPrefix? (.v4 a) 2 n
    | none => (Address.ipv6? .ranged a).bind fun a => ofPrefix? (.v6 a) 3 n

def ofText? (cs : List Char) : Option AddressRange :=
  match Address.ofText? cs with
  | some a => some (single a)
  | none => cidr? cs

end AddressRange

end AdmissionGuard

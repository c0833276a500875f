/-!
Internet addresses of both families. An IPv4 address may be carried by an IPv6 one, in the block
`::ffff:0:0/96`; its canonical form is then the IPv4 address.
-/

namespace AdmissionGuard

@[ext] structure IPv4 where
  octets : List UInt8
  length_octets : octets.length = 4
deriving DecidableEq

@[ext] structure IPv6 where
  groups : List UInt16
  length_groups : groups.length = 8
deriving DecidableEq

inductive Address where
  | v4 (a : IPv4)
  | v6 (a : IPv6)
deriving DecidableEq

def IPv4.toNat (a : IPv4) : Nat := a.octets.foldl (fun n o => n * 0x100 + o.toNat) 0

def IPv6.toNat (a : IPv6) : Nat := a.groups.foldl (fun n g => n * 0x10000 + g.toNat) 0

def octetsOfGroup (g : UInt16) : List UInt8 := [(g >>> 8).toUInt8, g.toUInt8]

def IPv4.toGroups (a : IPv4) : List UInt16 :=
  match a.octets with
  | [o₁, o₂, o₃, o₄] =>
    [o₁.toUInt16 * 256 + o₂.toUInt16, o₃.toUInt16 * 256 + o₄.toUInt16]
  | _ => []

namespace Address

def canonical : Address → Address
  | v4 a => v4 a
  | v6 a =>
    match a.groups with
    | [0, 0, 0, 0, 0, 0xffff, g, h] => v4 ⟨octetsOfGroup g ++ octetsOfGroup h, rfl⟩
    | _ => v6 a

def width : Address → Nat
  | v4 _ => 32
  | v6 _ => 128

def toNat : Address → Nat
  | v4 a => a.toNat
  | v6 a => a.toNat

def SameFamily : Address → Address → Prop
  | v4 _, v4 _ => True
  | v6 _, v6 _ => True
  | _, _ => False

instance : ∀ a b : Address, Decidable (SameFamily a b)
  | v4 _, v4 _ => isTrue trivial
  | v6 _, v6 _ => isTrue trivial
  | v4 _, v6 _ => isFalse id
  | v6 _, v4 _ => isFalse id

end Address

end AdmissionGuard

import AdmissionGuard.Address.Parser
import AdmissionGuard.Address.Printer
/-!
Socket addresses: an address and a port. An IPv6 address stands in brackets and may name a scope.
-/

namespace AdmissionGuard

structure SocketAddress where
  address : Address
  port : UInt16
deriving DecidableEq

namespace SocketAddress

def port? (cs : List Char) : Option UInt16 := (Text.readBelow? 0x10000 cs).map Nat.toUInt16

def scoped? (cs : List Char) : Option IPv6 :=
  match Text.cut? '%' cs with
  | none => Address.ipv6? .plain cs
  | some (a, scope) => (Text.readBelow? 0x100000000 scope).bind fun _ => Address.ipv6? .plain a

def ofText? (cs : List Char) : Option SocketAddress :=
  match cs with
  | '[' :: rest =>
    match Text.cut? ']' rest with
    | some (a, ':' :: p) => (scoped? a).bind fun a => (port? p).map fun p => ⟨.v6 a, p⟩
    | _ => none
  | _ =>
    (Text.cut? ':' cs).bind fun (a, p) =>
      (Address.quad? .plain a).bind fun a => (port? p).map fun p => ⟨.v4 a, p⟩

def ofString? (s : String) : Option SocketAddress := ofText? s.toList

def toString (s : SocketAddress) : String :=
  let host :=
    match s.address with
    | .v4 _ => s.address.toString
    | .v6 _ => "[" ++ s.address.toString ++ "]"
  host ++ ":" ++ Text.decimal s.port.toNat

end SocketAddress

end AdmissionGuard

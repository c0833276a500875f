import AdmissionGuard.Address.Basic
import AdmissionGuard.Text.Numeral
/-!
Writing addresses. IPv6 groups are written in lower case without leading zeros, and the first of the
longest runs of two or more zero groups as a gap `::`. An address in the block of carried IPv4
addresses is written with a dotted quad.
-/

namespace AdmissionGuard.Address

def leadingZeros (gs : List UInt16) : Nat := (gs.takeWhile (· = 0)).length

def longestRun : List UInt16 → Nat × Nat
  | [] => (0, 0)
  | g :: gs =>
    let here := leadingZeros (g :: gs)
    let (start, length) := longestRun gs
    if length ≤ here then (0, here) else (start + 1, length)

def joinWith (sep : Char) : List (List Char) → List Char
  | [] => []
  | [t] => t
  | t :: ts => t ++ sep :: joinWith sep ts

def printGroups (gs : List UInt16) : List Char :=
  joinWith ':' (gs.map fun g => Text.write 16 g.toNat)

def printIPv4 (a : IPv4) : List Char := joinWith '.' (a.octets.map fun o => Text.write 10 o.toNat)

def printGapped (gs : List UInt16) : List Char :=
  let (start, length) := longestRun gs
  if length < 2 then printGroups gs
  else printGroups (gs.take start) ++ ':' :: ':' :: printGroups (gs.drop (start + length))

def printIPv6 (a : IPv6) : List Char :=
  match canonical (v6 a) with
  | v4 b => "::ffff:".toList ++ printIPv4 b
  | v6 _ => printGapped a.groups

def print : Address → List Char
  | v4 a => printIPv4 a
  | v6 a => printIPv6 a

def toString (a : Address) : String := String.ofList (print a)

end AdmissionGuard.Address

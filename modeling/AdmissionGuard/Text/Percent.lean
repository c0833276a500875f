import AdmissionGuard.Text.Numeral
/-!
Percent encoding: a percent sign and two hexadecimal digits stand for a byte. Any other percent sign
stands for itself.
-/

namespace AdmissionGuard.Text

def hexByte? (a b : UInt8) : Option UInt8 :=
  (read? 16 [Char.ofNat a.toNat, Char.ofNat b.toNat]).map Nat.toUInt8

def percentDecode : List UInt8 → List UInt8
  | 0x25 :: a :: b :: rest =>
    match hexByte? a b with
    | some byte => byte :: percentDecode rest
    | none => 0x25 :: percentDecode (a :: b :: rest)
  | byte :: rest => byte :: percentDecode rest
  | [] => []

def percentDecoded? (s : String) : Option String :=
  String.fromUTF8? ⟨(percentDecode s.toUTF8.toList).toArray⟩

end AdmissionGuard.Text

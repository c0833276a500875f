import AdmissionGuard.Text.Numeral
/-!
Identifiers made of sixteen random bytes, written as hexadecimal digits in five groups.
-/

namespace AdmissionGuard.Text

def markVersion (bytes : List UInt8) : List UInt8 :=
  bytes.mapIdx fun i b =>
    if i = 6 then (b &&& 0x0f) ||| 0x40
    else if i = 8 then (b &&& 0x3f) ||| 0x80
    else b

def uuid (bytes : List UInt8) : String :=
  String.ofList <| (markVersion bytes).zipIdx.flatMap fun (b, i) =>
    (if i ∈ [4, 6, 8, 10] then ['-'] else []) ++ writePadded 16 2 b.toNat

end AdmissionGuard.Text

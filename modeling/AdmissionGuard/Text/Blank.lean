/-!
Blank characters, those with the Unicode property White_Space, and trimming.
-/

namespace AdmissionGuard.Text

/-- Has the property White_Space. -/
def isBlank (c : Char) : Bool :=
  let n := c.toNat
  (0x9 ≤ n && n ≤ 0xd) || n == 0x20 || n == 0x85 || n == 0xa0 || n == 0x1680 ||
    (0x2000 ≤ n && n ≤ 0x200a) || n == 0x2028 || n == 0x2029 || n == 0x202f || n == 0x205f ||
    n == 0x3000

def trim (cs : List Char) : List Char :=
  ((cs.dropWhile isBlank).reverse.dropWhile isBlank).reverse

def trimmed (s : String) : String := String.ofList (trim s.toList)

def trimmed? (s : String) : Option String :=
  let t := trimmed s
  if t.isEmpty then none else some t

end AdmissionGuard.Text

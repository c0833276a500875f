import AdmissionGuard.Text.Numeral
/-!
Writing JSON without spaces. Only quotes, backslashes and control characters are escaped.
-/

namespace AdmissionGuard.Json

def escape (c : Char) : List Char :=
  match c with
  | '"' => ['\\', '"']
  | '\\' => ['\\', '\\']
  | '\x08' => ['\\', 'b']
  | '\x0c' => ['\\', 'f']
  | '\n' => ['\\', 'n']
  | '\r' => ['\\', 'r']
  | '\t' => ['\\', 't']
  | c => if c.toNat < 0x20 then ['\\', 'u'] ++ Text.writePadded 16 4 c.toNat else [c]

def writeString (s : String) : String :=
  String.ofList ('"' :: s.toList.flatMap escape ++ ['"'])

def writeBool (b : Bool) : String := if b then "true" else "false"

def writeNat (n : Nat) : String := Text.decimal n

def writeObject (members : List (String × String)) : String :=
  "\x7b" ++ ",".intercalate (members.map fun (name, value) => writeString name ++ ":" ++ value) ++
    "\x7d"

end AdmissionGuard.Json

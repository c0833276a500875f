import AdmissionGuard.Text.Numeral
import AdmissionGuard.Text.Unprintable
/-!
Texts in double quotes, with a backslash before what would not be read as it stands.
-/

namespace AdmissionGuard.Text

def quoteChar (c : Char) : List Char :=
  match c with
  | '\x00' => ['\\', '0']
  | '\t' => ['\\', 't']
  | '\n' => ['\\', 'n']
  | '\r' => ['\\', 'r']
  | '"' => ['\\', '"']
  | '\\' => ['\\', '\\']
  | c =>
    if isUnprintable c then ['\\', 'u', '\x7b'] ++ write 16 c.toNat ++ ['\x7d'] else [c]

def quote (cs : List Char) : List Char := '"' :: cs.flatMap quoteChar ++ ['"']

def quoted (s : String) : String := String.ofList (quote s.toList)

end AdmissionGuard.Text

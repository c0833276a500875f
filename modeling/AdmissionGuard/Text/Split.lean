/-!
Cutting a text at a separator.
-/

namespace AdmissionGuard.Text

def split (sep : Char) : List Char → List (List Char)
  | [] => [[]]
  | c :: cs =>
    if c = sep then [] :: split sep cs
    else
      match split sep cs with
      | piece :: pieces => (c :: piece) :: pieces
      | [] => [[c]]

def cut? (sep : Char) : List Char → Option (List Char × List Char)
  | [] => none
  | c :: cs =>
    if c = sep then some ([], cs)
    else (cut? sep cs).map fun (front, back) => (c :: front, back)

def cutLast? (sep : Char) (cs : List Char) : Option (List Char × List Char) :=
  (cut? sep cs.reverse).map fun (back, front) => (front.reverse, back.reverse)

end AdmissionGuard.Text

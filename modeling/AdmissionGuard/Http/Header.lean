/-!
Header fields of a request. Names are compared without regard to case; values are bytes.
-/

namespace AdmissionGuard.Http

structure Header where
  name : String
  value : List UInt8
deriving DecidableEq

def lowerCase (s : String) : String := s.map Char.toLower

def firstValue? (headers : List Header) (name : String) : Option (List UInt8) :=
  (headers.find? fun h => lowerCase h.name = lowerCase name).map Header.value

/-- Sets a field: the first of that name gets the value and the others go. A field that is not there
yet goes to the end. -/
def setField (name : String) (value : List UInt8) : List Header → List Header
  | [] => [⟨name, value⟩]
  | h :: rest =>
    if lowerCase h.name = lowerCase name then
      ⟨h.name, value⟩ :: rest.filter fun g => lowerCase g.name ≠ lowerCase name
    else h :: setField name value rest

def fieldValue? (s : String) : Option (List UInt8) :=
  let bytes := s.toList.flatMap String.utf8EncodeChar
  if bytes.all fun b => b == 9 || (32 ≤ b && b != 127) then some bytes else none

def isTextByte (b : UInt8) : Bool := b == 9 || (32 ≤ b && b ≤ 126)

def textValue? (value : List UInt8) : Option String :=
  if value.all isTextByte then some (String.ofList (value.map fun b => Char.ofNat b.toNat))
  else none

/-- The text of the first field of that name. A value that is not text counts as absent, and no
later field takes its place. -/
def firstText? (headers : List Header) (name : String) : Option String :=
  (firstValue? headers name).bind textValue?

end AdmissionGuard.Http

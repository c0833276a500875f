import AdmissionGuard.Http.Server
/-!
Requests and responses as bytes. The head of a message ends with an empty line; lines end with a line
feed, and a carriage return before it does not count. A body of a request is not read.
-/

namespace AdmissionGuard.Http.Wire

def charsOfBytes (bytes : List UInt8) : List Char := bytes.map fun b => Char.ofNat b.toNat

def bytesOfChars (cs : List Char) : List UInt8 := cs.map fun c => c.toNat.toUInt8

def chomp (line : List Char) : List Char :=
  if line.getLast? = some '\x0d' then line.dropLast else line

/-- The lines of the head, if the empty line after it has come. Empty lines in front do not count. -/
def headLines? (bytes : List UInt8) : Option (List (List Char)) :=
  let lines := ((Text.split '\n' (charsOfBytes bytes)).dropLast.map chomp).dropWhile List.isEmpty
  let head := lines.takeWhile fun l => !l.isEmpty
  if head.length < lines.length then some head else none

def isTokenChar (c : Char) : Bool := c.isAlphanum || c ∈ "!#$%&'*+-.^_|~\x60".toList

def isToken (cs : List Char) : Bool := !cs.isEmpty && cs.all isTokenChar

def versions : List String := ["HTTP/1.0", "HTTP/1.1"]

def requestLine? (line : List Char) : Option (String × Target) :=
  match Text.split ' ' line with
  | [method, target, version] =>
    if isToken method && String.ofList version ∈ versions then
      ((String.fromUTF8? ⟨(bytesOfChars target).toArray⟩).bind Target.ofString?).map fun t =>
        (String.ofList method, t)
    else none
  | _ => none

def header? (line : List Char) : Option Header :=
  (Text.cut? ':' line).bind fun (name, value) =>
    if isToken name then some { name := String.ofList name, value := bytesOfChars value } else none

def request? (peer : Option Address) (lines : List (List Char)) : Option Request :=
  match lines with
  | [] => none
  | first :: rest =>
    (requestLine? first).bind fun (method, target) =>
      (rest.mapM header?).map fun headers =>
        Request.received { method, target, headers, peer }

def malformed : Response := { status := .badRequest, headers := [("content-length", "0")], body := "" }

def responseBytes (r : Response) : ByteArray :=
  let field := fun h : String × String => h.1 ++ ": " ++ h.2 ++ "\r\n"
  ("HTTP/1.1 " ++ r.status.toString ++ "\r\n" ++ String.join (r.headers.map field) ++ "\r\n" ++
    r.body).toUTF8

end AdmissionGuard.Http.Wire

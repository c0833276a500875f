import AdmissionGuard.Settings.Environment
/-!
Files of variables: lines with a name, an equals sign and a value. What comes after a number sign is
a comment, and a value with blanks in it stands in quotes. Outside single quotes a dollar sign and a
name stand for the value of that variable. Reading stops at the first line that has another form.
-/

namespace AdmissionGuard.EnvFile

/-- Where in a value the reading is. Names are kept in reverse. -/
inductive Mode where
  | bare
  | singleQuotes
  | doubleQuotes
  | escaped (inQuotes : Bool)
  | reference (inQuotes : Bool) (name : List Char)
  | braced (inQuotes : Bool) (name : List Char)
  /-- After a blank: nothing but blanks and a comment may follow. -/
  | ended

def Mode.ofQuotes (inQuotes : Bool) : Mode := if inQuotes then doubleQuotes else bare

/-- Reads a value, given what has been read of it in reverse. `valueOf` tells what a name stands for.
The character that ends a name without braces belongs to the value, also a quote or a blank. -/
def value? (valueOf : List Char → List Char) :
    Mode → List Char → List Char → Option (List Char)
  | .bare, done, [] => some done.reverse
  | .ended, done, [] => some done.reverse
  | .escaped inQuotes, done, [] => if inQuotes then none else some done.reverse
  | .reference inQuotes name, done, [] =>
    if inQuotes then none else some (done.reverse ++ valueOf name.reverse)
  | .singleQuotes, _, [] => none
  | .doubleQuotes, _, [] => none
  | .braced .., _, [] => none
  | .ended, done, c :: cs =>
    if c = ' ' ∨ c = '\t' then value? valueOf .ended done cs
    else if c = '#' then some done.reverse
    else none
  | .escaped inQuotes, done, c :: cs =>
    let mode := Mode.ofQuotes inQuotes
    if c ∈ ['\\', '\'', '"', '$', ' '] then value? valueOf mode (c :: done) cs
    else if c = 'n' then value? valueOf mode ('\n' :: done) cs
    else none
  | .reference inQuotes name, done, c :: cs =>
    if c.isAlphanum then value? valueOf (.reference inQuotes (c :: name)) done cs
    else if c = '\x7b' ∧ name = [] then value? valueOf (.braced inQuotes []) done cs
    else
      let done := (valueOf name.reverse).reverse ++ done
      if c = '$' then value? valueOf (.reference inQuotes []) done cs
      else value? valueOf (.ofQuotes inQuotes) (c :: done) cs
  | .braced inQuotes name, done, c :: cs =>
    if c = '\x7d' then
      value? valueOf (.ofQuotes inQuotes) ((valueOf name.reverse).reverse ++ done) cs
    else value? valueOf (.braced inQuotes (c :: name)) done cs
  | .singleQuotes, done, c :: cs =>
    if c = '\'' then value? valueOf .bare done cs else value? valueOf .singleQuotes (c :: done) cs
  | .doubleQuotes, done, c :: cs =>
    if c = '$' then value? valueOf (.reference true []) done cs
    else if c = '"' then value? valueOf .bare done cs
    else if c = '\\' then value? valueOf (.escaped true) done cs
    else value? valueOf .doubleQuotes (c :: done) cs
  | .bare, done, c :: cs =>
    if c = '$' then value? valueOf (.reference false []) done cs
    else if c = '\'' then value? valueOf .singleQuotes done cs
    else if c = '"' then value? valueOf .doubleQuotes done cs
    else if c = '\\' then value? valueOf (.escaped false) done cs
    else if c = ' ' ∨ c = '\t' then value? valueOf .ended done cs
    else value? valueOf .bare (c :: done) cs

def isNameStart (c : Char) : Bool := c.isAlpha || c = '_'

def isNameChar (c : Char) : Bool := c.isAlphanum || c = '_' || c = '.'

def name? (cs : List Char) : Option (List Char × List Char) :=
  if (cs.head?.map isNameStart).getD false then
    some (cs.takeWhile isNameChar, (cs.dropWhile isNameChar).dropWhile Text.isBlank)
  else none

inductive Line where
  | sets (name value : String)
  | nothing
  | malformed

def assignment (valueOf : List Char → List Char) (name cs : List Char) : Line :=
  match cs.dropWhile Text.isBlank with
  | [] | '#' :: _ => .sets (String.ofList name) ""
  | cs =>
    match value? valueOf .bare [] cs with
    | some v => .sets (String.ofList name) (String.ofList v)
    | none => .malformed

def line (valueOf : List Char → List Char) (cs : List Char) : Line :=
  match Text.trim cs with
  | [] | '#' :: _ => .nothing
  | cs =>
    match name? cs with
    | some (name, '=' :: rest) => assignment valueOf name rest
    | some (['e', 'x', 'p', 'o', 'r', 't'], rest) =>
      match name? rest with
      | some (name, '=' :: rest) => assignment valueOf name rest
      | _ => .malformed
    | _ => .malformed

def splitLines : List UInt8 → List (List UInt8)
  | [] => [[]]
  | b :: bs =>
    match splitLines bs with
    | l :: ls => if b = 0x0a then [] :: l :: ls else (b :: l) :: ls
    | [] => [[b]]

def lineText? (bytes : List UInt8) : Option (List Char) :=
  (String.fromUTF8? ⟨bytes.toArray⟩).map String.toList

def references : List Char → List String
  | [] => []
  | '$' :: '\x7b' :: cs => String.ofList (cs.takeWhile (· ≠ '\x7d')) :: references cs
  | '$' :: cs => String.ofList (cs.takeWhile Char.isAlphanum) :: references cs
  | _ :: cs => references cs

def fileReferences (bytes : ByteArray) : List String :=
  ((splitLines bytes.toList).filterMap lineText?).flatMap references

end AdmissionGuard.EnvFile

namespace AdmissionGuard.Environment

def setNew (env : Environment) (name value : String) : Environment := fun n =>
  if n = name ∧ (env.string? n).isNone then some value.toUTF8 else env n

def valueOf (env : Environment) (name : List Char) : List Char :=
  ((env.string? (String.ofList name)).getD "").toList

/-- The environment after some lines of a file, up to the first that is malformed or not text. Each
line sees the variables that those before it have set. -/
def loadLines (env : Environment) : List (List UInt8) → Environment
  | [] => env
  | bytes :: rest =>
    match EnvFile.lineText? bytes with
    | none => env
    | some cs =>
      match EnvFile.line env.valueOf cs with
      | .sets name value => (env.setNew name value).loadLines rest
      | .nothing => env.loadLines rest
      | .malformed => env

/-- The environment with the variables of a file. One that is set already keeps its value, and of
several of one name the first counts. -/
def load (env : Environment) (bytes : ByteArray) : Environment :=
  env.loadLines (EnvFile.splitLines bytes.toList)

end AdmissionGuard.Environment

import AdmissionGuard.Text.Quoted
import AdmissionGuard.Text.Real
/-!
What can be wrong with a JSON document, and where. Of several faults the first one in the text counts.
-/

namespace AdmissionGuard.Json

/-- A number that has been read: an integer of 64 bits, with a sign or without one, or a binary64
number. -/
inductive Number where
  | whole (n : Int)
  | real (negative : Bool) (magnitude : Rat)
deriving DecidableEq

inductive Found where
  | null
  | boolean (b : Bool)
  | number (n : Number)
  | string (s : String)
  | list
  | object
deriving DecidableEq

def Found.text : Found → String
  | null => "null"
  | boolean b => s!"boolean `{b}`"
  | number (.whole n) => s!"integer `{n}`"
  | number (.real negative magnitude) => s!"floating point `{Text.real negative magnitude}`"
  | string s => "string " ++ Text.quoted s
  | list => "sequence"
  | object => "map"

inductive Cause where
  | endInValue
  | endInList
  | endInObject
  | endInString
  | expectedColon
  | expectedListCommaOrEnd
  | expectedObjectCommaOrEnd
  | expectedValue
  | expectedWord
  | badEscape
  | badNumber
  | numberTooLarge
  | controlCharacter
  | keyNotString
  /-- Half of a surrogate pair, or its halves in the wrong order. -/
  | loneSurrogate
  | unpairedSurrogate
  | trailingComma
  | trailingCharacters
  | wrongType (found : Found) (expected : String)
  | outOfRange (n : Int)
  | duplicateField (name : String)
deriving DecidableEq

inductive Category where
  | malformed
  | unsuitable
  | unfinished
deriving DecidableEq

namespace Cause

def category : Cause → Category
  | endInValue | endInList | endInObject | endInString => .unfinished
  | wrongType .. | outOfRange _ | duplicateField _ => .unsuitable
  | _ => .malformed

def message : Cause → String
  | endInValue => "EOF while parsing a value"
  | endInList => "EOF while parsing a list"
  | endInObject => "EOF while parsing an object"
  | endInString => "EOF while parsing a string"
  | expectedColon => "expected `:`"
  | expectedListCommaOrEnd => "expected `,` or `]`"
  | expectedObjectCommaOrEnd => "expected `,` or `\x7d`"
  | expectedValue => "expected value"
  | expectedWord => "expected ident"
  | badEscape => "invalid escape"
  | badNumber => "invalid number"
  | numberTooLarge => "number out of range"
  | controlCharacter => "control character (\\u0000-\\u001F) found while parsing a string"
  | keyNotString => "key must be a string"
  | loneSurrogate => "lone leading surrogate in hex escape"
  | unpairedSurrogate => "unexpected end of hex escape"
  | trailingComma => "trailing comma"
  | trailingCharacters => "trailing characters"
  | wrongType found expected => s!"invalid type: {found.text}, expected {expected}"
  | outOfRange n => s!"invalid value: {(Found.number (.whole n)).text}, expected i64"
  | duplicateField name => s!"duplicate field `{name}`"

end Cause

/-- A fault, with the number of bytes that are left of the text behind it. -/
structure Fault where
  cause : Cause
  left : Nat
deriving DecidableEq

namespace Fault

def category (f : Fault) : Category := f.cause.category

def before (f : Fault) (text : List Char) : List UInt8 :=
  let bytes := text.flatMap String.utf8EncodeChar
  bytes.take (bytes.length - f.left)

def line (f : Fault) (text : List Char) : Nat := 1 + (f.before text).count 0x0a

def column (f : Fault) (text : List Char) : Nat :=
  ((f.before text).reverse.takeWhile (· ≠ 0x0a)).length

def message (f : Fault) (text : List Char) : String :=
  s!"{f.cause.message} at line {f.line text} column {f.column text}"

end Fault

end AdmissionGuard.Json

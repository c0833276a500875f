import AdmissionGuard.Text.Split
/-!
Arguments of the command line. A setting takes a value, in the same argument or in the next one, and
may come once; help and version are answered as soon as they are met. Where a setting waits for its
value, an argument that begins with a hyphen is not that value.
-/

namespace AdmissionGuard.Command

inductive Key where
  | config
  | bind
  | logLevel
deriving DecidableEq

def Key.display : Key → String
  | config => "--config <CONFIG>"
  | bind => "--bind <BIND>"
  | logLevel => "--log-level <LOG_LEVEL>"

structure Arguments where
  config : Option String := none
  bind : Option String := none
  logLevel : Option String := none
deriving DecidableEq

inductive Stop where
  | help
  | version
  | unexpected (argument : String)
  | unexpectedValue (value flag : String)
  | repeated (key : Key)
  | missingValue (key : Key)
deriving DecidableEq

namespace Arguments

def get? (a : Arguments) : Key → Option String
  | .config => a.config
  | .bind => a.bind
  | .logLevel => a.logLevel

def put (a : Arguments) (k : Key) (value : String) : Arguments :=
  match k with
  | .config => { a with config := some value }
  | .bind => { a with bind := some value }
  | .logLevel => { a with logLevel := some value }

def assign (a : Arguments) (k : Key) (value : String) : Except Stop Arguments :=
  if (a.get? k).isSome then .error (.repeated k)
  else if k = .config ∧ value.isEmpty then .error (.missingValue k)
  else .ok (a.put k value)

end Arguments

structure Progress where
  done : Arguments := {}
  last : Option (Key × Option String) := none

namespace Progress

def settle (p : Progress) : Except Stop Arguments :=
  match p.last with
  | none => .ok p.done
  | some (k, none) => .error (.missingValue k)
  | some (k, some value) => p.done.assign k value

end Progress

inductive Meaning where
  | setting (k : Key) (value : Option String)
  | stop (s : Stop)
  | separator
  | plain

def longMeaning (name : String) (value : Option String) : Meaning :=
  let flag := fun s =>
    match value with
    | none => Meaning.stop s
    | some v => .stop (.unexpectedValue v ("--" ++ name))
  match name with
  | "config" => .setting .config value
  | "bind" => .setting .bind value
  | "log-level" => .setting .logLevel value
  | "help" => flag .help
  | "version" => flag .version
  | _ => .stop (.unexpected ("--" ++ name))

def shortValue : List Char → Option String
  | [] => none
  | '=' :: cs => some (String.ofList cs)
  | cs => some (String.ofList cs)

def meaning (argument : String) : Meaning :=
  match argument.toList with
  | ['-', '-'] => .separator
  | '-' :: '-' :: cs =>
    match Text.cut? '=' cs with
    | some (name, value) => longMeaning (String.ofList name) (some (String.ofList value))
    | none => longMeaning (String.ofList cs) none
  | '-' :: 'c' :: cs => .setting .config (shortValue cs)
  | '-' :: 'b' :: cs => .setting .bind (shortValue cs)
  | '-' :: 'h' :: _ => .stop .help
  | '-' :: 'V' :: _ => .stop .version
  | '-' :: c :: _ => .stop (.unexpected (String.ofList ['-', c]))
  | _ => .plain

/-- Reads arguments. An argument that is not expected is reported before a fault of the setting in
front of it; help and version come after such a fault. -/
def readArguments (p : Progress) : List String → Except Stop Arguments
  | [] => p.settle
  | argument :: rest =>
    match meaning argument with
    | .separator =>
      match rest with
      | [] => p.settle
      | next :: _ => .error (.unexpected next)
    | .plain =>
      match p.last with
      | some (k, none) => readArguments { p with last := some (k, some argument) } rest
      | _ => .error (.unexpected argument)
    | .stop (.unexpected a) => .error (.unexpected a)
    | .stop (.unexpectedValue v f) => .error (.unexpectedValue v f)
    | .stop s => p.settle.bind fun _ => .error s
    | .setting k none =>
      match p.settle with
      | .error s => .error s
      | .ok done => readArguments { done, last := some (k, none) } rest
    | .setting k (some value) =>
      match p.settle.bind fun done => done.assign k value with
      | .error s => .error s
      | .ok done => readArguments { done } rest

def Arguments.ofList (arguments : List String) : Except Stop Arguments :=
  readArguments {} arguments

end AdmissionGuard.Command

import AdmissionGuard.Address.Socket
import AdmissionGuard.Event
import AdmissionGuard.Settings.Options
import AdmissionGuard.Text.Quoted
/-!
Which server options are valid: the address must be a socket address, and the log level one of five.
-/

namespace AdmissionGuard

inductive CheckedOption where
  | bindAddress
  | logLevel
deriving DecidableEq

namespace CheckedOption

def name : CheckedOption → String
  | bindAddress => "bind_addr"
  | logLevel => "log_level"

def complaint : CheckedOption → String
  | bindAddress => "bind_addr must be host:port"
  | logLevel => "unknown log level"

end CheckedOption

structure Flaw where
  option : CheckedOption
  value : String
deriving DecidableEq

def Flaw.message (f : Flaw) : String :=
  f.option.name ++ ": Validation error: " ++ f.option.complaint ++ " [\x7b\"value\": String(" ++
    Text.quoted f.value ++ ")\x7d]"

namespace Level

def ofString? (s : String) : Option Level :=
  match s.map Char.toLower with
  | "error" => some error
  | "warn" => some warn
  | "info" => some info
  | "debug" => some debug
  | "trace" => some trace
  | _ => none

end Level

namespace ServerOptions

def flaws (o : ServerOptions) : List Flaw :=
  (if (SocketAddress.ofString? o.bindAddress).isSome then [] else [⟨.bindAddress, o.bindAddress⟩]) ++
    if (Level.ofString? o.logLevel).isSome then [] else [⟨.logLevel, o.logLevel⟩]

end ServerOptions

end AdmissionGuard

import AdmissionGuard.Json.Fault
import AdmissionGuard.Settings.Validation
/-!
Why settings cannot be had.
-/

namespace AdmissionGuard

inductive ReadFailure where
  | missing
  | isDirectory
  | notDirectory
  | denied
  | notText
deriving DecidableEq

def ReadFailure.message : ReadFailure → String
  | missing => "No such file or directory (os error 2)"
  | isDirectory => "Is a directory (os error 21)"
  | notDirectory => "Not a directory (os error 20)"
  | denied => "Permission denied (os error 13)"
  | notText => "stream did not contain valid UTF-8"

inductive SettingsError where
  | badVariable (name value : String)
  | unreadable (path : String) (cause : ReadFailure)
  | badDocument (text : List Char) (fault : Json.Fault)
  | invalid (flaws : List Flaw)
deriving DecidableEq

namespace SettingsError

def cause? : SettingsError → Option String
  | badVariable .. => none
  | unreadable _ cause => some cause.message
  | badDocument text fault => some (fault.message text)
  | invalid flaws => some ("\n".intercalate (flaws.map Flaw.message))

def message (e : SettingsError) : String :=
  let cause := e.cause?.getD ""
  match e with
  | badVariable name value =>
    "Invalid value " ++ Text.quoted value ++ " for environment variable " ++ name
  | unreadable path _ => "Failed to read config file " ++ path ++ ": " ++ cause
  | badDocument .. => "Failed to parse config: " ++ cause
  | invalid _ => "Invalid configuration: " ++ cause

end SettingsError

def Settings.validated (s : Settings) : Except SettingsError Settings :=
  if s.server.flaws.isEmpty then .ok s else .error (.invalid s.server.flaws)

end AdmissionGuard

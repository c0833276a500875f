import AdmissionGuard.Settings.Error
import AdmissionGuard.Text.Blank
/-!
Settings from environment variables. Blanks around a value do not count, and a variable that is
blank, or not text, counts as unset.
-/

namespace AdmissionGuard

abbrev Environment := String → Option ByteArray

namespace Environment

def string? (env : Environment) (name : String) : Option String :=
  (env name).bind String.fromUTF8?

def text? (env : Environment) (name : String) : Option String :=
  (env.string? name).bind Text.trimmed?

def readD {α : Type} (env : Environment) (name : String) (read? : List Char → Option α)
    (default : α) : Except SettingsError α :=
  match env.text? name with
  | none => .ok default
  | some value =>
    match read? value.toList with
    | some a => .ok a
    | none => .error (.badVariable name value)

end Environment

def readFlag? (cs : List Char) : Option Bool :=
  if cs = ['t', 'r', 'u', 'e'] then some true
  else if cs = ['f', 'a', 'l', 's', 'e'] then some false
  else none

def splitEntries (list : String) : List String :=
  (Text.split ',' list.toList).filterMap fun e => Text.trimmed? (String.ofList e)

def Settings.variableNames : List String := [
  "BIND_ADDR", "LOG_LEVEL", "TRUST_FORWARDED_HEADERS", "DDOS_GUARD_ENABLED",
  "DDOS_GUARD_PER_IP_PER_MINUTE", "DDOS_GUARD_PER_IP_BURST", "DDOS_GUARD_GLOBAL_PER_MINUTE",
  "DDOS_GUARD_GLOBAL_BURST", "DDOS_GUARD_STRIKE_THRESHOLD", "DDOS_GUARD_BLOCK_SECONDS",
  "DDOS_GUARD_WHITELIST"]

def Settings.ofEnvironment (env : Environment) : Except SettingsError Settings := do
  let server : ServerOptions := {}
  let guard : GuardOptions := {}
  let flag := fun name default => env.readD name readFlag? default
  let number := fun name default => env.readD name Text.readInt? default
  let trustForwarded ← flag "TRUST_FORWARDED_HEADERS" server.trustForwarded
  let enabled ← flag "DDOS_GUARD_ENABLED" guard.enabled
  let perClientPerMinute ← number "DDOS_GUARD_PER_IP_PER_MINUTE" guard.perClientPerMinute
  let perClientBurst ← number "DDOS_GUARD_PER_IP_BURST" guard.perClientBurst
  let globalPerMinute ← number "DDOS_GUARD_GLOBAL_PER_MINUTE" guard.globalPerMinute
  let globalBurst ← number "DDOS_GUARD_GLOBAL_BURST" guard.globalBurst
  let strikeThreshold ← number "DDOS_GUARD_STRIKE_THRESHOLD" guard.strikeThreshold
  let blockSeconds ← number "DDOS_GUARD_BLOCK_SECONDS" guard.blockSeconds
  let settings : Settings :=
    { server :=
        { bindAddress := (env.text? "BIND_ADDR").getD server.bindAddress
          logLevel := (env.text? "LOG_LEVEL").getD server.logLevel
          trustForwarded }
      guard :=
        { enabled, perClientPerMinute, perClientBurst, globalPerMinute, globalBurst,
          strikeThreshold, blockSeconds
          allowlist := ((env.text? "DDOS_GUARD_WHITELIST").map splitEntries).getD guard.allowlist } }
  settings.validated

end AdmissionGuard

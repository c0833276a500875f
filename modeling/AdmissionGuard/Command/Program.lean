import AdmissionGuard.Command.Arguments
import AdmissionGuard.Event.Filter
import AdmissionGuard.Event.Line
import AdmissionGuard.Http.Server
import AdmissionGuard.Settings.Document
import AdmissionGuard.Settings.EnvFile
/-!
The program: from its arguments, the environment and the files it is given to what it prints and how
it ends.
-/

namespace AdmissionGuard.Command

structure Output where
  code : Nat
  out : List String := []
  err : List String := []
deriving DecidableEq

def usage : String := "Usage: ddos-guard [OPTIONS]"

def helpLines : List String := [
  "HTTP admission guard with strike-based blocking",
  "",
  usage,
  "",
  "Options:",
  "  -c, --config <CONFIG>        JSON configuration file (environment variables are used otherwise)",
  "  -b, --bind <BIND>            Override the bind address",
  "      --log-level <LOG_LEVEL>  Override the log level",
  "  -h, --help                   Print help",
  "  -V, --version                Print version"]

def Stop.output : Stop → Output
  | help => { code := 0, out := helpLines }
  | version => { code := 0, out := ["ddos-guard 0.1.0"] }
  | unexpected a => usageError ("unexpected argument '" ++ a ++ "' found") true
  | unexpectedValue v f =>
    usageError ("unexpected value '" ++ v ++ "' for '" ++ f ++ "' found; no more were expected") true
  | repeated k => usageError ("the argument '" ++ k.display ++ "' cannot be used multiple times") true
  | missingValue k =>
    usageError ("a value is required for '" ++ k.display ++ "' but none was supplied") false
where
  usageError (complaint : String) (reminds : Bool) : Output :=
    { code := 2
      err := ["error: " ++ complaint, ""] ++ (if reminds then [usage, ""] else []) ++
        ["For more information, try '--help'."] }

structure Failure where
  context : String
  causes : List String
deriving DecidableEq

namespace Failure

def indented (first further text : String) : List String :=
  match (Text.split '\n' text.toList).map String.ofList with
  | [] => [first]
  | l :: ls => (first ++ l) :: ls.map (further ++ ·)

def causeLines (causes : List String) : List String :=
  match causes with
  | [cause] => indented "    " "    " cause
  | causes =>
    causes.zipIdx.flatMap fun (cause, n) => indented ("    " ++ Text.decimal n ++ ": ") "       " cause

def output (f : Failure) : Output where
  code := 1
  err := ["Error: " ++ f.context, "", "Caused by:"] ++ causeLines f.causes

def ofSettings (context : String) (e : SettingsError) : Failure :=
  ⟨context, e.message :: e.cause?.toList⟩

def ofServer (reason : String) : Failure := ⟨"Server error", ["I/O error: " ++ reason, reason]⟩

end Failure

def settings (a : Arguments) (env : Environment)
    (readFile : String → Except ReadFailure ByteArray) : Except Failure Settings := do
  let loaded ←
    match a.config with
    | some path =>
      (Settings.ofFile path (readFile path)).mapError
        (.ofSettings ("Failed to load configuration from " ++ path))
    | none =>
      (Settings.ofEnvironment env).mapError
        (.ofSettings "Failed to load configuration from environment")
  let server :=
    { loaded.server with
      bindAddress := a.bind.getD loaded.server.bindAddress
      logLevel := a.logLevel.getD loaded.server.logLevel }
  if server.flaws.isEmpty then .ok { loaded with server }
  else
    .error ⟨"Invalid server configuration", ["\n".intercalate (server.flaws.map Flaw.message)]⟩

def openingEvents (s : Settings) : List Event :=
  let l := Limits.ofOptions s.guard
  [.programStarting,
    .configured [
      ("bind_address", .plain s.server.bindAddress),
      ("guard_enabled", .flag l.enabled),
      ("per_ip_per_minute", .number l.perClientPerMinute.toNat),
      ("per_ip_burst", .number l.perClientBurst.toNat),
      ("global_per_minute", .number l.globalPerMinute.toNat),
      ("global_burst", .number l.globalBurst.toNat),
      ("strike_threshold", .number l.strikeThreshold.toNat),
      ("block_seconds", .number l.blockSeconds.toNat),
      ("whitelist_entries", .number l.allowlist.length),
      ("trust_forwarded_headers", .flag s.server.trustForwarded)]]

def filterVariable : String := "RUST_LOG"

def filter (env : Environment) (s : Settings) : Filter :=
  ((env.string? filterVariable).bind Filter.ofString?).getD
    (Filter.ofLevel s.server.logLevel)

inductive Plan where
  | finish (o : Output)
  | serve (s : Settings) (f : Filter)

def plan (arguments : List String) (env : Environment)
    (readFile : String → Except ReadFailure ByteArray) : Plan :=
  match Arguments.ofList arguments with
  | .error s => .finish s.output
  | .ok a =>
    match settings a env readFile with
    | .error f => .finish f.output
    | .ok s => .serve s (filter env s)

def run (arguments : List String) (env : Environment)
    (readFile : String → Except ReadFailure ByteArray) (signal : Signal) (stamp address : String) :
    Output :=
  match plan arguments env readFile with
  | .finish o => o
  | .serve s f =>
    let events := openingEvents s ++ Http.startEvents s address ++ Http.stopEvents signal
    { code := 0, out := (events.filter f.passes).map (Event.line stamp) }

end AdmissionGuard.Command

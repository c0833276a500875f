import AdmissionGuard.Decision
/-!
Log events. An event is what happened; its level, the part of the program it belongs to, its fields
and its message follow from that.
-/

namespace AdmissionGuard

inductive Level where
  | error | warn | info | debug | trace
deriving DecidableEq

namespace Level

def toString : Level → String
  | error => "ERROR"
  | warn => "WARN"
  | info => "INFO"
  | debug => "DEBUG"
  | trace => "TRACE"

def verbosity : Level → Nat
  | error => 0
  | warn => 1
  | info => 2
  | debug => 3
  | trace => 4

end Level

/-- The value of an event's field. A `quoted` text is put in quotes where events are written as
lines, a `plain` one is not. -/
inductive Field where
  | quoted (s : String)
  | plain (s : String)
  | number (n : Nat)
  | flag (b : Bool)
deriving DecidableEq

inductive Signal where
  | interrupt
  | terminate
deriving DecidableEq

inductive Event where
  | entryIgnored (entry : String)
  | blockStarted (client : String) (blockSeconds : Nat)
  | swept (removed remaining : Nat)
  | denied (client path method : String) (strikes : Nat) (blocks : Bool)
  | refused (client : String) (remainingSeconds : Nat)
  | requestStarted (id method uri client : String)
  | requestFinished (id method uri status : String)
  | programStarting
  | configured (fields : List (String × Field))
  | serverStarting (address : String)
  | healthRoute
  | statsRoute
  | signalled (signal : Signal)
  | serverStopped
deriving DecidableEq

namespace Event

def level : Event → Level
  | entryIgnored _ | denied .. => .warn
  | blockStarted .. | swept .. | refused .. => .debug
  | _ => .info

def target : Event → String
  | entryIgnored _ => "ddos_guard::allowlist"
  | blockStarted .. | swept .. => "ddos_guard::guard"
  | denied .. | refused .. | requestStarted .. | requestFinished .. => "ddos_guard::middleware"
  | programStarting | configured _ => "ddos_guard"
  | serverStarting _ | healthRoute | statsRoute | signalled _ | serverStopped =>
    "ddos_guard::server"

def message : Event → String
  | entryIgnored _ => "Ignoring malformed allowlist entry"
  | blockStarted .. => "Strike threshold reached, blocking client"
  | swept .. => "Swept idle clients"
  | denied .. => "Request denied by anti-DDoS guard"
  | refused .. => "Request from blocked client rejected"
  | requestStarted .. => "Incoming request"
  | requestFinished .. => "Request completed"
  | programStarting => "Starting ddos-guard"
  | configured _ => "Configuration loaded"
  | serverStarting _ => "ddos-guard server starting"
  | healthRoute => "Health check available at /health"
  | statsRoute => "Guard statistics available at /guard/stats"
  | signalled .interrupt => "Received Ctrl+C, initiating graceful shutdown"
  | signalled .terminate => "Received terminate signal, initiating graceful shutdown"
  | serverStopped => "ddos-guard server stopped"

def subsystem : String × Field := ("subsystem", .quoted "http_ddos_guard")

def fields : Event → List (String × Field)
  | entryIgnored entry => [subsystem, ("entry", .plain entry)]
  | blockStarted client seconds =>
    [subsystem, ("client", .plain client), ("block_seconds", .number seconds)]
  | swept removed remaining =>
    [subsystem, ("removed", .number removed), ("remaining", .number remaining)]
  | denied client path method strikes blocks =>
    [subsystem, ("client", .plain client), ("path", .plain path), ("method", .plain method),
      ("strikes", .number strikes), ("blocked", .flag blocks)]
  | refused client seconds =>
    [subsystem, ("client", .plain client), ("remaining_secs", .number seconds)]
  | requestStarted id method uri client =>
    [("request_id", .plain id), ("method", .plain method), ("uri", .plain uri),
      ("client", .plain client)]
  | requestFinished id method uri status =>
    [("request_id", .plain id), ("method", .plain method), ("uri", .plain uri),
      ("status", .plain status)]
  | configured fields => fields
  | serverStarting address => [("address", .plain address)]
  | _ => []

end Event

end AdmissionGuard

import AdmissionGuard.Calendar
import AdmissionGuard.Command.Program
import AdmissionGuard.Http.Wire
import AdmissionGuard.Text.Uuid
import Std.Async.Select
import Std.Async.Signal
import Std.Async.TCP
import Std.Sync.CancellationToken
import Std.Time.DateTime.Timestamp
/-!
The program as it runs: files and variables, the listening socket and its connections, the clocks and
the signals.
-/

namespace AdmissionGuard

open Std.Async

/-- The text of a failure, with its number where the system gave one. A socket's numbers come
negated, in two's complement. -/
def failureText (e : IO.Error) : String :=
  let numbered (code : UInt32) (details : String) : String :=
    let n := if code < 0x80000000 then code else 0 - code
    details ++ " (os error " ++ Text.decimal n.toNat ++ ")"
  match e with
  | .alreadyExists _ code details | .invalidArgument _ code details
  | .permissionDenied _ code details | .resourceExhausted _ code details
  | .inappropriateType _ code details | .noSuchThing _ code details
  | .interrupted _ code details | .noFileOrDirectory _ code details
  | .otherError code details | .resourceBusy code details | .resourceVanished code details
  | .unsupportedOperation code details | .hardwareFault code details
  | .unsatisfiedConstraints code details | .illegalOperation code details
  | .protocolError code details | .timeExpired code details => numbered code details
  | .unexpectedEof => "end of file"
  | .userError s => s

def readFailure : IO.Error → ReadFailure
  | .permissionDenied .. => .denied
  | .inappropriateType _ code _ | .otherError code _ | .resourceBusy code _ =>
    if code = 20 then .notDirectory else .isDirectory
  | .noFileOrDirectory .. => .missing
  | _ => .missing

def readFile (path : String) : IO (Except ReadFailure ByteArray) := do
  try
    return .ok (← IO.FS.readBinFile path)
  catch e =>
    return .error (readFailure e)

def variableFile : IO ByteArray := do
  let depth := (← IO.currentDir).components.length
  for n in List.range depth do
    let path := String.join (List.replicate n "../") ++ ".env"
    if let .ok bytes ← readFile path then return bytes
  return .empty

def readEnvironment : IO Environment := do
  let file ← variableFile
  let names := Command.filterVariable :: Settings.variableNames ++ EnvFile.fileReferences file
  let values ← names.filterMapM fun name => do
    return (← IO.getEnv name).map fun value => (name, value.toUTF8)
  let env : Environment := fun name => values.lookup name
  return env.load file

def wallClock : IO Nat := do
  return (← Std.Time.Timestamp.now).toNanosecondsSinceUnixEpoch.val.toNat

def monotonicClock : IO Instant := do
  return (Instant.ofNanos? (← IO.monoNanosNow)).getD .origin

def printEvents (f : Filter) (events : List Event) : IO Unit := do
  let out ← IO.getStdout
  let stamp := Calendar.stamp (← wallClock)
  for e in events.filter f.passes do
    out.putStrLn (e.line stamp)
  out.flush

def socketAddress : Std.Net.SocketAddress → SocketAddress
  | .v4 s => ⟨.v4 ⟨s.addr.octets.toList, by simp⟩, s.port⟩
  | .v6 s => ⟨.v6 ⟨s.addr.segments.toList, by simp⟩, s.port⟩

def systemAddress (s : SocketAddress) : Std.Net.SocketAddress :=
  match s.address with
  | .v4 a => .v4 { addr := ⟨⟨a.octets.toArray, by simpa using a.length_octets⟩⟩, port := s.port }
  | .v6 a => .v6 { addr := ⟨⟨a.groups.toArray, by simpa using a.length_groups⟩⟩, port := s.port }

structure Service where
  app : IO.Ref Http.App
  filter : Filter
  signal : IO.Ref (Option AdmissionGuard.Signal)
  stop : Std.CancellationToken

def headLimit : Nat := 65536

/-- The lines of the head that comes over a connection, none if the connection or the service ends
before it is there. A head beyond the limit has no lines, which makes it malformed. -/
partial def receive (s : Service) (client : TCP.Socket.Client) (bytes : List UInt8) :
    Async (Option (List (List Char))) := do
  if let some lines := Http.Wire.headLines? bytes then return some lines
  if headLimit < bytes.length then return some []
  let received ← Selectable.one #[
    .case (client.recvSelector 4096) fun chunk => pure chunk,
    .case s.stop.selector fun _ => pure none]
  match received with
  | some chunk => receive s client (bytes ++ chunk.toList)
  | none => return none

def respond (s : Service) (r : Http.Request) : IO Http.Response := do
  let fresh := Text.uuid (← IO.getRandomBytes 16).toList
  let checked ← monotonicClock
  let answered ← monotonicClock
  let (response, events) ← s.app.modifyGet fun app =>
    let e := app.handleAt fresh checked answered r
    ((e.response, e.events), e.app)
  printEvents s.filter events
  return response.sent r.method

def serveConnection (s : Service) (client : TCP.Socket.Client) : Async Unit := do
  let peer := (socketAddress (← client.getPeerName)).address
  if let some lines ← receive s client [] then
    let response ←
      match Http.Wire.request? (some peer) lines with
      | some r => respond s r
      | none => pure (Http.Wire.malformed.sent "")
    let date := [("date", Calendar.httpDate (← wallClock))]
    client.send (Http.Wire.responseBytes { response with headers := response.headers ++ date })
    client.shutdown

def watchSignal (s : Service) (awaited : Std.Async.Signal) (signal : AdmissionGuard.Signal) :
    Async Unit := do
  let waiter ← Signal.Waiter.mk awaited false
  discard <| await (← waiter.wait)
  s.signal.modify fun first => first.or (some signal)
  s.stop.cancel

partial def acceptLoop (s : Service) (server : TCP.Socket.Server)
    (tasks : List (AsyncTask Unit)) : Async (List (AsyncTask Unit)) := do
  let next ← Selectable.one #[
    .case server.acceptSelector fun client => pure (some client),
    .case s.stop.selector fun _ => pure none]
  match next with
  | none => return tasks
  | some client =>
    let task : AsyncTask Unit ← async (serveConnection s client)
    let running ← tasks.filterM fun t => return !(← IO.hasFinished t)
    acceptLoop s server (task :: running)

def runServer (settings : Settings) (f : Filter) (address : SocketAddress) : IO Unit := do
  printEvents f (Http.App.createEvents settings)
  let service : Service :=
    { app := ← IO.mkRef (Http.App.create settings (← monotonicClock))
      filter := f
      signal := ← IO.mkRef none
      stop := ← Std.CancellationToken.new }
  let server ← TCP.Socket.Server.mk
  server.bind (systemAddress address)
  server.listen 1024
  Async.block do
    background (watchSignal service .sigint .interrupt)
    background (watchSignal service .sigterm .terminate)
    printEvents f (Http.listenEvents (socketAddress (← server.getSockName)).toString)
    let tasks ← acceptLoop service server []
    if let some signal ← service.signal.get then printEvents f [.signalled signal]
    for t in tasks do
      try await t catch _ => pure ()
  printEvents f [.serverStopped]

def finish (o : Command.Output) : IO UInt32 := do
  let out ← IO.getStdout
  let err ← IO.getStderr
  for line in o.out do out.putStrLn line
  for line in o.err do err.putStrLn line
  return o.code.toUInt32

def serve (settings : Settings) (f : Filter) : IO UInt32 := do
  printEvents f (Command.openingEvents settings)
  try
    match Http.Endpoint.ofString settings.server.bindAddress with
    | .error e => throw (IO.userError e.message)
    | .ok (.host name _) => throw (IO.userError ("no address: " ++ name))
    | .ok (.socket address) =>
      runServer settings f address
      return 0
  catch e =>
    finish (Command.Failure.ofServer (failureText e)).output

def program (arguments : List String) : IO UInt32 := do
  let env ← readEnvironment
  let content ←
    match (Command.Arguments.ofList arguments).toOption.bind Command.Arguments.config with
    | some path => readFile path
    | none => pure (.error .missing)
  match Command.plan arguments env fun _ => content with
  | .finish o => finish o
  | .serve settings f => serve settings f

end AdmissionGuard

def main (arguments : List String) : IO UInt32 := AdmissionGuard.program arguments

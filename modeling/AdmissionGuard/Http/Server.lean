import AdmissionGuard.Address.Socket
import AdmissionGuard.Http.App
/-!
The server: the application behind a listening socket, until a signal stops it. Each connection
carries one request and is closed after the response.
-/

namespace AdmissionGuard.Http

inductive Endpoint where
  | socket (a : SocketAddress)
  | host (name : String) (port : UInt16)
deriving DecidableEq

inductive BindError where
  | noSocketAddress
  | badPort
deriving DecidableEq

def BindError.message : BindError → String
  | noSocketAddress => "invalid socket address"
  | badPort => "invalid port value"

def hostPort? (cs : List Char) : Option UInt16 :=
  match cs with
  | '+' :: ds => SocketAddress.port? ds
  | ds => SocketAddress.port? ds

def Endpoint.ofString (s : String) : Except BindError Endpoint :=
  match SocketAddress.ofString? s with
  | some a => .ok (.socket a)
  | none =>
    match Text.cutLast? ':' s.toList with
    | none => .error .noSocketAddress
    | some (name, port) =>
      match hostPort? port with
      | none => .error .badPort
      | some port => .ok (.host (String.ofList name) port)

def trimValue (value : List UInt8) : List UInt8 :=
  let isPad := fun b : UInt8 => b == 0x20 || b == 0x9
  ((value.dropWhile isPad).reverse.dropWhile isPad).reverse

def Request.received (r : Request) : Request :=
  { r with headers := r.headers.map fun h => { h with value := trimValue h.value } }

def Response.sent (method : String) (r : Response) : Response :=
  { r with
    headers := r.headers ++ [("connection", "close")]
    body := if method = "HEAD" then "" else r.body }

def listenEvents (address : String) : List Event :=
  [.serverStarting address, .healthRoute, .statsRoute]

def startEvents (s : Settings) (address : String) : List Event :=
  App.createEvents s ++ listenEvents address

def stopEvents (signal : Signal) : List Event := [.signalled signal, .serverStopped]

structure Served where
  responses : List Response
  events : List Event

def serve (s : Settings) (created : Instant) (address : String) (arrivals : List App.Arrival)
    (signal : Signal) : Served :=
  let received := arrivals.map fun a => { a with request := a.request.received }
  let answered := ((App.create s created).run received).1
  { responses := List.zipWith (fun a r => Response.sent a.request.method r.1) arrivals answered
    events := startEvents s address ++ answered.flatMap Prod.snd ++ stopEvents signal }

end AdmissionGuard.Http

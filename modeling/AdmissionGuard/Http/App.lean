import AdmissionGuard.Http.Route
/-!
The application: what happens to a request from its arrival to its response. An OPTIONS request is
answered at once, for every origin. Any other is logged, judged by the guard where there is one, and
answered by its route.
-/

namespace AdmissionGuard.Http

structure App where
  guard? : Option Guard
  trustForwarded : Bool

structure Exchange where
  response : Response
  app : App
  events : List Event

structure Passage where
  answer : Answer
  app : App
  events : List Event

namespace App

def create (s : Settings) (now : Instant) : App where
  guard? :=
    let limits := Limits.ofOptions s.guard
    if limits.enabled then some (.create limits now) else none
  trustForwarded := s.server.trustForwarded

def createEvents (s : Settings) : List Event :=
  let limits := Limits.ofOptions s.guard
  if limits.enabled then Guard.createEvents limits else []

def requestIdField : String := "x-request-id"

def requestId (fresh : String) (r : Request) : String :=
  ((firstText? r.headers requestIdField).filter fun id => !id.isEmpty).getD fresh

def allowHeader (r : Request) : List (String × String) :=
  if (Route.ofPath? r.target.path).isSome && !Route.answers r.method then [("allow", "GET,HEAD")]
  else []

def originHeaders : List (String × String) := [
  ("access-control-allow-origin", "*"),
  ("vary", "origin, access-control-request-method, access-control-request-headers")]

def preflight (r : Request) : Response where
  status := .ok
  headers := originHeaders ++ allowHeader r ++ [("access-control-allow-methods", "*"),
    ("access-control-allow-headers", "*"), ("content-length", "0")]
  body := ""

/-- The response for an answer. On a route a HEAD request gets no body, but its length. -/
def respond (r : Request) (id : String) (a : Answer) : Response :=
  let text := a.body.text
  { status := a.status
    headers := originHeaders ++ allowHeader r ++ a.headers ++
      [("access-control-expose-headers", "*"), (requestIdField, id),
        ("content-length", Text.decimal text.utf8ByteSize)]
    body := if r.method = "HEAD" ∧ (Route.ofPath? r.target.path).isSome then "" else text }

/-- The guard's layer. A request whose client is let through goes on to `next`, together with the
application after the check. -/
def judged (app : App) (now : Instant) (next : App → Request → Answer) (r : Request) : Passage :=
  match app.guard? with
  | none => { answer := next app r, app, events := [] }
  | some g =>
    let client := ClientKey.ofRequest app.trustForwarded r.headers r.peer
    let o := g.check client now
    let app := { app with guard? := some o.guard }
    match Rejection.ofDecision? o.answer with
    | none => { answer := next app r, app, events := o.events }
    | some rejection =>
      let denial :=
        match o.answer with
        | .rateLimited strikes blocks => [.denied client r.target.path r.method strikes blocks]
        | .blocked remaining => [.refused client remaining.seconds]
        | _ => []
      { answer := .ofRejection rejection, app, events := o.events ++ denial }

def identified (id : String) (r : Request) : Request :=
  match fieldValue? id with
  | some value => { r with headers := setField requestIdField value r.headers }
  | none => r

def logged (fresh : String) (trustForwarded : Bool) (next : Request → Passage) (r : Request) :
    Exchange :=
  let id := requestId fresh r
  let r := identified id r
  let uri := r.target.toString
  let client := ClientKey.ofRequest trustForwarded r.headers r.peer
  let p := next r
  { response := respond r id p.answer
    app := p.app
    events := .requestStarted id r.method uri client :: p.events ++
      [.requestFinished id r.method uri p.answer.status.toString] }

def routed (now : Instant) (app : App) (r : Request) : Answer := r.answer app.guard? now

/-- Handles a request. The identifier `fresh` is for a request that brings none; the clock shows
`checked` when the guard judges the request and `answered` when its route answers it. -/
def handleAt (app : App) (fresh : String) (checked answered : Instant) (r : Request) : Exchange :=
  if r.method = "OPTIONS" then { response := preflight r, app, events := [] }
  else logged fresh app.trustForwarded (app.judged checked (routed answered)) r

def handle (app : App) (fresh : String) (now : Instant) (r : Request) : Exchange :=
  app.handleAt fresh now now r

structure Arrival where
  now : Instant
  fresh : String
  request : Request
deriving DecidableEq

def run (app : App) : List Arrival → List (Response × List Event) × App
  | [] => ([], app)
  | a :: rest =>
    let e := app.handle a.fresh a.now a.request
    let (responses, app) := e.app.run rest
    ((e.response, e.events) :: responses, app)

end App

end AdmissionGuard.Http

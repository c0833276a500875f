import AdmissionGuard.ClientKey
import AdmissionGuard.Guard
import AdmissionGuard.Http.Message
import AdmissionGuard.Text.Percent
/-!
Routes, and what is answered on each. A route is told from the path as it is written, before any
decoding; a path without a route belongs to the protected application.
-/

namespace AdmissionGuard.Http

inductive Route where
  | health
  | statistics
  | client (key : String)
deriving DecidableEq

namespace Route

def after? : List Char → List Char → Option (List Char)
  | [], cs => some cs
  | _ :: _, [] => none
  | p :: ps, c :: cs => if p = c then after? ps cs else none

def ofPath? (path : String) : Option Route :=
  if path = "/health" then some health
  else if path = "/guard/stats" then some statistics
  else
    (after? "/guard/clients/".toList path.toList).bind fun key =>
      if key.isEmpty ∨ '/' ∈ key then none else some (client (String.ofList key))

def answers (method : String) : Bool := method = "GET" || method = "HEAD"

end Route

def Route.answer (guard? : Option Guard) (now : Instant) : Route → Answer
  | health => { status := .ok, body := .healthy guard?.isSome }
  | statistics => { status := .ok, body := .statistics (guard?.map Guard.snapshot) }
  | client written =>
    match Text.percentDecoded? written, guard? with
    | none, _ => { status := .badRequest, body := .badKey }
    | some _, none => { status := .notFound, body := .guardDisabled }
    | some raw, some g =>
      let key := (ClientKey.normalize raw).getD raw
      match g.status? key now with
      | some s => { status := .ok, body := .client key s }
      | none => { status := .notFound, body := .untracked key }

def Request.answer (guard? : Option Guard) (now : Instant) (r : Request) : Answer :=
  match Route.ofPath? r.target.path with
  | none => { status := .ok, body := .echo r.method r.target.path }
  | some route =>
    if Route.answers r.method then route.answer guard? now
    else { status := .methodNotAllowed, body := .empty }

end AdmissionGuard.Http

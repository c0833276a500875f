import AdmissionGuard.Address.Basic
import AdmissionGuard.Client
import AdmissionGuard.Counters
import AdmissionGuard.Http.Header
import AdmissionGuard.Http.Target
import AdmissionGuard.Json.Writer
/-!
Requests and responses. What a response says is a `Body`; its text and its type follow from that.
-/

namespace AdmissionGuard.Http

structure Request where
  method : String
  target : Target
  headers : List Header
  peer : Option Address
deriving DecidableEq

inductive Status where
  | ok
  | badRequest
  | notFound
  | methodNotAllowed
  | tooManyRequests
deriving DecidableEq

namespace Status

def code : Status → Nat
  | ok => 200
  | badRequest => 400
  | notFound => 404
  | methodNotAllowed => 405
  | tooManyRequests => 429

def reason : Status → String
  | ok => "OK"
  | badRequest => "Bad Request"
  | notFound => "Not Found"
  | methodNotAllowed => "Method Not Allowed"
  | tooManyRequests => "Too Many Requests"

def toString (s : Status) : String := Text.decimal s.code ++ " " ++ s.reason

end Status

inductive Body where
  | empty
  | healthy (guardEnabled : Bool)
  | statistics (snapshot : Option Snapshot)
  | client (key : String) (status : ClientStatus)
  | untracked (key : String)
  | guardDisabled
  | badKey
  | echo (method path : String)
  | rejection (r : Rejection)
deriving DecidableEq

open Json in
def statisticsMembers (s : Snapshot) : List (String × String) := [
  ("admitted_requests", writeNat s.admitted.toNat),
  ("blocked_requests", writeNat s.blocked.toNat),
  ("blocks_started", writeNat s.blocksStarted.toNat),
  ("exempt_requests", writeNat s.exempt.toNat),
  ("rate_limited_requests", writeNat s.rateLimited.toNat),
  ("sweeps", writeNat s.sweeps.toNat),
  ("swept_clients", writeNat s.swept.toNat),
  ("total_requests", writeNat s.total.toNat),
  ("tracked_clients", writeNat s.tracked)]

open Json in
def statusMembers (s : ClientStatus) : List (String × String) := [
  ("available_tokens", writeNat s.available),
  ("block_remaining_seconds", writeNat s.remainingSeconds),
  ("blocked", writeBool s.blocked),
  ("strikes", writeNat s.strikes)]

namespace Body

open Json in
def text : Body → String
  | empty => ""
  | healthy guardEnabled =>
    writeObject [("status", writeString "healthy"), ("version", writeString "0.1.0"),
      ("guard_enabled", writeBool guardEnabled)]
  | statistics none => writeObject [("enabled", writeBool false)]
  | statistics (some s) =>
    writeObject [("enabled", writeBool true), ("stats", writeObject (statisticsMembers s))]
  | client key status =>
    writeObject [("client", writeString key), ("status", writeObject (statusMembers status))]
  | untracked key =>
    writeObject [("client", writeString key), ("error", writeString "Client not tracked")]
  | guardDisabled => writeObject [("error", writeString "Guard is disabled")]
  | badKey => "Invalid URL: Invalid UTF-8 in `key`"
  | echo method path =>
    writeObject [("method", writeString method), ("path", writeString path),
      ("status", writeString "ok")]
  | rejection r =>
    let retry :=
      match r with
      | .blocked seconds => [("retry_after_seconds", writeNat seconds)]
      | .rateLimited => []
    writeObject (("error", writeString r.message) :: retry)

def contentType? : Body → Option String
  | empty => none
  | badKey => some "text/plain; charset=utf-8"
  | _ => some "application/json"

end Body

structure Answer where
  status : Status
  body : Body
  retryAfter : Option Nat := none
deriving DecidableEq

namespace Answer

def ofRejection (r : Rejection) : Answer where
  status := .tooManyRequests
  body := .rejection r
  retryAfter := some Rejection.retryAfter

def headers (a : Answer) : List (String × String) :=
  (a.body.contentType?.map fun t => ("content-type", t)).toList ++
    (a.retryAfter.map fun n => ("retry-after", Text.decimal n)).toList

end Answer

structure Response where
  status : Status
  headers : List (String × String)
  body : String
deriving DecidableEq

end AdmissionGuard.Http

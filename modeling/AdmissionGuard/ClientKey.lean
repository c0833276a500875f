import AdmissionGuard.Address.Parser
import AdmissionGuard.Address.Printer
import AdmissionGuard.Http.Header
import AdmissionGuard.Text.Blank
/-!
Client keys. The guard tells clients apart by a text: the canonical form of an address, or whatever
else a trusted proxy says.
-/

namespace AdmissionGuard.ClientKey

def unknown : String := "unknown"

def normalize (raw : String) : Option String :=
  (Text.trimmed? raw).map fun t =>
    match Address.ofString? t with
    | some a => a.canonical.toString
    | none => t

def forwarded? (headers : List Http.Header) : Option String :=
  let forwardedFor? :=
    (Http.firstText? headers "x-forwarded-for").bind fun v =>
      (Text.split ',' v.toList).head?.bind fun c => normalize (String.ofList c)
  forwardedFor?.or ((Http.firstText? headers "x-real-ip").bind normalize)

def ofPeer (peer : Option Address) : String :=
  match peer with
  | some a => a.canonical.toString
  | none => unknown

def ofRequest (trustForwarded : Bool) (headers : List Http.Header) (peer : Option Address) :
    String :=
  if trustForwarded then (forwarded? headers).getD (ofPeer peer) else ofPeer peer

end AdmissionGuard.ClientKey

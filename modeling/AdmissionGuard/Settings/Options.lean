/-!
Settings as an operator writes them, and their defaults. Numbers may be out of range here; `Limits`
holds what becomes of them.
-/

namespace AdmissionGuard

structure ServerOptions where
  bindAddress : String := "0.0.0.0:8080"
  logLevel : String := "info"
  trustForwarded : Bool := false
deriving DecidableEq

structure GuardOptions where
  enabled : Bool := true
  perClientPerMinute : Int := 240
  perClientBurst : Int := 60
  globalPerMinute : Int := 2400
  globalBurst : Int := 300
  strikeThreshold : Int := 12
  blockSeconds : Int := 600
  allowlist : List String := ["127.0.0.1/32", "::1/128"]
deriving DecidableEq

structure Settings where
  server : ServerOptions := {}
  guard : GuardOptions := {}
deriving DecidableEq

end AdmissionGuard

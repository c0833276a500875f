import AdmissionGuard.Address.Range
import AdmissionGuard.Text.Blank
/-!
The allowlist: address ranges whose clients the guard leaves alone.
-/

namespace AdmissionGuard

structure Allowlist where
  ranges : List AddressRange
deriving DecidableEq

namespace Allowlist

def candidates (entries : List String) : List String := entries.filterMap Text.trimmed?

def ofEntries (entries : List String) : Allowlist :=
  ⟨(candidates entries).filterMap fun e => AddressRange.ofText? e.toList⟩

def malformed (entries : List String) : List String :=
  (candidates entries).filter fun e => (AddressRange.ofText? e.toList).isNone

def ContainsAddress (l : Allowlist) (a : Address) : Prop := ∃ r ∈ l.ranges, r.Contains a.canonical

instance (l : Allowlist) (a : Address) : Decidable (l.ContainsAddress a) :=
  inferInstanceAs (Decidable (∃ r ∈ l.ranges, _))

def contains (l : Allowlist) (client : String) : Bool :=
  match Address.ofText? (Text.trim client.toList) with
  | some a => decide (l.ContainsAddress a)
  | none => false

end Allowlist

end AdmissionGuard

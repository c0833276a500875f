import AdmissionGuard.Event
import AdmissionGuard.Settings.Validation
import AdmissionGuard.Text.Split
/-!
Which events are logged. A filter is a list of rules, each for the targets that begin with some text;
for an event the rule with the longest such text decides.
-/

namespace AdmissionGuard

structure FilterRule where
  target : String
  /-- The last level let through, none if the rule lets nothing through. -/
  most : Option Level
deriving DecidableEq

namespace FilterRule

def most? (s : String) : Option (Option Level) :=
  match s.map Char.toLower with
  | "off" | "0" => some none
  | "1" => some (some .error)
  | "2" => some (some .warn)
  | "3" => some (some .info)
  | "4" => some (some .debug)
  | "5" => some (some .trace)
  | _ => (Level.ofString? s).map some

def isTargetChar (c : Char) : Bool := c.isAlphanum || c = '_' || c = ':' || c = '-'

def ofString? (s : String) : Option FilterRule :=
  match most? s with
  | some most => some { target := "", most }
  | none =>
    let (target, level?) :=
      match Text.cut? '=' s.toList with
      | some (target, level) => (target, some (String.ofList level))
      | none => (s.toList, none)
    if target.isEmpty || !target.all isTargetChar then none
    else
      let most? := (level?.map FilterRule.most?).getD (some (some Level.trace))
      most?.map fun most => { target := String.ofList target, most }

def Concerns (r : FilterRule) (e : Event) : Prop := r.target.toList <+: e.target.toList

instance (r : FilterRule) (e : Event) : Decidable (r.Concerns e) :=
  inferInstanceAs (Decidable (_ <+: _))

def lets (r : FilterRule) (l : Level) : Bool :=
  match r.most with
  | none => false
  | some most => l.verbosity ≤ most.verbosity

end FilterRule

abbrev Filter := List FilterRule

namespace Filter

/-- Reads rules with commas between them. A text without any lets errors through. -/
def ofString? (s : String) : Option Filter :=
  let texts := (Text.split ',' s.toList).filter fun cs => !cs.isEmpty
  if texts.isEmpty then some [{ target := "", most := some .error }]
  else texts.mapM fun cs => FilterRule.ofString? (String.ofList cs)

def ofLevel (level : String) : Filter :=
  [{ target := "ddos_guard", most := Level.ofString? level }]

/-- The rule for an event: of those that concern it, the one with the longest target, and the last
of equally long ones. -/
def rule? (f : Filter) (e : Event) : Option FilterRule :=
  f.foldl (fun best r =>
    if r.Concerns e ∧ (best.map fun b : FilterRule => b.target.length).getD 0 ≤ r.target.length then
      some r
    else best) none

def passes (f : Filter) (e : Event) : Bool :=
  match f.rule? e with
  | some r => r.lets e.level
  | none => false

end Filter

end AdmissionGuard

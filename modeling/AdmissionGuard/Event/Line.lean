import AdmissionGuard.Event
import AdmissionGuard.Text.Quoted
/-!
Events as lines of a log: a time stamp, the level, the target, the message and the fields.
-/

namespace AdmissionGuard

def Field.toString : Field → String
  | quoted s => Text.quoted s
  | plain s => s
  | number n => Text.decimal n
  | flag b => if b then "true" else "false"

def Level.column (l : Level) : String :=
  String.ofList (List.replicate (5 - l.toString.length) ' ') ++ l.toString

def Event.line (stamp : String) (e : Event) : String :=
  stamp ++ " " ++ e.level.column ++ " " ++ e.target ++ ": " ++ e.message ++
    String.join (e.fields.map fun (name, value) => " " ++ name ++ "=" ++ value.toString)

end AdmissionGuard

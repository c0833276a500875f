import AdmissionGuard.Text.Numeral
import AdmissionGuard.Time
/-!
Dates of the Gregorian calendar, and points in time as text. A point in time is a number of
nanoseconds since the start of 1970, in UTC.
-/

namespace AdmissionGuard

structure Date where
  year : Nat
  month : Nat
  day : Nat
deriving DecidableEq

namespace Date

/-- The date of a day, counted from the first one of 1970. Years are taken to start in March, so that
the leap day is the last of its year. -/
def ofDays (n : Nat) : Date :=
  let n := n + 719468
  let era := n / 146097
  let dayOfEra := n % 146097
  let yearOfEra := (dayOfEra - dayOfEra / 1460 + dayOfEra / 36524 - dayOfEra / 146096) / 365
  let dayOfYear := dayOfEra - (365 * yearOfEra + yearOfEra / 4 - yearOfEra / 100)
  let m := (5 * dayOfYear + 2) / 153
  let month := if m < 10 then m + 3 else m - 9
  { year := era * 400 + yearOfEra + if month ≤ 2 then 1 else 0
    month
    day := dayOfYear - (153 * m + 2) / 5 + 1 }

def weekday (n : Nat) : Nat := (n + 4) % 7

end Date

namespace Calendar

def padded (width n : Nat) : String := String.ofList (Text.writePadded 10 width n)

def clock (secondOfDay : Nat) : String :=
  padded 2 (secondOfDay / 3600) ++ ":" ++ padded 2 (secondOfDay / 60 % 60) ++ ":" ++
    padded 2 (secondOfDay % 60)

def secondsPerDay : Nat := 86400

def stamp (nanos : Nat) : String :=
  let seconds := nanos / nanosPerSecond
  let d := Date.ofDays (seconds / secondsPerDay)
  padded 4 d.year ++ "-" ++ padded 2 d.month ++ "-" ++ padded 2 d.day ++ "T" ++
    clock (seconds % secondsPerDay) ++ "." ++ padded 6 (nanos % nanosPerSecond / 1000) ++ "Z"

def weekdayNames : List String := ["Sun", "Mon", "Tue", "Wed", "Thu", "Fri", "Sat"]

def monthNames : List String :=
  ["Jan", "Feb", "Mar", "Apr", "May", "Jun", "Jul", "Aug", "Sep", "Oct", "Nov", "Dec"]

def httpDate (nanos : Nat) : String :=
  let seconds := nanos / nanosPerSecond
  let days := seconds / secondsPerDay
  let d := Date.ofDays days
  weekdayNames.getD (Date.weekday days) "" ++ ", " ++ padded 2 d.day ++ " " ++
    monthNames.getD (d.month - 1) "" ++ " " ++ padded 4 d.year ++ " " ++
    clock (seconds % secondsPerDay) ++ " GMT"

end Calendar

end AdmissionGuard

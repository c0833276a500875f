import AdmissionGuard.Json.Numeral
import AdmissionGuard.Json.Text
/-!
Passing over a value of any kind and depth. Only its form is checked: a number may be of any size,
and a string may hold half of a surrogate pair.
-/

namespace AdmissionGuard.Json

inductive Frame where
  | list
  | object
deriving DecidableEq

namespace Frame

def close : Frame → Char
  | list => ']'
  | object => '\x7d'

def atEnd : Frame → Cause
  | list => .endInList
  | object => .endInObject

def expectedComma : Frame → Cause
  | list => .expectedListCommaOrEnd
  | object => .expectedObjectCommaOrEnd

end Frame

def skipName (cs : List Char) : Except Fault (List Char) :=
  match skipSpace cs with
  | [] => fail .endInObject []
  | '"' :: r =>
    match skipString r with
    | .error f => .error f
    | .ok r =>
      match skipSpace r with
      | [] => fail .endInObject []
      | ':' :: r => .ok r
      | c :: r => failAt .expectedColon (c :: r)
  | c :: r => failAt .keyNotString (c :: r)

inductive Next where
  | done (rest : List Char)
  | value (inside : List Frame) (rest : List Char)

def skipEnds : List Frame → List Char → Except Fault Next
  | [], cs => .ok (.done cs)
  | f :: fs, cs =>
    match skipSpace cs with
    | [] => fail f.atEnd []
    | c :: r =>
      if c = f.close then skipEnds fs r
      else if c = ',' then
        match f with
        | .list => .ok (.value (f :: fs) r)
        | .object => (skipName r).map (.value (f :: fs))
      else failAt f.expectedComma (c :: r)

inductive Start where
  | frame (f : Frame) (rest : List Char)
  | flat (rest : List Char)

def Start.rest : Start → List Char
  | frame _ rest => rest
  | flat rest => rest

def skipStart (cs : List Char) : Except Fault Start :=
  match skipSpace cs with
  | [] => fail .endInValue []
  | '[' :: r =>
    match skipSpace r with
    | ']' :: r => .ok (.flat r)
    | [] => fail .endInList []
    | r => .ok (.frame .list r)
  | '\x7b' :: r =>
    match skipSpace r with
    | '\x7d' :: r => .ok (.flat r)
    | r => (skipName r).map (.frame .object)
  | 'n' :: r => (readWord ['u', 'l', 'l'] r).map .flat
  | 't' :: r => (readWord ['r', 'u', 'e'] r).map .flat
  | 'f' :: r => (readWord ['a', 'l', 's', 'e'] r).map .flat
  | '"' :: r => (skipString r).map .flat
  | '-' :: r => (scanNumeral .badNumber r).map fun p => .flat p.2
  | c :: r =>
    if c.isDigit then (scanNumeral .badNumber (c :: r)).map fun p => .flat p.2
    else failAt .expectedValue (c :: r)

theorem length_lt_of_skipName {cs rest : List Char} (h : skipName cs = .ok rest) :
    rest.length < cs.length := by
  unfold skipName fail failAt at h
  grind [→ length_lt_of_skipString, → length_lt_of_skipSpace]

theorem length_lt_of_skipEnds_value {fs gs : List Frame} {cs rest : List Char}
    (h : skipEnds fs cs = .ok (.value gs rest)) : rest.length < cs.length := by
  induction fs generalizing cs with
  | nil => simp [skipEnds] at h
  | cons f fs ih =>
    unfold skipEnds fail failAt Except.map at h
    grind [→ length_lt_of_skipSpace, → length_lt_of_skipName]

theorem length_le_of_skipEnds_done {fs : List Frame} {cs rest : List Char}
    (h : skipEnds fs cs = .ok (.done rest)) : rest.length ≤ cs.length := by
  induction fs generalizing cs with
  | nil => simp_all [skipEnds]
  | cons f fs ih =>
    unfold skipEnds fail failAt Except.map at h
    grind [→ length_lt_of_skipSpace]

theorem length_lt_of_skipStart {cs : List Char} {s : Start} (h : skipStart cs = .ok s) :
    s.rest.length < cs.length := by
  have key : ∀ r : List Char, (skipSpace r).length ≤ r.length := length_skipSpace_le
  unfold skipStart fail failAt Except.map at h
  grind [→ length_lt_of_skipName, → length_lt_of_skipSpace, → length_le_of_readWord,
    → length_lt_of_skipString, → length_lt_of_scanNumeral, Start.rest]

def skipValue (fs : List Frame) (cs : List Char) : Except Fault (List Char) :=
  match _hs : skipStart cs with
  | .error f => .error f
  | .ok (.frame f r) => skipValue (f :: fs) r
  | .ok (.flat r) =>
    match _hn : skipEnds fs r with
    | .error f => .error f
    | .ok (.done r) => .ok r
    | .ok (.value fs r) => skipValue fs r
termination_by cs.length
decreasing_by
  · exact length_lt_of_skipStart _hs
  · have := length_lt_of_skipStart _hs
    have := length_lt_of_skipEnds_value _hn
    simp only [Start.rest] at *
    omega

theorem length_lt_of_skipValue {fs : List Frame} {cs rest : List Char}
    (h : skipValue fs cs = .ok rest) : rest.length < cs.length := by
  fun_induction skipValue fs cs <;>
    grind [→ length_lt_of_skipStart, → length_lt_of_skipEnds_value, → length_le_of_skipEnds_done,
      Start.rest]

end AdmissionGuard.Json

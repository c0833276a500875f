import AdmissionGuard.Json.Skip
/-!
Readers of typed values. A record is written as an object, its members in any order and others among
them, or as a list of its fields in their order; what is left out keeps its default.
-/

namespace AdmissionGuard.Json

/-- Reads any value. A list and an object are told from their first character, which stays. -/
def readFound (cs : List Char) : Except Fault (Found × List Char) :=
  match cs with
  | [] => fail .endInValue []
  | 'n' :: r => (readWord ['u', 'l', 'l'] r).map (.null, ·)
  | 't' :: r => (readWord ['r', 'u', 'e'] r).map (.boolean true, ·)
  | 'f' :: r => (readWord ['a', 'l', 's', 'e'] r).map (.boolean false, ·)
  | '"' :: r => (readString [] r).map fun (s, rest) => (.string (String.ofList s), rest)
  | '-' :: r => (readNumber true r).map fun (n, rest) => (.number n, rest)
  | '[' :: _ => .ok (.list, cs)
  | '\x7b' :: _ => .ok (.object, cs)
  | c :: _ =>
    if c.isDigit then (readNumber false cs).map fun (n, rest) => (.number n, rest)
    else failAt .expectedValue cs

def mismatch (expected : String) (cs : List Char) : Fault :=
  match readFound cs with
  | .error f => f
  | .ok (found, rest) => ⟨.wrongType found expected, byteCount rest⟩

namespace Reader

def bool : Reader Bool where
  run cs :=
    match skipSpace cs with
    | 't' :: r => (readWord ['r', 'u', 'e'] r).map (true, ·)
    | 'f' :: r => (readWord ['a', 'l', 's', 'e'] r).map (false, ·)
    | r => .error (mismatch "a boolean" r)
  shorter {cs a rest} h := by
    unfold Except.map at h
    grind [→ length_lt_of_skipSpace, → length_le_of_readWord]

def asInt64 : Except Fault (Number × List Char) → Except Fault (Int × List Char)
  | .error f => .error f
  | .ok (.whole n, rest) => if Text.inInt64 n then .ok (n, rest) else fail (.outOfRange n) rest
  | .ok (.real negative q, rest) => fail (.wrongType (.number (.real negative q)) "i64") rest

def int64 : Reader Int where
  run cs :=
    match skipSpace cs with
    | '-' :: r => asInt64 (readNumber true r)
    | [] => fail .endInValue []
    | c :: r =>
      if c.isDigit then asInt64 (readNumber false (c :: r)) else .error (mismatch "i64" (c :: r))
  shorter {cs a rest} h := by
    unfold asInt64 fail at h
    grind [→ length_lt_of_skipSpace, → length_lt_of_readNumber]

def string : Reader String where
  run cs :=
    match skipSpace cs with
    | '"' :: r => (readString [] r).map fun (s, rest) => (String.ofList s, rest)
    | r => .error (mismatch "a string" r)
  shorter {cs a rest} h := by
    unfold Except.map at h
    grind [→ length_lt_of_skipSpace, → length_lt_of_readString]

end Reader

inductive Element where
  | close (rest : List Char)
  | item (rest : List Char)

def nextElement (first : Bool) (cs : List Char) : Except Fault Element :=
  match skipSpace cs with
  | [] => fail .endInList []
  | ']' :: r => .ok (.close r)
  | c :: r =>
    if first then .ok (.item (c :: r))
    else if c = ',' then
      match skipSpace r with
      | [] => fail .endInValue []
      | ']' :: r => failAt .trailingComma (']' :: r)
      | r => .ok (.item r)
    else failAt .expectedListCommaOrEnd (c :: r)

theorem length_lt_of_nextElement_close {first : Bool} {cs rest : List Char}
    (h : nextElement first cs = .ok (.close rest)) : rest.length < cs.length := by
  unfold nextElement fail failAt at h
  grind [→ length_lt_of_skipSpace]

theorem length_le_of_nextElement_item {first : Bool} {cs rest : List Char}
    (h : nextElement first cs = .ok (.item rest)) : rest.length ≤ cs.length := by
  have key : ∀ r : List Char, (skipSpace r).length ≤ r.length := length_skipSpace_le
  unfold nextElement fail failAt at h
  grind

def readElements {α : Type} (item : Reader α) (first : Bool) (done : List α) (cs : List Char) :
    Except Fault (List α × List Char) :=
  match _hn : nextElement first cs with
  | .error f => .error f
  | .ok (.close rest) => .ok (done.reverse, rest)
  | .ok (.item r) =>
    match _hi : item.run r with
    | .error f => .error f
    | .ok (a, r) => readElements item false (a :: done) r
termination_by cs.length
decreasing_by
  have := length_le_of_nextElement_item _hn
  have := item.shorter _hi
  omega

theorem length_lt_of_readElements {α : Type} {item : Reader α} {first : Bool} {done l : List α}
    {cs rest : List Char} (h : readElements item first done cs = .ok (l, rest)) :
    rest.length < cs.length := by
  have shorter := @item.shorter
  fun_induction readElements item first done cs <;>
    grind [→ length_lt_of_nextElement_close, → length_le_of_nextElement_item]

def Reader.list {α : Type} (item : Reader α) : Reader (List α) where
  run cs :=
    match skipSpace cs with
    | '[' :: r => readElements item true [] r
    | [] => fail .endInValue []
    | c :: r => .error (mismatch "a sequence" (c :: r))
  shorter {cs a rest} h := by
    unfold fail at h
    grind [→ length_lt_of_skipSpace, → length_lt_of_readElements]

structure RecordField (σ : Type) where
  name : String
  change : Reader (σ → σ)

def readListEnd (cs : List Char) : Except Fault (List Char) :=
  match skipSpace cs with
  | [] => fail .endInList []
  | ']' :: r => .ok r
  | ',' :: r =>
    match skipSpace r with
    | ']' :: r => failAt .trailingComma (']' :: r)
    | r => failAt .trailingCharacters r
  | r => failAt .trailingCharacters r

def readPositional {σ : Type} : List (RecordField σ) → Bool → σ → List Char →
    Except Fault (σ × List Char)
  | [], _, s, cs => (readListEnd cs).map (s, ·)
  | f :: fs, first, s, cs =>
    match nextElement first cs with
    | .error e => .error e
    | .ok (.close rest) => .ok (s, rest)
    | .ok (.item r) =>
      match f.change.run r with
      | .error e => .error e
      | .ok (change, r) => readPositional fs false (change s) r

theorem length_lt_of_readListEnd {cs rest : List Char} (h : readListEnd cs = .ok rest) :
    rest.length < cs.length := by
  unfold readListEnd fail failAt at h
  grind [→ length_lt_of_skipSpace]

theorem length_lt_of_readPositional {σ : Type} {fs : List (RecordField σ)} {first : Bool} {s t : σ}
    {cs rest : List Char} (h : readPositional fs first s cs = .ok (t, rest)) :
    rest.length < cs.length := by
  induction fs generalizing first s cs with
  | nil =>
    unfold readPositional Except.map at h
    grind [→ length_lt_of_readListEnd]
  | cons f fs ih =>
    have shorter := @f.change.shorter
    unfold readPositional at h
    grind [→ length_lt_of_nextElement_close, → length_le_of_nextElement_item]

inductive Member where
  | close (rest : List Char)
  | name (rest : List Char)

def nextMember (first : Bool) (cs : List Char) : Except Fault Member :=
  match skipSpace cs with
  | [] => fail .endInObject []
  | '\x7d' :: r => .ok (.close r)
  | c :: r =>
    if first then if c = '"' then .ok (.name r) else failAt .keyNotString (c :: r)
    else if c = ',' then
      match skipSpace r with
      | [] => fail .endInValue []
      | '"' :: r => .ok (.name r)
      | '\x7d' :: r => failAt .trailingComma ('\x7d' :: r)
      | r => failAt .keyNotString r
    else failAt .expectedObjectCommaOrEnd (c :: r)

def Member.rest : Member → List Char
  | close rest => rest
  | name rest => rest

theorem length_lt_of_nextMember {first : Bool} {cs : List Char} {m : Member}
    (h : nextMember first cs = .ok m) : m.rest.length < cs.length := by
  have key : ∀ r : List Char, (skipSpace r).length ≤ r.length := length_skipSpace_le
  unfold nextMember fail failAt at h
  grind [Member.rest]

def readColon (cs : List Char) : Except Fault (List Char) :=
  match skipSpace cs with
  | [] => fail .endInObject []
  | ':' :: r => .ok r
  | r => failAt .expectedColon r

theorem length_lt_of_readColon {cs rest : List Char} (h : readColon cs = .ok rest) :
    rest.length < cs.length := by
  unfold readColon fail failAt at h
  grind [→ length_lt_of_skipSpace]

/-- Reads a member's value after its name: changes the record if the name is one of its fields, and
passes over the value otherwise. A field may not come twice; its object is left for that where it ends
at once. -/
def readMember {σ : Type} (fields : List (RecordField σ)) (seen : List String) (name : String)
    (s : σ) (cs : List Char) : Except Fault (σ × List Char) :=
  match fields.find? (·.name = name) with
  | none =>
    match readColon cs with
    | .error e => .error e
    | .ok r => (skipValue [] r).map (s, ·)
  | some f =>
    if name ∈ seen then
      match skipSpace cs with
      | '\x7d' :: r => fail (.duplicateField name) r
      | r => fail (.duplicateField name) r
    else
      match readColon cs with
      | .error e => .error e
      | .ok r => (f.change.run r).map fun (change, rest) => (change s, rest)

theorem length_lt_of_readMember {σ : Type} {fields : List (RecordField σ)} {seen : List String}
    {name : String} {s t : σ} {cs rest : List Char}
    (h : readMember fields seen name s cs = .ok (t, rest)) : rest.length < cs.length := by
  unfold readMember fail Except.map at h
  split at h
  · grind [→ length_lt_of_readColon, → length_lt_of_skipValue]
  · next f _ =>
    have shorter := @f.change.shorter
    grind [→ length_lt_of_readColon]

def readMembers {σ : Type} (fields : List (RecordField σ)) (first : Bool) (seen : List String)
    (s : σ) (cs : List Char) : Except Fault (σ × List Char) :=
  match _hn : nextMember first cs with
  | .error e => .error e
  | .ok (.close rest) => .ok (s, rest)
  | .ok (.name r) =>
    match _hs : readString [] r with
    | .error e => .error e
    | .ok (name, r) =>
      match _hm : readMember fields seen (String.ofList name) s r with
      | .error e => .error e
      | .ok (s, r) => readMembers fields false (String.ofList name :: seen) s r
termination_by cs.length
decreasing_by
  have := length_lt_of_nextMember _hn
  have := length_lt_of_readString _hs
  have := length_lt_of_readMember _hm
  simp only [Member.rest] at *
  omega

theorem length_lt_of_readMembers {σ : Type} {fields : List (RecordField σ)} {first : Bool}
    {seen : List String} {s t : σ} {cs rest : List Char}
    (h : readMembers fields first seen s cs = .ok (t, rest)) : rest.length < cs.length := by
  fun_induction readMembers fields first seen s cs <;>
    grind [→ length_lt_of_nextMember, → length_lt_of_readString, → length_lt_of_readMember,
      Member.rest]

def Reader.record {σ : Type} (fields : List (RecordField σ)) (default : σ) (expected : String) :
    Reader σ where
  run cs :=
    match skipSpace cs with
    | '[' :: r => readPositional fields true default r
    | '\x7b' :: r => readMembers fields true [] default r
    | r => .error (mismatch expected r)
  shorter {cs a rest} h := by
    grind [→ length_lt_of_skipSpace, → length_lt_of_readPositional, → length_lt_of_readMembers]

end AdmissionGuard.Json

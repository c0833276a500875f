import AdmissionGuard.Json.Reader
import AdmissionGuard.Text.Numeral
/-!
JSON strings. A string that is read must be text: the escapes of surrogates come in pairs. A string
that is passed over need not be.
-/

namespace AdmissionGuard.Json

/-- The fault of a text that does not begin with four digits. Too few bytes for them mean that it
ends in the string. -/
def badHex {α : Type} (cs : List Char) : Except Fault α :=
  if 4 ≤ byteCount cs then .error ⟨.badEscape, byteCount cs - 4⟩ else fail .endInString []

def readHex : List Char → Except Fault (Nat × List Char)
  | a :: b :: c :: d :: r =>
    match AdmissionGuard.Text.read? 16 [a, b, c, d] with
    | some n => .ok (n, r)
    | none => badHex (a :: b :: c :: d :: r)
  | cs => badHex cs

def isHigh (n : Nat) : Bool := 0xd800 ≤ n && n ≤ 0xdbff

def isLow (n : Nat) : Bool := 0xdc00 ≤ n && n ≤ 0xdfff

def ofSurrogates (high low : Nat) : Char :=
  Char.ofNat (0x10000 + (high - 0xd800) * 0x400 + (low - 0xdc00))

def readLow (high : Nat) : List Char → Except Fault (Char × List Char)
  | [] | ['\\'] => fail .endInString []
  | '\\' :: 'u' :: r =>
    match readHex r with
    | .error f => .error f
    | .ok (low, r) => if isLow low then .ok (ofSurrogates high low, r) else fail .loneSurrogate r
  | '\\' :: c :: r => failAt .unpairedSurrogate (c :: r)
  | c :: r => failAt .unpairedSurrogate (c :: r)

def readEscape : List Char → Except Fault (Char × List Char)
  | [] => fail .endInString []
  | '"' :: r => .ok ('"', r)
  | '\\' :: r => .ok ('\\', r)
  | '/' :: r => .ok ('/', r)
  | 'b' :: r => .ok ('\x08', r)
  | 'f' :: r => .ok ('\x0c', r)
  | 'n' :: r => .ok ('\n', r)
  | 'r' :: r => .ok ('\r', r)
  | 't' :: r => .ok ('\t', r)
  | 'u' :: r =>
    match readHex r with
    | .error f => .error f
    | .ok (n, r) =>
      if isLow n then fail .loneSurrogate r
      else if isHigh n then readLow n r
      else .ok (Char.ofNat n, r)
  | c :: r => failAt .badEscape (c :: r)

def skipEscape : List Char → Except Fault (List Char)
  | [] => fail .endInString []
  | 'u' :: r => (readHex r).map Prod.snd
  | c :: r => if c ∈ ['"', '\\', '/', 'b', 'f', 'n', 'r', 't'] then .ok r else failAt .badEscape (c :: r)

theorem length_lt_of_readHex {cs rest : List Char} {n : Nat} (h : readHex cs = .ok (n, rest)) :
    rest.length < cs.length := by
  unfold readHex badHex fail at h
  grind

theorem length_lt_of_readEscape {cs rest : List Char} {c : Char}
    (h : readEscape cs = .ok (c, rest)) : rest.length < cs.length := by
  unfold readEscape readLow fail failAt at h
  grind [→ length_lt_of_readHex]

theorem length_lt_of_skipEscape {cs rest : List Char} (h : skipEscape cs = .ok rest) :
    rest.length < cs.length := by
  unfold skipEscape fail failAt at h
  split at h
  · simp at h
  · next r =>
    cases hr : readHex r with
    | error f => simp [hr, Except.map] at h
    | ok p =>
      obtain ⟨n, rest'⟩ := p
      simp only [hr, Except.map, Except.ok.injEq] at h
      have := length_lt_of_readHex hr
      simp only [List.length_cons, ← h]
      omega
  · split at h <;> simp at h
    simp [h]

def readString (done : List Char) (cs : List Char) : Except Fault (List Char × List Char) :=
  match cs with
  | [] => fail .endInString []
  | '"' :: r => .ok (done.reverse, r)
  | '\\' :: r =>
    match _h : readEscape r with
    | .error f => .error f
    | .ok (c, r) => readString (c :: done) r
  | c :: r => if c.toNat < 0x20 then failAt .controlCharacter (c :: r) else readString (c :: done) r
termination_by cs.length
decreasing_by
  · have := length_lt_of_readEscape _h
    simp only [List.length_cons]
    omega
  · simp

def skipString (cs : List Char) : Except Fault (List Char) :=
  match cs with
  | [] => fail .endInString []
  | '"' :: r => .ok r
  | '\\' :: r =>
    match _h : skipEscape r with
    | .error f => .error f
    | .ok r => skipString r
  | c :: r => if c.toNat < 0x20 then fail .controlCharacter (c :: r) else skipString r
termination_by cs.length
decreasing_by
  · have := length_lt_of_skipEscape _h
    simp only [List.length_cons]
    omega
  · simp

theorem length_lt_of_readString {done cs s rest : List Char}
    (h : readString done cs = .ok (s, rest)) : rest.length < cs.length := by
  fun_induction readString done cs with
  | case1 | case3 | case5 => simp [fail, failAt] at h
  | case2 => simp_all
  | case4 done r c r' hr ih =>
    have := length_lt_of_readEscape hr
    have := ih h
    simp only [List.length_cons]
    omega
  | case6 done c r _ _ _ ih =>
    have := ih h
    simp only [List.length_cons]
    omega

theorem length_lt_of_skipString {cs rest : List Char} (h : skipString cs = .ok rest) :
    rest.length < cs.length := by
  fun_induction skipString cs with
  | case1 | case3 | case5 => simp [fail] at h
  | case2 => simp_all
  | case4 r r' hr ih =>
    have := length_lt_of_skipEscape hr
    have := ih h
    simp only [List.length_cons]
    omega
  | case6 c r _ _ _ ih =>
    have := ih h
    simp only [List.length_cons]
    omega

end AdmissionGuard.Json

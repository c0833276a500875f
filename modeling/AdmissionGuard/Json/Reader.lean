import AdmissionGuard.Json.Fault
/-!
Readers of JSON text. A reader takes a value off the front of a text and leaves the rest, which is
shorter; reading a list or an object ends for that reason.
-/

namespace AdmissionGuard.Json

structure Reader (α : Type) where
  run : List Char → Except Fault (α × List Char)
  shorter : ∀ {cs a rest}, run cs = .ok (a, rest) → rest.length < cs.length

def byteCount (cs : List Char) : Nat := cs.foldl (fun n c => n + c.utf8Size) 0

/-- A fault in the text before `rest`. -/
def fail {α : Type} (cause : Cause) (rest : List Char) : Except Fault α :=
  .error ⟨cause, byteCount rest⟩

/-- A fault in the first byte of the text, or at its end. -/
def failAt {α : Type} (cause : Cause) (cs : List Char) : Except Fault α :=
  .error ⟨cause, byteCount cs - 1⟩

def isSpace (c : Char) : Bool := c == ' ' || c == '\t' || c == '\n' || c == '\r'

def skipSpace (cs : List Char) : List Char := cs.dropWhile isSpace

theorem length_dropWhile_le {p : Char → Bool} (cs : List Char) :
    (cs.dropWhile p).length ≤ cs.length := (List.dropWhile_sublist p).length_le

theorem length_skipSpace_le (cs : List Char) : (skipSpace cs).length ≤ cs.length :=
  length_dropWhile_le cs

theorem length_lt_of_skipSpace {cs rest : List Char} {c : Char} (h : skipSpace cs = c :: rest) :
    rest.length < cs.length := by
  have := length_skipSpace_le cs
  rw [h, List.length_cons] at this
  omega

def readWord : List Char → List Char → Except Fault (List Char)
  | [], cs => .ok cs
  | _ :: _, [] => fail .endInValue []
  | w :: ws, c :: cs => if c = w then readWord ws cs else failAt .expectedWord (c :: cs)

theorem length_le_of_readWord {ws cs rest : List Char} (h : readWord ws cs = .ok rest) :
    rest.length ≤ cs.length := by
  induction ws generalizing cs with
  | nil => simp only [readWord, Except.ok.injEq] at h; simp [h]
  | cons w ws ih =>
    cases cs with
    | nil => simp [readWord, fail] at h
    | cons c cs =>
      simp only [readWord] at h
      split at h
      · have := ih h
        simp only [List.length_cons]
        omega
      · simp [failAt] at h

namespace Reader

def map {α β : Type} (f : α → β) (r : Reader α) : Reader β where
  run cs := (r.run cs).map fun (a, rest) => (f a, rest)
  shorter {cs b rest} h := by
    cases hr : r.run cs with
    | error e => simp [hr, Except.map] at h
    | ok p =>
      obtain ⟨a, rest'⟩ := p
      simp only [hr, Except.map, Except.ok.injEq, Prod.mk.injEq] at h
      exact h.2 ▸ r.shorter hr

def document {α : Type} (r : Reader α) (cs : List Char) : Except Fault α :=
  match r.run cs with
  | .error f => .error f
  | .ok (a, rest) =>
    match skipSpace rest with
    | [] => .ok a
    | c :: rest => failAt .trailingCharacters (c :: rest)

end Reader

end AdmissionGuard.Json

import AdmissionGuard.Json.Record
import AdmissionGuard.Proofs.AddressText
import Mathlib.Data.List.Forall2
import Mathlib.Tactic.FinCases
import Mathlib.Tactic.IntervalCases

/-! The texts that JSON has for a value, stated without the readers, and what the readers make of
the parts of one: space, digits and strings. -/
namespace AdmissionGuard

inductive Text.Separated {α : Type} (P : α → List Char → Prop) : List α → List Char → Prop where
  | last {a : α} {cs : List Char} (h : P a cs) : Separated P [a] cs
  | more {a : α} {l : List α} {cs ds : List Char} (h : P a cs) (hl : Separated P l ds) :
      Separated P (a :: l) (cs ++ ',' :: ds)

namespace Json

def Spaces (ws : List Char) : Prop := ∀ c ∈ ws, isSpace c

instance (ws : List Char) : Decidable (Spaces ws) :=
  decidable_of_iff (ws.all isSpace) List.all_eq_true

def Ends (rest : List Char) : Prop :=
  ∀ c ∈ rest.head?, isSpace c ∨ c ∈ [',', ']', '\x7d']

def Digits (ds : List Char) : Prop := ds ≠ [] ∧ ∀ c ∈ ds, c.isDigit

def WholeText (cs : List Char) : Prop := cs = ['0'] ∨ Digits cs ∧ cs.head? ≠ some '0'

def FractionText (cs : List Char) : Prop := cs = [] ∨ ∃ ds, Digits ds ∧ cs = '.' :: ds

def ExponentText (cs : List Char) : Prop :=
  cs = [] ∨ ∃ e ∈ ['e', 'E'], ∃ sign ∈ [[], ['+'], ['-']], ∃ ds, Digits ds ∧ cs = e :: (sign ++ ds)

def NumberText (cs : List Char) : Prop :=
  ∃ sign ∈ [[], ['-']], ∃ whole fraction exponent,
    WholeText whole ∧ FractionText fraction ∧ ExponentText exponent ∧
      cs = sign ++ (whole ++ (fraction ++ exponent))

def HexDigit (d : Nat) (c : Char) : Prop := c = d.digitChar ∨ c = d.digitChar.toUpper

def HexText (n : Nat) (ds : List Char) : Prop :=
  n < 0x10000 ∧
    List.Forall₂ HexDigit [n / 0x1000, n / 0x100 % 0x10, n / 0x10 % 0x10, n % 0x10] ds

def Plain (c : Char) : Prop := 0x20 ≤ c.toNat ∧ c ≠ '"' ∧ c ≠ '\\'

instance (c : Char) : Decidable (Plain c) := inferInstanceAs (Decidable (_ ∧ _ ∧ _))

def escapes : List (Char × Char) :=
  [('"', '"'), ('\\', '\\'), ('/', '/'), ('b', '\x08'), ('f', '\x0c'), ('n', '\n'), ('r', '\r'),
    ('t', '\t')]

/-- The texts of a character in a string. One beyond sixteen bits has an escape of two halves. -/
inductive Escaping : Char → List Char → Prop where
  | plain {c : Char} (h : Plain c) : Escaping c [c]
  | letter {e c : Char} (h : (e, c) ∈ escapes) : Escaping c ['\\', e]
  | unicode {c : Char} {ds : List Char} (h : HexText c.toNat ds) : Escaping c ('\\' :: 'u' :: ds)
  | pair {c : Char} {high low : Nat} {ds es : List Char} (hhigh : HexText (0xd800 + high) ds)
      (hlow : HexText (0xdc00 + low) es) (hlt : high < 0x400 ∧ low < 0x400)
      (hc : c.toNat = 0x10000 + high * 0x400 + low) :
      Escaping c ('\\' :: 'u' :: (ds ++ '\\' :: 'u' :: es))

def StringText (s : String) (cs : List Char) : Prop :=
  ∃ pieces, List.Forall₂ Escaping s.toList pieces ∧ cs = '"' :: (pieces.flatten ++ ['"'])

inductive Piece : List Char → Prop where
  | plain {c : Char} (h : Plain c) : Piece [c]
  | letter {e c : Char} (h : (e, c) ∈ escapes) : Piece ['\\', e]
  | unicode {n : Nat} {ds : List Char} (h : HexText n ds) : Piece ('\\' :: 'u' :: ds)

def AnyString (cs : List Char) : Prop :=
  ∃ pieces : List (List Char), (∀ p ∈ pieces, Piece p) ∧ cs = '"' :: (pieces.flatten ++ ['"'])

def Padded (P : List Char → Prop) (cs : List Char) : Prop :=
  ∃ ws v us, Spaces ws ∧ P v ∧ Spaces us ∧ cs = ws ++ (v ++ us)

/-- What may stand before a value inside a list or an object: space, and a name with its colon. -/
def Lead : Frame → List Char → Prop
  | .list, cs => Spaces cs
  | .object, cs => ∃ name xs, Padded AnyString name ∧ Spaces xs ∧ cs = name ++ ':' :: xs

def Frame.opening : Frame → Char
  | .list => '['
  | .object => '\x7b'

inductive Part where
  | value
  | inside (f : Frame)

inductive Written : Part → List Char → Prop where
  | word {cs : List Char} (h : cs ∈ ["null".toList, "true".toList, "false".toList]) :
      Written .value cs
  | number {cs : List Char} (h : NumberText cs) : Written .value cs
  | string {cs : List Char} (h : AnyString cs) : Written .value cs
  | empty (f : Frame) {ws : List Char} (h : Spaces ws) :
      Written .value (f.opening :: (ws ++ [f.close]))
  | full {f : Frame} {cs : List Char} (h : Written (.inside f) cs) :
      Written .value (f.opening :: (cs ++ [f.close]))
  | last {f : Frame} {lead v us : List Char} (hlead : Lead f lead) (h : Written .value v)
      (hus : Spaces us) : Written (.inside f) (lead ++ (v ++ us))
  | more {f : Frame} {lead v us cs : List Char} (hlead : Lead f lead) (h : Written .value v)
      (hus : Spaces us) (hcs : Written (.inside f) cs) :
      Written (.inside f) (lead ++ (v ++ (us ++ ',' :: cs)))

def StringsText (l : List String) (cs : List Char) : Prop :=
  ∃ ds, Text.Separated (fun s => Padded (StringText s)) l ds ∧ cs = '[' :: (ds ++ [']'])

def MemberText (m : String × List Char) (cs : List Char) : Prop :=
  ∃ name value, Padded (StringText m.1) name ∧ Padded (· = m.2) value ∧
    cs = name ++ ':' :: value

def ObjectText (ms : List (String × List Char)) (cs : List Char) : Prop :=
  ∃ ds, (ms = [] ∧ Spaces ds ∨ Text.Separated MemberText ms ds) ∧ cs = '\x7b' :: (ds ++ ['\x7d'])

def valuesOf (name : String) (ms : List (String × List Char)) : List (List Char) :=
  (ms.filter (·.1 = name)).map Prod.snd

def Gives (ms : List (String × List Char)) (name : String) (absent : Prop)
    (present : List Char → Prop) : Prop :=
  valuesOf name ms = [] ∧ absent ∨ ∃ v, valuesOf name ms = [v] ∧ present v

def Holds {α : Type} (ms : List (String × List Char)) (name : String) (o : Option α)
    (P : α → List Char → Prop) : Prop :=
  Gives ms name (o = none) fun v => ∃ a ∈ o, P a v

def Others (names : List String) (ms : List (String × List Char)) : Prop :=
  ∀ m ∈ ms, m.1 ∉ names → Written .value m.2

theorem spaces_nil : Spaces [] := by simp [Spaces]

theorem skipSpace_append {ws : List Char} (h : Spaces ws) (cs : List Char) :
    skipSpace (ws ++ cs) = skipSpace cs := List.dropWhile_append_of_pos h

theorem skipSpace_cons {c : Char} (h : ¬isSpace c) (cs : List Char) :
    skipSpace (c :: cs) = c :: cs := List.dropWhile_cons_of_neg h

theorem Ends.append {us cs : List Char} (hus : Spaces us) (hcs : Ends cs) : Ends (us ++ cs) := by
  cases us with
  | nil => exact hcs
  | cons c us =>
    intro d hd
    cases hd
    exact .inl (hus c List.mem_cons_self)

theorem ends_cons {c : Char} (h : c ∈ [',', ']', '\x7d']) (cs : List Char) : Ends (c :: cs) := by
  intro d hd
  cases hd
  exact .inr h

theorem ends_of_spaces {us : List Char} (h : Spaces us) : Ends us := by
  intro c hc
  exact .inl (h c (List.mem_of_mem_head? hc))

/-! ### Numbers -/

def NoDigit (rest : List Char) : Prop := ∀ c ∈ rest.head?, ¬c.isDigit

theorem noDigit_cons {c : Char} (h : ¬c.isDigit) (cs : List Char) : NoDigit (c :: cs) := by
  intro d hd
  cases hd
  exact h

theorem takeWhile_digits {ds rest : List Char} (hds : ∀ c ∈ ds, c.isDigit) (hrest : NoDigit rest) :
    (ds ++ rest).takeWhile Char.isDigit = ds := by
  rw [List.takeWhile_append_of_pos hds]
  cases rest with
  | nil => simp
  | cons c rest => simp [List.takeWhile_cons_of_neg (hrest c rfl)]

theorem dropWhile_digits {ds rest : List Char} (hds : ∀ c ∈ ds, c.isDigit) (hrest : NoDigit rest) :
    (ds ++ rest).dropWhile Char.isDigit = rest := by
  rw [List.dropWhile_append_of_pos hds]
  cases rest with
  | nil => rfl
  | cons c rest => exact List.dropWhile_cons_of_neg (hrest c rfl)

theorem not_isSpace_of_isDigit {c : Char} (h : c.isDigit) : ¬isSpace c := by
  intro hspace
  simp only [isSpace, Bool.or_eq_true, beq_iff_eq] at hspace
  obtain ((rfl | rfl) | rfl) | rfl := hspace <;> exact absurd h (by decide)

theorem NoDigit.of_ends {rest : List Char} (h : Ends rest) : NoDigit rest := by
  intro c hc hdigit
  obtain hspace | hclose := h c hc
  · exact not_isSpace_of_isDigit hdigit hspace
  · fin_cases hclose <;> exact absurd hdigit (by decide)

theorem Ends.head?_ne {c : Char} {rest : List Char} (h : Ends rest)
    (hc : ¬(isSpace c ∨ c ∈ [',', ']', '\x7d'])) : rest.head? ≠ some c :=
  fun hhead => hc (h c hhead)

theorem scanScale_of_ends {rest : List Char} (h : Ends rest) (atEnd : Cause) (n : Numeral) :
    scanScale atEnd n rest = .ok (n, rest) := by
  unfold scanScale
  split
  · exact absurd rfl (h.head?_ne (by decide))
  · exact absurd rfl (h.head?_ne (by decide))
  · rfl

theorem scanFraction_of_ne {rest : List Char} (h : rest.head? ≠ some '.') (atEnd : Cause)
    (n : Numeral) : scanFraction atEnd n rest = scanScale atEnd n rest := by
  unfold scanFraction
  split
  · exact absurd rfl h
  · rfl

theorem scanExponent_text {sign ds rest : List Char} (hsign : sign ∈ [[], ['+'], ['-']])
    (hds : Digits ds) (hrest : NoDigit rest) (atEnd : Cause) :
    ∃ e, scanExponent atEnd (sign ++ (ds ++ rest)) = .ok (e, rest) := by
  obtain ⟨hne, hds⟩ := hds
  obtain ⟨d, ds, rfl⟩ := List.exists_cons_of_ne_nil hne
  rw [List.forall_mem_cons] at hds
  have hplus : d ≠ '+' := by
    rintro rfl
    exact absurd hds.1 (by decide)
  have hminus : d ≠ '-' := by
    rintro rfl
    exact absurd hds.1 (by decide)
  have hdrop := dropWhile_digits hds.2 hrest
  fin_cases hsign <;> simp [scanExponent, hplus, hminus, hds.1, hdrop]

theorem scanScale_text {cs rest : List Char} (hcs : ExponentText cs) (hrest : Ends rest)
    (atEnd : Cause) (n : Numeral) : ∃ m, scanScale atEnd n (cs ++ rest) = .ok (m, rest) := by
  obtain rfl | ⟨e, he, sign, hsign, ds, hds, rfl⟩ := hcs
  · exact ⟨n, scanScale_of_ends hrest atEnd n⟩
  · obtain ⟨x, hx⟩ := scanExponent_text hsign hds (.of_ends hrest) atEnd
    fin_cases he <;> simp [scanScale, hx]

theorem noDigit_exponent {cs rest : List Char} (hcs : ExponentText cs) (hrest : Ends rest) :
    NoDigit (cs ++ rest) := by
  obtain rfl | ⟨e, he, sign, -, ds, -, rfl⟩ := hcs
  · exact .of_ends hrest
  · fin_cases he <;> exact noDigit_cons (by decide) _

theorem head?_exponent_ne {cs rest : List Char} (hcs : ExponentText cs) (hrest : Ends rest) :
    (cs ++ rest).head? ≠ some '.' := by
  obtain rfl | ⟨e, he, sign, -, ds, -, rfl⟩ := hcs
  · exact hrest.head?_ne (by decide)
  · fin_cases he <;> simp

theorem scanFraction_text {fraction exponent rest : List Char} (hfraction : FractionText fraction)
    (hexponent : ExponentText exponent) (hrest : Ends rest) (atEnd : Cause) (n : Numeral) :
    ∃ m, scanFraction atEnd n (fraction ++ (exponent ++ rest)) = .ok (m, rest) := by
  obtain rfl | ⟨ds, ⟨hne, hds⟩, rfl⟩ := hfraction
  · rw [List.nil_append, scanFraction_of_ne (head?_exponent_ne hexponent hrest)]
    exact scanScale_text hexponent hrest atEnd n
  · obtain ⟨d, ds, rfl⟩ := List.exists_cons_of_ne_nil hne
    rw [List.forall_mem_cons] at hds
    simp [scanFraction, hds.1, dropWhile_digits hds.2 (noDigit_exponent hexponent hrest),
      scanScale_text hexponent hrest]

theorem noDigit_fraction {fraction exponent rest : List Char} (hfraction : FractionText fraction)
    (hexponent : ExponentText exponent) (hrest : Ends rest) :
    NoDigit (fraction ++ (exponent ++ rest)) := by
  obtain rfl | ⟨ds, -, rfl⟩ := hfraction
  · rw [List.nil_append]
    exact noDigit_exponent hexponent hrest
  · exact noDigit_cons (by decide) _

theorem scanNumeral_whole {whole rest : List Char} (hwhole : WholeText whole) (hrest : NoDigit rest)
    (atEnd : Cause) : scanNumeral atEnd (whole ++ rest) = scanFraction atEnd { whole } rest := by
  obtain rfl | ⟨⟨hne, hds⟩, hzero⟩ := hwhole
  · have hhead : ¬(rest.head?.map Char.isDigit).getD false := by
      cases rest with
      | nil => simp
      | cons c rest => exact hrest c rfl
    simp [scanNumeral, hhead]
  · obtain ⟨d, ds, rfl⟩ := List.exists_cons_of_ne_nil hne
    rw [List.forall_mem_cons] at hds
    have hd : d ≠ '0' := by
      rintro rfl
      exact hzero rfl
    rw [List.cons_append, scanNumeral.eq_3 _ _ _ hd]
    simp [hds.1, takeWhile_digits hds.2 hrest, dropWhile_digits hds.2 hrest]

theorem scanNumeral_text {whole fraction exponent rest : List Char} (hwhole : WholeText whole)
    (hfraction : FractionText fraction) (hexponent : ExponentText exponent) (hrest : Ends rest)
    (atEnd : Cause) :
    ∃ m, scanNumeral atEnd (whole ++ (fraction ++ (exponent ++ rest))) = .ok (m, rest) := by
  rw [scanNumeral_whole hwhole (noDigit_fraction hfraction hexponent hrest)]
  exact scanFraction_text hfraction hexponent hrest atEnd _

/-! ### Strings -/

theorem digit?_hexDigit {d : Nat} {c : Char} (hd : d < 16) (h : HexDigit d c) :
    Text.digit? 16 c = some d := by
  obtain rfl | rfl := h
  · exact Text.digit?_digitChar (by decide) hd
  · interval_cases d <;> decide

theorem readHex_text {n : Nat} {ds : List Char} (h : HexText n ds) (rest : List Char) :
    readHex (ds ++ rest) = .ok (n, rest) := by
  obtain ⟨hn, h⟩ := h
  simp only [List.forall₂_cons_left_iff, List.forall₂_nil_left_iff] at h
  obtain ⟨a, _, ha, ⟨b, _, hb, ⟨c, _, hc, ⟨d, _, hd, rfl, rfl⟩, rfl⟩, rfl⟩, rfl⟩ := h
  have hread : Text.read? 16 [a, b, c, d] = some n := by
    simp only [Text.read?, List.isEmpty_cons, Bool.false_eq_true, if_false, Text.readOn?,
      digit?_hexDigit (by omega) ha, digit?_hexDigit (by omega) hb, digit?_hexDigit (by omega) hc,
      digit?_hexDigit (by omega) hd, Option.bind_some]
    congr 1
    omega
  simp [readHex, hread]

theorem not_isSurrogate (c : Char) : ¬isLow c.toNat ∧ ¬isHigh c.toNat := by
  have hvalid : c.toNat < 0xd800 ∨ 0xdfff < c.toNat ∧ c.toNat < 0x110000 := c.valid
  simp only [isLow, isHigh, Bool.and_eq_true, decide_eq_true_eq]
  omega

theorem escape_letter {e c : Char} (h : (e, c) ∈ escapes) (rest : List Char) :
    readEscape (e :: rest) = .ok (c, rest) ∧ skipEscape (e :: rest) = .ok rest := by
  simp only [escapes, List.mem_cons, Prod.mk.injEq, List.not_mem_nil, or_false] at h
  obtain ⟨rfl, rfl⟩ | ⟨rfl, rfl⟩ | ⟨rfl, rfl⟩ | ⟨rfl, rfl⟩ | ⟨rfl, rfl⟩ | ⟨rfl, rfl⟩ | ⟨rfl, rfl⟩ |
    ⟨rfl, rfl⟩ := h <;> exact ⟨rfl, rfl⟩

theorem readEscape_unicode {c : Char} {ds : List Char} (h : HexText c.toNat ds) (rest : List Char) :
    readEscape ('u' :: (ds ++ rest)) = .ok (c, rest) := by
  simp [readEscape, readHex_text h, not_isSurrogate, Char.ofNat_toNat]

theorem readEscape_pair {c : Char} {high low : Nat} {ds es : List Char}
    (hhigh : HexText (0xd800 + high) ds) (hlow : HexText (0xdc00 + low) es)
    (hlt : high < 0x400 ∧ low < 0x400) (hc : c.toNat = 0x10000 + high * 0x400 + low)
    (rest : List Char) :
    readEscape ('u' :: (ds ++ '\\' :: 'u' :: (es ++ rest))) = .ok (c, rest) := by
  have hhigh' : isLow (0xd800 + high) = false ∧ isHigh (0xd800 + high) = true := by
    simp [isLow, isHigh]
    omega
  have hlow' : isLow (0xdc00 + low) = true := by
    simp [isLow]
    omega
  have hchar : ofSurrogates (0xd800 + high) (0xdc00 + low) = c := by
    rw [ofSurrogates, Nat.add_sub_cancel_left, Nat.add_sub_cancel_left, ← hc, Char.ofNat_toNat]
  simp [readEscape, readHex_text hhigh, hhigh', readLow, readHex_text hlow, hlow', hchar]

theorem readString_escape {done cs rest : List Char} {c : Char}
    (h : readEscape cs = .ok (c, rest)) :
    readString done ('\\' :: cs) = readString (c :: done) rest := by
  rw [readString]
  split
  · next hr => simp [h] at hr
  · next hr =>
    rw [h] at hr
    cases hr
    rfl

theorem readString_plain {c : Char} (h : Plain c) (done rest : List Char) :
    readString done (c :: rest) = readString (c :: done) rest := by
  obtain ⟨hlow, hquote, hslash⟩ := h
  rw [readString.eq_4 _ _ _ hquote hslash, if_neg (by omega)]

/-- A character of a string is read from any of its texts. -/
theorem readString_escaping {c : Char} {piece : List Char} (h : Escaping c piece)
    (done rest : List Char) : readString done (piece ++ rest) = readString (c :: done) rest := by
  cases h with
  | plain h => exact readString_plain h done rest
  | letter h => exact readString_escape (escape_letter h rest).1
  | unicode h => exact readString_escape (readEscape_unicode h rest)
  | pair hhigh hlow hlt hc =>
    rw [List.cons_append, List.cons_append, List.append_assoc]
    exact readString_escape (readEscape_pair hhigh hlow hlt hc rest)

theorem readString_pieces {s : List Char} {pieces : List (List Char)}
    (h : List.Forall₂ Escaping s pieces) (done rest : List Char) :
    readString done (pieces.flatten ++ '"' :: rest) = .ok (done.reverse ++ s, rest) := by
  induction h generalizing done with
  | nil => simp [readString]
  | cons hc _ ih =>
    rw [List.flatten_cons, List.append_assoc, readString_escaping hc, ih]
    simp

theorem skipString_escape {cs rest : List Char} (h : skipEscape cs = .ok rest) :
    skipString ('\\' :: cs) = skipString rest := by
  rw [skipString]
  split
  · next hr => simp [h] at hr
  · next hr =>
    rw [h] at hr
    cases hr
    rfl

theorem skipString_piece {piece : List Char} (h : Piece piece) (rest : List Char) :
    skipString (piece ++ rest) = skipString rest := by
  cases h with
  | plain h =>
    obtain ⟨hlow, hquote, hslash⟩ := h
    rw [List.singleton_append, skipString.eq_4 _ _ hquote hslash, if_neg (by omega)]
  | letter h => exact skipString_escape (escape_letter h rest).2
  | @unicode n ds h =>
    have hskip : skipEscape ('u' :: (ds ++ rest)) = .ok rest := by
      simp [skipEscape, readHex_text h, Except.map]
    exact skipString_escape hskip

theorem skipString_pieces {pieces : List (List Char)} (h : ∀ p ∈ pieces, Piece p)
    (rest : List Char) : skipString (pieces.flatten ++ '"' :: rest) = .ok rest := by
  induction pieces with
  | nil => simp [skipString]
  | cons p pieces ih =>
    rw [List.forall_mem_cons] at h
    rw [List.flatten_cons, List.append_assoc, skipString_piece h.1, ih h.2]

end Json

end AdmissionGuard

import AdmissionGuard.Http.Header
import Mathlib.Data.List.Forall2

/-! Which field a name finds: the first that is spelled like it, in letters of either case. Setting one
field changes nothing that another name finds. -/
namespace AdmissionGuard.Http

def SameLetter (c d : Char) : Prop :=
  c = d ∨ (c.isUpper ∧ d.toNat = c.toNat + 32) ∨ (d.isUpper ∧ c.toNat = d.toNat + 32)

def SameName (a b : String) : Prop := List.Forall₂ SameLetter a.toList b.toList

theorem isUpper_iff (c : Char) : c.isUpper ↔ 65 ≤ c.toNat ∧ c.toNat ≤ 90 := by
  have h : c.isUpper = decide (c.val ≥ 'A'.val ∧ c.val ≤ 'Z'.val) := rfl
  simp [h, UInt32.le_iff_toNat_le, ← Char.toNat_val]

theorem toNat_toLower (c : Char) :
    c.toLower.toNat = if c.isUpper then c.toNat + 32 else c.toNat := by
  by_cases h : c.isUpper
  · rw [if_pos h]
    have hrange := (isUpper_iff c).1 h
    have hval : c.val ≥ 'A'.val ∧ c.val ≤ 'Z'.val := by
      simpa [UInt32.le_iff_toNat_le, ← Char.toNat_val] using hrange
    calc c.toLower.toNat = (c.val + ('a'.val - 'A'.val)).toNat := congrArg Char.toNat (dif_pos hval)
      _ = (c.toNat + 32) % 4294967296 := UInt32.toNat_add c.val _
      _ = c.toNat + 32 := Nat.mod_eq_of_lt (by omega)
  · rw [if_neg h]
    have hval : ¬(c.val ≥ 'A'.val ∧ c.val ≤ 'Z'.val) := by
      simpa [UInt32.le_iff_toNat_le, ← Char.toNat_val] using mt (isUpper_iff c).2 h
    exact congrArg Char.toNat (dif_neg hval)

theorem toLower_eq_iff (c d : Char) : c.toLower = d.toLower ↔ SameLetter c d := by
  have hc := isUpper_iff c
  have hd := isUpper_iff d
  rw [← Char.toNat_inj, toNat_toLower, toNat_toLower, SameLetter, ← Char.toNat_inj]
  by_cases hcu : c.isUpper <;> by_cases hdu : d.isUpper <;> simp [hcu, hdu] at hc hd ⊢ <;> omega

theorem lowerCase_eq_iff (a b : String) : lowerCase a = lowerCase b ↔ SameName a b := by
  rw [← String.toList_inj, lowerCase, lowerCase, String.toList_map, String.toList_map,
    ← List.forall₂_eq_eq_eq, List.forall₂_map_left_iff, List.forall₂_map_right_iff]
  simp only [toLower_eq_iff]
  rfl

theorem firstValue?_eq_some (headers : List Header) (name : String) (value : List UInt8) :
    firstValue? headers name = some value ↔
      ∃ before h after, headers = before ++ h :: after ∧ SameName h.name name ∧ h.value = value ∧
        ∀ g ∈ before, ¬SameName g.name name := by
  rw [firstValue?, Option.map_eq_some_iff]
  simp only [List.find?_eq_some_iff_append, decide_eq_true_eq, Bool.not_eq_true',
    decide_eq_false_iff_not, lowerCase_eq_iff]
  constructor
  · intro h
    obtain ⟨h, ⟨hname, before, after, heq, hbefore⟩, hvalue⟩ := h
    exact ⟨before, h, after, heq, hname, hvalue, hbefore⟩
  · intro h
    obtain ⟨before, h, after, heq, hname, hvalue, hbefore⟩ := h
    exact ⟨h, ⟨hname, before, after, heq, hbefore⟩, hvalue⟩

theorem firstValue?_eq_none (headers : List Header) (name : String) :
    firstValue? headers name = none ↔ ∀ h ∈ headers, ¬SameName h.name name := by
  simp [firstValue?, lowerCase_eq_iff]

theorem firstValue?_cons (h : Header) (rest : List Header) (name : String) :
    firstValue? (h :: rest) name =
      if lowerCase h.name = lowerCase name then some h.value else firstValue? rest name := by
  by_cases hname : lowerCase h.name = lowerCase name <;> simp [firstValue?, hname]

theorem firstValue?_setField_self (headers : List Header) (name : String) (value : List UInt8) :
    firstValue? (setField name value headers) name = some value := by
  induction headers with
  | nil => simp [setField, firstValue?]
  | cons h rest ih =>
    rw [setField]
    by_cases hname : lowerCase h.name = lowerCase name
    · rw [if_pos hname, firstValue?_cons, if_pos hname]
    · rw [if_neg hname, firstValue?_cons, if_neg hname, ih]

theorem firstValue?_without {name other : String} (headers : List Header)
    (hne : lowerCase other ≠ lowerCase name) :
    firstValue? (headers.filter fun g => lowerCase g.name ≠ lowerCase name) other =
      firstValue? headers other := by
  induction headers with
  | nil => rfl
  | cons h rest ih =>
    by_cases hname : lowerCase h.name = lowerCase name
    · have hother : lowerCase h.name ≠ lowerCase other := fun heq => hne (heq.symm.trans hname)
      rw [List.filter_cons_of_neg (by simpa using hname), firstValue?_cons, if_neg hother, ih]
    · rw [List.filter_cons_of_pos (by simpa using hname), firstValue?_cons, firstValue?_cons, ih]

theorem firstValue?_setField_other {name other : String} (headers : List Header)
    (value : List UInt8) (hne : lowerCase other ≠ lowerCase name) :
    firstValue? (setField name value headers) other = firstValue? headers other := by
  induction headers with
  | nil => simp [setField, firstValue?, hne.symm]
  | cons h rest ih =>
    rw [setField]
    by_cases hname : lowerCase h.name = lowerCase name
    · have hother : lowerCase h.name ≠ lowerCase other := fun heq => hne (heq.symm.trans hname)
      rw [if_pos hname, firstValue?_cons, firstValue?_cons, if_neg hother, if_neg hother,
        firstValue?_without rest hne]
    · rw [if_neg hname, firstValue?_cons, firstValue?_cons, ih]

theorem toNat_ofNat_byte (b : UInt8) : (Char.ofNat b.toNat).toNat = b.toNat := by
  have hlt := b.toNat_lt
  have hvalid : b.toNat.isValidChar := .inl (by omega)
  rw [Char.ofNat, dif_pos hvalid]
  rfl

theorem utf8EncodeChar_byte {b : UInt8} (h : b.toNat < 128) :
    String.utf8EncodeChar (Char.ofNat b.toNat) = [b] := by
  have hc : (Char.ofNat b.toNat).val.toNat = b.toNat := toNat_ofNat_byte b
  have hle : b.toNat ≤ 127 := by omega
  simp [String.utf8EncodeChar, hc, hle]

theorem isTextByte_iff (b : UInt8) :
    isTextByte b ↔ b.toNat = 9 ∨ 32 ≤ b.toNat ∧ b.toNat ≤ 126 := by
  simp [isTextByte, ← UInt8.toNat_inj, UInt8.le_iff_toNat_le]

/-- A field can hold any text that was read from one. -/
theorem fieldValue?_of_textValue? {value : List UInt8} {t : String}
    (h : textValue? value = some t) : fieldValue? t = some value := by
  rw [textValue?] at h
  split at h
  · next hall =>
    cases h
    have htext : ∀ b ∈ value, b.toNat = 9 ∨ 32 ≤ b.toNat ∧ b.toNat ≤ 126 := by
      simpa [isTextByte_iff] using hall
    have hbytes : (value.map fun b => Char.ofNat b.toNat).flatMap String.utf8EncodeChar = value := by
      have hone : ∀ b ∈ value, String.utf8EncodeChar (Char.ofNat b.toNat) = [b] := by
        intro b hb
        have := htext b hb
        exact utf8EncodeChar_byte (by omega)
      rw [List.flatMap_map, List.flatMap_congr hone, List.flatMap_singleton']
    have hfits : ∀ b ∈ value, (b == 9 || (32 ≤ b && b != 127)) = true := by
      intro b hb
      have := htext b hb
      simp [← UInt8.toNat_inj, UInt8.le_iff_toNat_le]
      omega
    rw [fieldValue?, String.toList_ofList, hbytes]
    exact if_pos (List.all_eq_true.2 hfits)
  · cases h

end AdmissionGuard.Http

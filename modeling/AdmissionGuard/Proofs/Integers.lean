import AdmissionGuard.Proofs.AddressText
import Mathlib.Tactic.FinCases
import Mathlib.Tactic.Ring

/-! Decimal integers. A text is read as a 64-bit number exactly if it is one sign or none and
decimal digits, as many as there may be, of a number in range. -/
namespace AdmissionGuard

namespace Text

def decimalValue (ds : List Char) : Nat :=
  Nat.ofDigits 10 (ds.reverse.map fun c => c.toNat - '0'.toNat)

theorem decimalValue_cons (c : Char) (ds : List Char) :
    decimalValue (c :: ds) = decimalValue ds + 10 ^ ds.length * (c.toNat - '0'.toNat) := by
  simp [decimalValue, Nat.ofDigits_append]

theorem readOn?_ten {n m : Nat} {ds : List Char} :
    readOn? 10 n ds = some m ↔
      (∀ c ∈ ds, c.isDigit) ∧ m = n * 10 ^ ds.length + decimalValue ds := by
  induction ds generalizing n with
  | nil => simpa [readOn?, decimalValue] using eq_comm
  | cons c ds ih =>
    rw [readOn?, Option.bind_eq_some_iff, List.forall_mem_cons, decimalValue_cons]
    simp only [digit?_ten_eq_some, ih, List.length_cons, pow_succ]
    constructor
    · rintro ⟨_, ⟨hc, rfl⟩, hds, rfl⟩
      exact ⟨⟨hc, hds⟩, by ring⟩
    · rintro ⟨⟨hc, hds⟩, rfl⟩
      exact ⟨_, ⟨hc, rfl⟩, hds, by ring⟩

theorem read?_ten {m : Nat} {ds : List Char} :
    read? 10 ds = some m ↔ ds ≠ [] ∧ (∀ c ∈ ds, c.isDigit) ∧ m = decimalValue ds := by
  rw [read?]
  cases ds with
  | nil => simp
  | cons c ds =>
    rw [if_neg (by simp), readOn?_ten, zero_mul, zero_add]
    simp

def IntegerText (cs : List Char) (n : Int) : Prop :=
  ∃ sign ds, sign ∈ [[], ['+'], ['-']] ∧ ds ≠ [] ∧ (∀ c ∈ ds, c.isDigit) ∧ cs = sign ++ ds ∧
    n = (if sign = ['-'] then -(decimalValue ds : Int) else decimalValue ds) ∧
    -0x8000000000000000 ≤ n ∧ n < 0x8000000000000000

theorem inInt64_iff {n : Int} : inInt64 n ↔ -0x8000000000000000 ≤ n ∧ n < 0x8000000000000000 := by
  rw [inInt64, Bool.and_eq_true, decide_eq_true_eq, decide_eq_true_eq]

theorem readInt?_minus (ds : List Char) :
    readInt? ('-' :: ds) = ((read? 10 ds).map fun m => -Int.ofNat m).filter inInt64 := by
  rw [readInt?]
  cases read? 10 ds <;> rfl

theorem readInt?_plus (ds : List Char) :
    readInt? ('+' :: ds) = ((read? 10 ds).map Int.ofNat).filter inInt64 := rfl

theorem readInt?_unsigned {cs : List Char} (hminus : ∀ ds, cs ≠ '-' :: ds)
    (hplus : ∀ ds, cs ≠ '+' :: ds) :
    readInt? cs = ((read? 10 cs).map Int.ofNat).filter inInt64 := by
  unfold readInt?
  split
  · exact absurd rfl (hminus _)
  · exact absurd rfl (hplus _)
  · rfl

/-- What follows the sign is read as digits, and then the range is checked. -/
theorem signed_eq_some {f : Nat → Int} {ds : List Char} {n : Int} :
    ((read? 10 ds).map f).filter inInt64 = some n ↔
      ds ≠ [] ∧ (∀ c ∈ ds, c.isDigit) ∧ n = f (decimalValue ds) ∧
        -0x8000000000000000 ≤ n ∧ n < 0x8000000000000000 := by
  rw [Option.filter_eq_some_iff, inInt64_iff, Option.map_eq_some_iff]
  simp only [read?_ten]
  constructor
  · rintro ⟨⟨_, ⟨hne, hdigits, rfl⟩, rfl⟩, hrange⟩
    exact ⟨hne, hdigits, rfl, hrange⟩
  · rintro ⟨hne, hdigits, rfl, hrange⟩
    exact ⟨⟨_, ⟨hne, hdigits, rfl⟩, rfl⟩, hrange⟩

theorem integerText_of_readInt? {cs : List Char} {n : Int} (h : readInt? cs = some n) :
    IntegerText cs n := by
  by_cases hminus : ∃ ds, cs = '-' :: ds
  · obtain ⟨ds, rfl⟩ := hminus
    rw [readInt?_minus, signed_eq_some] at h
    exact ⟨['-'], ds, by simp, h.1, h.2.1, rfl, h.2.2⟩
  by_cases hplus : ∃ ds, cs = '+' :: ds
  · obtain ⟨ds, rfl⟩ := hplus
    rw [readInt?_plus, signed_eq_some] at h
    exact ⟨['+'], ds, by simp, h.1, h.2.1, rfl, h.2.2⟩
  rw [readInt?_unsigned (not_exists.1 hminus) (not_exists.1 hplus), signed_eq_some] at h
  exact ⟨[], cs, by simp, h.1, h.2.1, rfl, h.2.2⟩

theorem readInt?_of_integerText {cs : List Char} {n : Int} (h : IntegerText cs n) :
    readInt? cs = some n := by
  obtain ⟨sign, ds, hsign, hne, hdigits, rfl, hvalue, hrange⟩ := h
  fin_cases hsign
  · have hsigned : ∀ c r, ¬c.isDigit → ds ≠ c :: r := by
      rintro c r hc rfl
      exact hc (hdigits c List.mem_cons_self)
    have hwhole := readInt?_unsigned (fun r => hsigned '-' r (by decide))
      (fun r => hsigned '+' r (by decide))
    exact hwhole.trans (signed_eq_some.2 ⟨hne, hdigits, hvalue, hrange⟩)
  · exact (readInt?_plus ds).trans (signed_eq_some.2 ⟨hne, hdigits, hvalue, hrange⟩)
  · exact (readInt?_minus ds).trans (signed_eq_some.2 ⟨hne, hdigits, hvalue, hrange⟩)

theorem readInt?_eq_some_iff {cs : List Char} {n : Int} :
    readInt? cs = some n ↔ IntegerText cs n :=
  ⟨integerText_of_readInt?, readInt?_of_integerText⟩

end Text
end AdmissionGuard

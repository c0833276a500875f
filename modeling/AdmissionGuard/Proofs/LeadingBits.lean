import AdmissionGuard.Address.Range
import Mathlib.Algebra.Ring.Nat
import Mathlib.Data.List.Induction

/-! Addresses as bits. A range has the addresses of its family whose first bits are its own. -/
namespace AdmissionGuard

def bitsOf : Nat → Nat → List Bool
  | 0, _ => []
  | width + 1, n => bitsOf width (n / 2) ++ [decide (n % 2 = 1)]

def joinBits (n : Nat) (bs : List Bool) : Nat := bs.foldl (fun m b => 2 * m + b.toNat) n

theorem length_bitsOf (width n : Nat) : (bitsOf width n).length = width := by
  induction width generalizing n with
  | zero => rfl
  | succ width ih => rw [bitsOf, List.length_append, ih, List.length_singleton]

theorem joinBits_append (n : Nat) (bs cs : List Bool) :
    joinBits n (bs ++ cs) = joinBits (joinBits n bs) cs := List.foldl_append

theorem joinBits_bitsOf {width k : Nat} (h : k < 2 ^ width) (n : Nat) :
    joinBits n (bitsOf width k) = n * 2 ^ width + k := by
  induction width generalizing k with
  | zero =>
    have hk : k = 0 := by omega
    rw [hk, bitsOf, Nat.pow_zero, Nat.mul_one]
    rfl
  | succ width ih =>
    have hfront : k / 2 < 2 ^ width := by omega
    have hlast : (decide (k % 2 = 1)).toNat = k % 2 := by
      obtain hk | hk := Nat.mod_two_eq_zero_or_one k <;> simp [hk]
    rw [bitsOf, joinBits_append, ih hfront]
    calc
      joinBits (n * 2 ^ width + k / 2) [decide (k % 2 = 1)]
          = 2 * (n * 2 ^ width + k / 2) + (decide (k % 2 = 1)).toNat := rfl
      _ = 2 * (n * 2 ^ width + k / 2) + k % 2 := by rw [hlast]
      _ = n * 2 ^ (width + 1) + (2 * (k / 2) + k % 2) := by
            rw [Nat.pow_succ, ← Nat.mul_assoc]
            omega
      _ = n * 2 ^ (width + 1) + k := by rw [Nat.div_add_mod]

theorem bitsOf_joinBits (bs : List Bool) : bitsOf bs.length (joinBits 0 bs) = bs := by
  induction bs using List.reverseRecOn with
  | nil => rfl
  | append_singleton bs b ih =>
    have hjoin : joinBits 0 (bs ++ [b]) = 2 * joinBits 0 bs + b.toNat := joinBits_append 0 bs [b]
    have hb := b.toNat_lt
    have hfront : (2 * joinBits 0 bs + b.toNat) / 2 = joinBits 0 bs := by omega
    have hlast : decide ((2 * joinBits 0 bs + b.toNat) % 2 = 1) = b := by
      rw [Nat.mul_add_mod]
      cases b <;> rfl
    rw [List.length_append, List.length_singleton, hjoin, bitsOf, hfront, hlast, ih]

theorem joinBits_inj {bs cs : List Bool} (hlength : bs.length = cs.length) :
    joinBits 0 bs = joinBits 0 cs ↔ bs = cs := by
  refine ⟨fun h => ?_, fun h => by rw [h]⟩
  rw [← bitsOf_joinBits bs, h, hlength, bitsOf_joinBits]

theorem joinBits_shiftRight_length (n : Nat) (bs : List Bool) :
    joinBits n bs >>> bs.length = n := by
  induction bs generalizing n with
  | nil => rfl
  | cons b bs ih =>
    have hb := b.toNat_lt
    calc
      joinBits n (b :: bs) >>> (bs.length + 1)
          = (joinBits (2 * n + b.toNat) bs >>> bs.length) >>> 1 := Nat.shiftRight_add _ _ 1
      _ = (2 * n + b.toNat) >>> 1 := by rw [ih]
      _ = n := by
            rw [Nat.shiftRight_eq_div_pow]
            omega

/-- A shift to the right keeps the first bits. -/
theorem joinBits_shiftRight (bs : List Bool) (p : Nat) :
    joinBits 0 bs >>> (bs.length - p) = joinBits 0 (bs.take p) := by
  conv_lhs => rw [← List.take_append_drop p bs, joinBits_append]
  rw [List.take_append_drop, ← List.length_drop, joinBits_shiftRight_length]

section
variable {α : Type} {width : Nat} {value : α → Nat} (words : List α)

theorem joinBits_words (h : ∀ x, value x < 2 ^ width) (n : Nat) :
    joinBits n (words.flatMap fun x => bitsOf width (value x)) =
      words.foldl (fun n x => n * 2 ^ width + value x) n := by
  induction words generalizing n with
  | nil => rfl
  | cons x words ih => rw [List.flatMap_cons, joinBits_append, joinBits_bitsOf (h x), ih,
      List.foldl_cons]

theorem length_words :
    (words.flatMap fun x => bitsOf width (value x)).length = words.length * width := by
  induction words with
  | nil => exact (Nat.zero_mul width).symm
  | cons x words ih =>
    rw [List.flatMap_cons, List.length_append, length_bitsOf, ih, List.length_cons, Nat.succ_mul,
      Nat.add_comm]

theorem words_inj {words others : List α} (h : ∀ x, value x < 2 ^ width)
    (hvalue : ∀ x y, value x = value y → x = y) (hlength : words.length = others.length)
    (hbits : words.flatMap (fun x => bitsOf width (value x)) =
      others.flatMap fun x => bitsOf width (value x)) : words = others := by
  induction words generalizing others with
  | nil => exact (List.length_eq_zero_iff.1 hlength.symm).symm
  | cons x words ih =>
    cases others with
    | nil => cases hlength
    | cons y others =>
      rw [List.flatMap_cons, List.flatMap_cons] at hbits
      obtain ⟨hfirst, hrest⟩ := List.append_inj hbits (by rw [length_bitsOf, length_bitsOf])
      have hjoin := congrArg (joinBits 0) hfirst
      rw [joinBits_bitsOf (h x), joinBits_bitsOf (h y), Nat.zero_mul, Nat.zero_add,
        Nat.zero_add] at hjoin
      rw [hvalue x y hjoin, ih (Nat.succ.inj hlength) hrest]

end

namespace Address

def bits : Address → List Bool
  | v4 a => a.octets.flatMap fun o => bitsOf 8 o.toNat
  | v6 a => a.groups.flatMap fun g => bitsOf 16 g.toNat

theorem length_bits (a : Address) : a.bits.length = a.width := by
  cases a with
  | v4 a => rw [bits, length_words, a.length_octets, width]
  | v6 a => rw [bits, length_words, a.length_groups, width]

theorem joinBits_bits (a : Address) : joinBits 0 a.bits = a.toNat := by
  cases a with
  | v4 a => exact joinBits_words a.octets UInt8.toNat_lt 0
  | v6 a => exact joinBits_words a.groups UInt16.toNat_lt 0

theorem toNat_shiftRight (a : Address) (p : Nat) :
    a.toNat >>> (a.width - p) = joinBits 0 (a.bits.take p) := by
  rw [← joinBits_shiftRight, length_bits, joinBits_bits]

theorem eq_of_bits {a b : Address} (hfamily : a.SameFamily b) (h : a.bits = b.bits) : a = b := by
  cases a with
  | v4 a =>
    cases b with
    | v4 b =>
      have hlength := a.length_octets.trans b.length_octets.symm
      exact congrArg v4
        (IPv4.ext (words_inj UInt8.toNat_lt (fun _ _ => UInt8.toNat_inj.1) hlength h))
    | v6 b => exact hfamily.elim
  | v6 a =>
    cases b with
    | v4 b => exact hfamily.elim
    | v6 b =>
      have hlength := a.length_groups.trans b.length_groups.symm
      exact congrArg v6
        (IPv6.ext (words_inj UInt16.toNat_lt (fun _ _ => UInt16.toNat_inj.1) hlength h))

@[simp] theorem sameFamily_self (a : Address) : a.SameFamily a := by
  cases a <;> exact trivial

theorem SameFamily.width_eq {a b : Address} (h : a.SameFamily b) : a.width = b.width := by
  cases a <;> cases b <;> first | rfl | exact h.elim

end Address

namespace AddressRange

/-- A range has the addresses of its family that agree with it on its number of leading bits. -/
theorem contains_iff_take (r : AddressRange) (a : Address) :
    r.Contains a ↔
      r.base.SameFamily a ∧ r.base.bits.take r.length = a.bits.take r.length := by
  refine and_congr_right fun hfamily => ?_
  have hlength : (r.base.bits.take r.length).length = (a.bits.take r.length).length := by
    simp only [List.length_take, Address.length_bits, hfamily.width_eq]
  rw [Address.toNat_shiftRight, Address.toNat_shiftRight, joinBits_inj hlength]

theorem single_contains_iff (a b : Address) : (single a).Contains b ↔ a = b := by
  have htake : ∀ c : Address, a.SameFamily c → c.bits.take a.width = c.bits := fun c hc =>
    List.take_of_length_le (Nat.le_of_eq (c.length_bits.trans hc.width_eq.symm))
  rw [contains_iff_take, single]
  constructor
  · rintro ⟨hfamily, hbits⟩
    rw [htake a a.sameFamily_self, htake b hfamily] at hbits
    exact Address.eq_of_bits hfamily hbits
  · rintro rfl
    exact ⟨a.sameFamily_self, rfl⟩

end AddressRange
end AdmissionGuard

import AdmissionGuard.Binary64
import Mathlib.Data.Rat.Floor
import Mathlib.Tactic.Linarith
import Mathlib.Tactic.NormNum

/-! Rounding to binary64. It keeps the order of numbers, leaves the numbers of the format alone and
changes any other by at most one part in `2 ^ 53`. -/
namespace AdmissionGuard.Binary64

theorem two_zpow_pos (k : Int) : (0 : Rat) < 2 ^ k := Rat.zpow_pos (by decide)

theorem two_zpow_add (j k : Int) : (2 : Rat) ^ (j + k) = 2 ^ j * 2 ^ k :=
  Rat.zpow_add (by decide) j k

theorem two_zpow_lt {j k : Int} : (2 : Rat) ^ j < 2 ^ k ↔ j < k :=
  zpow_lt_zpow_iff_right₀ one_lt_two

theorem two_zpow_le {j k : Int} : (2 : Rat) ^ j ≤ 2 ^ k ↔ j ≤ k :=
  zpow_le_zpow_iff_right₀ one_lt_two

theorem zpow_log2_le {n : Nat} (hn : n ≠ 0) : (2 : Rat) ^ (n.log2 : Int) ≤ n := by
  rw [zpow_natCast]
  exact_mod_cast Nat.log2_self_le hn

theorem lt_zpow_log2 (n : Nat) : (n : Rat) < 2 ^ ((n.log2 : Int) + 1) := by
  have h : n < 2 ^ (n.log2 + 1) := Nat.lt_log2_self
  exact_mod_cast h

theorem exponent_spec {q : Rat} (hq : 0 < q) :
    2 ^ exponent q ≤ q ∧ q < 2 ^ (exponent q + 1) := by
  have hnum : 0 < q.num := Rat.num_pos.2 hq
  have hfrac : (q.num.natAbs : Rat) = q * q.den := by
    rw [Rat.mul_den_eq_num, ← Int.cast_natCast, Int.natAbs_of_nonneg hnum.le]
  have hden : (0 : Rat) < q.den := by exact_mod_cast q.den_pos
  have hnlow := zpow_log2_le (n := q.num.natAbs) (by omega)
  have hnhigh := lt_zpow_log2 q.num.natAbs
  have hdlow := zpow_log2_le q.den_nz
  have hdhigh := lt_zpow_log2 q.den
  rw [hfrac] at hnlow hnhigh
  have hdef : exponent q =
      if (2 : Rat) ^ ((q.num.natAbs.log2 : Int) - q.den.log2) ≤ q then
        (q.num.natAbs.log2 : Int) - q.den.log2
      else (q.num.natAbs.log2 : Int) - q.den.log2 - 1 := rfl
  rw [hdef]
  generalize (q.num.natAbs.log2 : Int) = a at *
  generalize (q.den.log2 : Int) = b at *
  -- The quotient of the leading powers is the right one or one too high.
  have hlow : (2 : Rat) ^ (a - b - 1) ≤ q := by
    refine le_of_mul_le_mul_right ?_ hden
    calc (2 : Rat) ^ (a - b - 1) * q.den
        ≤ 2 ^ (a - b - 1) * 2 ^ (b + 1) :=
          mul_le_mul_of_nonneg_left hdhigh.le (two_zpow_pos _).le
      _ = 2 ^ a := by rw [← two_zpow_add]; congr 1; omega
      _ ≤ q * q.den := hnlow
  have hhigh : q < 2 ^ (a - b + 1) := by
    refine lt_of_mul_lt_mul_right ?_ hden.le
    calc q * q.den
        < 2 ^ (a + 1) := hnhigh
      _ = 2 ^ (a - b + 1) * 2 ^ b := by rw [← two_zpow_add]; congr 1; omega
      _ ≤ 2 ^ (a - b + 1) * q.den := mul_le_mul_of_nonneg_left hdlow (two_zpow_pos _).le
  split
  · next hle => exact ⟨hle, hhigh⟩
  · next hlt =>
    rw [Int.sub_add_cancel]
    exact ⟨hlow, not_le.1 hlt⟩

theorem exponent_eq {q : Rat} {k : Int} (hlow : 2 ^ k ≤ q) (hhigh : q < 2 ^ (k + 1)) :
    exponent q = k := by
  obtain ⟨hlow', hhigh'⟩ := exponent_spec ((two_zpow_pos k).trans_le hlow)
  have hle := two_zpow_lt.1 (hlow.trans_lt hhigh')
  have hge := two_zpow_lt.1 (hlow'.trans_lt hhigh)
  omega

theorem exponent_mono {p q : Rat} (hp : 0 < p) (h : p ≤ q) : exponent p ≤ exponent q := by
  have hlow := (exponent_spec hp).1
  have hhigh := (exponent_spec (hp.trans_le h)).2
  have hlt := two_zpow_lt.1 ((hlow.trans h).trans_lt hhigh)
  omega

theorem ulp_eq (q : Rat) : ulp q = 2 ^ (exponent q - 52) := rfl

theorem ulp_pos (q : Rat) : 0 < ulp q := two_zpow_pos _

theorem two_zpow_exponent (q : Rat) : 2 ^ exponent q = ((2 ^ 52 : Int) : Rat) * ulp q := by
  rw [ulp_eq, Int.cast_pow, Int.cast_ofNat, ← zpow_natCast, ← two_zpow_add]
  congr 1
  omega

theorem two_zpow_exponent_succ (q : Rat) :
    2 ^ (exponent q + 1) = ((2 ^ 53 : Int) : Rat) * ulp q := by
  rw [two_zpow_add, two_zpow_exponent, mul_right_comm]
  norm_num

/-- Counted in last places, a number has 53 bits before the point. -/
theorem significand_spec {q : Rat} (hq : 0 < q) :
    ((2 ^ 52 : Int) : Rat) ≤ q / ulp q ∧ q / ulp q < ((2 ^ 53 : Int) : Rat) := by
  rw [le_div_iff₀ (ulp_pos q), div_lt_iff₀ (ulp_pos q), ← two_zpow_exponent,
    ← two_zpow_exponent_succ]
  exact exponent_spec hq

theorem abs_nearest_sub_le (q : Rat) : |(nearest q : Rat) - q| ≤ 1 / 2 := by
  have hlow := Int.floor_le q
  have hhigh := Int.lt_floor_add_one q
  have hdef : nearest q =
      if q - ⌊q⌋ < 1 / 2 then ⌊q⌋ else if 1 / 2 < q - ⌊q⌋ then ⌊q⌋ + 1
      else if ⌊q⌋ % 2 = 0 then ⌊q⌋ else ⌊q⌋ + 1 := rfl
  rw [hdef, abs_le]
  split_ifs <;> push_cast <;> constructor <;> linarith

theorem nearest_eq {q : Rat} {n : Int} (h : |(n : Rat) - q| < 1 / 2) : nearest q = n := by
  have hq := abs_nearest_sub_le q
  rw [abs_le] at hq
  rw [abs_lt] at h
  have hlt : (nearest q : Rat) < n + 1 := by linarith
  have hgt : (n : Rat) < nearest q + 1 := by linarith
  have hlt' : nearest q < n + 1 := by exact_mod_cast hlt
  have hgt' : n < nearest q + 1 := by exact_mod_cast hgt
  omega

theorem nearest_intCast (n : Int) : nearest n = n := nearest_eq (by norm_num)

theorem nearest_mono {p q : Rat} (h : p ≤ q) : nearest p ≤ nearest q := by
  by_contra hlt
  have hp := abs_nearest_sub_le p
  have hq := abs_nearest_sub_le q
  rw [abs_le] at hp hq
  have hstep : (nearest q : Rat) + 1 ≤ nearest p := by exact_mod_cast not_le.1 hlt
  -- Each is half a unit from its integer, so both lie on the same midpoint.
  have heq : p = q := by linarith
  exact hlt (heq ▸ le_refl _)

theorem round_zero : round 0 = 0 := if_pos rfl

theorem round_of_pos {q : Rat} (hq : 0 < q) : round q = nearest (q / ulp q) * ulp q :=
  if_neg hq.ne'

theorem abs_round_sub_le {q : Rat} (hq : 0 ≤ q) : |round q - q| ≤ q / 2 ^ 53 := by
  obtain rfl | hpos := hq.eq_or_lt
  · rw [round_zero]
    norm_num
  have hhalf := abs_nearest_sub_le (q / ulp q)
  have hulp := ulp_pos q
  have hsig := (significand_spec hpos).1
  rw [le_div_iff₀ hulp, Int.cast_pow, Int.cast_ofNat] at hsig
  have hsplit : round q - q = (nearest (q / ulp q) - q / ulp q) * ulp q := by
    rw [round_of_pos hpos, sub_mul, div_mul_cancel₀ q hulp.ne']
  rw [hsplit, abs_mul, abs_of_pos hulp]
  calc |(nearest (q / ulp q) : Rat) - q / ulp q| * ulp q
      ≤ 1 / 2 * ulp q := mul_le_mul_of_nonneg_right hhalf hulp.le
    _ ≤ q / 2 ^ 53 := by linarith

theorem round_le {q : Rat} (hq : 0 ≤ q) : round q ≤ q * (1 + 1 / 2 ^ 53) := by
  have h := (abs_le.1 (abs_round_sub_le hq)).2
  linarith

theorem le_round {q : Rat} (hq : 0 ≤ q) : q * (1 - 1 / 2 ^ 53) ≤ round q := by
  have h := (abs_le.1 (abs_round_sub_le hq)).1
  linarith

theorem round_nonneg {q : Rat} (hq : 0 ≤ q) : 0 ≤ round q :=
  (mul_nonneg hq (by norm_num)).trans (le_round hq)

/-- The rounded significand can reach the next power of two, but not pass it. -/
theorem nearest_significand_spec {q : Rat} (hq : 0 < q) :
    2 ^ 52 ≤ nearest (q / ulp q) ∧ nearest (q / ulp q) ≤ 2 ^ 53 := by
  obtain ⟨hlow, hhigh⟩ := significand_spec hq
  rw [← nearest_intCast (2 ^ 52), ← nearest_intCast (2 ^ 53)]
  exact ⟨nearest_mono hlow, nearest_mono hhigh.le⟩

theorem round_mem_binade {q : Rat} (hq : 0 < q) :
    2 ^ exponent q ≤ round q ∧ round q ≤ 2 ^ (exponent q + 1) := by
  obtain ⟨hlow, hhigh⟩ := nearest_significand_spec hq
  have hulp := (ulp_pos q).le
  rw [round_of_pos hq, two_zpow_exponent, two_zpow_exponent_succ]
  exact ⟨mul_le_mul_of_nonneg_right (Int.cast_le.2 hlow) hulp,
    mul_le_mul_of_nonneg_right (Int.cast_le.2 hhigh) hulp⟩

theorem round_mono {p q : Rat} (hp : 0 ≤ p) (h : p ≤ q) : round p ≤ round q := by
  obtain rfl | hpos := hp.eq_or_lt
  · rw [round_zero]
    exact round_nonneg h
  have hqpos := hpos.trans_le h
  obtain heq | hlt := (exponent_mono hpos h).eq_or_lt
  · have hulp : ulp p = ulp q := by rw [ulp_eq, ulp_eq, heq]
    have hdiv : p / ulp q ≤ q / ulp q := div_le_div_of_nonneg_right h (ulp_pos q).le
    rw [round_of_pos hpos, round_of_pos hqpos, hulp]
    exact mul_le_mul_of_nonneg_right (Int.cast_le.2 (nearest_mono hdiv)) (ulp_pos q).le
  · calc round p
        ≤ 2 ^ (exponent p + 1) := (round_mem_binade hpos).2
      _ ≤ 2 ^ exponent q := two_zpow_le.2 (by omega)
      _ ≤ round q := (round_mem_binade hqpos).1

def InFormat (q : Rat) : Prop := ∃ (m : Nat) (k : Int), m < 2 ^ 53 ∧ q = m * 2 ^ k

theorem inFormat_natCast {n : Nat} (hn : n < 2 ^ 53) : InFormat n :=
  ⟨n, 0, hn, by rw [zpow_zero, mul_one]⟩

theorem inFormat_two_zpow (k : Int) : InFormat (2 ^ k) :=
  ⟨1, k, by norm_num, by rw [Nat.cast_one, one_mul]⟩

theorem inFormat_round {q : Rat} (hq : 0 ≤ q) : InFormat (round q) := by
  obtain rfl | hpos := hq.eq_or_lt
  · rw [round_zero]
    exact inFormat_natCast (n := 0) (by norm_num)
  obtain ⟨hlow, hhigh⟩ := nearest_significand_spec hpos
  rw [round_of_pos hpos]
  obtain heq | hlt := hhigh.eq_or_lt
  · -- The significand was rounded up to the next power of two.
    rw [heq, ← two_zpow_exponent_succ]
    exact inFormat_two_zpow _
  · have hnonneg : 0 ≤ nearest (q / ulp q) := by omega
    refine ⟨(nearest (q / ulp q)).toNat, exponent q - 52, by omega, ?_⟩
    rw [← Int.cast_natCast, Int.toNat_of_nonneg hnonneg, ulp_eq]

/-- A number of the format is a whole number of its last places. -/
theorem InFormat.significand {q : Rat} (h : InFormat q) (hq : 0 < q) :
    ∃ n : Int, q = n * ulp q := by
  obtain ⟨m, k, hm, hval⟩ := h
  have hlow := (exponent_spec hq).1
  have hm' : (m : Rat) < 2 ^ 53 := by exact_mod_cast hm
  have hlt : (2 : Rat) ^ exponent q < 2 ^ (53 + k) := by
    calc (2 : Rat) ^ exponent q
        ≤ m * 2 ^ k := hval ▸ hlow
      _ < 2 ^ 53 * 2 ^ k := mul_lt_mul_of_pos_right hm' (two_zpow_pos k)
      _ = 2 ^ (53 + k) := by rw [two_zpow_add]; rfl
  have hle := two_zpow_lt.1 hlt
  refine ⟨m * 2 ^ (k - (exponent q - 52)).toNat, ?_⟩
  have hshift : (2 : Rat) ^ k =
      2 ^ ((k - (exponent q - 52)).toNat : Int) * 2 ^ (exponent q - 52) := by
    rw [← two_zpow_add]
    congr 1
    omega
  rw [ulp_eq, Int.cast_mul, Int.cast_natCast, Int.cast_pow, Int.cast_ofNat, mul_assoc,
    ← zpow_natCast, ← hshift]
  exact hval

/-- Less than half a last place beyond a number of the format is rounded away. -/
theorem InFormat.round_add {q r : Rat} (h : InFormat q) (hq : 0 < q) (hr : 0 ≤ r)
    (hsmall : r < ulp q / 2) : round (q + r) = q := by
  obtain ⟨n, hn⟩ := h.significand hq
  have hulp := ulp_pos q
  obtain ⟨-, hhigh⟩ := significand_spec hq
  have hsig : q / ulp q = n := by
    rw [div_eq_iff hulp.ne']
    exact hn
  -- The significand is at most `2 ^ 53 - 1`, so `q + r` has the exponent of `q`.
  have hexp : exponent (q + r) = exponent q := by
    refine exponent_eq ((exponent_spec hq).1.trans (by linarith)) ?_
    have hstep : (n : Rat) + 1 ≤ (2 ^ 53 : Int) := by
      rw [hsig] at hhigh
      have hint : n < 2 ^ 53 := by exact_mod_cast hhigh
      exact_mod_cast hint
    rw [two_zpow_exponent_succ]
    calc q + r
        < n * ulp q + ulp q := by linarith
      _ = (n + 1) * ulp q := by ring
      _ ≤ (2 ^ 53 : Int) * ulp q := mul_le_mul_of_nonneg_right hstep hulp.le
  have hulp' : ulp (q + r) = ulp q := by rw [ulp_eq, ulp_eq, hexp]
  have hnear : nearest ((q + r) / ulp q) = n := by
    refine nearest_eq ?_
    rw [add_div, hsig, abs_lt]
    have hnonneg : 0 ≤ r / ulp q := div_nonneg hr hulp.le
    have hhalf : r / ulp q < 1 / 2 := by
      rw [div_lt_iff₀ hulp]
      linarith
    constructor <;> linarith
  rw [round_of_pos (by linarith), hulp', hnear]
  exact hn.symm

theorem InFormat.round_eq {q : Rat} (h : InFormat q) (hq : 0 ≤ q) : round q = q := by
  obtain rfl | hpos := hq.eq_or_lt
  · exact round_zero
  · have hround := h.round_add hpos le_rfl (half_pos (ulp_pos q))
    rwa [add_zero] at hround

/-- One can be taken from a number of the format without rounding, as long as it has no last place
above one. -/
theorem InFormat.sub_one {q : Rat} (h : InFormat q) (hone : 1 ≤ q) (hlt : q < 2 ^ 53) :
    InFormat (q - 1) := by
  have hq : 0 < q := by linarith
  obtain ⟨n, hn⟩ := h.significand hq
  have hulp := ulp_pos q
  have hexp : exponent q ≤ 52 := by
    have hpow : (2 : Rat) ^ exponent q < 2 ^ (53 : Int) := (exponent_spec hq).1.trans_lt hlt
    have hlt' := two_zpow_lt.1 hpow
    omega
  -- One is a whole number of last places.
  have hplaces : (1 : Rat) = (2 ^ (52 - exponent q).toNat : Int) * ulp q := by
    rw [Int.cast_pow, Int.cast_ofNat, ← zpow_natCast, ulp_eq, ← two_zpow_add]
    have hzero : ((52 - exponent q).toNat : Int) + (exponent q - 52) = 0 := by omega
    rw [hzero, zpow_zero]
  have hdiff : q - 1 = ((n - 2 ^ (52 - exponent q).toNat : Int) : Rat) * ulp q := by
    rw [Int.cast_sub, sub_mul, ← hn, ← hplaces]
  have hhigh : n < 2 ^ 53 := by
    have hsig := (significand_spec hq).2
    rw [(div_eq_iff hulp.ne').2 hn] at hsig
    exact_mod_cast hsig
  have hnonneg : 0 ≤ n - 2 ^ (52 - exponent q).toNat := by
    have hle : 0 ≤ ((n - 2 ^ (52 - exponent q).toNat : Int) : Rat) * ulp q := by
      rw [← hdiff]
      linarith
    exact_mod_cast nonneg_of_mul_nonneg_left hle hulp
  have hplace : (0 : Int) < 2 ^ (52 - exponent q).toNat := by positivity
  refine ⟨(n - 2 ^ (52 - exponent q).toNat).toNat, exponent q - 52, by omega, ?_⟩
  rw [← Int.cast_natCast, Int.toNat_of_nonneg hnonneg, ← ulp_eq]
  exact hdiff

end AdmissionGuard.Binary64

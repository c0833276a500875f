import AdmissionGuard.Proofs.Refill
import Mathlib.Algebra.Order.Floor.Semiring

/-! Whole tokens. An attempt is granted exactly if a whole token is available, and takes one token
without any rounding. -/
namespace AdmissionGuard.TokenBucket

theorem whole_eq (b : TokenBucket) : b.whole = ⌊b.level⌋₊ := Int.floor_toNat b.level

theorem one_le_whole (b : TokenBucket) : 1 ≤ b.whole ↔ 1 ≤ b.level := by
  rw [whole_eq, Nat.one_le_floor_iff]

theorem attempt_granted_iff (b : TokenBucket) (now : Instant) :
    (b.attempt now).1 = true ↔ 1 ≤ b.available now := by
  rw [attempt_fst_eq_true, available, one_le_whole]

/-- At the instant of an attempt nothing more is gained. -/
theorem refill_attempt (b : TokenBucket) (now : Instant) :
    (b.attempt now).2.refill now = (b.attempt now).2 := by
  apply refill_of_le
  rw [attempt_refilledAt]
  exact b.refilledAt.le_latest_right now

theorem attempt_of_denied {b : TokenBucket} {now : Instant} (h : (b.refill now).level < 1) :
    b.attempt now = (false, b.refill now) := by
  rw [attempt_eq, if_neg (not_le.2 h)]

section
variable {perMinute burst : UInt32} {b : TokenBucket} (h : b.Fits perMinute burst)
include h

theorem Fits.sub_one_eq (hone : 1 ≤ b.level) : Binary64.sub b.level 1 = b.level - 1 := by
  have hlt : b.level < 2 ^ 53 := (h.level_le.trans_lt h.capacity_lt).trans (by norm_num)
  exact (h.level_inFormat.sub_one hone hlt).round_eq (sub_nonneg.2 hone)

theorem Fits.attempt_of_granted {now : Instant} (hone : 1 ≤ (b.refill now).level) :
    b.attempt now = (true, { b.refill now with level := (b.refill now).level - 1 }) := by
  rw [attempt_eq, if_pos hone, (h.refill now).sub_one_eq hone]

/-- An attempt leaves one whole token less, if there is any. -/
theorem Fits.available_attempt (now : Instant) :
    (b.attempt now).2.available now = b.available now - 1 := by
  rw [available, refill_attempt, available]
  by_cases hone : 1 ≤ (b.refill now).level
  · rw [h.attempt_of_granted hone, whole_eq, whole_eq]
    exact Nat.floor_sub_one _
  · rw [attempt_of_denied (not_le.1 hone)]
    have hnone : (b.refill now).whole = 0 := by
      have hlt := mt (one_le_whole _).1 hone
      omega
    rw [hnone]

end

/-- A bucket that nobody has used is full at any instant. -/
theorem available_full (perMinute burst : UInt32) (start now : Instant) :
    (full perMinute burst start).available now = max burst.toNat 1 := by
  have hstart : (full perMinute burst start).refill start = full perMinute burst start :=
    refill_of_le (Int.le_refl start.nanos)
  have hlevel : ((full perMinute burst start).refill now).level = (max burst.toNat 1 : Nat) := by
    by_cases h : start ≤ now
    · refine (full_fits perMinute burst start).full_of_le h ?_
      rw [hstart]
      rfl
    · rw [refill_of_le (Int.le_of_lt (Int.not_le.1 h))]
      rfl
  rw [available, whole_eq, hlevel, Nat.floor_natCast]

end AdmissionGuard.TokenBucket

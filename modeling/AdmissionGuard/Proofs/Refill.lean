import AdmissionGuard.TokenBucket
import AdmissionGuard.Proofs.Clock
import AdmissionGuard.Proofs.Rounding

/-! Refills. A waiting time in seconds grows with the time passed, what a bucket gains is the exact
gain but for a few roundings, and its level stays between zero and its capacity. -/
namespace AdmissionGuard

namespace Span

def exactSeconds (d : Span) : Rat := d.nanos / nanosPerSecond

theorem exactSeconds_nonneg (d : Span) : 0 ≤ d.exactSeconds :=
  div_nonneg (Nat.cast_nonneg _) (Nat.cast_nonneg _)

theorem exactSeconds_eq (d : Span) :
    d.exactSeconds = d.seconds + d.subsecNanos / nanosPerSecond := by
  have hsplit : (d.nanos : Rat) = nanosPerSecond * d.seconds + d.subsecNanos := by
    exact_mod_cast (Nat.div_add_mod d.nanos nanosPerSecond).symm
  have hpos : (nanosPerSecond : Rat) ≠ 0 := by norm_num [nanosPerSecond]
  rw [exactSeconds, hsplit, add_div, mul_div_cancel_left₀ _ hpos]

theorem subsec_nonneg (d : Span) : (0 : Rat) ≤ d.subsecNanos / nanosPerSecond :=
  div_nonneg (Nat.cast_nonneg _) (Nat.cast_nonneg _)

theorem subsec_le (d : Span) : (d.subsecNanos : Rat) / nanosPerSecond ≤ 1 - 1 / 1000000000 := by
  have hlt : d.subsecNanos < nanosPerSecond := Nat.mod_lt d.nanos (by decide)
  have hle : (d.subsecNanos : Rat) ≤ 999999999 := by exact_mod_cast Nat.le_sub_one_of_lt hlt
  rw [div_le_iff₀ (by norm_num [nanosPerSecond])]
  norm_num only [nanosPerSecond]
  exact hle

theorem inSeconds_eq (d : Span) :
    d.inSeconds =
      Binary64.round
        (Binary64.round d.seconds + Binary64.round (d.subsecNanos / nanosPerSecond)) := rfl

theorem rounded_parts_nonneg (d : Span) :
    0 ≤ Binary64.round d.seconds + Binary64.round (d.subsecNanos / nanosPerSecond) :=
  add_nonneg (Binary64.round_nonneg (Nat.cast_nonneg _)) (Binary64.round_nonneg d.subsec_nonneg)

theorem inSeconds_nonneg (d : Span) : 0 ≤ d.inSeconds :=
  Binary64.round_nonneg d.rounded_parts_nonneg

theorem inSeconds_le (d : Span) : d.inSeconds ≤ d.exactSeconds * (1 + 1 / 2 ^ 53) ^ 2 := by
  have hsec := Binary64.round_le (Nat.cast_nonneg (α := Rat) d.seconds)
  have hsub := Binary64.round_le d.subsec_nonneg
  have hsum := Binary64.round_le d.rounded_parts_nonneg
  rw [inSeconds_eq, exactSeconds_eq]
  linarith

theorem le_inSeconds (d : Span) : d.exactSeconds * (1 - 1 / 2 ^ 53) ^ 2 ≤ d.inSeconds := by
  have hsec := Binary64.le_round (Nat.cast_nonneg (α := Rat) d.seconds)
  have hsub := Binary64.le_round d.subsec_nonneg
  have hsum := Binary64.le_round d.rounded_parts_nonneg
  rw [inSeconds_eq, exactSeconds_eq]
  linarith

theorem round_seconds_le (d : Span) : Binary64.round d.seconds ≤ d.inSeconds := by
  have hsec := Binary64.round_nonneg (Nat.cast_nonneg (α := Rat) d.seconds)
  have hsub := Binary64.round_nonneg d.subsec_nonneg
  have hmono := Binary64.round_mono hsec (le_add_of_nonneg_right hsub)
  rwa [(Binary64.inFormat_round (Nat.cast_nonneg _)).round_eq hsec, ← inSeconds_eq] at hmono

theorem round_subsec_lt (d : Span) : Binary64.round (d.subsecNanos / nanosPerSecond) < 1 := by
  have hround := Binary64.round_le d.subsec_nonneg
  have hle := d.subsec_le
  norm_num at hround hle ⊢
  linarith

/-- From `2 ^ 53` seconds on, numbers are two seconds apart and a fraction is lost. -/
theorem inSeconds_of_long {d : Span} (h : 2 ^ 53 ≤ d.seconds) :
    d.inSeconds = Binary64.round d.seconds := by
  have hle : (2 : Rat) ^ (53 : Int) ≤ Binary64.round d.seconds := by
    have hcast : (2 : Rat) ^ (53 : Int) ≤ d.seconds := by exact_mod_cast h
    have hmono := Binary64.round_mono (Binary64.two_zpow_pos 53).le hcast
    rwa [(Binary64.inFormat_two_zpow 53).round_eq (Binary64.two_zpow_pos 53).le] at hmono
  have hpos := (Binary64.two_zpow_pos 53).trans_le hle
  have hulp : 2 ≤ Binary64.ulp (Binary64.round d.seconds) := by
    have hexp : 53 ≤ Binary64.exponent (Binary64.round d.seconds) := by
      have hlt := Binary64.two_zpow_lt.1 (hle.trans_lt (Binary64.exponent_spec hpos).2)
      omega
    calc (2 : Rat) = 2 ^ (1 : Int) := rfl
      _ ≤ Binary64.ulp (Binary64.round d.seconds) := Binary64.two_zpow_le.2 (by omega)
  have hsub := d.round_subsec_lt
  rw [inSeconds_eq]
  exact (Binary64.inFormat_round (Nat.cast_nonneg _)).round_add hpos
    (Binary64.round_nonneg d.subsec_nonneg) (by linarith)

theorem inSeconds_mono {d e : Span} (h : d.nanos ≤ e.nanos) : d.inSeconds ≤ e.inSeconds := by
  have hsec : d.seconds ≤ e.seconds := Nat.div_le_div_right h
  obtain heq | hlt := hsec.eq_or_lt
  · have hsub : d.subsecNanos ≤ e.subsecNanos := by
      have hd := Nat.div_add_mod d.nanos nanosPerSecond
      have he := Nat.div_add_mod e.nanos nanosPerSecond
      simp only [seconds] at heq
      simp only [subsecNanos]
      rw [heq] at hd
      omega
    have hdiv : (d.subsecNanos : Rat) / nanosPerSecond ≤ e.subsecNanos / nanosPerSecond :=
      div_le_div_of_nonneg_right (Nat.cast_le.2 hsub) (Nat.cast_nonneg _)
    rw [inSeconds_eq, inSeconds_eq, heq]
    exact Binary64.round_mono (heq ▸ d.rounded_parts_nonneg)
      (add_le_add_right (Binary64.round_mono d.subsec_nonneg hdiv) _)
  · refine le_trans ?_ e.round_seconds_le
    by_cases hlong : 2 ^ 53 ≤ d.seconds
    · rw [inSeconds_of_long hlong]
      exact Binary64.round_mono (Nat.cast_nonneg _) (Nat.cast_le.2 hsec)
    · -- Whole seconds are exact here, and the fraction does not reach the next second.
      have hexact : Binary64.round d.seconds = d.seconds :=
        (Binary64.inFormat_natCast (not_le.1 hlong)).round_eq (Nat.cast_nonneg _)
      have hone := d.round_subsec_lt
      have hnext : (d.seconds : Rat) + 1 ≤ e.seconds := by exact_mod_cast hlt
      rw [inSeconds_eq]
      refine Binary64.round_mono d.rounded_parts_nonneg ?_
      linarith

end Span

namespace TokenBucket

theorem refill_of_le {b : TokenBucket} {now : Instant} (h : now ≤ b.refilledAt) :
    b.refill now = b := by
  rw [refill]
  exact if_pos (Instant.since_of_le h)

theorem refill_of_lt {b : TokenBucket} {now : Instant} (h : b.refilledAt < now) :
    b.refill now = { b with
      level :=
        min (Binary64.add b.level (Binary64.mul b.rate (now.since b.refilledAt).inSeconds))
          b.capacity
      refilledAt := now } := by
  have hlt : b.refilledAt.nanos < now.nanos := h
  have hsince := now.since_eq_max b.refilledAt
  rw [refill, min_def]
  exact if_neg (by omega)

theorem refill_refilledAt (b : TokenBucket) (now : Instant) :
    (b.refill now).refilledAt = b.refilledAt.latest now := by
  by_cases h : b.refilledAt < now
  · rw [refill_of_lt h, Instant.latest, if_pos h]
  · rw [refill_of_le (Instant.not_lt.1 h), Instant.latest, if_neg h]

theorem refill_fixed (b : TokenBucket) (now : Instant) :
    (b.refill now).capacity = b.capacity ∧ (b.refill now).rate = b.rate := by
  rw [refill]
  dsimp only
  split <;> exact ⟨rfl, rfl⟩

theorem refill_refill (b : TokenBucket) (now : Instant) :
    (b.refill now).refill now = b.refill now := by
  apply refill_of_le
  have h := Instant.latest_eq_max b.refilledAt now
  rw [← refill_refilledAt] at h
  have hle : now.nanos ≤ (b.refill now).refilledAt.nanos := by omega
  exact hle

theorem attempt_refill (b : TokenBucket) (now : Instant) :
    (b.refill now).attempt now = b.attempt now := by
  rw [attempt, attempt, refill_refill]

theorem attempt_eq (b : TokenBucket) (now : Instant) :
    b.attempt now =
      if 1 ≤ (b.refill now).level then
        (true, { b.refill now with level := Binary64.sub (b.refill now).level 1 })
      else (false, b.refill now) := rfl

theorem attempt_fst_eq_true (b : TokenBucket) (now : Instant) :
    (b.attempt now).1 = true ↔ 1 ≤ (b.refill now).level := by
  rw [attempt_eq]
  split <;> simp [*]

theorem attempt_refilledAt (b : TokenBucket) (now : Instant) :
    (b.attempt now).2.refilledAt = b.refilledAt.latest now := by
  rw [← refill_refilledAt, attempt_eq]
  split <;> rfl

structure Fits (perMinute burst : UInt32) (b : TokenBucket) : Prop where
  capacity_eq : b.capacity = max burst.toNat 1
  rate_eq : b.rate = Binary64.div (max perMinute.toNat 1 : Nat) 60
  level_inFormat : Binary64.InFormat b.level
  level_nonneg : 0 ≤ b.level
  level_le : b.level ≤ b.capacity

variable {perMinute burst : UInt32} {b : TokenBucket}

theorem capacity_lt (burst : UInt32) : max burst.toNat 1 < 2 ^ 32 := by
  have hburst := burst.toNat_lt
  omega

theorem capacity_inFormat (burst : UInt32) : Binary64.InFormat (max burst.toNat 1 : Nat) :=
  Binary64.inFormat_natCast ((capacity_lt burst).trans (by norm_num))

theorem full_fits (perMinute burst : UInt32) (now : Instant) :
    (full perMinute burst now).Fits perMinute burst :=
  ⟨rfl, rfl, capacity_inFormat burst, Nat.cast_nonneg _, le_refl _⟩

namespace Fits

theorem one_le_capacity (h : b.Fits perMinute burst) : (1 : Rat) ≤ b.capacity := by
  rw [h.capacity_eq]
  exact_mod_cast Nat.le_max_right burst.toNat 1

theorem capacity_lt (h : b.Fits perMinute burst) : (b.capacity : Rat) < 2 ^ 32 := by
  rw [h.capacity_eq]
  exact_mod_cast TokenBucket.capacity_lt burst

theorem rate_nonneg (h : b.Fits perMinute burst) : 0 ≤ b.rate := by
  rw [h.rate_eq]
  exact Binary64.round_nonneg (div_nonneg (Nat.cast_nonneg _) (by norm_num))

theorem gain_nonneg (h : b.Fits perMinute burst) (d : Span) :
    0 ≤ Binary64.mul b.rate d.inSeconds :=
  Binary64.round_nonneg (mul_nonneg h.rate_nonneg d.inSeconds_nonneg)

theorem refill (h : b.Fits perMinute burst) (now : Instant) :
    (b.refill now).Fits perMinute burst := by
  by_cases hlt : b.refilledAt < now
  · rw [refill_of_lt hlt]
    have hsum := add_nonneg h.level_nonneg (h.gain_nonneg (now.since b.refilledAt))
    refine ⟨h.capacity_eq, h.rate_eq, ?_, le_min (Binary64.round_nonneg hsum) (Nat.cast_nonneg _),
      min_le_right _ _⟩
    obtain he | he := min_choice
      (Binary64.add b.level (Binary64.mul b.rate (now.since b.refilledAt).inSeconds)) b.capacity
    · rw [he]
      exact Binary64.inFormat_round hsum
    · rw [he, h.capacity_eq]
      exact capacity_inFormat burst
  · rw [refill_of_le (Instant.not_lt.1 hlt)]
    exact h

/-- Taking a token takes one, up to the rounding of the difference. -/
theorem sub_one_le (h : b.Fits perMinute burst) (hone : 1 ≤ b.level) :
    Binary64.sub b.level 1 ≤ b.level - 1 + 1 / 2 ^ 18 := by
  have hle := Binary64.round_le (sub_nonneg.2 hone)
  have hlevel := h.level_le.trans h.capacity_lt.le
  rw [Binary64.sub]
  norm_num at hle hlevel ⊢
  linarith

theorem attempt (h : b.Fits perMinute burst) (now : Instant) :
    (b.attempt now).2.Fits perMinute burst := by
  have hrefill := h.refill now
  rw [attempt_eq]
  split
  · next hone =>
    have hsub := hrefill.sub_one_le hone
    have hlevel := hrefill.level_le
    have hle : Binary64.sub (b.refill now).level 1 ≤ (b.refill now).capacity := by
      norm_num at hsub
      linarith
    have hleft := sub_nonneg.2 hone
    exact ⟨hrefill.capacity_eq, hrefill.rate_eq, Binary64.inFormat_round hleft,
      Binary64.round_nonneg hleft, hle⟩
  · exact hrefill

/-- Apart from its level, such a bucket differs from a full one in the time of its last refill. -/
theorem eq_full (h : b.Fits perMinute burst) (hfull : b.level = b.capacity) :
    b = full perMinute burst b.refilledAt := by
  obtain ⟨hcapacity, hrate, -, -, -⟩ := h
  cases b with
  | mk capacity rate level refilledAt =>
    dsimp only at hcapacity hrate hfull
    rw [hfull, hcapacity, hrate]
    rfl

end Fits

def earned (perMinute : UInt32) (d : Span) : Rat :=
  (max perMinute.toNat 1 : Nat) * d.exactSeconds / 60

theorem earned_nonneg (perMinute : UInt32) (d : Span) : 0 ≤ earned perMinute d :=
  div_nonneg (mul_nonneg (Nat.cast_nonneg _) d.exactSeconds_nonneg) (by norm_num)

namespace Fits

theorem rate_mul_le (h : b.Fits perMinute burst) (d : Span) :
    b.rate * d.inSeconds ≤ earned perMinute d * (1 + 1 / 2 ^ 53) ^ 3 := by
  have hrate : (0 : Rat) ≤ (max perMinute.toNat 1 : Nat) / 60 :=
    div_nonneg (Nat.cast_nonneg _) (by norm_num)
  calc b.rate * d.inSeconds
      ≤ (max perMinute.toNat 1 : Nat) / 60 * (1 + 1 / 2 ^ 53) *
          (d.exactSeconds * (1 + 1 / 2 ^ 53) ^ 2) := by
        rw [h.rate_eq]
        exact mul_le_mul (Binary64.round_le hrate) d.inSeconds_le d.inSeconds_nonneg
          (mul_nonneg hrate (by norm_num))
    _ = earned perMinute d * (1 + 1 / 2 ^ 53) ^ 3 := by rw [earned]; ring

theorem le_rate_mul (h : b.Fits perMinute burst) (d : Span) :
    earned perMinute d * (1 - 1 / 2 ^ 53) ^ 3 ≤ b.rate * d.inSeconds := by
  have hrate : (0 : Rat) ≤ (max perMinute.toNat 1 : Nat) / 60 :=
    div_nonneg (Nat.cast_nonneg _) (by norm_num)
  calc earned perMinute d * (1 - 1 / 2 ^ 53) ^ 3
      = (max perMinute.toNat 1 : Nat) / 60 * (1 - 1 / 2 ^ 53) *
          (d.exactSeconds * (1 - 1 / 2 ^ 53) ^ 2) := by rw [earned]; ring
    _ ≤ b.rate * d.inSeconds := by
        rw [h.rate_eq]
        exact mul_le_mul (Binary64.le_round hrate) d.le_inSeconds
          (mul_nonneg d.exactSeconds_nonneg (by norm_num)) (Binary64.round_nonneg hrate)

/-- Five roundings lie between the sum of level and gain and the exact one. -/
theorem sum_le (h : b.Fits perMinute burst) (d : Span) :
    Binary64.add b.level (Binary64.mul b.rate d.inSeconds) ≤
      (b.level + earned perMinute d) * (1 + 6 / 2 ^ 53) := by
  have hprod := mul_nonneg h.rate_nonneg d.inSeconds_nonneg
  have hsum := Binary64.round_le (add_nonneg h.level_nonneg (h.gain_nonneg d))
  have hgain := Binary64.round_le hprod
  have hle := h.rate_mul_le d
  have hlevel := h.level_nonneg
  have hearned := earned_nonneg perMinute d
  rw [Binary64.add]
  simp only [Binary64.mul] at hsum ⊢
  norm_num at hsum hgain hle ⊢
  linarith

theorem le_sum (h : b.Fits perMinute burst) (d : Span) :
    (b.level + earned perMinute d) * (1 - 5 / 2 ^ 53) ≤
      Binary64.add b.level (Binary64.mul b.rate d.inSeconds) := by
  have hprod := mul_nonneg h.rate_nonneg d.inSeconds_nonneg
  have hsum := Binary64.le_round (add_nonneg h.level_nonneg (h.gain_nonneg d))
  have hgain := Binary64.le_round hprod
  have hle := h.le_rate_mul d
  have hlevel := h.level_nonneg
  have hearned := earned_nonneg perMinute d
  rw [Binary64.add]
  simp only [Binary64.mul] at hsum ⊢
  norm_num at hsum hgain hle ⊢
  linarith

theorem refill_level_mono (h : b.Fits perMinute burst) {s t : Instant} (hst : s ≤ t) :
    (b.refill s).level ≤ (b.refill t).level := by
  have hle : s.nanos ≤ t.nanos := hst
  by_cases ht : b.refilledAt < t
  · rw [refill_of_lt ht]
    by_cases hs : b.refilledAt < s
    · have hsince : (s.since b.refilledAt).nanos ≤ (t.since b.refilledAt).nanos := by
        have h₁ := s.since_eq_max b.refilledAt
        have h₂ := t.since_eq_max b.refilledAt
        omega
      have hprod := mul_le_mul_of_nonneg_left (Span.inSeconds_mono hsince) h.rate_nonneg
      have hgain := Binary64.round_mono (mul_nonneg h.rate_nonneg (Span.inSeconds_nonneg _)) hprod
      rw [refill_of_lt hs]
      refine min_le_min_right _ (Binary64.round_mono ?_ ?_)
      · exact add_nonneg h.level_nonneg (h.gain_nonneg _)
      · exact (add_le_add_iff_left _).2 hgain
    · rw [refill_of_le (Instant.not_lt.1 hs)]
      refine le_min ?_ h.level_le
      have hround := Binary64.round_mono h.level_nonneg
        (le_add_of_nonneg_right (h.gain_nonneg (t.since b.refilledAt)))
      rwa [h.level_inFormat.round_eq h.level_nonneg] at hround
  · have hs : s ≤ b.refilledAt := by
      have hle' : t.nanos ≤ b.refilledAt.nanos := Instant.not_lt.1 ht
      exact hle.trans hle'
    rw [refill_of_le (Instant.not_lt.1 ht), refill_of_le hs]

theorem full_of_le (h : b.Fits perMinute burst) {s t : Instant} (hst : s ≤ t)
    (hfull : (b.refill s).level = b.capacity) : (b.refill t).level = b.capacity := by
  have hle := (h.refill t).level_le
  rw [(b.refill_fixed t).1] at hle
  exact le_antisymm hle (hfull ▸ h.refill_level_mono hst)

end Fits
end TokenBucket
end AdmissionGuard

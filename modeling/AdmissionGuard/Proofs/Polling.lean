import AdmissionGuard.Proofs.AdmissionRate
import AdmissionGuard.Proofs.WholeTokens

/-! Polling. A denied attempt refills the bucket, and each refill is rounded, so attempts in between
can move the instant from which the next token is granted. They move it by no more than these
roundings come to. -/
namespace AdmissionGuard.TokenBucket

/-- The tokens at `now` without any rounding, and without the capacity. -/
def owed (perMinute : UInt32) (b : TokenBucket) (now : Instant) : Rat :=
  b.level + earned perMinute (now.since b.refilledAt)

def refillError : Rat := 7 / 2 ^ 53

theorem refillError_pos : 0 < refillError := by norm_num [refillError]

/-- If `x` is closer to `y` than one is, `x` and `y` are on the same side of one. -/
theorem one_le_iff_of_abs_sub_lt {x y : Rat} (h : |x - y| < |y - 1|) : 1 ≤ x ↔ 1 ≤ y := by
  rw [abs_lt] at h
  by_cases hy : 1 ≤ y
  · rw [abs_of_nonneg (sub_nonneg.2 hy)] at h
    exact iff_of_true (by linarith) hy
  · rw [abs_of_neg (sub_neg.2 (not_le.1 hy))] at h
    exact iff_of_false (by linarith) hy

section
variable {perMinute burst : UInt32} {b : TokenBucket} {s t : Instant}

theorem owed_of_le (h : t ≤ b.refilledAt) : b.owed perMinute t = b.level := by
  rw [owed, earned, Span.exactSeconds, Instant.since_of_le h, Nat.cast_zero, zero_div, mul_zero,
    zero_div, add_zero]

theorem Fits.owed_nonneg (h : b.Fits perMinute burst) (now : Instant) : 0 ≤ b.owed perMinute now :=
  add_nonneg h.level_nonneg (earned_nonneg perMinute _)

/-- A refilled level of less than one token is almost what is owed, and so is the level after a
refill where less than one token is owed. -/
theorem Fits.abs_refill_sub_owed_lt (h : b.Fits perMinute burst) (now : Instant)
    (hlow : (b.refill now).level < 1 ∨ b.owed perMinute now < 1) :
    |(b.refill now).level - b.owed perMinute now| < refillError := by
  by_cases hlt : b.refilledAt < now
  · have hsum := h.sum_le (now.since b.refilledAt)
    have hsum' := h.le_sum (now.since b.refilledAt)
    have howed := h.owed_nonneg now
    have hone := h.one_le_capacity
    rw [← owed] at hsum hsum'
    rw [refill_of_lt hlt] at hlow ⊢
    dsimp only at hlow ⊢
    rw [refillError, abs_lt]
    norm_num at hsum hsum' ⊢
    obtain ⟨hmin, -⟩ | ⟨hmin, hcut⟩ := min_cases
      (Binary64.add b.level (Binary64.mul b.rate (now.since b.refilledAt).inSeconds))
      (b.capacity : Rat)
    · rw [hmin] at hlow ⊢
      obtain hlow | hlow := hlow <;> constructor <;> linarith
    · -- A full bucket has a token, so it is what is owed that is less.
      rw [hmin] at hlow ⊢
      have hless := hlow.resolve_left (not_lt.2 hone)
      constructor <;> linarith
  · have hle := Instant.not_lt.1 hlt
    rw [refill_of_le hle, owed_of_le hle, sub_self, abs_zero]
    exact refillError_pos

/-- A refill changes what is owed later by as much as it is off. -/
theorem owed_refill_sub (b : TokenBucket) (perMinute : UInt32) (hst : s ≤ t) :
    (b.refill s).owed perMinute t - b.owed perMinute t =
      (b.refill s).level - b.owed perMinute s := by
  by_cases hlt : b.refilledAt < s
  · have hat : (b.refill s).refilledAt = s := by rw [refill_of_lt hlt]
    have hsplit := earned_add perMinute (Instant.since_add_since (Int.le_of_lt hlt) hst)
    rw [owed, owed, owed, hat, ← hsplit]
    ring
  · have hle := Instant.not_lt.1 hlt
    rw [refill_of_le hle, owed_of_le hle, sub_self, sub_self]

/-- One denied attempt changes what is owed at later instants by the rounding of one refill. -/
theorem Fits.abs_owed_attempt_sub_le (h : b.Fits perMinute burst) (hst : s ≤ t)
    (hdenied : (b.attempt s).1 = false) :
    |(b.attempt s).2.owed perMinute t - b.owed perMinute t| ≤ refillError := by
  have hlow : (b.refill s).level < 1 := by
    rw [← not_le, ← attempt_fst_eq_true, hdenied]
    exact Bool.false_ne_true
  rw [attempt_of_denied hlow, owed_refill_sub b perMinute hst]
  exact (h.abs_refill_sub_owed_lt s (.inl hlow)).le

/-- Any number of denied attempts, in any order. -/
theorem Fits.abs_owed_attempts_sub_le (h : b.Fits perMinute burst) {polls : List Instant}
    (hlast : ∀ s ∈ polls, s ≤ t) (hdenied : ∀ granted ∈ (b.attempts polls).1, granted = false) :
    |(b.attempts polls).2.owed perMinute t - b.owed perMinute t| ≤ polls.length * refillError := by
  induction polls generalizing b with
  | nil => simp [TokenBucket.attempts]
  | cons s polls ih =>
    rw [List.forall_mem_cons] at hlast
    have hcons : (b.attempts (s :: polls)).1 =
        (b.attempt s).1 :: ((b.attempt s).2.attempts polls).1 := rfl
    rw [hcons, List.forall_mem_cons] at hdenied
    have hfirst := h.abs_owed_attempt_sub_le hlast.1 hdenied.1
    have hrest := ih (h.attempt s) hlast.2 hdenied.2
    calc |(b.attempts (s :: polls)).2.owed perMinute t - b.owed perMinute t|
        ≤ |((b.attempt s).2.attempts polls).2.owed perMinute t - (b.attempt s).2.owed perMinute t| +
            |(b.attempt s).2.owed perMinute t - b.owed perMinute t| := abs_sub_le _ _ _
      _ ≤ polls.length * refillError + refillError := add_le_add hrest hfirst
      _ = (s :: polls).length * refillError := by rw [List.length_cons]; push_cast; ring

/-- An attempt is granted as it should be unless just about one token is owed. -/
theorem Fits.attempt_eq_of_owed (h : b.Fits perMinute burst)
    (hclear : refillError ≤ |b.owed perMinute t - 1|) :
    (b.attempt t).1 = decide (1 ≤ b.owed perMinute t) := by
  rw [Bool.eq_iff_iff, attempt_fst_eq_true, decide_eq_true_iff]
  by_cases hboth : 1 ≤ (b.refill t).level ∧ 1 ≤ b.owed perMinute t
  · exact iff_of_true hboth.1 hboth.2
  · rw [not_and_or, not_le, not_le] at hboth
    exact one_le_iff_of_abs_sub_lt ((h.abs_refill_sub_owed_lt t hboth).trans_le hclear)

end

/-- Denied attempts cost no more than their rounding. The attempt after them is granted exactly if it
would be without them, and exactly if a token is owed, unless what is owed is so close to one token
that as many roundings can make the difference. -/
theorem denied_attempts_cost_rounding (perMinute burst : UInt32) (start : Instant)
    (earlier : List Instant) {polls : List Instant} {t : Instant} :
    let b := ((full perMinute burst start).attempts earlier).2
    (∀ s ∈ polls, s ≤ t) → (∀ granted ∈ (b.attempts polls).1, granted = false) →
      (polls.length + 1) * refillError ≤ |b.owed perMinute t - 1| →
        ((b.attempts polls).2.attempt t).1 = (b.attempt t).1 ∧
          (b.attempt t).1 = decide (1 ≤ b.owed perMinute t) := by
  intro b hlast hdenied hclear
  have hfits : b.Fits perMinute burst := (full_fits perMinute burst start).attempts earlier
  have hmoved := hfits.abs_owed_attempts_sub_le hlast hdenied
  have hpos := refillError_pos
  have herrors : 0 ≤ polls.length * refillError := mul_nonneg (Nat.cast_nonneg _) hpos.le
  rw [add_one_mul] at hclear
  have hwithout := hfits.attempt_eq_of_owed (t := t) (by linarith)
  have hwith := (hfits.attempts polls).attempt_eq_of_owed (t := t) ?clear
  case clear =>
    have htriangle := abs_sub_le (b.owed perMinute t) ((b.attempts polls).2.owed perMinute t) 1
    rw [abs_sub_comm (b.owed perMinute t) ((b.attempts polls).2.owed perMinute t)] at htriangle
    linarith
  refine ⟨?_, hwithout⟩
  rw [hwith, hwithout, decide_eq_decide]
  apply one_le_iff_of_abs_sub_lt
  linarith

/-- Two polls, and the token a nanosecond after it is earned. -/
theorem granted_after_two_polls :
    let b := ((full 30 1 .origin).attempts [.origin]).2
    let soon : Instant := ⟨3000000, by decide, by decide⟩
    let second : Instant := ⟨1000000000, by decide, by decide⟩
    let t : Instant := ⟨2000000001, by decide, by decide⟩
    (b.attempts [soon, second]).1 = [false, false] ∧
      ((b.attempts [soon, second]).2.attempt t).1 = true := by
  intro b soon second t
  have hdenied : (b.attempts [soon, second]).1 = [false, false] := by decide +kernel
  have hlast : ∀ s ∈ [soon, second], s ≤ t := by decide +kernel
  have hclear : (([soon, second].length : Rat) + 1) * refillError ≤ |b.owed 30 t - 1| := by
    decide +kernel
  have howed : 1 ≤ b.owed 30 t := by decide +kernel
  have hall : ∀ granted ∈ (b.attempts [soon, second]).1, granted = false := by
    rw [hdenied]
    decide
  obtain ⟨hsame, hwithout⟩ :=
    denied_attempts_cost_rounding 30 1 .origin [.origin] hlast hall hclear
  exact ⟨hdenied, by rw [hsame, hwithout, decide_eq_true howed]⟩

/-- At thirty a minute and with a burst of one, a token taken at once is back after two seconds, but
not if it has been asked for after three milliseconds. -/
theorem poll_can_cost_a_token :
    ¬∀ (perMinute burst : UInt32) (start : Instant) (earlier polls : List Instant) (t : Instant),
      let b := ((full perMinute burst start).attempts earlier).2
      polls ≠ [] → polls.IsChain (· ≤ ·) → (∀ s ∈ polls, s ≤ t) →
        (∀ granted ∈ (b.attempts polls).1, granted = false) →
          ((b.attempts polls).2.attempt t).1 = (b.attempt t).1 := by
  intro hfree
  let soon : Instant := ⟨3000000, by decide, by decide⟩
  let t : Instant := ⟨2000000000, by decide, by decide⟩
  have hsame := hfree 30 1 .origin [.origin] [soon] t (List.cons_ne_nil _ _) (.singleton _)
    (by decide +kernel) (by decide +kernel)
  revert hsame
  decide +kernel

end AdmissionGuard.TokenBucket

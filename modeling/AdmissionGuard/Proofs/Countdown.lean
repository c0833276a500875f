import AdmissionGuard.Proofs.WholeTokens

/-! Counting down. Whatever a bucket was used for before, the whole tokens that it shows are granted
one by one as long as no more time passes, and then no more. No number on the way leaves the range
of binary64. -/
namespace AdmissionGuard

namespace Binary64

def Representable (q : Rat) : Prop :=
  ∃ (m : Nat) (k : Int), m < 2 ^ 53 ∧ -1074 ≤ k ∧ k ≤ 971 ∧ q = m * 2 ^ k

def Ordinary (q : Rat) : Prop := q = 0 ∨ 1 / 2 ^ 60 ≤ q ∧ q ≤ 2 ^ 96

theorem ordinary_zero : Ordinary 0 := .inl rfl

theorem ordinary_natCast {n : Nat} (hn : n ≤ 2 ^ 96) : Ordinary n := by
  obtain rfl | hpos := n.eq_zero_or_pos
  · exact ordinary_zero
  · have hone : (1 : Rat) ≤ n := by exact_mod_cast hpos
    refine .inr ⟨le_trans (by norm_num) hone, ?_⟩
    exact_mod_cast hn

theorem two_zpow_neg_sixty : (2 : Rat) ^ (-60 : Int) = 1 / 2 ^ 60 := by norm_num

/-- The ends of the range are numbers of the format, so rounding does not lead out of it. -/
theorem Ordinary.round {q : Rat} (h : Ordinary q) : Ordinary (round q) := by
  obtain rfl | ⟨hlow, hhigh⟩ := h
  · rw [round_zero]
    exact ordinary_zero
  · have hq : 0 ≤ q := le_trans (by norm_num) hlow
    have hlowest := (inFormat_two_zpow (-60)).round_eq (two_zpow_pos (-60)).le
    have hhighest := (inFormat_two_zpow 96).round_eq (two_zpow_pos 96).le
    rw [two_zpow_neg_sixty] at hlowest
    refine .inr ⟨hlowest ▸ round_mono (by norm_num) hlow, ?_⟩
    exact (round_mono hq hhigh).trans_eq hhighest

theorem Ordinary.add {p q : Rat} (hp : Ordinary p) (hq : Ordinary q) (hle : p + q ≤ 2 ^ 96) :
    Ordinary (p + q) := by
  obtain rfl | ⟨hlow, -⟩ := hp
  · rwa [zero_add]
  · obtain rfl | ⟨hlow', -⟩ := hq
    · rw [add_zero] at hle ⊢
      exact .inr ⟨hlow, hle⟩
    · refine .inr ⟨?_, hle⟩
      linarith

theorem Ordinary.min {p q : Rat} (hp : Ordinary p) (hq : Ordinary q) : Ordinary (min p q) := by
  obtain he | he := min_choice p q
  · rwa [he]
  · rwa [he]

theorem InFormat.representable {q : Rat} (h : InFormat q) (hq : Ordinary q) :
    Representable q := by
  obtain rfl | ⟨hlow, hhigh⟩ := hq
  · exact ⟨0, 0, by norm_num, by norm_num, by norm_num, by norm_num⟩
  · have hpos : 0 < q := lt_of_lt_of_le (by norm_num) hlow
    obtain ⟨n, hn⟩ := h.significand hpos
    obtain ⟨hmin, hmax⟩ := significand_spec hpos
    rw [(div_eq_iff (ulp_pos q).ne').2 hn] at hmin hmax
    have hmin' : 2 ^ 52 ≤ n := by exact_mod_cast hmin
    have hmax' : n < 2 ^ 53 := by exact_mod_cast hmax
    have hexp : -61 < exponent q := by
      rw [← two_zpow_neg_sixty] at hlow
      have hlt := two_zpow_lt.1 (hlow.trans_lt (exponent_spec hpos).2)
      omega
    have hexp' : exponent q ≤ 96 := two_zpow_le.1 ((exponent_spec hpos).1.trans hhigh)
    refine ⟨n.toNat, exponent q - 52, by omega, by omega, by omega, ?_⟩
    rw [← Int.cast_natCast, Int.toNat_of_nonneg (by omega), ← ulp_eq]
    exact hn

/-- The numbers of the format keep a distance from one. -/
theorem InFormat.sub_one_ordinary {q : Rat} (h : InFormat q) (hone : 1 ≤ q) (hle : q ≤ 2 ^ 96) :
    Ordinary (q - 1) := by
  obtain rfl | hlt := hone.eq_or_lt
  · rw [sub_self]
    exact ordinary_zero
  refine .inr ⟨?_, by linarith⟩
  by_contra hsmall
  have hulp : ulp 1 = 1 / 2 ^ 52 := by
    rw [ulp_eq, exponent_eq (k := 0) (by norm_num) (by norm_num)]
    norm_num
  have hround := (inFormat_natCast (n := 1) (by norm_num)).round_add (r := q - 1)
    (by norm_num) (by norm_num; linarith) (by norm_num [hulp] at hsmall ⊢; linarith)
  rw [Nat.cast_one, add_sub_cancel, h.round_eq (by linarith)] at hround
  exact hlt.ne' hround

end Binary64

open Binary64 (Ordinary Representable)

namespace Span

theorem exactSeconds_lt (d : Span) : d.exactSeconds < 2 ^ 64 := by
  have hlt : (d.nanos : Rat) < 2 ^ 64 * nanosPerSecond := by
    exact_mod_cast d.nanos_lt
  rw [exactSeconds, div_lt_iff₀ (by norm_num [nanosPerSecond])]
  exact hlt

theorem le_exactSeconds {d : Span} (h : 0 < d.nanos) : 1 / 1000000000 ≤ d.exactSeconds := by
  have hone : (1 : Rat) ≤ d.nanos := by exact_mod_cast h
  have hpos : (0 : Rat) < nanosPerSecond := by norm_num [nanosPerSecond]
  exact div_le_div_of_nonneg_right hone hpos.le

theorem ordinary_seconds (d : Span) : Ordinary d.seconds := by
  have hlt : d.seconds < 2 ^ 64 := Nat.div_lt_of_lt_mul (Nat.mul_comm .. ▸ d.nanos_lt)
  exact Binary64.ordinary_natCast (by omega)

theorem ordinary_subsec (d : Span) : Ordinary (d.subsecNanos / nanosPerSecond) := by
  obtain hzero | hpos := d.subsecNanos.eq_zero_or_pos
  · rw [hzero, Nat.cast_zero, zero_div]
    exact Binary64.ordinary_zero
  · have hone : (1 : Rat) ≤ d.subsecNanos := by exact_mod_cast hpos
    have hle := d.subsec_le
    refine .inr ⟨?_, by linarith⟩
    rw [le_div_iff₀ (by norm_num [nanosPerSecond])]
    exact le_trans (by norm_num [nanosPerSecond]) hone

theorem ordinary_parts (d : Span) :
    Ordinary (Binary64.round d.seconds + Binary64.round (d.subsecNanos / nanosPerSecond)) := by
  refine d.ordinary_seconds.round.add d.ordinary_subsec.round ?_
  have hsec := Binary64.round_le (Nat.cast_nonneg (α := Rat) d.seconds)
  have hsub := d.round_subsec_lt
  have hlt := d.exactSeconds_lt
  have hnonneg := d.subsec_nonneg
  rw [exactSeconds_eq] at hlt
  norm_num at hsec hsub hlt hnonneg ⊢
  linarith

end Span

namespace TokenBucket

def roundings (b : TokenBucket) (now : Instant) : List Rat :=
  let d := now.since b.refilledAt
  [d.seconds, d.subsecNanos / nanosPerSecond,
    Binary64.round d.seconds + Binary64.round (d.subsecNanos / nanosPerSecond),
    b.rate * d.inSeconds, b.level + Binary64.mul b.rate d.inSeconds]

section
variable {perMinute burst : UInt32} {b : TokenBucket}

theorem earned_le (perMinute : UInt32) (d : Span) : earned perMinute d ≤ 2 ^ 91 := by
  have hrate : ((max perMinute.toNat 1 : Nat) : Rat) ≤ 2 ^ 32 := by
    exact_mod_cast (capacity_lt perMinute).le
  have hprod := mul_le_mul hrate d.exactSeconds_lt.le d.exactSeconds_nonneg (by norm_num)
  rw [earned, div_le_iff₀ (by norm_num)]
  norm_num at hprod ⊢
  linarith

theorem le_earned (perMinute : UInt32) {d : Span} (h : 0 < d.nanos) :
    1 / 2 ^ 36 ≤ earned perMinute d := by
  have hrate : (1 : Rat) ≤ (max perMinute.toNat 1 : Nat) := by
    exact_mod_cast Nat.le_max_right perMinute.toNat 1
  have hprod := mul_le_mul hrate (d.le_exactSeconds h) (by norm_num) (zero_le_one.trans hrate)
  rw [earned, le_div_iff₀ (by norm_num)]
  norm_num at hprod ⊢
  linarith

/-- What is gained in some time, before it is rounded. -/
theorem Fits.ordinary_gain (h : b.Fits perMinute burst) (d : Span) :
    Ordinary (b.rate * d.inSeconds) ∧ b.rate * d.inSeconds ≤ 2 ^ 92 := by
  have hhigh := h.rate_mul_le d
  have hlow := h.le_rate_mul d
  have hle := earned_le perMinute d
  have hbound : b.rate * d.inSeconds ≤ 2 ^ 92 := by
    norm_num at hhigh hle ⊢
    linarith
  refine ⟨?_, hbound⟩
  obtain hzero | hpos := d.nanos.eq_zero_or_pos
  · have hnone : earned perMinute d = 0 := by
      rw [earned, Span.exactSeconds, hzero, Nat.cast_zero, zero_div, mul_zero, zero_div]
    rw [hnone, zero_mul] at hhigh
    exact .inl (hhigh.antisymm (mul_nonneg h.rate_nonneg d.inSeconds_nonneg))
  · have hmin := le_earned perMinute hpos
    refine .inr ⟨?_, hbound.trans (by norm_num)⟩
    norm_num at hlow hmin ⊢
    linarith

/-- No refill rounds a number that is near the ends of the range. -/
theorem Fits.ordinary_roundings (h : b.Fits perMinute burst) (hlevel : Ordinary b.level)
    (now : Instant) : ∀ q ∈ b.roundings now, Ordinary q := by
  obtain ⟨hprod, hle⟩ := h.ordinary_gain (now.since b.refilledAt)
  have hgain :=
    Binary64.round_le (mul_nonneg h.rate_nonneg (now.since b.refilledAt).inSeconds_nonneg)
  have hcapacity := h.level_le.trans h.capacity_lt.le
  have hsum : b.level + Binary64.mul b.rate (now.since b.refilledAt).inSeconds ≤ 2 ^ 96 := by
    rw [Binary64.mul]
    norm_num at hgain hle hcapacity ⊢
    linarith
  simp only [roundings, List.forall_mem_cons, List.not_mem_nil, false_implies, implies_true,
    and_true]
  exact ⟨Span.ordinary_seconds _, Span.ordinary_subsec _, Span.ordinary_parts _, hprod,
    hlevel.add hprod.round hsum⟩

theorem Fits.ordinary_capacity (h : b.Fits perMinute burst) : Ordinary b.capacity := by
  have hlt := TokenBucket.capacity_lt burst
  rw [h.capacity_eq]
  exact Binary64.ordinary_natCast (by omega)

theorem Fits.ordinary_refill (h : b.Fits perMinute burst) (hlevel : Ordinary b.level)
    (now : Instant) : Ordinary (b.refill now).level := by
  by_cases hlt : b.refilledAt < now
  · have hsum : Ordinary (b.level + Binary64.mul b.rate (now.since b.refilledAt).inSeconds) :=
      h.ordinary_roundings hlevel now _ (by simp [roundings])
    rw [refill_of_lt hlt]
    exact hsum.round.min h.ordinary_capacity
  · rwa [refill_of_le (Instant.not_lt.1 hlt)]

theorem Fits.ordinary_attempt (h : b.Fits perMinute burst) (hlevel : Ordinary b.level)
    (now : Instant) : Ordinary (b.attempt now).2.level := by
  have hrefill := h.refill now
  by_cases hone : 1 ≤ (b.refill now).level
  · have hhigh := hrefill.level_le.trans hrefill.capacity_lt.le
    rw [h.attempt_of_granted hone]
    exact hrefill.level_inFormat.sub_one_ordinary hone (hhigh.trans (by norm_num))
  · rw [attempt_of_denied (not_le.1 hone)]
    exact h.ordinary_refill hlevel now

end

/-! ### Uses of a bucket -/

inductive Use where
  | attempt (now : Instant)
  | look (now : Instant)

def Use.instant : Use → Instant
  | .attempt now | .look now => now

/-- The bucket that a use leaves. A look refills it too. -/
def use (b : TokenBucket) : Use → TokenBucket
  | .attempt now => (b.attempt now).2
  | .look now => b.refill now

def used (b : TokenBucket) (uses : List Use) : TokenBucket := uses.foldl use b

section
variable {perMinute burst : UInt32} {b : TokenBucket}

theorem use_refilledAt (b : TokenBucket) (u : Use) :
    (b.use u).refilledAt = b.refilledAt.latest u.instant := by
  cases u with
  | attempt now => exact b.attempt_refilledAt now
  | look now => exact b.refill_refilledAt now

theorem Fits.use (h : b.Fits perMinute burst) (u : Use) : (b.use u).Fits perMinute burst := by
  cases u with
  | attempt now => exact h.attempt now
  | look now => exact h.refill now

theorem Fits.ordinary_use (h : b.Fits perMinute burst) (hlevel : Ordinary b.level) (u : Use) :
    Ordinary (b.use u).level := by
  cases u with
  | attempt now => exact h.ordinary_attempt hlevel now
  | look now => exact h.ordinary_refill hlevel now

/-- Any uses leave a bucket that fits its parameters, and its level ordinary. -/
theorem Fits.used (h : b.Fits perMinute burst) (hlevel : Ordinary b.level) (uses : List Use) :
    (b.used uses).Fits perMinute burst ∧ Ordinary (b.used uses).level := by
  induction uses generalizing b with
  | nil => exact ⟨h, hlevel⟩
  | cons u uses ih => exact ih (h.use u) (h.ordinary_use hlevel u)

/-- Any uses leave the bucket refilled at the latest of all instants. -/
theorem used_refilledAt (b : TokenBucket) (uses : List Use) :
    (b.used uses).refilledAt ∈ b.refilledAt :: uses.map Use.instant ∧
      ∀ s ∈ b.refilledAt :: uses.map Use.instant, s ≤ (b.used uses).refilledAt := by
  induction uses generalizing b with
  | nil => exact ⟨List.mem_cons_self, List.forall_mem_singleton.2 (Int.le_refl _)⟩
  | cons u uses ih =>
    obtain ⟨hmem, hlatest⟩ := ih (b.use u)
    have hused : b.used (u :: uses) = (b.use u).used uses := rfl
    rw [use_refilledAt] at hmem hlatest
    rw [List.forall_mem_cons] at hlatest
    rw [hused, List.map_cons, List.forall_mem_cons, List.forall_mem_cons]
    refine ⟨?_, Int.le_trans (b.refilledAt.le_latest_left u.instant) hlatest.1,
      Int.le_trans (b.refilledAt.le_latest_right u.instant) hlatest.1, hlatest.2⟩
    obtain he | hlater := List.mem_cons.1 hmem
    · rw [he, Instant.latest]
      split <;> simp
    · simp [hlater]

/-! ### Counting down -/

def countdown (n a : Nat) : List Bool :=
  List.replicate (min n a) true ++ List.replicate (n - a) false

theorem countdown_succ (n a : Nat) :
    countdown (n + 1) a = decide (1 ≤ a) :: countdown n (a - 1) := by
  cases a with
  | zero => simp [countdown, List.replicate_succ]
  | succ a => simp [countdown, List.replicate_succ]

theorem Fits.available_le (h : b.Fits perMinute burst) (now : Instant) :
    b.available now ≤ b.capacity := by
  rw [available, whole_eq, ← (b.refill_fixed now).1]
  exact Nat.floor_le_of_le (h.refill now).level_le

/-- Where no time passes, each attempt takes one of the whole tokens. -/
theorem Fits.attempts_eq_countdown (h : b.Fits perMinute burst) {ts : List Instant}
    (hts : ∀ s ∈ ts, s ≤ b.refilledAt) : (b.attempts ts).1 = countdown ts.length b.whole := by
  induction ts generalizing b with
  | nil => simp [countdown, TokenBucket.attempts]
  | cons s ts ih =>
    rw [List.forall_mem_cons] at hts
    have hsame : b.refill s = b := refill_of_le hts.1
    have hanswer : (b.attempt s).1 = decide (1 ≤ b.whole) := by
      rw [Bool.eq_iff_iff, attempt_granted_iff, decide_eq_true_iff, available, hsame]
    have hleft : (b.attempt s).2.whole = b.whole - 1 := by
      have hstep := h.available_attempt s
      rwa [available, refill_attempt, available, hsame] at hstep
    have hat : (b.attempt s).2.refilledAt = b.refilledAt := by
      rw [attempt_refilledAt, ← refill_refilledAt, hsame]
    have hrest := ih (h.attempt s) (hat ▸ hts.2)
    rw [hleft] at hrest
    have hcons : (b.attempts (s :: ts)).1 =
        (b.attempt s).1 :: ((b.attempt s).2.attempts ts).1 := rfl
    rw [hcons, hanswer, hrest, List.length_cons, countdown_succ]

end

/-- Whatever a bucket was used for, its level is a finite number from zero to its capacity, reached
without a number near the ends of the range, and its last refill was at the latest instant so far. A
look then shows how many attempts are granted before all others are denied, as long as none comes
later than the look, and so does an attempt in its place. -/
theorem grants_what_it_shows (perMinute burst : UInt32) (start : Instant) (uses : List Use) :
    let b := (full perMinute burst start).used uses
    let instants := start :: uses.map Use.instant
    (b.capacity = max burst.toNat 1 ∧ Representable b.level ∧ 0 ≤ b.level ∧
      b.level ≤ b.capacity ∧ ∀ now, ∀ q ∈ b.roundings now, Ordinary q) ∧
    (b.refilledAt ∈ instants ∧ ∀ s ∈ instants, s ≤ b.refilledAt) ∧
    ∀ (t : Instant) (ts : List Instant),
      let a := b.available t
      a ≤ b.capacity ∧ ((∀ s ∈ ts, s ≤ t) →
        ((b.use (.look t)).attempts ts).1 = countdown ts.length a ∧
        (b.attempts (t :: ts)).1 = countdown (ts.length + 1) a) := by
  intro b instants
  have hfull := full_fits perMinute burst start
  obtain ⟨hfits, hlevel⟩ := hfull.used hfull.ordinary_capacity uses
  have hformat := hfits.level_inFormat.representable hlevel
  refine ⟨⟨hfits.capacity_eq, hformat, hfits.level_nonneg, hfits.level_le,
    hfits.ordinary_roundings hlevel⟩, used_refilledAt _ uses, fun t ts => ⟨?_, fun hts => ?_⟩⟩
  · exact hfits.available_le t
  · have hlook := hfits.refill t
    have hat : t ≤ (b.refill t).refilledAt := by
      rw [refill_refilledAt]
      exact b.refilledAt.le_latest_right t
    have hafter : ∀ s ∈ ts, s ≤ (b.refill t).refilledAt := fun s hs => Int.le_trans (hts s hs) hat
    have hattempt : b.attempts (t :: ts) = (b.refill t).attempts (t :: ts) := by
      rw [TokenBucket.attempts, TokenBucket.attempts, attempt_refill]
    rw [hattempt]
    exact ⟨hlook.attempts_eq_countdown hafter,
      hlook.attempts_eq_countdown (List.forall_mem_cons.2 ⟨hat, hafter⟩)⟩

/-- One and a half tokens: the clock is behind at the first attempt after the look, and the half is
not granted. -/
theorem one_of_one_and_a_half :
    let second (n : Nat) : Instant := (Instant.ofNanos? (n * 1000000000)).getD .origin
    let b := (full 30 3 .origin).used [.attempt .origin, .attempt .origin, .attempt .origin,
      .look (second 3), .attempt (second 1)]
    b.level = 1 / 2 ∧ b.available (second 5) = 1 ∧
      ((b.use (.look (second 5))).attempts [second 2, second 5]).1 = [true, false] := by
  intro second b
  have hshown : b.available (second 5) = 1 := by decide +kernel
  obtain ⟨-, -, hcounts⟩ := grants_what_it_shows 30 3 .origin [.attempt .origin, .attempt .origin,
    .attempt .origin, .look (second 3), .attempt (second 1)]
  obtain ⟨-, hgrants⟩ := hcounts (second 5) [second 2, second 5]
  obtain ⟨hlook, -⟩ := hgrants (by decide +kernel)
  rw [hshown] at hlook
  exact ⟨by decide +kernel, hshown, hlook⟩

end TokenBucket
end AdmissionGuard

import AdmissionGuard.Proofs.Blocks
import AdmissionGuard.Proofs.Refill

/-! Rested clients. A check treats a client that has been idle until its bucket was full again like
one never seen before. Where the limits let a bucket fill within one and a half blocks, sweeps forget
only clients that are rested but for their strikes. -/
namespace AdmissionGuard

structure Client.Sound (limits : Limits) (c : Client) : Prop where
  fits : c.bucket.Fits limits.perClientPerMinute limits.perClientBurst
  refilledAt_le : c.bucket.refilledAt ≤ c.lastSeen

theorem Client.fresh_sound (limits : Limits) (now : Instant) :
    (Client.fresh limits now).Sound limits :=
  ⟨TokenBucket.full_fits _ _ now, Int.le_refl now.nanos⟩

structure Client.Rested (limits : Limits) (now : Instant) (c : Client) : Prop
    extends c.Sound limits where
  lastSeen_lt : c.lastSeen < now
  not_blocked : c.blockRemaining? now = none
  strikes_eq : c.strikes = 0
  full : (c.bucket.refill now).level = c.bucket.capacity

theorem Client.Sound.seen {limits : Limits} {c : Client} (h : c.Sound limits) (now : Instant) :
    (c.seen now).Sound limits := by
  have hle : c.bucket.refilledAt.nanos ≤ c.lastSeen.nanos := h.refilledAt_le
  have hlatest := c.lastSeen.latest_eq_max now
  refine ⟨h.fits, ?_⟩
  show c.bucket.refilledAt.nanos ≤ (c.lastSeen.latest now).nanos
  omega

section
variable {limits : Limits} {now t : Instant} {c c₁ c₂ c' : Client} {b b' : TokenBucket}
  {d : Decision}

theorem Judged.sound (h : Judged limits now c b d c' b') (hc : c.Sound limits)
    (hseen : now ≤ c.lastSeen) : c'.Sound limits := by
  have hattempt : (c.bucket.attempt now).2.refilledAt ≤ c.lastSeen := by
    have hle : c.bucket.refilledAt.nanos ≤ c.lastSeen.nanos := hc.refilledAt_le
    have hnow : now.nanos ≤ c.lastSeen.nanos := hseen
    have hlatest := c.bucket.refilledAt.latest_eq_max now
    rw [TokenBucket.attempt_refilledAt]
    show (c.bucket.refilledAt.latest now).nanos ≤ c.lastSeen.nanos
    omega
  cases h with
  | blocked => exact hc
  | admitted | limited | punished => exact ⟨hc.fits.attempt now, hattempt⟩

theorem Client.blockRemaining?_of_le (h : c.blockRemaining? now = none) (ht : now ≤ t) :
    c.blockRemaining? t = none := by
  rw [Option.eq_none_iff_forall_ne_some] at h ⊢
  intro r hr
  obtain ⟨u, hu, hlt, -⟩ := Client.blockRemaining?_eq_some.1 hr
  have hnow : now < u := Int.lt_of_le_of_lt ht hlt
  exact h _ (Client.blockRemaining?_eq_some.2 ⟨u, hu, hnow, rfl⟩)

/-- Of a client that is not blocked, a check reads the outcome of an attempt, the strikes and the
time of the last sighting. -/
theorem Judged.congr (h : Judged limits now c₁ b d c' b') (hfree₁ : c₁.blockRemaining? now = none)
    (hfree₂ : c₂.blockRemaining? now = none)
    (hattempt : c₁.bucket.attempt now = c₂.bucket.attempt now) (hstrikes : c₁.strikes = c₂.strikes)
    (hseen : c₁.lastSeen = c₂.lastSeen) : Judged limits now c₂ b d c' b' := by
  obtain ⟨bucket, strikes, blockedUntil, lastSeen⟩ := c₁
  dsimp only at hattempt hstrikes hseen
  subst hstrikes hseen
  cases h with
  | blocked r hr =>
    rw [hfree₁] at hr
    cases hr
  | admitted _ own shared =>
    dsimp only at own ⊢
    rw [hattempt] at own ⊢
    exact .admitted hfree₂ own shared
  | limited _ denied below =>
    dsimp only at denied ⊢
    rw [hattempt] at denied ⊢
    exact .limited hfree₂ denied below
  | punished _ denied reached =>
    dsimp only at denied ⊢
    rw [hattempt] at denied ⊢
    exact .punished hfree₂ denied reached

/-- From `now` on a check finds the bucket of a rested client full, as that of a new one. -/
theorem Client.Rested.refill_eq (h : c.Rested limits now) (ht : now ≤ t) :
    c.bucket.refill t = (Client.fresh limits t).bucket := by
  have hlevel := h.fits.full_of_le ht h.full
  have hat := c.bucket.refill_refilledAt t
  have hlt : c.bucket.refilledAt < t :=
    Int.lt_of_le_of_lt h.refilledAt_le (Int.lt_of_lt_of_le h.lastSeen_lt ht)
  rw [Instant.latest, if_pos hlt] at hat
  rw [← (c.bucket.refill_fixed t).1] at hlevel
  rw [(h.fits.refill t).eq_full hlevel, hat]
  rfl

theorem Client.Rested.judged (h : c.Rested limits now) (ht : now ≤ t)
    (hj : Judged limits t (c.seen t) b d c' b') :
    Judged limits t ((Client.fresh limits t).seen t) b d c' b' := by
  have hlt : c.lastSeen < t := Int.lt_of_lt_of_le h.lastSeen_lt ht
  refine hj.congr (Client.blockRemaining?_of_le h.not_blocked ht) rfl ?_ h.strikes_eq ?_
  · have hfresh : (Client.fresh limits t).bucket.refill t = (Client.fresh limits t).bucket :=
      TokenBucket.refill_of_le (Int.le_refl t.nanos)
    have hrefill := h.refill_eq ht
    rw [← TokenBucket.attempt_refill, ← TokenBucket.attempt_refill (Client.bucket _)]
    show (c.bucket.refill t).attempt t = ((Client.fresh limits t).bucket.refill t).attempt t
    rw [hrefill, hfresh]
  · exact (if_pos hlt).trans (ite_self t).symm

end

/-- A client that a sweep finds stale had its bucket refilled three blocks ago or earlier. -/
theorem Client.Sound.three_blocks_le {limits : Limits} {now : Instant} {c : Client}
    (h : c.Sound limits) (hold : c.lastSeen.nanos < now.nanos - limits.staleAfter.nanos) :
    (3 * limits.blockSeconds.toNat : Nat) ≤ (now.since c.bucket.refilledAt).exactSeconds := by
  have hle : c.bucket.refilledAt.nanos ≤ c.lastSeen.nanos := h.refilledAt_le
  have hstale : limits.staleAfter.nanos =
      min (limits.blockSeconds.toNat * nanosPerSecond * 3) Span.longest.nanos := rfl
  -- Where three blocks are more than the longest span, nobody is ever found stale.
  have hlongest : (now.since c.bucket.refilledAt).nanos ≤ Span.longest.nanos :=
    Nat.le_sub_one_of_lt (now.since c.bucket.refilledAt).nanos_lt
  have hsince := now.since_eq_max c.bucket.refilledAt
  have hnanos : 3 * limits.blockSeconds.toNat * nanosPerSecond ≤
      (now.since c.bucket.refilledAt).nanos := by
    have hcomm : 3 * limits.blockSeconds.toNat * nanosPerSecond =
        limits.blockSeconds.toNat * nanosPerSecond * 3 := by ring
    omega
  rw [Span.exactSeconds, le_div_iff₀ (by norm_num [nanosPerSecond])]
  exact_mod_cast hnanos

theorem Limits.two_bursts_le_earned {limits : Limits}
    (hrate : limits.perClientBurst.toNat * 60 * 2 ≤
      limits.perClientPerMinute.toNat * 3 * limits.blockSeconds.toNat)
    {d : Span} (hlong : (3 * limits.blockSeconds.toNat : Nat) ≤ d.exactSeconds) :
    (2 * limits.perClientBurst.toNat : Nat) ≤ TokenBucket.earned limits.perClientPerMinute d := by
  rw [TokenBucket.earned, le_div_iff₀ (by norm_num)]
  calc ((2 * limits.perClientBurst.toNat : Nat) : Rat) * 60
      = (limits.perClientBurst.toNat * 60 * 2 : Nat) := by push_cast; ring
    _ ≤ (limits.perClientPerMinute.toNat * (3 * limits.blockSeconds.toNat) : Nat) := by
      rw [← Nat.mul_assoc]
      exact Nat.cast_le.2 hrate
    _ ≤ (max limits.perClientPerMinute.toNat 1 : Nat) * d.exactSeconds := by
      rw [Nat.cast_mul]
      exact mul_le_mul (Nat.cast_le.2 (Nat.le_max_left ..)) hlong (Nat.cast_nonneg _)
        (Nat.cast_nonneg _)

/-- The bucket of a client that a sweep finds stale has had the time to fill twice over, which
leaves the roundings far behind. -/
theorem Client.Sound.full_of_stale {limits : Limits} {c : Client} (h : c.Sound limits)
    (hburst : 0 < limits.perClientBurst.toNat)
    (hrate : limits.perClientBurst.toNat * 60 * 2 ≤
      limits.perClientPerMinute.toNat * 3 * limits.blockSeconds.toNat)
    {now : Instant} (hold : c.lastSeen.nanos < now.nanos - limits.staleAfter.nanos) :
    (c.bucket.refill now).level = c.bucket.capacity := by
  have hlt : c.bucket.refilledAt < now := by
    have hle : c.bucket.refilledAt.nanos ≤ c.lastSeen.nanos := h.refilledAt_le
    show c.bucket.refilledAt.nanos < now.nanos
    omega
  have hearned := Limits.two_bursts_le_earned hrate (h.three_blocks_le hold)
  have hcapacity : c.bucket.capacity = limits.perClientBurst.toNat := by
    rw [h.fits.capacity_eq]
    exact Nat.max_eq_left hburst
  have hsum := h.fits.le_sum (now.since c.bucket.refilledAt)
  have hlevel := h.fits.level_nonneg
  have hnonneg : (0 : Rat) ≤ limits.perClientBurst.toNat := Nat.cast_nonneg _
  rw [TokenBucket.refill_of_lt hlt]
  refine min_eq_right (le_trans ?_ hsum)
  rw [hcapacity]
  push_cast at hearned
  norm_num at hearned ⊢
  linarith

namespace Guard
variable (limits : Limits) (start : Instant) (calls : List Call) {key : String} {c : Client}

theorem entry_sound (h : (reached limits start calls).clients.get? key = some c) :
    c.Sound limits := by
  refine entry_induction limits start (P := fun _ c => c.Sound limits) ?_ ?_ calls c h
  · intro life c g now d c' b' hc hj hd
    have hold : c.Sound limits := by
      obtain hc | ⟨-, rfl⟩ := hc
      · exact hc
      · exact Client.fresh_sound limits now
    exact hj.sound (hold.seen now) (Instant.le_latest_right c.lastSeen now)
  · intro life c m hc hm
    exact hc

theorem forgettable_of_evicted (h : (reached limits start calls).clients.get? key = some c)
    {call : Call} (hnone : ((reached limits start calls).step call).guard.clients.get? key = none) :
    c.Forgettable call.instant limits.staleAfter := by
  have hkey := not_exempt_of_tracked limits start calls h
  obtain he | ⟨-, -, c', hc', hold⟩ := step_other _ key call fun now hcall => by
      subst hcall
      obtain ⟨-, -, c', -, -, -, -, hget, -⟩ := own_check limits start calls now hkey
      rw [reached_snoc, hnone] at hget
      cases hget
  · rw [he, h] at hnone
    cases hnone
  · rw [h] at hc'
    cases hc'
    rwa [(reached_fixed limits start calls).1] at hold

/-- An entry that a sweep removes is that of a rested client but for its strikes. -/
theorem rested_of_evicted (hburst : 0 < limits.perClientBurst.toNat)
    (hrate : limits.perClientBurst.toNat * 60 * 2 ≤
      limits.perClientPerMinute.toNat * 3 * limits.blockSeconds.toNat)
    (h : (reached limits start calls).clients.get? key = some c)
    {call : Call} (hnone : ((reached limits start calls).step call).guard.clients.get? key = none) :
    Client.Rested limits call.instant { c with strikes := 0 } := by
  have hsound := entry_sound limits start calls h
  obtain ⟨hold, hfree⟩ := forgettable_of_evicted limits start calls h hnone
  have hfull := hsound.full_of_stale hburst hrate hold
  refine ⟨⟨hsound.fits, hsound.refilledAt_le⟩, ?_, hfree, rfl, hfull⟩
  show c.lastSeen.nanos < call.instant.nanos
  omega

end Guard
end AdmissionGuard

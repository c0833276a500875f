import AdmissionGuard.Proofs.AdmissionRate
import AdmissionGuard.Proofs.Blocks
import AdmissionGuard.Proofs.Coercion
import AdmissionGuard.Proofs.Strikes
import AdmissionGuard.Proofs.WholeTokens

/-! Bursts. A client never seen that sends checks at one instant is admitted for each token of its
bucket, then denied until the last strike, and then blocked. -/
namespace AdmissionGuard

theorem Instant.since_of_later? {t u : Instant} {d : Span} (h : t.later? d = some u) :
    u.since t = d := by
  have hnanos := Instant.nanos_of_later? h
  have hsince := u.since_eq_max t
  ext
  omega

/-- The decision on check number `i`, counted from zero, of a client with that many tokens and a
block of that length at that many strikes. -/
def burstDecision (tokens strikes : Nat) (block : Span) (i : Nat) : Decision :=
  if i < tokens then .admitted
  else if i < tokens + strikes then .rateLimited (i - tokens + 1) (i - tokens + 1 = strikes)
  else .blocked block

namespace Limits

def tokens (limits : Limits) : Nat := max limits.perClientBurst.toNat 1

def drained (limits : Limits) (t : Instant) (n : Nat) : TokenBucket :=
  { TokenBucket.full limits.perClientPerMinute limits.perClientBurst t with
    level := (limits.tokens - n : Nat) }

def burstClient (limits : Limits) (t stop : Instant) (n : Nat) : Client where
  bucket := limits.drained t n
  strikes := if n < limits.tokens + limits.lastStrike then n - limits.tokens else 0
  blockedUntil := if n < limits.tokens + limits.lastStrike then none else some stop
  lastSeen := t

variable (limits : Limits) (t stop : Instant)

theorem tokens_pos : 1 ≤ limits.tokens := Nat.le_max_right ..

theorem lastStrike_pos : 1 ≤ limits.lastStrike := Nat.le_max_right ..

theorem burstClient_zero : limits.burstClient t stop 0 = Client.fresh limits t := by
  have hpos := limits.lastStrike_pos
  rw [burstClient, if_pos (by omega), if_pos (by omega), Nat.zero_sub]
  rfl

theorem burstClient_of_lt {n : Nat} (h : n < limits.tokens + limits.lastStrike) :
    limits.burstClient t stop n = ⟨limits.drained t n, n - limits.tokens, none, t⟩ := by
  rw [burstClient, if_pos h, if_pos h]

theorem burstClient_of_le {n : Nat} (h : limits.tokens + limits.lastStrike ≤ n) :
    limits.burstClient t stop n = ⟨limits.drained t n, 0, some stop, t⟩ := by
  rw [burstClient, if_neg (Nat.not_lt.2 h), if_neg (Nat.not_lt.2 h)]

theorem burstClient_inBounds (n : Nat) : (limits.burstClient t stop n).InBounds limits := by
  have hpos := limits.lastStrike_pos
  by_cases h : n < limits.tokens + limits.lastStrike
  · rw [limits.burstClient_of_lt t stop h]
    refine ⟨?_, nofun⟩
    dsimp only
    omega
  · rw [limits.burstClient_of_le t stop (Nat.not_lt.1 h)]
    exact ⟨hpos, fun _ => rfl⟩

theorem drained_eq_of_le {n : Nat} (h : limits.tokens ≤ n) :
    limits.drained t n = limits.drained t (n + 1) := by
  rw [drained, drained, Nat.sub_eq_zero_of_le h, Nat.sub_eq_zero_of_le (Nat.le_succ_of_le h)]

theorem drained_fits (n : Nat) :
    (limits.drained t n).Fits limits.perClientPerMinute limits.perClientBurst := by
  have hle : limits.tokens - n ≤ limits.tokens := Nat.sub_le ..
  have hlt : limits.tokens < 2 ^ 32 := TokenBucket.capacity_lt limits.perClientBurst
  exact ⟨rfl, rfl, Binary64.inFormat_natCast (by omega), Nat.cast_nonneg _, Nat.cast_le.2 hle⟩

theorem refill_drained (n : Nat) : (limits.drained t n).refill t = limits.drained t n :=
  TokenBucket.refill_of_le (Int.le_refl t.nanos)

theorem attempt_drained (n : Nat) :
    (limits.drained t n).attempt t = (decide (n < limits.tokens), limits.drained t (n + 1)) := by
  by_cases h : n < limits.tokens
  · have hsucc : limits.tokens - n = limits.tokens - (n + 1) + 1 := by omega
    have hlevel : (limits.drained t n).level = (limits.tokens - (n + 1) : Nat) + 1 := by
      rw [drained, hsucc, Nat.cast_add_one]
    have hone : 1 ≤ ((limits.drained t n).refill t).level := by
      rw [refill_drained, hlevel]
      exact le_add_of_nonneg_left (Nat.cast_nonneg _)
    rw [(limits.drained_fits t n).attempt_of_granted hone, refill_drained, hlevel,
      add_sub_cancel_right, decide_eq_true h]
    rfl
  · have hzero : ((limits.drained t n).refill t).level < 1 := by
      rw [refill_drained, drained, Nat.sub_eq_zero_of_le (by omega), Nat.cast_zero]
      exact one_pos
    rw [TokenBucket.attempt_of_denied hzero, refill_drained, decide_eq_false h,
      limits.drained_eq_of_le t (Nat.not_lt.1 h)]

end Limits

section
variable {limits : Limits} {t stop : Instant} {n : Nat} {b b' : TokenBucket} {c' : Client}
  {d : Decision}

/-- One check of the burst. The shared bucket matters only while there are tokens left. -/
theorem Judged.burst (h : Judged limits t (limits.burstClient t stop n) b d c' b')
    (hstop : t.later? limits.block = some stop) (hblock : 0 < limits.block.nanos)
    (hshared : n < limits.tokens → (b.attempt t).1 = true) :
    d = burstDecision limits.tokens limits.lastStrike limits.block n ∧
      c' = limits.burstClient t stop (n + 1) := by
  have hattempt := limits.attempt_drained t n
  have hpos := limits.lastStrike_pos
  by_cases hserving : limits.tokens + limits.lastStrike ≤ n
  · -- The block has begun, and nothing changes any more.
    have hlt : t < stop := by
      have hnanos := Instant.nanos_of_later? hstop
      show t.nanos < stop.nanos
      omega
    rw [limits.burstClient_of_le t stop hserving] at h
    have hremaining : (⟨limits.drained t n, 0, some stop, t⟩ : Client).blockRemaining? t =
        some limits.block :=
      Client.blockRemaining?_eq_some.2 ⟨stop, rfl, hlt, (Instant.since_of_later? hstop).symm⟩
    obtain ⟨rfl, rfl, -⟩ := h.eq_of_blocked hremaining
    rw [burstDecision, if_neg (by omega), if_neg (by omega),
      limits.burstClient_of_le t stop (by omega), ← limits.drained_eq_of_le t (by omega)]
    exact ⟨rfl, rfl⟩
  · have hcount := (next_strike (limits.burstClient_inBounds t stop n))
    rw [limits.burstClient_of_lt t stop (by omega)] at h hcount
    have hfree : (⟨limits.drained t n, n - limits.tokens, none, t⟩ : Client).blockRemaining? t =
        none := rfl
    by_cases htokens : n < limits.tokens
    · rw [decide_eq_true htokens] at hattempt
      obtain ⟨rfl, rfl, -⟩ :=
        h.unique (.admitted hfree (congrArg Prod.fst hattempt) (hshared htokens))
      rw [burstDecision, if_pos htokens, limits.burstClient_of_lt t stop (by omega), hattempt]
      refine ⟨rfl, ?_⟩
      simp only [Client.mk.injEq, true_and, and_true]
      omega
    · rw [decide_eq_false htokens] at hattempt
      have hdenied : ¬((limits.drained t n).attempt t).1 = true := by
        rw [hattempt]
        exact Bool.false_ne_true
      rw [burstDecision, if_neg htokens, if_pos (by omega)]
      obtain ⟨hmin, hlast⟩ := hcount
      dsimp only at hmin hlast
      cases h with
      | blocked _ hr => cases hr
      | admitted _ own => exact absurd own hdenied
      | limited _ _ below =>
        dsimp only at below ⊢
        have hne : n - limits.tokens + 1 ≠ limits.lastStrike := by omega
        rw [hmin, decide_eq_false hne, limits.burstClient_of_lt t stop (by omega), hattempt,
          Nat.sub_add_comm (by omega)]
        exact ⟨rfl, rfl⟩
      | punished _ _ reached =>
        dsimp only at reached ⊢
        have heq : n - limits.tokens + 1 = limits.lastStrike := by omega
        rw [hmin, decide_eq_true heq, limits.burstClient_of_le t stop (by omega), hattempt,
          Instant.blockEnd_of_later? hstop]
        exact ⟨rfl, rfl⟩

end

namespace Guard

/-- A guard after `n` checks of the client at `t`, the first of all, with a shared bucket that has a
token for each that the client's own bucket still has. -/
structure InBurst (limits : Limits) (key : String) (t stop : Instant) (n : Nat) (g : Guard) :
    Prop where
  limits_eq : g.limits = limits
  not_exempt : g.allowlist.contains key = false
  entry : g.clients.get? key = if n = 0 then none else some (limits.burstClient t stop n)
  fits : g.shared.Fits limits.globalPerMinute limits.globalBurst
  tokens_le : limits.tokens ≤ g.shared.available t + n

section
variable {limits : Limits} {key : String} {t stop : Instant} {n : Nat} {g : Guard}

theorem InBurst.sighted (h : InBurst limits key t stop n g) :
    g.clients.sighted g.limits key t = limits.burstClient t stop n := by
  have hseen : (limits.burstClient t stop n).seen t = limits.burstClient t stop n := by
    rw [Client.seen, Limits.burstClient, Instant.latest, ite_self]
  rw [Store.sighted, h.entry, h.limits_eq]
  split
  · next hn =>
    rw [hn] at hseen ⊢
    rw [limits.burstClient_zero] at hseen ⊢
    exact hseen
  · exact hseen

theorem InBurst.step (h : InBurst limits key t stop n g) (hstop : t.later? limits.block = some stop)
    (hblock : 0 < limits.block.nanos) :
    (g.step (.check key t)).answer =
        .decided (burstDecision limits.tokens limits.lastStrike limits.block n) ∧
      InBurst limits key t stop (n + 1) (g.step (.check key t)).guard := by
  obtain ⟨d, c, b, hj, hd, hget, hb⟩ := g.step_own t h.not_exempt
  rw [h.sighted, h.limits_eq] at hj
  have htokens := h.tokens_le
  obtain ⟨rfl, rfl⟩ := hj.burst hstop hblock fun hn =>
    (g.shared.attempt_granted_iff t).2 (by omega)
  refine ⟨congrArg Reply.decided hd, ?_, ?_, hget, ?_, ?_⟩
  · exact (g.step_fixed _).1.trans h.limits_eq
  · rw [(g.step_fixed _).2]
    exact h.not_exempt
  · rw [hb, hj.buckets_eq.2]
    split
    · exact h.fits.attempt t
    · exact h.fits
  · have hleft := h.fits.available_attempt t
    rw [hb, hj.buckets_eq.2]
    split <;> omega

theorem InBurst.run (h : InBurst limits key t stop n g) (hstop : t.later? limits.block = some stop)
    (hblock : 0 < limits.block.nanos) (k : Nat) :
    (g.run (List.replicate k (.check key t))).answer = (List.range' n k).map
        (fun i => .decided (burstDecision limits.tokens limits.lastStrike limits.block i)) ∧
      InBurst limits key t stop (n + k) (g.run (List.replicate k (.check key t))).guard := by
  induction k generalizing n g with
  | zero => exact ⟨rfl, h⟩
  | succ k ih =>
    obtain ⟨hanswer, hnext⟩ := h.step hstop hblock
    obtain ⟨htail, hlast⟩ := ih hnext
    rw [List.replicate_succ, List.range'_succ, List.map_cons, ← hanswer, ← htail,
      Nat.add_comm k, ← Nat.add_assoc]
    exact ⟨rfl, hlast⟩

end

variable (limits : Limits) (start : Instant) (calls : List Call)

theorem shared_fits :
    (reached limits start calls).shared.Fits limits.globalPerMinute limits.globalBurst := by
  rw [shared_eq_sharedBucket]
  exact (TokenBucket.full_fits _ _ start).attempts _

/-- Only checks of clients that are not exempt draw from the shared bucket. -/
theorem shared_of_no_judgedChecks (h : judgedChecks limits calls = 0) :
    (reached limits start calls).shared =
      .full limits.globalPerMinute limits.globalBurst start := by
  induction calls using List.reverseRecOn with
  | nil => rfl
  | append_singleton calls call ih =>
    have hsum : judgedChecks limits (calls ++ [call]) = judgedChecks limits calls +
        (call.judgedBy (.ofEntries limits.allowlist)).toNat := countP_snoc _ calls call
    rw [reached_snoc, ← ih (by omega)]
    cases call with
    | check k now =>
      have hexempt : (Allowlist.ofEntries limits.allowlist).contains k = true := by
        cases hk : (Allowlist.ofEntries limits.allowlist).contains k with
        | true => rfl
        | false =>
          simp only [Call.judgedBy, hk, Bool.not_false, Bool.toNat_true] at hsum
          omega
      rw [step, check_exempt _ now ((reached_contains limits start calls k).trans hexempt)]
    | sweep | status => rfl

/-- At one instant a client never seen is admitted for each token of its bucket, then denied until
the last strike, then blocked for a whole block, if the shared bucket has that many tokens; it has
them as long as nobody has drawn from it. -/
theorem burst_then_strikes_then_block (options : GuardOptions) {key : String}
    (hkey : (Allowlist.ofEntries (Limits.ofOptions options).allowlist).contains key = false) :
    let limits := Limits.ofOptions options
    let g := reached limits start calls
    let tokens := limits.perClientBurst.toNat
    let strikes := limits.strikeThreshold.toNat
    (judgedChecks limits calls = 0 → ∀ t, tokens ≤ g.shared.available t) ∧
      (g.clients.get? key = none →
        ∀ t, (t.later? limits.block).isSome → tokens ≤ g.shared.available t →
          ∀ n,
            let o := g.run (List.replicate n (.check key t))
            o.answer = (List.range n).map
                (fun i => .decided (burstDecision tokens strikes limits.block i)) ∧
              (tokens + strikes ≤ n → ∃ c, o.guard.clients.get? key = some c ∧ c.strikes = 0 ∧
                c.bucket.level = 0)) := by
  intro limits g tokens strikes
  have hcoerced : limits.Coerced := Limits.ofOptions_coerced options
  have htokens : limits.tokens = tokens := Nat.max_eq_left hcoerced.burst_ge
  have hstrikes : limits.lastStrike = strikes := Nat.max_eq_left hcoerced.strikeThreshold_ge
  constructor
  · intro hnone t
    have hle : tokens ≤ limits.globalBurst.toNat := hcoerced.globalBurst_ge
    have hshared : g.shared = .full limits.globalPerMinute limits.globalBurst start :=
      shared_of_no_judgedChecks limits start calls hnone
    rw [hshared, TokenBucket.available_full]
    exact hle.trans (Nat.le_max_left ..)
  · intro huntracked t hrange hshared n o
    obtain ⟨stop, hstop⟩ := Option.isSome_iff_exists.1 hrange
    have hblock : 0 < limits.block.nanos :=
      Nat.mul_pos (Nat.lt_of_lt_of_le (by decide) hcoerced.blockSeconds_ge) (by decide)
    have hstart : InBurst limits key t stop 0 g := by
      refine ⟨(reached_fixed limits start calls).1,
        (reached_contains limits start calls key).trans hkey, huntracked,
        shared_fits limits start calls, ?_⟩
      rw [htokens]
      exact hshared
    obtain ⟨hanswer, hend⟩ := hstart.run hstop hblock n
    rw [htokens, hstrikes, ← List.range_eq_range'] at hanswer
    refine ⟨hanswer, fun hn => ?_⟩
    have hpos := limits.tokens_pos
    have hentry := hend.entry
    rw [if_neg (by omega), limits.burstClient_of_le t stop (by omega)] at hentry
    refine ⟨_, hentry, rfl, ?_⟩
    show ((limits.tokens - (0 + n) : Nat) : Rat) = 0
    rw [Nat.sub_eq_zero_of_le (by omega), Nat.cast_zero]

/-- Two tokens, three strikes and a block of thirty seconds: the batch runs past a sweep, and the
client ends with nothing. -/
theorem burst_of_two_thousand :
    let options : GuardOptions :=
      { perClientBurst := 2, strikeThreshold := 3, blockSeconds := 30 }
    let calls := [Call.check "127.0.0.1" .origin]
    let burst := List.replicate 2000 (Call.check "a" .origin)
    (Allowlist.ofEntries (Limits.ofOptions options).allowlist).contains "a" = false ∧
      judgedChecks (.ofOptions options) calls = 0 ∧
      (reached (.ofOptions options) .origin calls).clients.get? "a" = none ∧
      (Instant.origin.later? (Limits.ofOptions options).block).isSome ∧
      ((reached (.ofOptions options) .origin calls).run burst).answer =
        (List.range 2000).map (fun i => .decided (burstDecision 2 3 (.ofSeconds 30) i)) ∧
      ∃ c, ((reached (.ofOptions options) .origin calls).run burst).guard.clients.get? "a" =
        some c ∧ c.strikes = 0 ∧ c.bucket.level = 0 := by
  intro options calls burst
  have hkey : (Allowlist.ofEntries (Limits.ofOptions options).allowlist).contains "a" = false := by
    decide +kernel
  have hunused : judgedChecks (.ofOptions options) calls = 0 := by decide +kernel
  have huntracked : (reached (.ofOptions options) .origin calls).clients.get? "a" = none := by
    decide +kernel
  have hrange : (Instant.origin.later? (Limits.ofOptions options).block).isSome := by
    decide +kernel
  obtain ⟨hfull, hburst⟩ := burst_then_strikes_then_block .origin calls options hkey
  obtain ⟨hanswer, hend⟩ := hburst huntracked .origin hrange (hfull hunused .origin) 2000
  exact ⟨hkey, hunused, huntracked, hrange, hanswer, hend (by decide +kernel)⟩

example : (List.range 7).map (burstDecision 2 3 (.ofSeconds 30)) =
    [.admitted, .admitted, .rateLimited 1 false, .rateLimited 2 false, .rateLimited 3 true,
      .blocked (.ofSeconds 30), .blocked (.ofSeconds 30)] := rfl

end Guard
end AdmissionGuard

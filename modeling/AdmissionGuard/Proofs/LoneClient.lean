import AdmissionGuard.Proofs.Burst
import AdmissionGuard.Proofs.RestedClient
import AdmissionGuard.Proofs.SteadyClient

/-! A client on its own. While no other client draws from the shared bucket it holds at least as much
as the client's own, so the client's own bucket is the first to deny. -/
namespace AdmissionGuard

namespace TokenBucket

/-- The first bucket is as large and as fast as the second, was last refilled with it and holds as
much, or more. -/
structure Covers (b own : TokenBucket) : Prop where
  capacity_le : own.capacity ≤ b.capacity
  rate_le : own.rate ≤ b.rate
  refilledAt_eq : b.refilledAt = own.refilledAt
  level_le : own.level ≤ b.level

section
variable {perMinute burst perMinute' burst' : UInt32} {b own : TokenBucket} {now : Instant}

theorem Covers.refill (h : b.Covers own) (hown : own.Fits perMinute burst) :
    (b.refill now).Covers (own.refill now) := by
  by_cases hlt : own.refilledAt < now
  · have hlt' : b.refilledAt < now := h.refilledAt_eq ▸ hlt
    rw [refill_of_lt hlt, refill_of_lt hlt', h.refilledAt_eq]
    have hgain := Binary64.round_mono
      (mul_nonneg hown.rate_nonneg (now.since own.refilledAt).inSeconds_nonneg)
      (mul_le_mul_of_nonneg_right h.rate_le (now.since own.refilledAt).inSeconds_nonneg)
    have hsum := Binary64.round_mono
      (add_nonneg hown.level_nonneg (hown.gain_nonneg (now.since own.refilledAt)))
      (add_le_add h.level_le hgain)
    exact ⟨h.capacity_le, h.rate_le, rfl, min_le_min hsum (Nat.cast_le.2 h.capacity_le)⟩
  · have hle := Instant.not_lt.1 hlt
    have hle' : now ≤ b.refilledAt := h.refilledAt_eq ▸ hle
    rw [refill_of_le hle, refill_of_le hle']
    exact h

/-- What covers a bucket grants whenever the bucket does, and covers it then as well. -/
theorem Covers.attempt (h : (b.refill now).Covers (own.refill now)) (hb : b.Fits perMinute' burst')
    (hown : own.Fits perMinute burst) (hgranted : (own.attempt now).1 = true) :
    (b.attempt now).1 = true ∧ (b.attempt now).2.Covers (own.attempt now).2 := by
  rw [attempt_fst_eq_true] at hgranted
  have hone := hgranted.trans h.level_le
  rw [hown.attempt_of_granted hgranted, hb.attempt_of_granted hone]
  exact ⟨rfl, h.capacity_le, h.rate_le, h.refilledAt_eq, sub_le_sub_right h.level_le 1⟩

theorem refill_full {start : Instant} (h : start ≤ now) :
    (full perMinute burst start).refill now = full perMinute burst now := by
  have hfits := full_fits perMinute burst start
  have hstart : ((full perMinute burst start).refill start).level =
      (full perMinute burst start).capacity := by
    rw [refill_of_le (Int.le_refl start.nanos)]
    rfl
  have hlevel := hfits.full_of_le h hstart
  have hat : ((full perMinute burst start).refill now).refilledAt = now :=
    (refill_refilledAt _ now).trans (Instant.latest_eq_right h)
  rw [← ((full perMinute burst start).refill_fixed now).1] at hlevel
  rw [(hfits.refill now).eq_full hlevel, hat]

end

theorem full_covers {limits : Limits} (h : limits.Coerced) (now : Instant) :
    (full limits.globalPerMinute limits.globalBurst now).Covers
      (full limits.perClientPerMinute limits.perClientBurst now) := by
  have hburst : max limits.perClientBurst.toNat 1 ≤ max limits.globalBurst.toNat 1 :=
    max_le_max_right 1 h.globalBurst_ge
  have hrate : max limits.perClientPerMinute.toNat 1 ≤ max limits.globalPerMinute.toNat 1 :=
    max_le_max_right 1 h.globalPerMinute_ge
  refine ⟨hburst, Binary64.round_mono ?_ ?_, rfl, Nat.cast_le.2 hburst⟩
  · exact div_nonneg (Nat.cast_nonneg _) (by norm_num)
  · exact div_le_div_of_nonneg_right (Nat.cast_le.2 hrate) (by norm_num)

end TokenBucket

def Moment.ownGrants (key : String) (m : Moment) : Bool :=
  match m.call with
  | .check k now =>
    k ≠ key || ((m.before.clients.sighted m.before.limits key now).bucket.attempt now).1
  | .sweep _ | .status .. => true

namespace Guard

def Call.LoneBy (a : Allowlist) (key : String) (start : Instant) : Call → Prop
  | .check k now => (k = key ∧ start ≤ now) ∨ a.contains k = true
  | .sweep _ | .status .. => True

instance (a : Allowlist) (key : String) (start : Instant) : ∀ call : Call,
    Decidable (call.LoneBy a key start)
  | .check k now => inferInstanceAs (Decidable ((k = key ∧ start ≤ now) ∨ a.contains k = true))
  | .sweep _ | .status .. => isTrue trivial

/-- The shared bucket covers that of the client, who is not blocked. Before the client's first check
nobody has drawn from the shared bucket. -/
def Covered (limits : Limits) (start : Instant) (key : String) (g : Guard) : Prop :=
  match g.clients.get? key with
  | none => g.shared = .full limits.globalPerMinute limits.globalBurst start
  | some c => g.shared.Covers c.bucket ∧ c.blockedUntil = none

section
variable {limits : Limits} {start now : Instant} {key : String} {g : Guard} {calls : List Call}

theorem covered_of_some {c : Client} (hc : g.clients.get? key = some c) :
    g.Covered limits start key ↔ g.shared.Covers c.bucket ∧ c.blockedUntil = none := by
  rw [Covered, hc]

theorem Covered.sighted (h : g.Covered limits start key) (hcoerced : limits.Coerced)
    (hfits : ∀ c, g.clients.get? key = some c →
      c.bucket.Fits limits.perClientPerMinute limits.perClientBurst)
    (hstart : start ≤ now) :
    let c := g.clients.sighted limits key now
    c.blockRemaining? now = none ∧
      c.bucket.Fits limits.perClientPerMinute limits.perClientBurst ∧
      (g.shared.refill now).Covers (c.bucket.refill now) := by
  intro c
  cases hc : g.clients.get? key with
  | none =>
    have hfound : c = (Client.fresh limits now).seen now := by
      simp only [c, Store.sighted, hc, Option.getD_none]
    rw [Covered, hc] at h
    rw [hfound, h, TokenBucket.refill_full hstart]
    refine ⟨rfl, TokenBucket.full_fits _ _ now, ?_⟩
    show TokenBucket.Covers _ ((TokenBucket.full _ _ now).refill now)
    rw [TokenBucket.refill_full (Int.le_refl now.nanos)]
    exact TokenBucket.full_covers hcoerced now
  | some c₀ =>
    have hfound : c = c₀.seen now := by
      simp only [c, Store.sighted, hc, Option.getD_some]
    obtain ⟨hcovers, hfree⟩ := (covered_of_some hc).1 h
    rw [hfound]
    refine ⟨?_, hfits c₀ hc, hcovers.refill (hfits c₀ hc)⟩
    exact Client.blockRemaining?_of_unblocked hfree now

/-- A check of the client that its own bucket grants. -/
theorem Covered.check (h : (reached limits start calls).Covered limits start key)
    (hcoerced : limits.Coerced)
    (hkey : (Allowlist.ofEntries limits.allowlist).contains key = false) (hstart : start ≤ now)
    (hown : Moment.ownGrants key ⟨reached limits start calls, .check key now⟩ = true) :
    ((reached limits start calls).check key now).answer = .admitted ∧
      ((reached limits start calls).shared.attempt now).1 = true ∧
      (reached limits start (calls ++ [.check key now])).Covered limits start key := by
  have hx := (reached_contains limits start calls key).trans hkey
  have hfixed := (reached_fixed limits start calls).1
  obtain ⟨d, c, b, hj, hd, hget, hb⟩ := step_own _ now hx
  obtain ⟨hfree, hfits, hcovers⟩ := h.sighted hcoerced
    (fun c hc => (entry_sound limits start calls hc).fits) hstart
  simp only [Moment.ownGrants, ne_eq, not_true, decide_false, Bool.false_or, hfixed] at hown
  rw [hfixed] at hj
  obtain ⟨hshared, hafter⟩ := hcovers.attempt (shared_fits limits start calls) hfits hown
  obtain ⟨rfl, rfl, rfl⟩ := hj.unique (.admitted hfree hown hshared)
  rw [reached_snoc, covered_of_some hget, hb]
  exact ⟨hd, hshared, hafter, rfl⟩

/-- Any other call leaves the shared bucket alone, and the client's entry if it does not evict it. -/
theorem Covered.other (h : (reached limits start calls).Covered limits start key) {call : Call}
    (hlone : call.LoneBy (.ofEntries limits.allowlist) key start)
    (hcall : ∀ now, call ≠ .check key now)
    (hkept : Moment.evicts ⟨reached limits start calls, call⟩ key = false) :
    (reached limits start (calls ++ [call])).Covered limits start key := by
  have hshared : ((reached limits start calls).step call).guard.shared =
      (reached limits start calls).shared := by
    cases call with
    | check k now =>
      obtain ⟨rfl, -⟩ | hexempt := hlone
      · exact absurd rfl (hcall now)
      · rw [step, check_exempt _ now ((reached_contains limits start calls k).trans hexempt)]
    | sweep | status => rfl
  have hentry : ((reached limits start calls).step call).guard.clients.get? key =
      (reached limits start calls).clients.get? key := by
    obtain he | ⟨hnone, -, c, hc, -⟩ := step_other (reached limits start calls) key call
      fun now heq => absurd heq (hcall now)
    · exact he
    · simp [Moment.evicts, Moment.after, tracks, hnone, hc] at hkept
  rw [reached_snoc, Covered, hentry, hshared]
  exact h

/-- A run in which the client's own bucket grants each of its checks. -/
theorem covered_of_granted (hcoerced : limits.Coerced)
    (hkey : (Allowlist.ofEntries limits.allowlist).contains key = false)
    (hlone : ∀ call ∈ calls, call.LoneBy (.ofEntries limits.allowlist) key start)
    (hkept : ∀ m ∈ history limits start calls, m.evicts key = false)
    (hown : ∀ m ∈ history limits start calls, m.ownGrants key = true) :
    (reached limits start calls).Covered limits start key ∧
      (∀ m ∈ history limits start calls, m.sharedGrants key = true) ∧
      ∀ v ∈ verdictsOf key (history limits start calls), v.decision = .admitted := by
  induction calls using List.reverseRecOn with
  | nil => exact ⟨rfl, List.forall_mem_nil _, List.forall_mem_nil _⟩
  | append_singleton calls call ih =>
    rw [history_snoc, List.forall_mem_append, List.forall_mem_singleton] at hkept hown
    rw [List.forall_mem_append, List.forall_mem_singleton] at hlone
    obtain ⟨hcovered, hshared, hadmitted⟩ := ih hlone.1 hkept.1 hown.1
    rw [history_snoc, verdictsOf_append, List.forall_mem_append, List.forall_mem_append,
      List.forall_mem_singleton]
    by_cases hcall : ∃ now, call = .check key now
    · obtain ⟨now, rfl⟩ := hcall
      have hstart : start ≤ now := by
        obtain ⟨-, hle⟩ | hexempt := hlone.2
        · exact hle
        · rw [hkey] at hexempt
          cases hexempt
      obtain ⟨hanswer, hgranted, hnext⟩ := hcovered.check hcoerced hkey hstart hown.2
      rw [verdictsOf_check, List.forall_mem_singleton]
      exact ⟨hnext, ⟨hshared, by simpa [Moment.sharedGrants] using hgranted⟩, hadmitted, hanswer⟩
    · have hne : ∀ now, call ≠ .check key now := fun now he => hcall ⟨now, he⟩
      rw [verdictsOf_other hne]
      refine ⟨hcovered.other hlone.2 hne hkept.2, ⟨hshared, ?_⟩, hadmitted, List.forall_mem_nil _⟩
      cases call with
      | check k now =>
        have hk : k ≠ key := by
          rintro rfl
          exact hne now rfl
        simp [Moment.sharedGrants, hk]
      | sweep | status => rfl

end

/-- The first moments of a run are those of its first calls. -/
theorem takeWhile_trace (p : Moment → Bool) (g : Guard) (calls : List Call) :
    ∃ past, past <+: calls ∧ (g.trace calls).takeWhile p = g.trace past := by
  induction calls generalizing g with
  | nil => exact ⟨[], List.prefix_refl _, rfl⟩
  | cons call calls ih =>
    cases hp : p ⟨g, call⟩ with
    | true =>
      obtain ⟨past, hpast, htrace⟩ := ih (g.step call).guard
      refine ⟨call :: past, List.cons_prefix_cons.2 ⟨rfl, hpast⟩, ?_⟩
      rw [trace, List.takeWhile_cons_of_pos hp, htrace, trace]
    | false =>
      have hdenied : ¬p ⟨g, call⟩ = true := by simp [hp]
      exact ⟨[], List.nil_prefix, List.takeWhile_cons_of_neg hdenied⟩

/-- The shared bucket never denies a client that is alone before its own bucket does: up to that
check the shared bucket grants all of its checks, and each is admitted. -/
theorem own_bucket_denies_first (options : GuardOptions) (start : Instant) (calls : List Call)
    {key : String}
    (hkey : (Allowlist.ofEntries (Limits.ofOptions options).allowlist).contains key = false)
    (hlone : ∀ call ∈ calls,
      call.LoneBy (.ofEntries (Limits.ofOptions options).allowlist) key start)
    (hkept : ∀ m ∈ history (.ofOptions options) start calls, m.evicts key = false) :
    let granted := (history (.ofOptions options) start calls).takeWhile (·.ownGrants key)
    (∀ m ∈ granted, m.sharedGrants key = true) ∧
      ∀ v ∈ verdictsOf key granted, v.decision = .admitted := by
  intro granted
  obtain ⟨past, ⟨rest, rfl⟩, htrace⟩ :=
    takeWhile_trace (·.ownGrants key) (create (.ofOptions options) start) calls
  have hgranted : granted = history (.ofOptions options) start past := htrace
  have hown : ∀ m ∈ granted, m.ownGrants key = true := fun m hm => List.mem_takeWhile_imp hm
  rw [List.forall_mem_append] at hlone
  rw [history, trace_append, List.forall_mem_append] at hkept
  rw [hgranted] at hown ⊢
  exact (covered_of_granted (Limits.ofOptions_coerced options) hkey hlone.1 hkept.1 hown).2

/-- The global burst of one is raised to that of a client. Two seconds give a token at thirty a
minute, and the call before the last finds none. -/
theorem lone_client_within_raised_limits :
    let options : GuardOptions :=
      { perClientPerMinute := 30, perClientBurst := 2, globalPerMinute := 1, globalBurst := 1 }
    let second : Instant := ⟨1000000000, by decide, by decide⟩
    let late : Instant := ⟨2000000000, by decide, by decide⟩
    let calls := [Call.check "a" second, .check "127.0.0.1" .origin, .sweep late,
      .check "a" .origin, .check "a" .origin, .check "a" late]
    let h := history (.ofOptions options) .origin calls
    (Allowlist.ofEntries (Limits.ofOptions options).allowlist).contains "a" = false ∧
      (∀ call ∈ calls,
        call.LoneBy (.ofEntries (Limits.ofOptions options).allowlist) "a" .origin) ∧
      (∀ m ∈ h, m.evicts "a" = false) ∧ (h.map (·.ownGrants "a")).idxOf false = 4 ∧
      ∀ v ∈ verdictsOf "a" (h.takeWhile (·.ownGrants "a")), v.decision = .admitted := by
  intro options second late calls h
  have hkey : (Allowlist.ofEntries (Limits.ofOptions options).allowlist).contains "a" = false := by
    decide +kernel
  have hlone : ∀ call ∈ calls,
      call.LoneBy (.ofEntries (Limits.ofOptions options).allowlist) "a" .origin := by
    decide +kernel
  have hkept : ∀ m ∈ h, m.evicts "a" = false := by decide +kernel
  exact ⟨hkey, hlone, hkept, by decide +kernel,
    (own_bucket_denies_first options .origin calls hkey hlone hkept).2⟩

end Guard
end AdmissionGuard

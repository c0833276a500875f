import AdmissionGuard.Proofs.Blocks
import AdmissionGuard.Proofs.History
import AdmissionGuard.Proofs.Refill
import Mathlib.Data.List.Chain

/-! Clients that keep to their rate. A client that leaves time for a token between its checks finds a
token in its bucket at each of them, so it gathers no strikes and is never blocked. -/
namespace AdmissionGuard

/-- The second instant comes after the first by the time of a whole token, and a little more. -/
def Limits.Spaced (limits : Limits) (s t : Instant) : Prop :=
  s < t ∧ 60 * (1 + 1 / 2 ^ 50) ≤
    (t.since s).exactSeconds * (max limits.perClientPerMinute.toNat 1 : Nat)

instance (limits : Limits) (s t : Instant) : Decidable (limits.Spaced s t) :=
  inferInstanceAs (Decidable (_ ∧ _))

def Guard.ownInstants (key : String) (calls : List Guard.Call) : List Instant :=
  calls.filterMap fun
    | .check k now => if k = key then some now else none
    | .sweep _ | .status .. => none

def Moment.sharedGrants (key : String) (m : Moment) : Bool :=
  match m.call with
  | .check k now => k ≠ key || (m.before.shared.attempt now).1
  | .sweep _ | .status .. => true

theorem TokenBucket.Fits.one_le_refill {limits : Limits} {b : TokenBucket} {now : Instant}
    (h : b.Fits limits.perClientPerMinute limits.perClientBurst)
    (hspaced : limits.Spaced b.refilledAt now) : 1 ≤ (b.refill now).level := by
  obtain ⟨hlt, hgap⟩ := hspaced
  have hsum := h.le_sum (now.since b.refilledAt)
  have hlevel := h.level_nonneg
  have hearned : 1 + 1 / 2 ^ 50 ≤
      earned limits.perClientPerMinute (now.since b.refilledAt) := by
    rw [earned, le_div_iff₀ (by norm_num)]
    linarith
  rw [refill_of_lt hlt]
  refine le_min (le_trans ?_ hsum) h.one_le_capacity
  norm_num at hearned ⊢
  linarith

structure Client.Steady (limits : Limits) (last : Option Instant) (c : Client) : Prop where
  fits : c.bucket.Fits limits.perClientPerMinute limits.perClientBurst
  strikes_eq : c.strikes = 0
  blockedUntil_eq : c.blockedUntil = none
  refilledAt_eq : last = some c.bucket.refilledAt

namespace Guard
variable {limits : Limits} {start : Instant} {calls : List Call} {key : String}

theorem ownInstants_snoc_check (now : Instant) :
    ownInstants key (calls ++ [.check key now]) = ownInstants key calls ++ [now] := by
  simp [ownInstants]

theorem ownInstants_snoc_other {call : Call} (h : ∀ now, call ≠ .check key now) :
    ownInstants key (calls ++ [call]) = ownInstants key calls := by
  cases call with
  | check k now =>
    have hne : k ≠ key := by
      rintro rfl
      exact h now rfl
    simp [ownInstants, hne]
  | sweep | status => simp [ownInstants]

theorem check_steady (hkey : (Allowlist.ofEntries limits.allowlist).contains key = false)
    {now : Instant}
    (hentry : ∀ c, (reached limits start calls).clients.get? key = some c →
      c.Steady limits (ownInstants key calls).getLast?)
    (hspaced : (ownInstants key (calls ++ [.check key now])).IsChain limits.Spaced)
    (hshared : ((reached limits start calls).shared.attempt now).1 = true) :
    ((reached limits start calls).check key now).answer = .admitted ∧
      ∃ c, (reached limits start (calls ++ [.check key now])).clients.get? key = some c ∧
        c.Steady limits (ownInstants key (calls ++ [.check key now])).getLast? := by
  obtain ⟨c₀, d, c, b, hc, hj, hd, hget, -⟩ := own_check limits start calls now hkey
  rw [ownInstants_snoc_check] at hspaced ⊢
  have hfound : c₀.bucket.Fits limits.perClientPerMinute limits.perClientBurst ∧
      c₀.strikes = 0 ∧ c₀.blockedUntil = none ∧ 1 ≤ (c₀.bucket.refill now).level ∧
      c₀.bucket.refilledAt.latest now = now := by
    obtain hc | ⟨-, rfl⟩ := hc
    · have hs := hentry c₀ hc
      have hgap := (List.isChain_append.1 hspaced).2.2 _ hs.refilledAt_eq now rfl
      exact ⟨hs.fits, hs.strikes_eq, hs.blockedUntil_eq, hs.fits.one_le_refill hgap,
        if_pos hgap.1⟩
    · have hfits := TokenBucket.full_fits limits.perClientPerMinute limits.perClientBurst now
      have hsame : (Client.fresh limits now).bucket.refill now = (Client.fresh limits now).bucket :=
        TokenBucket.refill_of_le (Int.le_refl now.nanos)
      refine ⟨hfits, rfl, rfl, ?_, ite_self now⟩
      rw [hsame]
      exact hfits.one_le_capacity
  obtain ⟨hfits, hstrikes, hfree, hone, hlatest⟩ := hfound
  have hown : (c₀.bucket.attempt now).1 = true := (TokenBucket.attempt_fst_eq_true _ _).2 hone
  obtain ⟨rfl, rfl, -⟩ :=
    hj.unique (.admitted (Client.blockRemaining?_of_unblocked hfree now) hown hshared)
  refine ⟨hd, _, hget, hfits.attempt now, congrArg (· - 1) hstrikes, rfl, ?_⟩
  rw [List.getLast?_concat]
  exact congrArg some (hlatest.symm.trans (TokenBucket.attempt_refilledAt _ now).symm)

theorem steady_of_spaced (hkey : (Allowlist.ofEntries limits.allowlist).contains key = false)
    (hspaced : (ownInstants key calls).IsChain limits.Spaced)
    (hshared : ∀ m ∈ history limits start calls, m.sharedGrants key = true) :
    (∀ v ∈ verdictsOf key (history limits start calls), v.decision = .admitted) ∧
      ∀ c, (reached limits start calls).clients.get? key = some c →
        c.Steady limits (ownInstants key calls).getLast? := by
  induction calls using List.reverseRecOn with
  | nil => exact ⟨fun v hv => (nomatch hv), fun c hc => (nomatch hc)⟩
  | append_singleton calls call ih =>
    rw [history_snoc, List.forall_mem_append] at hshared
    have hlast := hshared.2 _ (List.mem_singleton_self _)
    by_cases hown : ∃ now, call = .check key now
    · obtain ⟨now, rfl⟩ := hown
      have hchain := hspaced
      rw [ownInstants_snoc_check] at hchain
      obtain ⟨hverdicts, hentry⟩ := ih (List.isChain_append.1 hchain).1 hshared.1
      obtain ⟨hanswer, c, hget, hsteady⟩ :=
        check_steady hkey hentry hspaced (by simpa [Moment.sharedGrants] using hlast)
      rw [history_snoc, verdictsOf_append, verdictsOf_check, List.forall_mem_append]
      refine ⟨⟨hverdicts, ?_⟩, ?_⟩
      · intro v hv
        rw [List.mem_singleton.1 hv]
        exact hanswer
      · intro c' hc'
        rw [hget] at hc'
        cases hc'
        exact hsteady
    · have hne : ∀ now, call ≠ .check key now := fun now he => hown ⟨now, he⟩
      rw [ownInstants_snoc_other hne] at hspaced ⊢
      obtain ⟨hverdicts, hentry⟩ := ih hspaced hshared.1
      rw [history_snoc, verdictsOf_append, verdictsOf_other hne, List.append_nil]
      refine ⟨hverdicts, fun c hc => ?_⟩
      rw [reached_snoc] at hc
      obtain he | ⟨hnone, -⟩ := step_other _ key call fun now heq => absurd heq (hne now)
      · exact hentry c (he.symm.trans hc)
      · rw [hnone] at hc
        cases hc

theorem ownInstants_append (past rest : List Call) :
    ownInstants key (past ++ rest) = ownInstants key past ++ ownInstants key rest :=
  List.filterMap_append

/-- A client that leaves a token's time between its checks is admitted at each of them that finds a
token in the shared bucket, and it has no strikes and no block at any point of the run. -/
theorem spaced_client_never_punished
    (hkey : (Allowlist.ofEntries limits.allowlist).contains key = false)
    (hspaced : (ownInstants key calls).IsChain limits.Spaced)
    (hshared : ∀ m ∈ history limits start calls, m.sharedGrants key = true) :
    (∀ v ∈ verdictsOf key (history limits start calls), v.decision = .admitted) ∧
      ∀ past, past <+: calls → ∀ c, (reached limits start past).clients.get? key = some c →
        c.strikes = 0 ∧ ∀ now, c.blockRemaining? now = none := by
  refine ⟨(steady_of_spaced hkey hspaced hshared).1, ?_⟩
  rintro past ⟨rest, rfl⟩ c hc
  rw [ownInstants_append, List.isChain_append] at hspaced
  rw [history, trace_append, List.forall_mem_append] at hshared
  have hsteady := (steady_of_spaced hkey hspaced.1 hshared.1).2 c hc
  exact ⟨hsteady.strikes_eq, Client.blockRemaining?_of_unblocked hsteady.blockedUntil_eq⟩

/-- One nanosecond more than a second between the checks, at sixty a minute. -/
theorem strict_spaced_client_never_punished :
    let t : Instant := ⟨1000000001, by decide, by decide⟩
    let calls := [Call.check "a" .origin, .sweep t, .check "b" .origin, .check "a" t]
    (Allowlist.ofEntries Limits.strict.allowlist).contains "a" = false ∧
      (ownInstants "a" calls).IsChain Limits.strict.Spaced ∧
      (∀ m ∈ history .strict .origin calls, m.sharedGrants "a" = true) ∧
      ∀ v ∈ verdictsOf "a" (history .strict .origin calls), v.decision = .admitted := by
  intro t calls
  have hkey : (Allowlist.ofEntries Limits.strict.allowlist).contains "a" = false := by
    decide +kernel
  have hspaced : (ownInstants "a" calls).IsChain Limits.strict.Spaced := by decide +kernel
  have hshared : ∀ m ∈ history .strict .origin calls, m.sharedGrants "a" = true := by
    decide +kernel
  exact ⟨hkey, hspaced, hshared, (spaced_client_never_punished hkey hspaced hshared).1⟩

end Guard
end AdmissionGuard

import AdmissionGuard.Guard
import AdmissionGuard.Proofs.Store

/-! What one call does to one client's entry and to the shared bucket. -/
namespace AdmissionGuard

/-- A check at `now` finds the client as `c` and the shared bucket as `b`. The last three arguments
are the decision and what it leaves of both. -/
inductive Judged (limits : Limits) (now : Instant) (c : Client) (b : TokenBucket) :
    Decision → Client → TokenBucket → Prop where
  | blocked (remaining : Span) (h : c.blockRemaining? now = some remaining) :
    Judged limits now c b (.blocked remaining) c b
  | admitted (h : c.blockRemaining? now = none)
      (own : (c.bucket.attempt now).1 = true) (shared : (b.attempt now).1 = true) :
    Judged limits now c b .admitted
      { c with bucket := (c.bucket.attempt now).2, blockedUntil := none, strikes := c.strikes - 1 }
      (b.attempt now).2
  | limited (h : c.blockRemaining? now = none)
      (denied : ¬((c.bucket.attempt now).1 = true ∧ (b.attempt now).1 = true))
      (below : min (c.strikes + 1) Guard.mostStrikes < limits.strikeThreshold.toNat) :
    Judged limits now c b (.rateLimited (min (c.strikes + 1) Guard.mostStrikes) false)
      { c with
        bucket := (c.bucket.attempt now).2
        blockedUntil := none
        strikes := min (c.strikes + 1) Guard.mostStrikes }
      (b.attempt now).2
  | punished (h : c.blockRemaining? now = none)
      (denied : ¬((c.bucket.attempt now).1 = true ∧ (b.attempt now).1 = true))
      (reached : limits.strikeThreshold.toNat ≤ min (c.strikes + 1) Guard.mostStrikes) :
    Judged limits now c b (.rateLimited (min (c.strikes + 1) Guard.mostStrikes) true)
      { c with
        bucket := (c.bucket.attempt now).2
        blockedUntil := some (now.blockEnd limits.block)
        strikes := 0 }
      (b.attempt now).2

theorem Judged.lastSeen_eq {limits : Limits} {now : Instant} {c c' : Client} {b b' : TokenBucket}
    {d : Decision} (h : Judged limits now c b d c' b') : c'.lastSeen = c.lastSeen := by
  cases h <;> rfl

/-- What a check finds determines all that it decides and leaves. -/
theorem Judged.unique {limits : Limits} {now : Instant} {c c₁ c₂ : Client}
    {b b₁ b₂ : TokenBucket} {d₁ d₂ : Decision} (h₁ : Judged limits now c b d₁ c₁ b₁)
    (h₂ : Judged limits now c b d₂ c₂ b₂) : d₁ = d₂ ∧ c₁ = c₂ ∧ b₁ = b₂ := by
  cases h₁ with
  | blocked r h =>
    cases h₂ with
    | blocked r' h' =>
      rw [h] at h'
      cases h'
      exact ⟨rfl, rfl, rfl⟩
    | admitted h' | limited h' | punished h' =>
      rw [h] at h'
      cases h'
  | admitted h own shared =>
    cases h₂ with
    | blocked r h' =>
      rw [h] at h'
      cases h'
    | admitted => exact ⟨rfl, rfl, rfl⟩
    | limited _ denied | punished _ denied => exact absurd ⟨own, shared⟩ denied
  | limited h denied below =>
    cases h₂ with
    | blocked r h' =>
      rw [h] at h'
      cases h'
    | admitted _ own shared => exact absurd ⟨own, shared⟩ denied
    | limited => exact ⟨rfl, rfl, rfl⟩
    | punished _ _ reached => exact absurd reached (Nat.not_le.2 below)
  | punished h denied reached =>
    cases h₂ with
    | blocked r h' =>
      rw [h] at h'
      cases h'
    | admitted _ own shared => exact absurd ⟨own, shared⟩ denied
    | limited _ _ below => exact absurd reached (Nat.not_le.2 below)
    | punished => exact ⟨rfl, rfl, rfl⟩

theorem Store.le_lastSeen_sighted (s : Store) (limits : Limits) (key : String) (now : Instant) :
    now.nanos ≤ (s.sighted limits key now).lastSeen.nanos :=
  Instant.le_latest_right _ now

/-- A client seen at `now` or later is too fresh for a sweep at `now`, blocked or not. -/
theorem Client.not_forgettable {now : Instant} {c : Client} (h : now.nanos ≤ c.lastSeen.nanos)
    (stale : Span) : ¬c.Forgettable now stale := by
  rintro ⟨hold, -⟩
  omega

namespace Guard

theorem charge_judged (g : Guard) (key : String) (c : Client) (now : Instant)
    (h : c.blockRemaining? now = none) :
    ∃ c' b', Judged g.limits now c g.shared (g.charge key c now).answer c' b' ∧
      (g.charge key c now).guard = { g with shared := b', clients := g.clients.set key c' } := by
  unfold charge
  dsimp only
  split
  · next hgrant =>
    have hboth : (c.bucket.attempt now).1 = true ∧ (g.shared.attempt now).1 = true := by
      simpa using hgrant
    exact ⟨_, _, .admitted h hboth.1 hboth.2, rfl⟩
  · next hgrant =>
    have hdenied : ¬((c.bucket.attempt now).1 = true ∧ (g.shared.attempt now).1 = true) := by
      simpa using hgrant
    split
    · next hreached => exact ⟨_, _, .punished h hdenied hreached, rfl⟩
    · next hbelow => exact ⟨_, _, .limited h hdenied (Nat.lt_of_not_le hbelow), rfl⟩

theorem judge_judged (g : Guard) (key : String) (now : Instant) :
    ∃ c b, Judged g.limits now (g.clients.sighted g.limits key now) g.shared
        (g.judge key now).answer c b ∧
      (g.judge key now).guard = { g with shared := b, clients := g.clients.set key c } := by
  cases h : (g.clients.sighted g.limits key now).blockRemaining? now with
  | some remaining =>
    have he : g.judge key now =
        ⟨.blocked remaining, { g with clients := g.clients.touch g.limits key now }, []⟩ := by
      simp only [judge, h]
    rw [he, Store.touch]
    exact ⟨_, _, .blocked remaining h, rfl⟩
  | none =>
    have he : g.judge key now = g.charge key (g.clients.sighted g.limits key now) now := by
      simp only [judge, h]
    rw [he]
    exact g.charge_judged key _ now h

/-- Judging a client neither reads nor changes the counters. -/
theorem charge_counters (g : Guard) (n : Counters) (key : String) (c : Client) (now : Instant) :
    { g with counters := n }.charge key c now =
      { g.charge key c now with guard := { (g.charge key c now).guard with counters := n } } := by
  unfold charge
  dsimp only
  split
  · rfl
  · split <;> rfl

theorem judge_counters (g : Guard) (n : Counters) (key : String) (now : Instant) :
    { g with counters := n }.judge key now =
      { g.judge key now with guard := { (g.judge key now).guard with counters := n } } := by
  unfold judge
  dsimp only
  split
  · rfl
  · exact g.charge_counters n key _ now

theorem check_exempt (g : Guard) {key : String} (now : Instant)
    (h : g.allowlist.contains key = true) :
    g.check key now = ⟨.exempt, { g with counters := g.counters.record .exempt }, []⟩ := by
  rw [check, if_pos h]

/-- The guard once a judged check is settled and counted, before the sweep that may follow it. -/
def settled (g : Guard) (key : String) (d : Decision) (c : Client) (b : TokenBucket) : Guard :=
  { g with
    shared := b
    clients := g.clients.set key c
    checked := g.checked + 1
    counters := g.counters.record d }

/-- A check that is not exempt judges the client and, where one is due, sweeps afterwards. -/
theorem check_judged (g : Guard) {key : String} (now : Instant)
    (h : g.allowlist.contains key = false) :
    ∃ d c b, Judged g.limits now (g.clients.sighted g.limits key now) g.shared d c b ∧
      (g.check key now).answer = d ∧
      (g.check key now).guard =
        if (g.checked + 1) % sweepEvery = 0 then ((g.settled key d c b).sweep now).guard
        else g.settled key d c b := by
  obtain ⟨c, b, hj, hg⟩ := g.judge_judged key now
  refine ⟨(g.judge key now).answer, c, b, hj, ?_⟩
  have hk : ¬g.allowlist.contains key = true := by simp [h]
  rw [check, if_neg hk]
  dsimp only
  rw [hg]
  dsimp only
  split <;> exact ⟨rfl, rfl⟩

def Call.instant : Call → Instant
  | .check _ now | .sweep now | .status _ now => now

theorem sweep_get? (g : Guard) (now : Instant) (key : String) :
    (g.sweep now).guard.clients.get? key =
      (g.clients.get? key).filter fun c => ¬c.Forgettable now g.limits.staleAfter :=
  g.clients.get?_sweep now g.limits.staleAfter key

/-- A sweep forgets a client or leaves it as it is. -/
theorem sweep_get?_cases (g : Guard) (now : Instant) (key : String) :
    (g.sweep now).guard.clients.get? key = g.clients.get? key ∨
      (g.sweep now).guard.clients.get? key = none ∧
        ∃ c, g.clients.get? key = some c ∧ c.Forgettable now g.limits.staleAfter := by
  rw [sweep_get?]
  cases g.clients.get? key with
  | none => exact .inl rfl
  | some c =>
    by_cases hf : c.Forgettable now g.limits.staleAfter
    · exact .inr ⟨by simp [hf], c, rfl, hf⟩
    · exact .inl (by simp [hf])

/-- A check of a client that is not exempt judges it and leaves its entry in the store: a sweep that
follows cannot forget a client just seen. -/
theorem step_own (g : Guard) {key : String} (now : Instant)
    (h : g.allowlist.contains key = false) :
    ∃ d c b, Judged g.limits now (g.clients.sighted g.limits key now) g.shared d c b ∧
      (g.check key now).answer = d ∧
      (g.step (.check key now)).guard.clients.get? key = some c ∧
      (g.step (.check key now)).guard.shared = b := by
  obtain ⟨d, c, b, hj, hd, hg⟩ := g.check_judged now h
  have hset : (g.settled key d c b).clients.get? key = some c := g.clients.get?_set_self key c
  have hfresh : ¬c.Forgettable now g.limits.staleAfter := by
    apply Client.not_forgettable
    rw [hj.lastSeen_eq]
    exact Store.le_lastSeen_sighted g.clients g.limits key now
  refine ⟨d, c, b, hj, hd, ?_⟩
  simp only [step, hg]
  split
  · refine ⟨?_, rfl⟩
    rw [sweep_get?, hset]
    exact Option.filter_some_pos (decide_eq_true hfresh)
  · exact ⟨hset, rfl⟩

def sweepsIn (g : Guard) : Call → Prop
  | .check key _ => g.allowlist.contains key = false ∧ (g.checked + 1) % sweepEvery = 0
  | .sweep _ => True
  | .status .. => False

/-- No other call changes a client's entry, but the sweep in it may forget the client. -/
theorem step_other (g : Guard) (key : String) (call : Call)
    (h : ∀ now, call = .check key now → g.allowlist.contains key = true) :
    (g.step call).guard.clients.get? key = g.clients.get? key ∨
      (g.step call).guard.clients.get? key = none ∧ g.sweepsIn call ∧
        ∃ c, g.clients.get? key = some c ∧ c.Forgettable call.instant g.limits.staleAfter := by
  cases call with
  | check k now =>
    cases hk : g.allowlist.contains k with
    | true =>
      left
      simp only [step, g.check_exempt now hk]
    | false =>
      have hne : key ≠ k := by
        rintro rfl
        rw [h now rfl] at hk
        cases hk
      obtain ⟨d, c, b, -, -, hg⟩ := g.check_judged now hk
      have hset : (g.settled k d c b).clients.get? key = g.clients.get? key :=
        g.clients.get?_set_ne c hne
      simp only [step, hg]
      split
      · next hdue =>
        rw [← hset]
        exact ((g.settled k d c b).sweep_get?_cases now key).imp_right
          fun ⟨hnone, hold⟩ => ⟨hnone, ⟨hk, hdue⟩, hold⟩
      · exact .inl hset
  | sweep now =>
    exact (g.sweep_get?_cases now key).imp_right fun ⟨hnone, hold⟩ => ⟨hnone, trivial, hold⟩
  | status k now => exact .inl rfl

theorem step_fixed (g : Guard) (call : Call) :
    (g.step call).guard.limits = g.limits ∧ (g.step call).guard.allowlist = g.allowlist := by
  cases call with
  | check k now =>
    cases hk : g.allowlist.contains k with
    | true => simp only [step, g.check_exempt now hk, and_self]
    | false =>
      obtain ⟨d, c, b, -, -, hg⟩ := g.check_judged now hk
      simp only [step, hg]
      split <;> exact ⟨rfl, rfl⟩
  | sweep now => exact ⟨rfl, rfl⟩
  | status k now => exact ⟨rfl, rfl⟩

end Guard
end AdmissionGuard

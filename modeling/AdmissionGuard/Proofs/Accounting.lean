import AdmissionGuard.Proofs.History

/-! Token accounting. The guard's buckets are stand-alone buckets fed with the instants of the
checks that its history charges to them. -/
namespace AdmissionGuard

def Decision.charges : Decision → Bool
  | .admitted | .rateLimited .. => true
  | .exempt | .blocked _ => false

def charges (vs : List Verdict) : List Instant :=
  (vs.filter fun v => v.decision.charges).map (·.instant)

theorem charges_append (u v : List Verdict) : charges (u ++ v) = charges u ++ charges v := by
  simp [charges]

theorem charges_one (v : Verdict) :
    charges [v] = if v.decision.charges then [v.instant] else [] := by
  cases h : v.decision.charges <;> simp [charges, h]

theorem TokenBucket.attempts_append (b : TokenBucket) (u v : List Instant) :
    (b.attempts (u ++ v)).2 = ((b.attempts u).2.attempts v).2 := by
  induction u generalizing b with
  | nil => rfl
  | cons t ts ih => exact ih (b.attempt t).2

def TokenBucket.charged (b : TokenBucket) (vs : List Verdict) : TokenBucket :=
  (b.attempts (charges vs)).2

theorem TokenBucket.charged_append (b : TokenBucket) (u v : List Verdict) :
    b.charged (u ++ v) = (b.charged u).charged v := by
  rw [charged, charges_append, attempts_append]
  rfl

theorem TokenBucket.charged_one (b : TokenBucket) (v : Verdict) :
    b.charged [v] = if v.decision.charges then (b.attempt v.instant).2 else b := by
  rw [charged, charges_one]
  split <;> rfl

def sharedBucket (limits : Limits) (start : Instant) (h : List Moment) : TokenBucket :=
  (TokenBucket.full limits.globalPerMinute limits.globalBurst start).charged (verdicts h)

/-- The bucket of a client on its own, given the verdicts on it since its eviction. It is full at
the first of them, or at `now` if there is none yet. -/
def ownBucket (limits : Limits) (now : Instant) (vs : List Verdict) : TokenBucket :=
  (TokenBucket.full limits.perClientPerMinute limits.perClientBurst
    ((vs.map (·.instant)).headD now)).charged vs

theorem ownBucket_snoc (limits : Limits) (now : Instant) (vs : List Verdict) (v : Verdict) :
    ownBucket limits now (vs ++ [v]) =
      if v.decision.charges then ((ownBucket limits v.instant vs).attempt v.instant).2
      else ownBucket limits v.instant vs := by
  have hhead : ((vs ++ [v]).map (·.instant)).headD now = (vs.map (·.instant)).headD v.instant := by
    cases vs <;> rfl
  rw [ownBucket, hhead, TokenBucket.charged_append, TokenBucket.charged_one]
  rfl

section
variable {limits : Limits} {now : Instant} {c c' : Client} {b b' : TokenBucket} {d : Decision}

/-- A charge takes an attempt from both buckets whatever comes of it; without one both stay. -/
theorem Judged.buckets_eq (h : Judged limits now c b d c' b') :
    c'.bucket = (if d.charges then (c.bucket.attempt now).2 else c.bucket) ∧
      b' = (if d.charges then (b.attempt now).2 else b) := by
  cases h <;> exact ⟨rfl, rfl⟩

theorem Judged.charges_of_ne (h : Judged limits now c b d c' b') (hd : ∀ r, d ≠ .blocked r) :
    d.charges = true ∧
      (d = .admitted ↔ (c.bucket.attempt now).1 = true ∧ (b.attempt now).1 = true) ∧
      (d ≠ .admitted → ∃ strikes blocks, d = .rateLimited strikes blocks) := by
  cases h with
  | blocked r => exact absurd rfl (hd r)
  | admitted _ own shared =>
    exact ⟨rfl, ⟨fun _ => ⟨own, shared⟩, fun _ => rfl⟩, fun h => absurd rfl h⟩
  | limited _ denied =>
    exact ⟨rfl, ⟨nofun, fun hg => absurd hg denied⟩, fun _ => ⟨_, _, rfl⟩⟩
  | punished _ denied =>
    exact ⟨rfl, ⟨nofun, fun hg => absurd hg denied⟩, fun _ => ⟨_, _, rfl⟩⟩

end

namespace Guard
variable (limits : Limits) (start : Instant) (calls : List Call)

theorem step_shared (g : Guard) (call : Call) :
    (g.step call).guard.shared = g.shared.charged (verdicts [⟨g, call⟩]) := by
  cases call with
  | check k now =>
    have hv : verdicts [⟨g, .check k now⟩] = [⟨k, now, (g.check k now).answer⟩] := rfl
    rw [hv, TokenBucket.charged_one]
    cases hk : g.allowlist.contains k with
    | true =>
      simp only [step, g.check_exempt now hk]
      rfl
    | false =>
      obtain ⟨d, c, b, hj, hd, -, hb⟩ := g.step_own now hk
      rw [hb, hd]
      exact hj.buckets_eq.2
  | sweep now => rfl
  | status k now => rfl

theorem shared_eq_sharedBucket :
    (reached limits start calls).shared =
      sharedBucket limits start (history limits start calls) := by
  induction calls using List.reverseRecOn with
  | nil => rfl
  | append_singleton calls call ih =>
    rw [reached_snoc, history_snoc, step_shared, ih, sharedBucket, sharedBucket, verdicts_append,
      TokenBucket.charged_append]

theorem bucket_eq_ownBucket {key : String} (now : Instant) (c : Client)
    (h : (reached limits start calls).clients.get? key = some c) :
    c.bucket =
      ownBucket limits now (verdictsOf key (lifetime key (history limits start calls))) := by
  have hinv := entry_induction limits start
    (P := fun life c => ∀ now, c.bucket = ownBucket limits now (verdictsOf key life))
    ?own ?other calls c h
  · exact hinv now
  case own =>
    intro life c g now' d c' b' hc hj hd now
    have hold : c.bucket = ownBucket limits now' (verdictsOf key life) := by
      obtain hc | ⟨rfl, rfl⟩ := hc
      · exact hc now'
      · rfl
    rw [verdictsOf_append, verdictsOf_check, ownBucket_snoc, hd, ← hold]
    exact hj.buckets_eq.1
  case other =>
    intro life c m hc hm now
    rw [verdictsOf_append, verdictsOf_other hm, List.append_nil]
    exact hc now

/-- A check is judged on the stand-alone buckets. -/
theorem own_check_buckets {key : String} (now : Instant)
    (hkey : (Allowlist.ofEntries limits.allowlist).contains key = false) :
    ∃ c₀ c b,
      c₀.bucket =
        ownBucket limits now (verdictsOf key (sinceEviction key (history limits start calls))) ∧
      Judged limits now c₀ (sharedBucket limits start (history limits start calls))
        ((reached limits start calls).check key now).answer c b ∧
      ((reached limits start calls).check key now).guard.clients.get? key = some c ∧
      ((reached limits start calls).check key now).guard.shared = b := by
  obtain ⟨c₀, d, c, b, hc, hj, rfl, hget, hb⟩ := own_check_of limits start calls now hkey
    (P := fun life c => c.bucket = ownBucket limits now (verdictsOf key life)) rfl
    fun c hc => bucket_eq_ownBucket limits start calls now c hc
  rw [reached_snoc] at hget hb
  rw [shared_eq_sharedBucket] at hj
  rw [verdictsOf_sinceEviction limits start calls hkey]
  exact ⟨c₀.seen now, c, b, hc, hj, hget, hb⟩

/-- The guard's buckets are the stand-alone ones. A check that is not blocked is admitted exactly
when both of these grant it, and what it takes is not given back; no other call touches them. -/
theorem buckets_stand_alone (key : String) (now : Instant)
    (hkey : (Allowlist.ofEntries limits.allowlist).contains key = false) :
    let g := reached limits start calls
    let h := history limits start calls
    let own := ownBucket limits now (verdictsOf key (sinceEviction key h))
    let shared := sharedBucket limits start h
    let o := g.check key now
    g.shared = shared ∧
      (∀ c, g.clients.get? key = some c → c.bucket = own) ∧
      ((∀ r, o.answer ≠ .blocked r) →
        (o.answer = .admitted ↔ (own.attempt now).1 = true ∧ (shared.attempt now).1 = true) ∧
        (o.answer ≠ .admitted → ∃ strikes blocks, o.answer = .rateLimited strikes blocks) ∧
        o.guard.shared = (shared.attempt now).2 ∧
        (o.guard.clients.get? key).map (·.bucket) = some (own.attempt now).2) ∧
      (∀ r, o.answer = .blocked r →
        o.guard.shared = shared ∧ (o.guard.clients.get? key).map (·.bucket) = some own) ∧
      ∀ call, (∀ t, call ≠ .check key t) →
        ((g.step call).guard.clients.get? key).map (·.bucket) =
            (g.clients.get? key).map (·.bucket) ∨
          (g.step call).guard.clients.get? key = none ∧ g.sweepsIn call := by
  intro g h own shared o
  obtain ⟨c₀, c, b, hown, hj, hget, hb⟩ := own_check_buckets limits start calls now hkey
  have hleft := hj.buckets_eq
  rw [hown] at hleft
  refine ⟨shared_eq_sharedBucket limits start calls, ?_, ?_, ?_, ?_⟩
  · intro c hc
    have hc' := bucket_eq_ownBucket limits start calls now c hc
    rwa [← verdictsOf_sinceEviction limits start calls hkey] at hc'
  · intro hblocked
    obtain ⟨hcharges, hiff, hlimited⟩ := hj.charges_of_ne hblocked
    rw [hown] at hiff
    rw [hcharges] at hleft
    refine ⟨hiff, hlimited, hb.trans hleft.2, ?_⟩
    rw [hget, Option.map_some, hleft.1]
    rfl
  · intro r hr
    rw [hr] at hleft
    refine ⟨hb.trans hleft.2, ?_⟩
    rw [hget, Option.map_some, hleft.1]
    rfl
  · intro call hcall
    obtain he | ⟨hnone, hsweep, -⟩ := g.step_other key call fun t ht => absurd ht (hcall t)
    · exact .inl (congrArg _ he)
    · exact .inr ⟨hnone, hsweep⟩

theorem denied_strict_check_is_charged :
    let calls := [Call.check "a" .origin]
    let shared := sharedBucket .strict .origin (history .strict .origin calls)
    (Allowlist.ofEntries Limits.strict.allowlist).contains "a" = false ∧
      ((reached .strict .origin calls).check "a" .origin).answer = .rateLimited 1 true ∧
      ((reached .strict .origin calls).check "a" .origin).guard.shared =
        (shared.attempt .origin).2 := by
  intro calls shared
  have hkey : (Allowlist.ofEntries Limits.strict.allowlist).contains "a" = false := by
    decide +kernel
  have hanswer : ((reached .strict .origin calls).check "a" .origin).answer = .rateLimited 1 true :=
    strict_second_check
  have hbuckets := buckets_stand_alone .strict .origin calls "a" .origin hkey
  exact ⟨hkey, hanswer, (hbuckets.2.2.1 fun r hr => nomatch hanswer.symm.trans hr).2.2.1⟩

end Guard
end AdmissionGuard

import AdmissionGuard.Proofs.Accounting
import AdmissionGuard.Proofs.Refill
import AdmissionGuard.Proofs.Statistics

/-! The rate of admissions. A bucket grants its burst and what it earns in the time passed, but for
rounding, and the guard admits no more than its buckets grant. -/
namespace AdmissionGuard

def Instant.latestOf (start : Instant) (ts : List Instant) : Instant := ts.foldl latest start

theorem Instant.le_latestOf (start : Instant) (ts : List Instant) :
    start.nanos ≤ (start.latestOf ts).nanos := by
  induction ts generalizing start with
  | nil => exact le_refl _
  | cons t ts ih =>
    have hstep := start.latest_eq_max t
    have htail := ih (start.latest t)
    rw [latestOf, List.foldl_cons, ← latestOf]
    omega

namespace TokenBucket
variable {perMinute burst : UInt32} {b : TokenBucket}

def grants (b : TokenBucket) (ts : List Instant) : Nat := (b.attempts ts).1.count true

/-- The burst, what is earned up to the latest instant, and an allowance for rounding. -/
def mostGrants (perMinute burst : UInt32) (start : Instant) (ts : List Instant) : Rat :=
  (max burst.toNat 1 : Nat) + earned perMinute ((start.latestOf ts).since start) +
    ts.length * (1 / 2 ^ 17)

theorem earned_add (perMinute : UInt32) {d e f : Span} (h : d.nanos + e.nanos = f.nanos) :
    earned perMinute d + earned perMinute e = earned perMinute f := by
  simp only [earned, Span.exactSeconds, ← h, Nat.cast_add]
  ring

theorem Fits.refill_level_le (h : b.Fits perMinute burst) (now : Instant) :
    (b.refill now).level ≤ b.level + earned perMinute (now.since b.refilledAt) + 1 / 2 ^ 18 := by
  have hearned := earned_nonneg perMinute (now.since b.refilledAt)
  by_cases hlt : b.refilledAt < now
  · have hsum := h.sum_le (now.since b.refilledAt)
    rw [refill_of_lt hlt]
    -- Rounding counts only below the capacity, where the level is less than `2 ^ 32`.
    by_cases hfull : (b.capacity : Rat) ≤ b.level + earned perMinute (now.since b.refilledAt)
    · refine (min_le_right _ _).trans (hfull.trans ?_)
      norm_num
    · have hbelow := (not_le.1 hfull).trans h.capacity_lt
      refine (min_le_left _ _).trans (hsum.trans ?_)
      norm_num at hbelow ⊢
      linarith
  · rw [refill_of_le (Instant.not_lt.1 hlt)]
    norm_num at hearned ⊢
    linarith

theorem Fits.attempt_le (h : b.Fits perMinute burst) (now : Instant) :
    ((b.attempt now).1.toNat : Rat) + (b.attempt now).2.level ≤
      b.level + earned perMinute (now.since b.refilledAt) + 1 / 2 ^ 17 := by
  have hlevel := h.refill_level_le now
  rw [attempt_eq]
  split
  · next hone =>
    have hsub := (h.refill now).sub_one_le hone
    norm_num at hlevel hsub ⊢
    linarith
  · norm_num at hlevel ⊢
    linarith

theorem Fits.attempts (h : b.Fits perMinute burst) (ts : List Instant) :
    (b.attempts ts).2.Fits perMinute burst := by
  induction ts generalizing b with
  | nil => exact h
  | cons t ts ih => exact ih (h.attempt t)

theorem Fits.attempts_le (h : b.Fits perMinute burst) (ts : List Instant) :
    (b.grants ts : Rat) + (b.attempts ts).2.level ≤
      b.level + earned perMinute ((b.refilledAt.latestOf ts).since b.refilledAt) +
        ts.length * (1 / 2 ^ 17) := by
  induction ts generalizing b with
  | nil =>
    have hearned := earned_nonneg perMinute ((b.refilledAt.latestOf []).since b.refilledAt)
    simp only [grants, TokenBucket.attempts, List.count_nil, List.length_nil, Nat.cast_zero,
      zero_mul]
    linarith
  | cons t ts ih =>
    have hstep := h.attempt_le t
    have htail := ih (h.attempt t)
    have htime : earned perMinute (t.since b.refilledAt) +
        earned perMinute ((((b.attempt t).2.refilledAt).latestOf ts).since
          (b.attempt t).2.refilledAt) =
          earned perMinute ((b.refilledAt.latestOf (t :: ts)).since b.refilledAt) := by
      apply earned_add
      rw [attempt_refilledAt, ← b.refilledAt.latest_since t]
      exact Instant.since_add_since (b.refilledAt.le_latest_left t)
        ((b.refilledAt.latest t).le_latestOf ts)
    have hcount : b.grants (t :: ts) = (b.attempt t).2.grants ts + (b.attempt t).1.toNat := by
      simp only [grants, TokenBucket.attempts, List.count_cons]
      cases (b.attempt t).1 <;> rfl
    rw [← htime, hcount, List.length_cons]
    push_cast
    simp only [TokenBucket.attempts]
    linarith

theorem grants_le (perMinute burst : UInt32) (start : Instant) (ts : List Instant) :
    ((full perMinute burst start).grants ts : Rat) ≤ mostGrants perMinute burst start ts := by
  have hfits := full_fits perMinute burst start
  exact (le_add_of_nonneg_right (hfits.attempts ts).level_nonneg).trans (hfits.attempts_le ts)

theorem attempts_snoc (b : TokenBucket) (ts : List Instant) (t : Instant) :
    (b.attempts (ts ++ [t])).1 = (b.attempts ts).1 ++ [((b.attempts ts).2.attempt t).1] := by
  induction ts generalizing b with
  | nil => rfl
  | cons s ts ih => exact congrArg (_ :: ·) (ih (b.attempt s).2)

theorem grants_charges_snoc (b : TokenBucket) (vs : List Verdict) (v : Verdict) :
    b.grants (charges (vs ++ [v])) = b.grants (charges vs) +
      (v.decision.charges && ((b.charged vs).attempt v.instant).1).toNat := by
  rw [charges_append, charges_one]
  cases v.decision.charges with
  | false => simp
  | true =>
    simp only [if_true, grants, attempts_snoc, List.count_append, charged, Bool.true_and]
    cases ((b.attempts (charges vs)).2.attempt v.instant).1 <;> rfl

end TokenBucket

def admissions (vs : List Verdict) : Nat := vs.countP fun v => v.decision = .admitted

theorem admissions_snoc (vs : List Verdict) (v : Verdict) :
    admissions (vs ++ [v]) = admissions vs + (decide (v.decision = .admitted)).toNat :=
  countP_snoc _ vs v

/-- What is admitted has been granted by the bucket that is charged for the verdicts. -/
theorem admissions_le_snoc {b : TokenBucket} {vs : List Verdict} {v : Verdict}
    (h : admissions vs ≤ b.grants (charges vs))
    (hv : v.decision = .admitted → ((b.charged vs).attempt v.instant).1 = true) :
    admissions (vs ++ [v]) ≤ b.grants (charges (vs ++ [v])) := by
  rw [admissions_snoc, b.grants_charges_snoc]
  by_cases hd : v.decision = .admitted
  · simp only [hd, hv hd, Decision.charges, decide_true, Bool.and_true]
    exact Nat.add_le_add_right h _
  · simp only [hd, decide_false, Bool.toNat_false]
    exact h.trans (Nat.le_add_right _ _)

theorem Judged.granted {limits : Limits} {now : Instant} {c c' : Client} {b b' : TokenBucket}
    (h : Judged limits now c b .admitted c' b') :
    (c.bucket.attempt now).1 = true ∧ (b.attempt now).1 = true := by
  cases h with
  | admitted _ own shared => exact ⟨own, shared⟩

namespace Guard
variable (limits : Limits) (start : Instant) (calls : List Call)

theorem shared_granted {g : Guard} {key : String} {now : Instant}
    (h : (g.check key now).answer = .admitted) : (g.shared.attempt now).1 = true := by
  cases hk : g.allowlist.contains key with
  | true =>
    rw [g.check_exempt now hk] at h
    cases h
  | false =>
    obtain ⟨d, c, b, hj, hd, -⟩ := g.step_own now hk
    rw [h] at hd
    subst hd
    exact hj.granted.2

theorem admissions_le_shared :
    admissions (verdicts (history limits start calls)) ≤
      (TokenBucket.full limits.globalPerMinute limits.globalBurst start).grants
        (charges (verdicts (history limits start calls))) := by
  induction calls using List.reverseRecOn with
  | nil => exact Nat.zero_le _
  | append_singleton calls call ih =>
    rw [history_snoc, verdicts_append]
    cases call with
    | check key now =>
      refine admissions_le_snoc ih fun hd => ?_
      have hbucket := shared_eq_sharedBucket limits start calls
      rw [sharedBucket] at hbucket
      rw [← hbucket]
      exact shared_granted hd
    | sweep | status =>
      rw [show verdicts [_] = [] from rfl, List.append_nil]
      exact ih

def ownFull (limits : Limits) (now : Instant) (vs : List Verdict) : TokenBucket :=
  .full limits.perClientPerMinute limits.perClientBurst ((vs.map (·.instant)).headD now)

theorem ownFull_snoc (now : Instant) (vs : List Verdict) (v : Verdict) :
    ownFull limits now (vs ++ [v]) = ownFull limits v.instant vs := by
  cases vs <;> rfl

theorem admissions_le_own {key : String} (now : Instant) (c : Client)
    (h : (reached limits start calls).clients.get? key = some c) :
    let vs := verdictsOf key (lifetime key (history limits start calls))
    admissions vs ≤ (ownFull limits now vs).grants (charges vs) := by
  -- That the entry holds the bucket charged so far has to be carried along.
  have hinv := entry_induction limits start
    (P := fun life c => ∀ now, c.bucket = ownBucket limits now (verdictsOf key life) ∧
      admissions (verdictsOf key life) ≤
        (ownFull limits now (verdictsOf key life)).grants (charges (verdictsOf key life)))
    ?own ?other calls c h
  · exact (hinv now).2
  case own =>
    intro life c g now' d c' b' hc hj hd now
    have hold : c.bucket = ownBucket limits now' (verdictsOf key life) ∧
        admissions (verdictsOf key life) ≤
          (ownFull limits now' (verdictsOf key life)).grants (charges (verdictsOf key life)) := by
      obtain hc | ⟨rfl, rfl⟩ := hc
      · exact hc now'
      · exact ⟨rfl, Nat.zero_le _⟩
    rw [verdictsOf_append, verdictsOf_check, hd]
    constructor
    · rw [ownBucket_snoc, ← hold.1]
      exact hj.buckets_eq.1
    · rw [ownFull_snoc]
      refine admissions_le_snoc hold.2 ?_
      rintro rfl
      have hgrant : (c.bucket.attempt now').1 = true := hj.granted.1
      rwa [hold.1] at hgrant
  case other =>
    intro life c m hc hm now
    rw [verdictsOf_append, verdictsOf_other hm, List.append_nil]
    exact hc now

theorem exists_of_mem_history {m : Moment} (h : m ∈ history limits start calls) :
    ∃ past rest, calls = past ++ m.call :: rest ∧ m.before = reached limits start past := by
  induction calls using List.reverseRecOn with
  | nil => cases h
  | append_singleton calls call ih =>
    rw [history_snoc, List.mem_append, List.mem_singleton] at h
    obtain hold | rfl := h
    · obtain ⟨past, rest, rfl, hbefore⟩ := ih hold
      exact ⟨past, rest ++ [call], by simp, hbefore⟩
    · exact ⟨calls, [], rfl, rfl⟩

theorem mem_verdictsOf {key : String} {h : List Moment} {v : Verdict} (hv : v ∈ verdictsOf key h) :
    ∃ m ∈ h, m.call = .check key v.instant ∧
      v.decision = (m.before.check key v.instant).answer := by
  rw [verdictsOf, List.mem_filter, verdicts, List.mem_filterMap] at hv
  obtain ⟨⟨⟨g, call⟩, hm, hverdict⟩, hkey⟩ := hv
  have hkey := of_decide_eq_true hkey
  cases call with
  | check k now =>
    cases hverdict
    cases hkey
    exact ⟨_, hm, rfl, rfl⟩
  | sweep | status => cases hverdict

theorem admissions_of_exempt {key : String}
    (hkey : (Allowlist.ofEntries limits.allowlist).contains key = true) :
    admissions (verdictsOf key (sinceEviction key (history limits start calls))) = 0 := by
  refine List.countP_eq_zero.2 fun v hv => ?_
  obtain ⟨m, hm, -, hd⟩ := mem_verdictsOf hv
  have hsuffix : sinceEviction key (history limits start calls) <:+ history limits start calls :=
    List.rtakeWhile_suffix _ _
  obtain ⟨past, -, -, hbefore⟩ := exists_of_mem_history limits start calls (hsuffix.subset hm)
  have hexempt := (reached_contains limits start past key).trans hkey
  rw [hd, hbefore, check_exempt _ _ hexempt]
  simp

theorem lifetime_head {key : String} (h : (reached limits start calls).tracks key = true) :
    ∃ g t life, lifetime key (history limits start calls) = ⟨g, .check key t⟩ :: life ∧
      g.tracks key = false := by
  induction calls using List.reverseRecOn with
  | nil => cases h
  | append_singleton calls call ih =>
    rw [lifetime_snoc limits start calls call key h]
    cases hb : (reached limits start calls).tracks key with
    | true =>
      obtain ⟨g, t, life, hlife, hg⟩ := ih hb
      exact ⟨g, t, life ++ [_], by rw [hlife, List.cons_append], hg⟩
    | false =>
      rw [reached_snoc, ← mem_keys] at h
      have hbefore : key ∉ (reached limits start calls).keys := by
        rw [mem_keys, hb]
        exact Bool.false_ne_true
      obtain ⟨t, rfl⟩ := check_of_mem_keys_step h hbefore
      rw [lifetime_of_tracks_false limits start calls key hb]
      exact ⟨_, t, [], rfl, hb⟩

theorem admissions_le_lifetime {key : String} (h : (reached limits start calls).tracks key = true) :
    let vs := verdictsOf key (lifetime key (history limits start calls))
    ∃ g t life, lifetime key (history limits start calls) = ⟨g, .check key t⟩ :: life ∧
      g.tracks key = false ∧
      (admissions vs : Rat) ≤ TokenBucket.mostGrants limits.perClientPerMinute
        limits.perClientBurst t (charges vs) := by
  intro vs
  obtain ⟨g, t, life, hlife, hg⟩ := lifetime_head limits start calls h
  obtain ⟨c, hc⟩ := Option.isSome_iff_exists.1 h
  refine ⟨g, t, life, hlife, hg, ?_⟩
  have hown : admissions vs ≤ (ownFull limits t vs).grants (charges vs) :=
    admissions_le_own limits start calls t c hc
  have hfirst : ownFull limits t vs =
      .full limits.perClientPerMinute limits.perClientBurst t := by
    have hvs : vs = verdictsOf key [⟨g, .check key t⟩] ++ verdictsOf key life := by
      rw [← verdictsOf_append, List.singleton_append, ← hlife]
    rw [hvs, verdictsOf_check]
    rfl
  rw [hfirst] at hown
  exact (Nat.cast_le.2 hown).trans (TokenBucket.grants_le _ _ t (charges vs))

end Guard

/-- Attempts on a bucket are granted at most as often as burst and rate allow, whatever the order of
their instants. So are the admissions of the guard with its global limits, and those of one client
since its last eviction with its own, from the check on that created its entry. -/
theorem admissions_bounded :
    (∀ (perMinute burst : UInt32) (start : Instant) (ts : List Instant),
      ((TokenBucket.full perMinute burst start).grants ts : Rat) ≤
        TokenBucket.mostGrants perMinute burst start ts) ∧
    ∀ (limits : Limits) (start : Instant) (calls : List Guard.Call),
      let h := Guard.history limits start calls
      (admissions (verdicts h) : Rat) ≤ TokenBucket.mostGrants limits.globalPerMinute
          limits.globalBurst start (charges (verdicts h)) ∧
        ∀ key, let vs := verdictsOf key (sinceEviction key h)
          admissions vs = 0 ∨
            ∃ g t life, lifetime key h = ⟨g, .check key t⟩ :: life ∧ g.tracks key = false ∧
              (admissions vs : Rat) ≤ TokenBucket.mostGrants limits.perClientPerMinute
                limits.perClientBurst t (charges vs) := by
  refine ⟨TokenBucket.grants_le, fun limits start calls => ⟨?_, fun key => ?_⟩⟩
  · have hshared := Guard.admissions_le_shared limits start calls
    exact (Nat.cast_le.2 hshared).trans (TokenBucket.grants_le _ _ start _)
  · cases hkey : (Allowlist.ofEntries limits.allowlist).contains key with
    | true => exact .inl (Guard.admissions_of_exempt limits start calls hkey)
    | false =>
      rw [Guard.verdictsOf_sinceEviction limits start calls hkey]
      cases ht : (Guard.reached limits start calls).tracks key with
      | true => exact .inr (Guard.admissions_le_lifetime limits start calls ht)
      | false =>
        rw [Guard.lifetime_of_tracks_false limits start calls key ht]
        exact .inl rfl

end AdmissionGuard

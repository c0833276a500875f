import AdmissionGuard.Proofs.Tracked

/-! Statistics. The counters of the guard and its sweeps follow from the history of the calls. -/
namespace AdmissionGuard

def Decision.isRateLimited : Decision → Bool
  | .rateLimited .. => true
  | .exempt | .admitted | .blocked _ => false

def Decision.isBlocked : Decision → Bool
  | .blocked _ => true
  | .exempt | .admitted | .rateLimited .. => false

def Decision.startsBlock : Decision → Bool
  | .rateLimited _ blocks => blocks
  | .exempt | .admitted | .blocked _ => false

def Outcome.thenSweep {α : Type} (o : Outcome α) (now : Instant) : Outcome α :=
  let swept := o.guard.sweep now
  { answer := o.answer, guard := swept.guard, events := o.events ++ swept.events }

def answered (p : Decision → Bool) (h : List Moment) : Nat :=
  (verdicts h).countP fun v => p v.decision

instance (g : Guard) : ∀ call, Decidable (g.sweepsIn call)
  | .check _ _ => inferInstanceAs (Decidable (_ ∧ _))
  | .sweep _ => isTrue trivial
  | .status .. => isFalse id

def Guard.Call.judgedBy (a : Allowlist) : Guard.Call → Bool
  | .check key _ => !a.contains key
  | .sweep _ | .status .. => false

def Guard.Call.isCheck : Guard.Call → Bool
  | .check .. => true
  | .sweep _ | .status .. => false

def Guard.Call.isSweep : Guard.Call → Bool
  | .sweep _ => true
  | .check .. | .status .. => false

def tally (h : List Moment) : Counters where
  total := (verdicts h).length.toUInt64
  exempt := (answered (· = .exempt) h).toUInt64
  admitted := (answered (· = .admitted) h).toUInt64
  rateLimited := (answered Decision.isRateLimited h).toUInt64
  blocked := (answered Decision.isBlocked h).toUInt64
  blocksStarted := (answered Decision.startsBlock h).toUInt64
  sweeps := (h.countP fun m => m.before.sweepsIn m.call).toUInt64
  swept := (h.flatMap Moment.forgotten).length.toUInt64

theorem toUInt64_add (m n : Nat) : (m + n).toUInt64 = m.toUInt64 + n.toUInt64 :=
  UInt64.ofNat_add m n

theorem countP_snoc {α : Type} (p : α → Bool) (l : List α) (a : α) :
    (l ++ [a]).countP p = l.countP p + (p a).toNat := by
  rw [List.countP_append]
  cases h : p a <;> simp [h]

/-- A decision adds one to the total and to each counter of decisions that it falls under. -/
theorem Counters.record_eq (n : Counters) (d : Decision) :
    n.record d = { n with
      total := n.total + 1
      exempt := n.exempt + (decide (d = .exempt)).toNat.toUInt64
      admitted := n.admitted + (decide (d = .admitted)).toNat.toUInt64
      rateLimited := n.rateLimited + d.isRateLimited.toNat.toUInt64
      blocked := n.blocked + d.isBlocked.toNat.toUInt64
      blocksStarted := n.blocksStarted + d.startsBlock.toNat.toUInt64 } := by
  cases d with
  | rateLimited strikes blocks =>
    cases blocks <;>
      simp [record, Decision.isRateLimited, Decision.isBlocked, Decision.startsBlock]
  | exempt | admitted | blocked =>
    simp [record, Decision.isRateLimited, Decision.isBlocked, Decision.startsBlock]

theorem answered_snoc (p : Decision → Bool) (h : List Moment) (m : Moment) :
    answered p (h ++ [m]) = answered p h + (m.verdict?.any fun v => p v.decision).toNat := by
  rw [answered, verdicts_append, List.countP_append]
  congr 1
  cases hv : m.verdict? with
  | none => simp [verdicts, hv]
  | some v => cases hp : p v.decision <;> simp [verdicts, hv, hp]

/-- Every decision is of exactly one of four kinds. -/
theorem length_verdicts (h : List Moment) :
    (verdicts h).length = answered (· = .exempt) h + answered (· = .admitted) h +
      answered Decision.isRateLimited h + answered Decision.isBlocked h := by
  simp only [answered]
  induction verdicts h with
  | nil => rfl
  | cons v vs ih =>
    rw [List.length_cons, ih]
    cases hd : v.decision <;>
      simp [hd, Decision.isRateLimited, Decision.isBlocked] <;> omega

theorem length_verdicts_snoc (h : List Moment) (m : Moment) :
    (verdicts (h ++ [m])).length = (verdicts h).length + m.verdict?.isSome.toNat := by
  rw [verdicts_append, List.length_append]
  cases hv : m.verdict? <;> simp [verdicts, hv]

/-- One more moment adds its decision to the counters, and then the sweep in it. -/
theorem tally_snoc (h : List Moment) {m : Moment}
    (hm : ¬m.before.sweepsIn m.call → m.forgotten = []) :
    tally (h ++ [m]) =
      let n := (m.verdict?.map fun v => (tally h).record v.decision).getD (tally h)
      if m.before.sweepsIn m.call then n.recordSweep m.forgotten.length else n := by
  have hswept : ((h ++ [m]).flatMap Moment.forgotten).length =
      (h.flatMap Moment.forgotten).length + m.forgotten.length := by simp
  simp only [tally, answered_snoc, length_verdicts_snoc, countP_snoc, hswept, toUInt64_add]
  cases m.verdict? with
  | none => by_cases hs : m.before.sweepsIn m.call <;> simp [hs, hm, Counters.recordSweep]
  | some v =>
    simp only [Option.map_some, Option.getD_some, Counters.record_eq]
    by_cases hs : m.before.sweepsIn m.call <;> simp [hs, hm, Counters.recordSweep]

namespace Guard

/-- What a call removes is what its sweep finds beyond what it leaves. -/
theorem length_forgotten_of_sweep {g x : Guard} (call : Call) {now : Instant}
    (hafter : (g.step call).guard = (x.sweep now).guard)
    (hfound : x.tracked = g.tracked + (Moment.creates ⟨g, call⟩).toNat) :
    (x.sweep now).answer = (Moment.forgotten ⟨g, call⟩).length := by
  have hkeep := Moment.tracked_add_forgotten ⟨g, call⟩
  have hsize : (x.sweep now).answer = x.tracked - (x.sweep now).guard.tracked := rfl
  simp only [Moment.after, hafter] at hkeep
  omega

/-- A call counts its decision, and then the sweep in it, if there is one. -/
theorem step_counters (g : Guard) (call : Call) :
    (g.step call).guard.counters =
      let m : Moment := ⟨g, call⟩
      let n := (m.verdict?.map fun v => g.counters.record v.decision).getD g.counters
      if g.sweepsIn call then n.recordSweep m.forgotten.length else n := by
  cases call with
  | check key now =>
    cases hkey : g.allowlist.contains key with
    | true =>
      have hno : ¬g.sweepsIn (.check key now) := by simp [sweepsIn, hkey]
      simp only [step, g.check_exempt now hkey, Moment.verdict?, if_neg hno]
      rfl
    | false =>
      -- The sweep of a check finds the store with the checked client's entry already in it.
      obtain ⟨d, c, b, -, hd, hg⟩ := g.check_judged now hkey
      have hsettled : (g.settled key d c b).tracked =
          g.tracked + (Moment.creates ⟨g, .check key now⟩).toNat := by
        have hthere := g.tracks_checked now hkey
        simp only [Moment.creates, Moment.after, hthere, Bool.and_true]
        exact g.clients.size_set key c
      by_cases hdue : (g.checked + 1) % sweepEvery = 0
      · rw [if_pos hdue] at hg
        have hin : g.sweepsIn (.check key now) := ⟨hkey, hdue⟩
        have hremoved := length_forgotten_of_sweep (.check key now) hg hsettled
        simp only [step, hg, Moment.verdict?, hd, if_pos hin, ← hremoved]
        rfl
      · rw [if_neg hdue] at hg
        have hno : ¬g.sweepsIn (.check key now) := fun hin => hdue hin.2
        simp only [step, hg, Moment.verdict?, hd, if_neg hno]
        rfl
  | sweep now =>
    have hremoved := length_forgotten_of_sweep (g := g) (x := g) (.sweep now) rfl rfl
    simp only [step, Moment.verdict?, if_pos (show g.sweepsIn (.sweep now) from trivial),
      ← hremoved]
    rfl
  | status key now => rfl

theorem step_checked (g : Guard) (call : Call) :
    (g.step call).guard.checked =
      g.checked + (call.judgedBy g.allowlist).toNat.toUInt64 := by
  cases call with
  | check key now =>
    cases hkey : g.allowlist.contains key with
    | true => simp [step, g.check_exempt now hkey, Call.judgedBy, hkey]
    | false =>
      obtain ⟨d, c, b, -, -, hg⟩ := g.check_judged now hkey
      simp only [step, hg, Call.judgedBy, hkey]
      split <;> rfl
  | sweep | status => exact (UInt64.add_zero g.checked).symm

/-- Only sweeps forget clients. -/
theorem forgotten_eq_nil {g : Guard} {call : Call} (h : ¬g.sweepsIn call) :
    Moment.forgotten ⟨g, call⟩ = [] := by
  rw [List.eq_nil_iff_length_eq_zero, Moment.length_forgotten, Finset.card_eq_zero]
  refine Finset.eq_empty_of_forall_notMem fun key hkey => h ?_
  rw [Finset.mem_sdiff] at hkey
  exact sweepsIn_of_forgotten hkey.1 hkey.2

variable (limits : Limits) (start : Instant) (calls : List Call)

theorem counters_eq_tally :
    (reached limits start calls).counters = tally (history limits start calls) := by
  induction calls using List.reverseRecOn with
  | nil => rfl
  | append_singleton calls call ih =>
    rw [reached_snoc, history_snoc, step_counters, ih, tally_snoc]
    exact forgotten_eq_nil

theorem length_verdicts_history :
    (verdicts (history limits start calls)).length = calls.countP Call.isCheck := by
  induction calls using List.reverseRecOn with
  | nil => rfl
  | append_singleton calls call ih =>
    rw [history_snoc, length_verdicts_snoc, countP_snoc, ih]
    cases call <;> rfl

def judgedChecks (calls : List Call) : Nat :=
  calls.countP (·.judgedBy (.ofEntries limits.allowlist))

theorem checked_eq :
    (reached limits start calls).checked = (judgedChecks limits calls).toUInt64 := by
  induction calls using List.reverseRecOn with
  | nil => rfl
  | append_singleton calls call ih =>
    rw [reached_snoc, step_checked, ih, (reached_fixed limits start calls).2, judgedChecks,
      judgedChecks, countP_snoc, toUInt64_add]

/-- The counter of the checks wraps around, but at a multiple of the period. -/
theorem due_iff :
    ((reached limits start calls).checked + 1) % sweepEvery = 0 ↔
      1024 ∣ judgedChecks limits calls + 1 := by
  have hone : (reached limits start calls).checked + 1 =
      (judgedChecks limits calls + 1).toUInt64 := by
    rw [checked_eq, toUInt64_add]
    rfl
  have hnat : ((judgedChecks limits calls + 1).toUInt64 % sweepEvery).toNat =
      (judgedChecks limits calls + 1) % 1024 := by
    rw [UInt64.toNat_mod, UInt64.toNat_ofNat']
    exact Nat.mod_mod_of_dvd _ (by decide)
  rw [hone, ← UInt64.toNat_inj, hnat, Nat.dvd_iff_mod_eq_zero]
  rfl

theorem sweepsIn_iff (call : Call) :
    (reached limits start calls).sweepsIn call ↔
      call.isSweep = true ∨
        call.judgedBy (.ofEntries limits.allowlist) = true ∧
          1024 ∣ judgedChecks limits calls + 1 := by
  cases call with
  | check key now =>
    rw [sweepsIn, due_iff, reached_contains]
    simp [Call.isSweep, Call.judgedBy]
  | sweep | status => simp [sweepsIn, Call.isSweep, Call.judgedBy]

/-- Sweeps are the explicit ones and one for every 1024 checks that are not exempt. -/
theorem countP_sweepsIn :
    (history limits start calls).countP (fun m => m.before.sweepsIn m.call) =
      calls.countP Call.isSweep + judgedChecks limits calls / 1024 := by
  induction calls using List.reverseRecOn with
  | nil => simp [history, trace, judgedChecks]
  | append_singleton calls call ih =>
    have hin := sweepsIn_iff limits start calls call
    have hnext : judgedChecks limits (calls ++ [call]) = judgedChecks limits calls +
        (call.judgedBy (.ofEntries limits.allowlist)).toNat := countP_snoc _ calls call
    rw [history_snoc, countP_snoc, countP_snoc, hnext, ih]
    cases hj : call.judgedBy (.ofEntries limits.allowlist) with
    | false =>
      rw [hj] at hin
      simp only [hin, Bool.false_eq_true, false_and, or_false, Bool.decide_eq_true,
        Bool.toNat_false]
      omega
    | true =>
      have hno : call.isSweep = false := by cases call <;> trivial
      rw [hj, hno] at hin
      simp only [hin, hno, Bool.false_eq_true, true_and, false_or, Bool.toNat_true,
        Bool.toNat_false, Nat.succ_div]
      split <;> simp [*, Nat.add_assoc]

/-- Every entry ever made is still there or has been forgotten. -/
theorem tracked_add_length_forgotten :
    (reached limits start calls).tracked +
        ((history limits start calls).flatMap Moment.forgotten).length =
      (history limits start calls).countP Moment.creates := by
  induction calls using List.reverseRecOn with
  | nil => rfl
  | append_singleton calls call ih =>
    have hone := Moment.tracked_add_forgotten ⟨reached limits start calls, call⟩
    rw [reached_snoc, history_snoc, countP_snoc, List.flatMap_append, List.length_append, ← ih]
    simp only [Moment.after] at hone
    simp only [List.flatMap_cons, List.flatMap_nil, List.append_nil]
    omega

def counted (g : Guard) (key : String) (now : Instant) : Outcome Decision :=
  let o := g.judge key now
  { o with
    guard := { o.guard with
      checked := o.guard.checked + 1
      counters := o.guard.counters.record o.answer } }

theorem check_eq_counted (g : Guard) {key : String} (now : Instant)
    (h : g.allowlist.contains key = false) :
    g.check key now =
      if (g.checked + 1) % sweepEvery = 0 then (g.counted key now).thenSweep now
      else g.counted key now := by
  obtain ⟨c, b, -, hg⟩ := g.judge_judged key now
  have hchecked : (g.judge key now).guard.checked = g.checked := by rw [hg]
  have hk : ¬g.allowlist.contains key = true := by simp [h]
  rw [check, if_neg hk, ← hchecked]
  rfl

/-- The statistics and the sweeps of a run follow from its calls and their answers: each counter is
a number of moments of the history, every 1024th check that is not exempt is followed by a sweep,
and no entry is lost but to a sweep. -/
theorem statistics_of_history (limits : Limits) (start : Instant) (calls : List Call) :
    let h := history limits start calls
    let g := reached limits start calls
    let n := g.snapshot
    (n.total = (calls.countP Call.isCheck).toUInt64 ∧
      n.exempt = (answered (· = .exempt) h).toUInt64 ∧
      n.admitted = (answered (· = .admitted) h).toUInt64 ∧
      n.rateLimited = (answered Decision.isRateLimited h).toUInt64 ∧
      n.blocked = (answered Decision.isBlocked h).toUInt64 ∧
      n.blocksStarted = (answered Decision.startsBlock h).toUInt64) ∧
    n.total = n.exempt + n.admitted + n.rateLimited + n.blocked ∧
    (∀ key now, (Allowlist.ofEntries limits.allowlist).contains key = true →
      g.check key now = ⟨.exempt, { g with counters := g.counters.record .exempt }, []⟩) ∧
    (∀ key now, (Allowlist.ofEntries limits.allowlist).contains key = false →
      (g.check key now =
        if 1024 ∣ judgedChecks limits calls + 1 then (g.counted key now).thenSweep now
        else g.counted key now) ∧
      (g.check key now).guard.tracks key = true) ∧
    n.sweeps = (calls.countP Call.isSweep + judgedChecks limits calls / 1024).toUInt64 ∧
    n.swept = (h.flatMap Moment.forgotten).length.toUInt64 ∧
    n.tracked + (h.flatMap Moment.forgotten).length = h.countP Moment.creates := by
  intro h g n
  have hn : n.toCounters = tally h := counters_eq_tally limits start calls
  have hcontains := reached_contains limits start calls
  refine ⟨?_, ?_, ?_, ?_, ?_, ?_, tracked_add_length_forgotten limits start calls⟩
  · rw [hn, ← length_verdicts_history limits start]
    exact ⟨rfl, rfl, rfl, rfl, rfl, rfl⟩
  · rw [hn]
    simp only [tally, length_verdicts, toUInt64_add]
  · intro key now hkey
    exact g.check_exempt now ((hcontains key).trans hkey)
  · intro key now hkey
    have hg := (hcontains key).trans hkey
    refine ⟨?_, g.tracks_checked now hg⟩
    rw [g.check_eq_counted now hg]
    exact if_congr (due_iff limits start calls) rfl rfl
  · rw [hn, ← countP_sweepsIn]
    rfl
  · rw [hn]
    rfl

theorem strict_check_1024_is_followed_by_sweep :
    let calls := List.replicate 1023 (Call.check "a" .origin)
    let g := reached .strict .origin calls
    (Allowlist.ofEntries Limits.strict.allowlist).contains "a" = false ∧
      g.check "a" .origin = (g.counted "a" .origin).thenSweep .origin ∧
      (g.check "a" .origin).guard.tracks "a" = true := by
  intro calls g
  have hkey : (Allowlist.ofEntries Limits.strict.allowlist).contains "a" = false := by
    decide +kernel
  have hordinal : judgedChecks .strict calls + 1 = 1024 := by
    rw [judgedChecks, List.countP_replicate, if_pos (by decide +kernel)]
  obtain ⟨-, -, -, hchecks, -⟩ := statistics_of_history .strict .origin calls
  obtain ⟨hsweep, htracks⟩ := hchecks "a" .origin hkey
  rw [hordinal, if_pos (Nat.dvd_refl 1024)] at hsweep
  exact ⟨hkey, hsweep, htracks⟩

end Guard
end AdmissionGuard

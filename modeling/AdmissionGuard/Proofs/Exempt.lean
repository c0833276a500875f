import AdmissionGuard.Proofs.History

/-! Exempt checks. Taking any of them out of a run changes nothing of the rest but two counters. -/
namespace AdmissionGuard

def unmarked {α : Type} : List Bool → List α → List α
  | true :: marks, _ :: xs => unmarked marks xs
  | false :: marks, x :: xs => x :: unmarked marks xs
  | _, xs => xs

def Moment.shown (m : Moment) : Guard.Reply × List Event × Nat :=
  (m.reply, (m.before.step m.call).events, m.after.tracked)

namespace Counters

def without (c : Counters) (n : UInt64) : Counters :=
  { c with total := c.total - n, exempt := c.exempt - n }

theorem record_without (c : Counters) (n : UInt64) (d : Decision) :
    (c.without n).record d = (c.record d).without n := by
  have hsub : ∀ a : UInt64, a - n + 1 = a + 1 - n := fun a => by grind
  cases d with
  | exempt | admitted | blocked => simp [record, without, hsub]
  | rateLimited strikes blocks => cases blocks <;> simp [record, without, hsub]

theorem record_exempt_without (c : Counters) (n : UInt64) :
    (c.record .exempt).without (n + 1) = c.without n := by
  have hsub : ∀ a : UInt64, a + 1 - (n + 1) = a - n := fun a => by grind
  simp [record, without, hsub]

theorem without_zero (c : Counters) : c.without 0 = c := by
  simp [without]

end Counters

namespace Guard

def without (g : Guard) (n : UInt64) : Guard := { g with counters := g.counters.without n }

theorem judge_without (g : Guard) (n : UInt64) (key : String) (now : Instant) :
    (g.without n).judge key now =
      { g.judge key now with guard := (g.judge key now).guard.without n } := by
  obtain ⟨c, b, -, hg⟩ := g.judge_judged key now
  have hj := g.judge_counters (g.counters.without n) key now
  rw [hg] at hj ⊢
  exact hj

theorem check_without (g : Guard) (n : UInt64) (key : String) (now : Instant) :
    (g.without n).check key now =
      { g.check key now with guard := (g.check key now).guard.without n } := by
  cases hk : g.allowlist.contains key with
  | true =>
    have hn : (g.without n).allowlist.contains key = true := hk
    rw [check_exempt g now hk, check_exempt _ now hn]
    simp only [without, Counters.record_without]
  | false =>
    have hg : ¬g.allowlist.contains key = true := by simp [hk]
    have hn : ¬(g.without n).allowlist.contains key = true := hg
    rw [check, check, if_neg hg, if_neg hn, judge_without]
    dsimp only [without]
    rw [Counters.record_without]
    split <;> rfl

/-- No call notices that exempt checks are missing. -/
theorem step_without (g : Guard) (n : UInt64) (call : Call) :
    (g.without n).step call = { g.step call with guard := (g.step call).guard.without n } := by
  cases call with
  | check key now => simp only [step, check_without]
  | sweep now => rfl
  | status key now => rfl

def Call.exemptBy (a : Allowlist) : Call → Bool
  | .check key _ => a.contains key
  | .sweep _ | .status .. => false

/-- An exempt check leaves the guard as it was but for one exempt check more. -/
theorem step_exempt_without (g : Guard) (n : UInt64) {call : Call}
    (h : call.exemptBy g.allowlist = true) :
    (g.step call).guard.without (n + 1) = g.without n := by
  cases call with
  | check key now =>
    have hkey : g.allowlist.contains key = true := h
    simp only [step, g.check_exempt now hkey, without, Counters.record_exempt_without]
  | sweep | status => cases h

theorem shown_without (g : Guard) (n : UInt64) (call : Call) :
    Moment.shown ⟨g.without n, call⟩ = Moment.shown ⟨g, call⟩ := by
  simp only [Moment.shown, Moment.reply, Moment.after, step_without]
  rfl

section
variable (g : Guard) (n : UInt64) (marked : List (Call × Bool))

theorem exemptBy_step {call : Call} {mark : Bool}
    (h : ∀ p ∈ (call, mark) :: marked, p.2 = true → p.1.exemptBy g.allowlist = true) :
    ∀ p ∈ marked, p.2 = true → p.1.exemptBy (g.step call).guard.allowlist = true := by
  rw [(g.step_fixed call).2]
  exact fun p hp => h p (List.mem_cons_of_mem _ hp)

theorem trace_unmarked (h : ∀ p ∈ marked, p.2 = true → p.1.exemptBy g.allowlist = true) :
    ((g.without n).trace (unmarked (marked.map Prod.snd) (marked.map Prod.fst))).map Moment.shown =
      (unmarked (marked.map Prod.snd) (g.trace (marked.map Prod.fst))).map Moment.shown := by
  induction marked generalizing g n with
  | nil => rfl
  | cons p rest ih =>
    obtain ⟨call, mark⟩ := p
    have hrest := exemptBy_step g rest h
    cases mark with
    | true =>
      have htail := ih (g.step call).guard (n + 1) hrest
      rw [g.step_exempt_without n (h _ List.mem_cons_self rfl)] at htail
      exact htail
    | false =>
      have htail := ih (g.step call).guard n hrest
      simp only [List.map_cons, unmarked, trace, step_without, shown_without, htail]

theorem run_unmarked (h : ∀ p ∈ marked, p.2 = true → p.1.exemptBy g.allowlist = true) :
    ((g.without n).run (unmarked (marked.map Prod.snd) (marked.map Prod.fst))).guard =
      (g.run (marked.map Prod.fst)).guard.without
        (n + ((marked.map Prod.snd).count true).toUInt64) := by
  induction marked generalizing g n with
  | nil => exact congrArg g.without (UInt64.add_zero n).symm
  | cons p rest ih =>
    obtain ⟨call, mark⟩ := p
    have hrest := exemptBy_step g rest h
    cases mark with
    | true =>
      have htail := ih (g.step call).guard (n + 1) hrest
      have hone : ∀ k : Nat, n + 1 + k.toUInt64 = n + (k + 1).toUInt64 := by
        intro k
        have hk : (k + 1).toUInt64 = k.toUInt64 + 1 := UInt64.ofNat_add k 1
        rw [hk, UInt64.add_assoc, UInt64.add_comm 1]
      rw [g.step_exempt_without n (h _ List.mem_cons_self rfl), hone] at htail
      simp only [List.map_cons, unmarked, run, List.count_cons_self, htail]
    | false =>
      have htail := ih (g.step call).guard n hrest
      have hcount : (false :: rest.map Prod.snd).count true = (rest.map Prod.snd).count true :=
        List.count_cons_of_ne (by decide)
      simp only [List.map_cons, unmarked, run, step_without, hcount, htail]

end

/-- Any of the exempt checks can be taken out of a run. What is shown of the rest is the same, and
the guard at the end is too but for the counts of all checks and of exempt ones. -/
theorem exempt_checks_removable (limits : Limits) (start : Instant) (marked : List (Call × Bool))
    (h : ∀ p ∈ marked, p.2 = true → p.1.exemptBy (.ofEntries limits.allowlist) = true) :
    let calls := marked.map Prod.fst
    let marks := marked.map Prod.snd
    let g := reached limits start calls
    (history limits start (unmarked marks calls)).map Moment.shown =
        (unmarked marks (history limits start calls)).map Moment.shown ∧
      reached limits start (unmarked marks calls) = g.without (marks.count true).toUInt64 ∧
      ∀ key now, (Allowlist.ofEntries limits.allowlist).contains key = true →
        (g.check key now).answer = .exempt := by
  intro calls marks g
  have hzero : (create limits start).without 0 = create limits start :=
    congrArg (fun c => { create limits start with counters := c }) (Counters.without_zero _)
  refine ⟨?_, ?_, ?_⟩
  · have htrace := trace_unmarked (create limits start) 0 marked h
    rwa [hzero] at htrace
  · have hrun := run_unmarked (create limits start) 0 marked h
    rwa [hzero, UInt64.zero_add] at hrun
  · intro key now hkey
    rw [g.check_exempt now ((reached_contains limits start calls key).trans hkey)]

theorem exempt_check_removed_from_strict_run :
    let marked := [(Call.check "10.1.1.1" .origin, true), (.check "a" .origin, false)]
    (∀ p ∈ marked, p.2 = true → p.1.exemptBy (.ofEntries Limits.strict.allowlist) = true) ∧
      reached .strict .origin [.check "a" .origin] =
        (reached .strict .origin [.check "10.1.1.1" .origin, .check "a" .origin]).without 1 := by
  have h : ∀ p ∈ [(Call.check "10.1.1.1" .origin, true), (.check "a" .origin, false)],
      p.2 = true → p.1.exemptBy (.ofEntries Limits.strict.allowlist) = true := by
    decide +kernel
  exact ⟨h, (exempt_checks_removable .strict .origin _ h).2.1⟩

end Guard
end AdmissionGuard

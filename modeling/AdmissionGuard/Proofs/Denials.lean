import AdmissionGuard.Proofs.Statistics
import AdmissionGuard.Proofs.Strikes
import Mathlib.Algebra.BigOperators.Ring.Finset
import Mathlib.Algebra.Order.BigOperators.Group.Finset

/-! Where denials go. Each is a strike still stored, has paid for a block, was made up for by an
admission or went with an evicted entry; so a block costs as many denials as the last strike. -/
namespace AdmissionGuard

def Guard.strikesOn (g : Guard) (key : String) : Nat :=
  ((g.clients.get? key).map Client.strikes).getD 0

namespace Moment

def forgives (m : Moment) (key : String) : Bool :=
  (verdictsOf key [m]).any (·.decision = .admitted) && m.before.strikesOn key ≠ 0

/-- The strikes of the client that go in the moment without a block: one with an admission, all of
them with an eviction. -/
def waived (key : String) (m : Moment) : Nat :=
  if m.evicts key then m.before.strikesOn key else (m.forgives key).toNat

end Moment

def denials (vs : List Verdict) : Nat := vs.countP fun v => v.decision.isRateLimited

def blocks (vs : List Verdict) : Nat := vs.countP fun v => v.decision.startsBlock

theorem denials_append (u v : List Verdict) : denials (u ++ v) = denials u + denials v :=
  List.countP_append

theorem blocks_append (u v : List Verdict) : blocks (u ++ v) = blocks u + blocks v :=
  List.countP_append

theorem denials_one (v : Verdict) : denials [v] = v.decision.isRateLimited.toNat := by
  cases h : v.decision.isRateLimited <;> simp [denials, h]

theorem blocks_one (v : Verdict) : blocks [v] = v.decision.startsBlock.toNat := by
  cases h : v.decision.startsBlock <;> simp [blocks, h]

/-- A denial adds a strike, and a block takes as many as the last one counts. -/
theorem Judged.strikes_balance {limits : Limits} {now : Instant} {c c' : Client}
    {b b' : TokenBucket} {d : Decision} (h : Judged limits now c b d c' b')
    (hc : c.InBounds limits) :
    c.strikes + d.isRateLimited.toNat = limits.lastStrike * d.startsBlock.toNat + c'.strikes +
      (d = .admitted && c.strikes ≠ 0 : Bool).toNat := by
  obtain ⟨hmin, hlast⟩ := next_strike hc
  cases h with
  | blocked => simp [Decision.isRateLimited, Decision.startsBlock]
  | admitted =>
    by_cases hzero : c.strikes = 0
    · simp [Decision.isRateLimited, Decision.startsBlock, hzero]
    · simp [Decision.isRateLimited, Decision.startsBlock, hzero]
      omega
  | limited => simp [Decision.isRateLimited, Decision.startsBlock, hmin]
  | punished _ _ reached =>
    have hpaid : c.strikes + 1 = limits.lastStrike := hlast.1 (hmin ▸ reached)
    simp [Decision.isRateLimited, Decision.startsBlock, hpaid]

namespace Guard

theorem strikesOn_of_none {g : Guard} {key : String} (h : g.clients.get? key = none) :
    g.strikesOn key = 0 := by
  simp [strikesOn, h]

theorem strikes_sighted (g : Guard) (key : String) (now : Instant) :
    (g.clients.sighted g.limits key now).strikes = g.strikesOn key := by
  rw [Store.sighted, strikesOn]
  cases g.clients.get? key <;> rfl

/-- What is not a judged check of the client says nothing of it, or that it is exempt. -/
theorem verdictsOf_unjudged {g : Guard} {call : Call} {key : String}
    (h : ∀ now, call = .check key now → g.allowlist.contains key = true) :
    ∀ v ∈ verdictsOf key [⟨g, call⟩], v.decision = .exempt := by
  intro v hv
  by_cases hown : ∃ now, call = .check key now
  · obtain ⟨now, rfl⟩ := hown
    rw [verdictsOf_check, g.check_exempt now (h now rfl), List.mem_singleton] at hv
    rw [hv]
  · rw [verdictsOf_other fun now he => hown ⟨now, he⟩] at hv
    cases hv

/-- In one moment the strikes of a client change by its denial, its block and what it is waived. -/
theorem step_balance (g : Guard) (call : Call) {key : String}
    (hb : ∀ c, g.clients.get? key = some c → c.InBounds g.limits) :
    let m : Moment := ⟨g, call⟩
    g.strikesOn key + denials (verdictsOf key [m]) =
      g.limits.lastStrike * blocks (verdictsOf key [m]) + m.after.strikesOn key +
        m.waived key := by
  intro m
  by_cases hown : ∃ now, call = .check key now ∧ g.allowlist.contains key = false
  · obtain ⟨now, rfl, hkey⟩ := hown
    obtain ⟨d, c, b, hj, hd, hget, -⟩ := g.step_own now hkey
    have hbounds : (g.clients.sighted g.limits key now).InBounds g.limits := by
      rw [Store.sighted]
      cases hc : g.clients.get? key with
      | none => exact ⟨(Client.fresh_inBounds g.limits now).strikes_lt, fun _ => rfl⟩
      | some c₀ => exact ⟨(hb c₀ hc).strikes_lt, (hb c₀ hc).strikes_eq⟩
    have hbalance := hj.strikes_balance hbounds
    have hafter : m.after.strikesOn key = c.strikes := by
      simp [Moment.after, m, strikesOn, hget]
    have hstays : m.evicts key = false := by
      simp [Moment.evicts, Moment.after, m, tracks, hget]
    rw [strikes_sighted] at hbalance
    rw [hafter, Moment.waived, if_neg (by simp [hstays]), Moment.forgives, verdictsOf_check, hd,
      denials_one, blocks_one]
    simpa [m] using hbalance
  · -- Any other moment keeps the client's entry or evicts it, strikes and all.
    have hexempt : ∀ now, call = .check key now → g.allowlist.contains key = true := by
      intro now he
      rw [← Bool.not_eq_false]
      exact fun hkey => hown ⟨now, he, hkey⟩
    have hquiet := verdictsOf_unjudged hexempt
    have hdenials : denials (verdictsOf key [m]) = 0 := by
      rw [denials, List.countP_eq_zero]
      intro v hv
      simp [hquiet v hv, Decision.isRateLimited]
    have hblocks : blocks (verdictsOf key [m]) = 0 := by
      rw [blocks, List.countP_eq_zero]
      intro v hv
      simp [hquiet v hv, Decision.startsBlock]
    have hforgives : m.forgives key = false := by
      rw [Moment.forgives, List.any_eq_false.2, Bool.false_and]
      intro v hv
      simp [hquiet v hv]
    rw [hdenials, hblocks, Moment.waived, hforgives]
    obtain he | ⟨hnone, -, c, hc, -⟩ := g.step_other key call hexempt
    · have hsame : m.after.strikesOn key = g.strikesOn key := by simp [strikesOn, Moment.after, m, he]
      have hstays : m.evicts key = false := by
        simp [Moment.evicts, Moment.after, m, tracks, he]
      simp [hsame, hstays]
    · have hzero : m.after.strikesOn key = 0 := strikesOn_of_none hnone
      have hgoes : m.evicts key = true := by
        simp [Moment.evicts, Moment.after, m, tracks, hnone, hc]
      simp [hzero, hgoes, m]

variable (limits : Limits) (start : Instant) (calls : List Call)

/-- Every denial of a client is stored as a strike, part of a block or waived. -/
theorem denials_balance (key : String) :
    denials (verdictsOf key (history limits start calls)) =
      limits.lastStrike * blocks (verdictsOf key (history limits start calls)) +
        (reached limits start calls).strikesOn key +
        ((history limits start calls).map (Moment.waived key)).sum := by
  induction calls using List.reverseRecOn with
  | nil => rfl
  | append_singleton calls call ih =>
    have hb : ∀ c, (reached limits start calls).clients.get? key = some c →
        c.InBounds (reached limits start calls).limits := by
      intro c hc
      rw [(reached_fixed limits start calls).1]
      exact (entry_inLedger limits start calls c hc).2
    have hstep := (reached limits start calls).step_balance call hb
    simp only [Moment.after, (reached_fixed limits start calls).1] at hstep
    rw [history_snoc, reached_snoc, verdictsOf_append, denials_append, blocks_append,
      List.map_append, List.sum_append, List.map_singleton, List.sum_singleton, Nat.mul_add]
    omega

/-- A number of verdicts is the sum of those on each client. -/
theorem countP_eq_sum (p : Verdict → Bool) {vs : List Verdict} {keys : Finset String}
    (h : ∀ v ∈ vs, v.key ∈ keys) :
    vs.countP p = ∑ key ∈ keys, (vs.filter fun v => v.key = key).countP p := by
  induction vs with
  | nil => simp
  | cons v vs ih =>
    have hrest := ih fun w hw => h w (List.mem_cons_of_mem v hw)
    have hone : ∀ key, ((v :: vs).filter fun w => w.key = key).countP p =
        (vs.filter fun w => w.key = key).countP p + if v.key = key then (p v).toNat else 0 := by
      intro key
      by_cases hk : v.key = key <;> cases hp : p v <;> simp [hk, hp]
    simp only [hone, Finset.sum_add_distrib, Finset.sum_ite_eq, if_pos (h v List.mem_cons_self),
      ← hrest]
    cases hp : p v <;> simp [hp]

theorem answered_eq_sum (p : Decision → Bool) {h : List Moment} {keys : Finset String}
    (hkeys : ∀ v ∈ verdicts h, v.key ∈ keys) :
    answered p h = ∑ key ∈ keys, (verdictsOf key h).countP fun v => p v.decision :=
  countP_eq_sum _ hkeys

/-- With fewer checks than a counter can tell apart, it holds a number of answers itself. -/
theorem toNat_answered (p : Decision → Bool) (hfew : calls.countP Call.isCheck < 2 ^ 64) :
    (answered p (history limits start calls)).toUInt64.toNat =
      answered p (history limits start calls) := by
  have hle : answered p (history limits start calls) ≤ calls.countP Call.isCheck := by
    rw [← length_verdicts_history limits start]
    exact List.countP_le_length
  exact UInt64.toNat_ofNat_of_lt' (Nat.lt_of_le_of_lt hle hfew)

/-- A block is paid for with as many denials as the last strike counts, of all clients together and
of each; a client that is neither evicted nor forgiven pays for nothing else. -/
theorem blocks_paid_in_denials (hfew : calls.countP Call.isCheck < 2 ^ 64) :
    let h := history limits start calls
    let g := reached limits start calls
    limits.lastStrike * g.snapshot.blocksStarted.toNat + ∑ key ∈ g.keys, g.strikesOn key ≤
        g.snapshot.rateLimited.toNat ∧
      ∀ key,
        limits.lastStrike * blocks (verdictsOf key h) + g.strikesOn key ≤
            denials (verdictsOf key h) ∧
          ((∀ m ∈ h, m.evicts key = false ∧ m.forgives key = false) →
            limits.lastStrike * blocks (verdictsOf key h) + g.strikesOn key =
              denials (verdictsOf key h)) := by
  intro h g
  have hbalance := denials_balance limits start calls
  constructor
  · -- The clients that were checked and those that are tracked: all others have nothing at all.
    let keys := ((verdicts h).map Verdict.key).toFinset ∪ g.keys
    have hkeys : ∀ v ∈ verdicts h, v.key ∈ keys := by
      intro v hv
      exact Finset.mem_union_left _ (List.mem_toFinset.2 (List.mem_map_of_mem hv))
    have hcounters : g.snapshot.toCounters = tally h := counters_eq_tally limits start calls
    have hblocks : g.snapshot.blocksStarted.toNat = ∑ key ∈ keys, blocks (verdictsOf key h) := by
      rw [hcounters]
      exact (toNat_answered limits start calls _ hfew).trans (answered_eq_sum _ hkeys)
    have hdenials : g.snapshot.rateLimited.toNat = ∑ key ∈ keys, denials (verdictsOf key h) := by
      rw [hcounters]
      exact (toNat_answered limits start calls _ hfew).trans (answered_eq_sum _ hkeys)
    calc limits.lastStrike * g.snapshot.blocksStarted.toNat + ∑ key ∈ g.keys, g.strikesOn key
      _ ≤ limits.lastStrike * g.snapshot.blocksStarted.toNat + ∑ key ∈ keys, g.strikesOn key := by
        exact Nat.add_le_add_left (Finset.sum_le_sum_of_subset Finset.subset_union_right) _
      _ = ∑ key ∈ keys, (limits.lastStrike * blocks (verdictsOf key h) + g.strikesOn key) := by
        rw [hblocks, Finset.mul_sum, Finset.sum_add_distrib]
      _ ≤ ∑ key ∈ keys, denials (verdictsOf key h) := by
        refine Finset.sum_le_sum fun key _ => ?_
        rw [hbalance key]
        exact Nat.le_add_right _ _
      _ = g.snapshot.rateLimited.toNat := hdenials.symm
  · intro key
    rw [hbalance key]
    refine ⟨Nat.le_add_right _ _, fun hnever => ?_⟩
    have hnone : (h.map (Moment.waived key)).sum = 0 := by
      rw [List.sum_eq_zero_iff]
      intro n hn
      obtain ⟨m, hm, rfl⟩ := List.mem_map.1 hn
      obtain ⟨hstays, hforgives⟩ := hnever m hm
      simp [Moment.waived, hstays, hforgives]
    rw [hnone, Nat.add_zero]

/-- Two clients under limits that start a block at the second strike: the first is blocked for two of
the three denials, and the strike of the second is stored. -/
theorem two_denials_pay_for_block :
    let limits : Limits := { Limits.strict with strikeThreshold := 2 }
    let calls := [Call.check "a" .origin, .check "a" .origin, .check "b" .origin,
      .check "a" .origin, .check "b" .origin]
    let paid := verdictsOf "a" (history limits .origin calls)
    calls.countP Call.isCheck < 2 ^ 64 ∧
      limits.lastStrike = 2 ∧ blocks paid = 1 ∧ denials paid = 2 ∧
      (reached limits .origin calls).snapshot.rateLimited = 3 ∧
      limits.lastStrike * (reached limits .origin calls).snapshot.blocksStarted.toNat +
          ∑ key ∈ (reached limits .origin calls).keys, (reached limits .origin calls).strikesOn key ≤
        (reached limits .origin calls).snapshot.rateLimited.toNat ∧
      limits.lastStrike * blocks paid + (reached limits .origin calls).strikesOn "a" =
        denials paid := by
  intro limits calls paid
  obtain ⟨hall, heach⟩ := blocks_paid_in_denials limits .origin calls (by decide)
  have hnever : ∀ m ∈ history limits .origin calls,
      m.evicts "a" = false ∧ m.forgives "a" = false := by decide +kernel
  exact ⟨by decide, by decide, by decide +kernel, by decide +kernel, by decide +kernel, hall,
    (heach "a").2 hnever⟩

end Guard
end AdmissionGuard

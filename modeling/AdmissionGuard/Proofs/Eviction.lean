import AdmissionGuard.Proofs.RestedClient

/-! Evictions. Whether the entry of a rested client is still there makes no difference to anything
that the guard decides later. -/
namespace AdmissionGuard

def Unnoticed (limits : Limits) (now : Instant) (entry : Option Client) : Prop :=
  ∀ c, entry = some c → c.Rested limits now

theorem Unnoticed.judged {limits : Limits} {now t : Instant} {s : Store} {key : String}
    {c' : Client} {b b' : TokenBucket} {d : Decision} (h : Unnoticed limits now (s.get? key))
    (ht : now ≤ t) (hj : Judged limits t (s.sighted limits key t) b d c' b') :
    Judged limits t ((Client.fresh limits t).seen t) b d c' b' := by
  rw [Store.sighted] at hj
  cases hc : s.get? key with
  | none =>
    rw [hc] at hj
    exact hj
  | some c =>
    rw [hc] at hj
    exact (h c hc).judged ht hj

def Counters.unswept (n : Counters) : Counters := { n with swept := 0 }

theorem Counters.unswept_record (n : Counters) (d : Decision) :
    (n.record d).unswept = n.unswept.record d := by
  cases d with
  | rateLimited strikes blocks => cases blocks <;> rfl
  | exempt | admitted | blocked => rfl

theorem Counters.unswept_recordSweep (n : Counters) (removed : Nat) :
    (n.recordSweep removed).unswept = { n.unswept with sweeps := n.unswept.sweeps + 1 } := rfl

namespace Guard

/-- The guards differ at most in entries of clients of `K` that no call from `now` on notices. -/
structure Alike (now : Instant) (K : String → Prop) (g g' : Guard) : Prop where
  limits_eq : g.limits = g'.limits
  allowlist_eq : g.allowlist = g'.allowlist
  shared_eq : g.shared = g'.shared
  checked_eq : g.checked = g'.checked
  counters_eq : g.counters.unswept = g'.counters.unswept
  entry : ∀ key, g.clients.get? key = g'.clients.get? key ∨
    K key ∧ g.allowlist.contains key = false ∧
      Unnoticed g.limits now (g.clients.get? key) ∧ Unnoticed g.limits now (g'.clients.get? key)

def Reply.decision? : Reply → Option Decision
  | .decided d => some d
  | .swept _ | .status _ => none

section
variable {now t : Instant} {K : String → Prop} {g g' : Guard} {key : String}

theorem Alike.sweep (h : Alike now K g g') (t : Instant) :
    Alike now K (g.sweep t).guard (g'.sweep t).guard := by
  refine ⟨h.limits_eq, h.allowlist_eq, h.shared_eq, h.checked_eq, ?_, fun key => ?_⟩
  · show (g.counters.recordSweep _).unswept = (g'.counters.recordSweep _).unswept
    rw [Counters.unswept_recordSweep, Counters.unswept_recordSweep, h.counters_eq]
  · have hsub : ∀ (p : Client → Bool) (o : Option Client),
        Unnoticed g.limits now o → Unnoticed g.limits now (o.filter p) :=
      fun p o ho c hc => ho c (Option.filter_eq_some_iff.1 hc).1
    rw [sweep_get?, sweep_get?, ← h.limits_eq]
    obtain he | ⟨hK, hkey, hg, hg'⟩ := h.entry key
    · exact .inl (congrArg _ he)
    · exact .inr ⟨hK, hkey, hsub _ _ hg, hsub _ _ hg'⟩

theorem Alike.settled (h : Alike now K g g') (d : Decision) (c : Client) (b : TokenBucket) :
    Alike now (fun k => K k ∧ k ≠ key) (g.settled key d c b) (g'.settled key d c b) := by
  refine ⟨h.limits_eq, h.allowlist_eq, rfl, ?_, ?_, fun k => ?_⟩
  · exact congrArg (· + 1) h.checked_eq
  · show (g.counters.record d).unswept = (g'.counters.record d).unswept
    rw [Counters.unswept_record, Counters.unswept_record, h.counters_eq]
  · by_cases hk : k = key
    · subst hk
      exact .inl ((g.clients.get?_set_self k c).trans (g'.clients.get?_set_self k c).symm)
    · have hg : (g.settled key d c b).clients.get? k = g.clients.get? k :=
        g.clients.get?_set_ne c hk
      have hg' : (g'.settled key d c b).clients.get? k = g'.clients.get? k :=
        g'.clients.get?_set_ne c hk
      rw [hg, hg']
      exact (h.entry k).imp_right fun ⟨hK, hrest⟩ => ⟨⟨hK, hk⟩, hrest⟩

theorem Alike.check (h : Alike now K g g') (ht : now ≤ t)
    (hkey : g.allowlist.contains key = false) :
    (g.check key t).answer = (g'.check key t).answer ∧
      Alike now (fun k => K k ∧ k ≠ key) (g.check key t).guard (g'.check key t).guard := by
  have hkey' : g'.allowlist.contains key = false := h.allowlist_eq ▸ hkey
  obtain ⟨d, c, b, hj, hd, hg⟩ := g.check_judged t hkey
  obtain ⟨d', c', b', hj', hd', hg'⟩ := g'.check_judged t hkey'
  rw [← h.limits_eq, ← h.shared_eq] at hj'
  -- Where the entries differ, both guards judge the client as a fresh one would be judged.
  have hsame : d = d' ∧ c = c' ∧ b = b' := by
    obtain he | ⟨-, -, hu, hu'⟩ := h.entry key
    · rw [Store.sighted, ← he, ← Store.sighted] at hj'
      exact hj.unique hj'
    · exact (hu.judged ht hj).unique (hu'.judged ht hj')
  obtain ⟨rfl, rfl, rfl⟩ := hsame
  refine ⟨hd.trans hd'.symm, ?_⟩
  rw [hg, hg', ← h.checked_eq]
  split
  · exact (h.settled d c b).sweep t
  · exact h.settled d c b

theorem Alike.weaken {K' : String → Prop} (h : Alike now K g g')
    (hK : ∀ key, g.allowlist.contains key = false → K key → K' key) : Alike now K' g g' :=
  { h with
    entry := fun key => (h.entry key).imp_right fun ⟨hk, hkey, hrest⟩ =>
      ⟨hK key hkey hk, hkey, hrest⟩ }

theorem Alike.step (h : Alike now K g g') {call : Call} (hcall : now ≤ call.instant) :
    (g.step call).answer.decision? = (g'.step call).answer.decision? ∧
      Alike now (fun key => K key ∧ ∀ t, call ≠ .check key t)
        (g.step call).guard (g'.step call).guard := by
  cases call with
  | check k t =>
    cases hkey : g.allowlist.contains k with
    | true =>
      have hkey' : g'.allowlist.contains k = true := h.allowlist_eq ▸ hkey
      rw [Guard.step, Guard.step, g.check_exempt t hkey, g'.check_exempt t hkey']
      refine ⟨rfl, h.limits_eq, h.allowlist_eq, h.shared_eq, h.checked_eq, ?_, fun key => ?_⟩
      · show (g.counters.record _).unswept = (g'.counters.record _).unswept
        rw [Counters.unswept_record, Counters.unswept_record, h.counters_eq]
      · obtain he | ⟨hK, hno, hrest⟩ := h.entry key
        · exact .inl he
        · refine .inr ⟨⟨hK, ?_⟩, hno, hrest⟩
          rintro t' ⟨⟩
          rw [hno] at hkey
          cases hkey
    | false =>
      obtain ⟨hanswer, halike⟩ := h.check hcall hkey
      refine ⟨congrArg some hanswer, halike.weaken fun key _ hkept => ⟨hkept.1, ?_⟩⟩
      rintro t' ⟨⟩
      exact hkept.2 rfl
  | sweep t =>
    have hnone : ∀ x : Guard, (x.step (.sweep t)).answer.decision? = none := fun x => rfl
    refine ⟨(hnone g).trans (hnone g').symm, (h.sweep t).weaken fun key _ hK => ⟨hK, ?_⟩⟩
    rintro t' ⟨⟩
  | status k t =>
    have hnone : ∀ x : Guard, (x.step (.status k t)).answer.decision? = none := fun x => rfl
    refine ⟨(hnone g).trans (hnone g').symm, h.weaken fun key _ hK => ⟨hK, ?_⟩⟩
    rintro t' ⟨⟩

theorem Alike.run (h : Alike now K g g') (rest : List Call)
    (hrest : ∀ call ∈ rest, now ≤ call.instant) :
    (g.run rest).answer.map Reply.decision? = (g'.run rest).answer.map Reply.decision? ∧
      Alike now (fun key => K key ∧ ∀ t, Call.check key t ∉ rest)
        (g.run rest).guard (g'.run rest).guard := by
  -- `K` is general: each check takes its client out of it.
  induction rest generalizing g g' K with
  | nil => exact ⟨rfl, h.weaken fun key _ hK => ⟨hK, fun t => List.not_mem_nil⟩⟩
  | cons call rest ih =>
    obtain ⟨hanswer, hstep⟩ := h.step (hrest call List.mem_cons_self)
    obtain ⟨htail, hrun⟩ := ih hstep fun c hc => hrest c (List.mem_cons_of_mem call hc)
    refine ⟨?_, hrun.weaken fun key _ ⟨⟨hK, hne⟩, hno⟩ => ⟨hK, fun t hmem => ?_⟩⟩
    · simp only [Guard.run, List.map_cons, hanswer, htail]
    · obtain he | hin := List.mem_cons.1 hmem
      · exact hne t he.symm
      · exact hno t hin

end

/-- No continuation from `now` on tells the guards apart, by its decisions or by what it leaves: only
the entries of clients of `K` may differ until their next check, and how many clients sweeps forget. -/
def Indistinguishable (now : Instant) (K : String → Prop) (g g' : Guard) : Prop :=
  ∀ rest : List Call, (∀ call ∈ rest, now ≤ call.instant) →
    let o := g.run rest
    let o' := g'.run rest
    o.answer.map Reply.decision? = o'.answer.map Reply.decision? ∧
      o.guard.shared = o'.guard.shared ∧ o.guard.checked = o'.guard.checked ∧
      o.guard.counters.unswept = o'.guard.counters.unswept ∧
      ∀ key, (K key → ∃ t, Call.check key t ∈ rest) →
        o.guard.clients.get? key = o'.guard.clients.get? key

theorem Alike.indistinguishable {now : Instant} {K : String → Prop} {g g' : Guard}
    (h : Alike now K g g') : Indistinguishable now K g g' := by
  intro rest hrest
  obtain ⟨hanswer, hrun⟩ := h.run rest hrest
  refine ⟨hanswer, hrun.shared_eq, hrun.checked_eq, hrun.counters_eq, fun key hkey => ?_⟩
  obtain he | ⟨⟨hK, hno⟩, -⟩ := hrun.entry key
  · exact he
  · obtain ⟨t, ht⟩ := hkey hK
    exact absurd ht (hno t)

end Guard

def Store.restore (s : Store) (back : List (String × Client)) : Store :=
  back.foldl (fun s e => s.set e.1 { e.2 with strikes := 0 }) s

theorem Store.get?_restore (s : Store) (back : List (String × Client)) (key : String) :
    (s.restore back).get? key = s.get? key ∨
      ∃ c, (key, c) ∈ back ∧ (s.restore back).get? key = some { c with strikes := 0 } := by
  induction back using List.reverseRecOn with
  | nil => exact .inl rfl
  | append_singleton back e ih =>
    have hsnoc : s.restore (back ++ [e]) =
        (s.restore back).set e.1 { e.2 with strikes := 0 } := List.foldl_concat ..
    rw [hsnoc]
    by_cases hk : key = e.1
    · subst hk
      exact .inr ⟨e.2, by simp, get?_set_self _ _ _⟩
    · rw [get?_set_ne _ _ hk]
      exact ih.imp_right fun ⟨c, hmem, hget⟩ => ⟨c, List.mem_append_left _ hmem, hget⟩

namespace Guard

def evict (g : Guard) (key : String) : Guard := { g with clients := g.clients.erase key }

def restore (g : Guard) (back : List (String × Client)) : Guard :=
  { g with clients := g.clients.restore back }

variable (limits : Limits) (start : Instant) (calls : List Call) {key : String} {c : Client}

theorem alike_evict {now : Instant} (hkey : (reached limits start calls).clients.get? key = some c)
    (hrested : c.Rested limits now) :
    Alike now (· = key) (reached limits start calls) ((reached limits start calls).evict key) := by
  refine ⟨rfl, rfl, rfl, rfl, rfl, fun k => ?_⟩
  have herase := (reached limits start calls).clients.get?_erase key k
  by_cases hk : k = key
  · subst hk
    have hallow := not_exempt_of_tracked limits start calls hkey
    rw [if_pos rfl] at herase
    refine .inr ⟨rfl, (reached_contains limits start calls k).trans hallow, ?_, ?_⟩
    · rw [hkey, (reached_fixed limits start calls).1]
      rintro c' ⟨⟩
      exact hrested
    · rw [evict, herase]
      rintro c' ⟨⟩
  · rw [if_neg hk] at herase
    exact .inl herase.symm

theorem alike_restore (hburst : 0 < limits.perClientBurst.toNat)
    (hrate : limits.perClientBurst.toNat * 60 * 2 ≤
      limits.perClientPerMinute.toNat * 3 * limits.blockSeconds.toNat)
    (call : Call) (back : List (String × Client))
    (hback : ∀ e ∈ back, (reached limits start calls).clients.get? e.1 = some e.2 ∧
      ((reached limits start calls).step call).guard.clients.get? e.1 = none) :
    let after := ((reached limits start calls).step call).guard
    Alike call.instant (· ∈ back.map Prod.fst) after (after.restore back) := by
  intro after
  have hlimits : after.limits = limits :=
    ((reached limits start calls).step_fixed call).1.trans (reached_fixed limits start calls).1
  refine ⟨rfl, rfl, rfl, rfl, rfl, fun key => ?_⟩
  obtain he | ⟨c, hmem, hget⟩ := after.clients.get?_restore back key
  · exact .inl he.symm
  · obtain ⟨hc, hnone⟩ := hback _ hmem
    have hallow := not_exempt_of_tracked limits start calls hc
    have hcontains : after.allowlist.contains key = false := by
      rw [((reached limits start calls).step_fixed call).2]
      exact (reached_contains limits start calls key).trans hallow
    have hrested := rested_of_evicted limits start calls hburst hrate hc hnone
    refine .inr ⟨List.mem_map.2 ⟨_, hmem, rfl⟩, hcontains, ?_, ?_⟩
    · intro c' hc'
      have hafter : after.clients.get? key = none := hnone
      rw [hafter] at hc'
      cases hc'
    · rw [hlimits, restore, hget]
      rintro c' ⟨⟩
      exact hrested

/-- Whether the entry of a client is there or not makes no difference from an instant on at which it
has been idle, unblocked and without strikes until its bucket was full. Where the limits let a
bucket fill within one and a half blocks, sweeps forget no more of a client than its strikes. -/
theorem idle_eviction_unobservable (limits : Limits) (start : Instant) (calls : List Call) :
    let g := reached limits start calls
    (∀ key now c, g.clients.get? key = some c → c.lastSeen < now →
      c.blockRemaining? now = none → c.strikes = 0 →
      (c.bucket.refill now).level = c.bucket.capacity →
      Indistinguishable now (· = key) g (g.evict key)) ∧
    (0 < limits.perClientBurst.toNat →
      limits.perClientBurst.toNat * 60 * 2 ≤
        limits.perClientPerMinute.toNat * 3 * limits.blockSeconds.toNat →
      ∀ call : Call,
        let after := (g.step call).guard
        (∀ key c, g.clients.get? key = some c → after.clients.get? key = none →
          (c.bucket.refill call.instant).level = c.bucket.capacity) ∧
        ∀ back : List (String × Client),
          (∀ e ∈ back, g.clients.get? e.1 = some e.2 ∧ after.clients.get? e.1 = none) →
            Indistinguishable call.instant (· ∈ back.map Prod.fst) after (after.restore back)) := by
  intro g
  constructor
  · intro key now c hc hseen hfree hstrikes hfull
    have hsound := entry_sound limits start calls hc
    exact (alike_evict limits start calls hc
      ⟨hsound, hseen, hfree, hstrikes, hfull⟩).indistinguishable
  · intro hburst hrate call after
    refine ⟨fun key c hc hnone => ?_, fun back hback => ?_⟩
    · exact (rested_of_evicted limits start calls hburst hrate hc hnone).full
    · exact (alike_restore limits start calls hburst hrate call back hback).indistinguishable

/-- A client whose block is over, evicted by hand at 31 seconds or by a sweep at 91. -/
theorem strict_eviction_after_block :
    let g := reached .strict .origin [.check "a" .origin, .check "a" .origin]
    let now : Instant := ⟨31000000000, by decide, by decide⟩
    let late : Instant := ⟨91000000000, by decide, by decide⟩
    let c : Client :=
      { bucket := ⟨1, 1, 0, .origin⟩
        strikes := 0
        blockedUntil := some ⟨30000000000, by decide, by decide⟩
        lastSeen := .origin }
    let after := (g.step (.sweep late)).guard
    (g.clients.get? "a" = some c ∧ c.lastSeen < now ∧ c.blockRemaining? now = none ∧
      c.strikes = 0 ∧ (c.bucket.refill now).level = c.bucket.capacity ∧
      Indistinguishable now (· = "a") g (g.evict "a")) ∧
    after.clients.get? "a" = none ∧
      Indistinguishable late (· ∈ ["a"]) after (after.restore [("a", c)]) := by
  intro g now late c after
  have hc : g.clients.get? "a" = some c := by decide +kernel
  have hseen : c.lastSeen < now := by decide +kernel
  have hfree : c.blockRemaining? now = none := by decide +kernel
  have hfull : (c.bucket.refill now).level = c.bucket.capacity := by decide +kernel
  have hgone : after.clients.get? "a" = none := by decide +kernel
  obtain ⟨hevict, hsweep⟩ :=
    idle_eviction_unobservable .strict .origin [.check "a" .origin, .check "a" .origin]
  have hback : ∀ e ∈ [("a", c)], g.clients.get? e.1 = some e.2 ∧ after.clients.get? e.1 = none := by
    intro e he
    rw [List.mem_singleton.1 he]
    exact ⟨hc, hgone⟩
  exact ⟨⟨hc, hseen, hfree, rfl, hfull, hevict "a" now c hc hseen hfree rfl hfull⟩, hgone,
    (hsweep (by decide) (by decide) (.sweep late)).2 _ hback⟩

end Guard
end AdmissionGuard

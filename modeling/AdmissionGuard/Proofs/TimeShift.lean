import AdmissionGuard.Proofs.History
import Mathlib.Data.List.Forall2

/-! Runs moved in time. The guard compares instants only with each other, so a run whose instants
are all moved by the same length shows the same. At each layer of the state, `Moved` says that every
instant in it is moved and that the rest is equal. -/
namespace AdmissionGuard

namespace Instant

def Moved (δ : Int) (t t' : Instant) : Prop := t'.nanos = t.nanos + δ

instance (δ : Int) (t t' : Instant) : Decidable (t.Moved δ t') :=
  inferInstanceAs (Decidable (_ = _))

section
variable {δ : Int} {s s' t t' : Instant}

theorem Moved.lt_iff (hs : s.Moved δ s') (ht : t.Moved δ t') : s' < t' ↔ s < t := by
  have hs' : s'.nanos = s.nanos + δ := hs
  have ht' : t'.nanos = t.nanos + δ := ht
  show s'.nanos < t'.nanos ↔ s.nanos < t.nanos
  omega

theorem Moved.since_eq (hs : s.Moved δ s') (ht : t.Moved δ t') : t'.since s' = t.since s := by
  have hs' : s'.nanos = s.nanos + δ := hs
  have ht' : t'.nanos = t.nanos + δ := ht
  ext
  simp only [since]
  omega

theorem Moved.latest (hs : s.Moved δ s') (ht : t.Moved δ t') :
    (s.latest t).Moved δ (s'.latest t') := by
  by_cases h : s < t
  · rwa [Instant.latest, Instant.latest, if_pos h, if_pos ((hs.lt_iff ht).2 h)]
  · rwa [Instant.latest, Instant.latest, if_neg h, if_neg (mt (hs.lt_iff ht).1 h)]

theorem Moved.blockEnd (h : t.Moved δ t') {block : Span} (hfits : (t.later? block).isSome)
    (hfits' : (t'.later? block).isSome) : (t.blockEnd block).Moved δ (t'.blockEnd block) := by
  -- Only a block whose end the clock cannot show is cut short, and by how much a move can change.
  obtain ⟨u, hu⟩ := Option.isSome_iff_exists.1 hfits
  obtain ⟨u', hu'⟩ := Option.isSome_iff_exists.1 hfits'
  have hnanos := nanos_of_later? hu
  have hnanos' := nanos_of_later? hu'
  have ht' : t'.nanos = t.nanos + δ := h
  rw [blockEnd_of_later? hu, blockEnd_of_later? hu']
  show u'.nanos = u.nanos + δ
  omega

end

end Instant

structure TokenBucket.Moved (δ : Int) (b b' : TokenBucket) : Prop where
  capacity_eq : b'.capacity = b.capacity
  rate_eq : b'.rate = b.rate
  level_eq : b'.level = b.level
  refilledAt : b.refilledAt.Moved δ b'.refilledAt

namespace TokenBucket
variable {δ : Int} {b b' : TokenBucket} {t t' : Instant}

theorem full_moved (perMinute burst : UInt32) (ht : t.Moved δ t') :
    (full perMinute burst t).Moved δ (full perMinute burst t') :=
  ⟨rfl, rfl, rfl, ht⟩

theorem Moved.refill (h : b.Moved δ b') (ht : t.Moved δ t') :
    (b.refill t).Moved δ (b'.refill t') := by
  unfold TokenBucket.refill
  rw [h.refilledAt.since_eq ht, h.capacity_eq, h.rate_eq, h.level_eq]
  dsimp only
  split
  · exact h
  · exact ⟨rfl, rfl, rfl, ht⟩

theorem Moved.attempt (h : b.Moved δ b') (ht : t.Moved δ t') :
    (b'.attempt t').1 = (b.attempt t).1 ∧ (b.attempt t).2.Moved δ (b'.attempt t').2 := by
  have hr := h.refill ht
  unfold TokenBucket.attempt
  dsimp only
  rw [hr.level_eq]
  split
  · exact ⟨rfl, hr.capacity_eq, hr.rate_eq, rfl, hr.refilledAt⟩
  · exact ⟨rfl, hr⟩

theorem Moved.available_eq (h : b.Moved δ b') (ht : t.Moved δ t') :
    b'.available t' = b.available t := by
  rw [available, available, whole, whole, (h.refill ht).level_eq]

end TokenBucket

structure Client.Moved (δ : Int) (c c' : Client) : Prop where
  bucket : c.bucket.Moved δ c'.bucket
  strikes_eq : c'.strikes = c.strikes
  blockedUntil : Option.Rel (Instant.Moved δ) c.blockedUntil c'.blockedUntil
  lastSeen : c.lastSeen.Moved δ c'.lastSeen

namespace Client
variable {δ : Int} {c c' : Client} {t t' : Instant}

theorem fresh_moved (limits : Limits) (ht : t.Moved δ t') :
    (fresh limits t).Moved δ (fresh limits t') :=
  ⟨TokenBucket.full_moved _ _ ht, rfl, .none, ht⟩

theorem Moved.seen (h : c.Moved δ c') (ht : t.Moved δ t') : (c.seen t).Moved δ (c'.seen t') :=
  ⟨h.bucket, h.strikes_eq, h.blockedUntil, h.lastSeen.latest ht⟩

theorem Moved.blockRemaining?_eq (h : c.Moved δ c') (ht : t.Moved δ t') :
    c'.blockRemaining? t' = c.blockRemaining? t := by
  have hrel := h.blockedUntil
  rw [blockRemaining?, blockRemaining?]
  generalize c.blockedUntil = u at hrel ⊢
  generalize c'.blockedUntil = u' at hrel ⊢
  cases hrel with
  | none => rfl
  | some hu =>
    simp only [Option.filter_some, ht.lt_iff hu]
    split
    · exact congrArg some (ht.since_eq hu)
    · rfl

theorem Moved.status_eq (h : c.Moved δ c') (ht : t.Moved δ t') : c'.status t' = c.status t := by
  rw [status, status, h.strikes_eq, h.blockRemaining?_eq ht, h.bucket.available_eq ht]

theorem Moved.forgettable_iff (h : c.Moved δ c') (ht : t.Moved δ t') (stale : Span) :
    c'.Forgettable t' stale ↔ c.Forgettable t stale := by
  have hseen : c'.lastSeen.nanos = c.lastSeen.nanos + δ := h.lastSeen
  have ht' : t'.nanos = t.nanos + δ := ht
  rw [Forgettable, Forgettable, h.blockRemaining?_eq ht]
  exact and_congr_left' (by omega)

end Client

theorem Judged.moved {limits : Limits} {δ : Int} {t t' : Instant} {c₀ c₀' c c' : Client}
    {b₀ b₀' b b' : TokenBucket} {d d' : Decision} (h : Judged limits t c₀ b₀ d c b)
    (h' : Judged limits t' c₀' b₀' d' c' b') (ht : t.Moved δ t') (hc : c₀.Moved δ c₀')
    (hb : b₀.Moved δ b₀') (hblock : (t.blockEnd limits.block).Moved δ (t'.blockEnd limits.block)) :
    d' = d ∧ c.Moved δ c' ∧ b.Moved δ b' := by
  have hremaining := hc.blockRemaining?_eq ht
  obtain ⟨hown, hbucket⟩ := hc.bucket.attempt ht
  obtain ⟨hgrant, hshared⟩ := hb.attempt ht
  have hstrikes := hc.strikes_eq
  -- The rule that judged the client applies to the moved one, and no other rule does.
  cases h with
  | blocked r hr =>
    rw [← hremaining] at hr
    obtain ⟨rfl, rfl, rfl⟩ := h'.unique (.blocked r hr)
    exact ⟨rfl, hc, hb⟩
  | admitted hfree own shared =>
    rw [← hremaining] at hfree
    rw [← hown] at own
    rw [← hgrant] at shared
    obtain ⟨rfl, rfl, rfl⟩ := h'.unique (.admitted hfree own shared)
    exact ⟨rfl, ⟨hbucket, congrArg (· - 1) hstrikes, .none, hc.lastSeen⟩, hshared⟩
  | limited hfree denied below =>
    rw [← hremaining] at hfree
    rw [← hown, ← hgrant] at denied
    rw [← hstrikes] at below ⊢
    obtain ⟨rfl, rfl, rfl⟩ := h'.unique (.limited hfree denied below)
    exact ⟨rfl, ⟨hbucket, rfl, .none, hc.lastSeen⟩, hshared⟩
  | punished hfree denied reached =>
    rw [← hremaining] at hfree
    rw [← hown, ← hgrant] at denied
    rw [← hstrikes] at reached ⊢
    obtain ⟨rfl, rfl, rfl⟩ := h'.unique (.punished hfree denied reached)
    exact ⟨rfl, ⟨hbucket, rfl, .some hblock, hc.lastSeen⟩, hshared⟩

def EntryMoved (δ : Int) (e e' : String × Client) : Prop := e.1 = e'.1 ∧ e.2.Moved δ e'.2

section
variable {δ : Int} {l l' : List (String × Client)}

theorem lookup_moved (h : List.Forall₂ (EntryMoved δ) l l') (key : String) :
    Option.Rel (Client.Moved δ) (l.lookup key) (l'.lookup key) := by
  induction h with
  | nil => exact .none
  | cons he _ ih =>
    rw [List.lookup_cons, List.lookup_cons, ← he.1]
    split
    · exact .some he.2
    · exact ih

theorem setEntry_moved (h : List.Forall₂ (EntryMoved δ) l l') (key : String) {c c' : Client}
    (hc : c.Moved δ c') : List.Forall₂ (EntryMoved δ) (setEntry key c l) (setEntry key c' l') := by
  induction h with
  | nil => exact .cons ⟨rfl, hc⟩ .nil
  | cons he hrest ih =>
    rw [setEntry, setEntry, ← he.1]
    split
    · exact .cons ⟨rfl, hc⟩ hrest
    · exact .cons ⟨rfl, he.2⟩ ih

end

def Store.Moved (δ : Int) (s s' : Store) : Prop :=
  List.Forall₂ (EntryMoved δ) s.entries s'.entries

namespace Store
variable {δ : Int} {s s' : Store} {t t' : Instant}

theorem Moved.size_eq (h : s.Moved δ s') : s'.size = s.size :=
  (List.Forall₂.length_eq h).symm

theorem Moved.get? (h : s.Moved δ s') (key : String) :
    Option.Rel (Client.Moved δ) (s.get? key) (s'.get? key) :=
  lookup_moved h key

theorem Moved.set (h : s.Moved δ s') (key : String) {c c' : Client} (hc : c.Moved δ c') :
    (s.set key c).Moved δ (s'.set key c') :=
  setEntry_moved h key hc

theorem Moved.sighted (h : s.Moved δ s') (limits : Limits) (key : String) (ht : t.Moved δ t') :
    (s.sighted limits key t).Moved δ (s'.sighted limits key t') := by
  have hrel := h.get? key
  rw [Store.sighted, Store.sighted]
  generalize s.get? key = o at hrel ⊢
  generalize s'.get? key = o' at hrel ⊢
  cases hrel with
  | none => exact (Client.fresh_moved limits ht).seen ht
  | some hc => exact hc.seen ht

theorem Moved.sweep (h : s.Moved δ s') (ht : t.Moved δ t') (stale : Span) :
    (s.sweep t stale).Moved δ (s'.sweep t' stale) := by
  -- As a filter neither sweep depends on where the range of the clock begins.
  rw [sweep_eq_filter, sweep_eq_filter]
  refine List.rel_filter (fun e e' he => ?_) h
  simp only [decide_eq_true_eq, he.2.forgettable_iff ht]

end Store

namespace Guard

structure Moved (δ : Int) (g g' : Guard) : Prop where
  limits_eq : g'.limits = g.limits
  allowlist_eq : g'.allowlist = g.allowlist
  shared : g.shared.Moved δ g'.shared
  clients : g.clients.Moved δ g'.clients
  checked_eq : g'.checked = g.checked
  counters_eq : g'.counters = g.counters

inductive Call.Moved (δ : Int) : Call → Call → Prop where
  | check (key : String) {t t' : Instant} (h : t.Moved δ t') : Moved δ (.check key t) (.check key t')
  | sweep {t t' : Instant} (h : t.Moved δ t') : Moved δ (.sweep t) (.sweep t')
  | status (key : String) {t t' : Instant} (h : t.Moved δ t') :
    Moved δ (.status key t) (.status key t')

section
variable {δ : Int} {g g' : Guard} {t t' : Instant}

theorem create_moved (limits : Limits) (ht : t.Moved δ t') :
    (create limits t).Moved δ (create limits t') :=
  ⟨rfl, rfl, TokenBucket.full_moved _ _ ht, .nil, rfl, rfl⟩

theorem Moved.snapshot_eq (h : g.Moved δ g') : g'.snapshot = g.snapshot := by
  rw [snapshot, snapshot, tracked, tracked, h.counters_eq, h.clients.size_eq]

theorem Moved.sweep (h : g.Moved δ g') (ht : t.Moved δ t') :
    (g'.sweep t').answer = (g.sweep t).answer ∧ (g.sweep t).guard.Moved δ (g'.sweep t').guard := by
  have hclients : (g.clients.sweep t g.limits.staleAfter).Moved δ
      (g'.clients.sweep t' g'.limits.staleAfter) := by
    rw [h.limits_eq]
    exact h.clients.sweep ht _
  have hanswer : (g'.sweep t').answer = (g.sweep t).answer :=
    congrArg₂ (· - ·) h.clients.size_eq hclients.size_eq
  refine ⟨hanswer, h.limits_eq, h.allowlist_eq, h.shared, hclients, h.checked_eq, ?_⟩
  exact congrArg₂ Counters.recordSweep h.counters_eq hanswer

theorem Moved.settled (h : g.Moved δ g') (key : String) (d : Decision) {c c' : Client}
    {b b' : TokenBucket} (hc : c.Moved δ c') (hb : b.Moved δ b') :
    (g.settled key d c b).Moved δ (g'.settled key d c' b') :=
  ⟨h.limits_eq, h.allowlist_eq, hb, h.clients.set key hc, congrArg (· + 1) h.checked_eq,
    congrArg (·.record d) h.counters_eq⟩

theorem Moved.check (h : g.Moved δ g') (key : String) (ht : t.Moved δ t')
    (hblock : (t.blockEnd g.limits.block).Moved δ (t'.blockEnd g.limits.block)) :
    (g'.check key t').answer = (g.check key t).answer ∧
      (g.check key t).guard.Moved δ (g'.check key t').guard := by
  cases hkey : g.allowlist.contains key with
  | true =>
    have hkey' : g'.allowlist.contains key = true := h.allowlist_eq ▸ hkey
    rw [g.check_exempt t hkey, g'.check_exempt t' hkey']
    exact ⟨rfl, { h with counters_eq := congrArg (·.record .exempt) h.counters_eq }⟩
  | false =>
    have hkey' : g'.allowlist.contains key = false := h.allowlist_eq ▸ hkey
    obtain ⟨d, c, b, hj, hd, hg⟩ := g.check_judged t hkey
    obtain ⟨d', c', b', hj', hd', hg'⟩ := g'.check_judged t' hkey'
    rw [h.limits_eq] at hj'
    obtain ⟨rfl, hc, hb⟩ := hj.moved hj' ht (h.clients.sighted g.limits key ht) h.shared hblock
    have hsettled := h.settled key d' hc hb
    refine ⟨hd'.trans hd.symm, ?_⟩
    rw [hg, hg', h.checked_eq]
    split
    · exact (hsettled.sweep ht).2
    · exact hsettled

theorem Moved.step (h : g.Moved δ g') {call call' : Call} (hcall : call.Moved δ call')
    (hfits : (call.instant.later? g.limits.block).isSome)
    (hfits' : (call'.instant.later? g.limits.block).isSome) :
    (g'.step call').answer = (g.step call).answer ∧
      (g.step call).guard.Moved δ (g'.step call').guard := by
  cases hcall with
  | check key ht =>
    obtain ⟨hanswer, hguard⟩ := h.check key ht (ht.blockEnd hfits hfits')
    exact ⟨congrArg Reply.decided hanswer, hguard⟩
  | sweep ht =>
    obtain ⟨hanswer, hguard⟩ := h.sweep ht
    exact ⟨congrArg Reply.swept hanswer, hguard⟩
  | @status key t t' ht =>
    have hstatus : g'.status? key t' = g.status? key t := by
      have hrel := h.clients.get? key
      rw [status?, status?]
      generalize g.clients.get? key = o at hrel ⊢
      generalize g'.clients.get? key = o' at hrel ⊢
      cases hrel with
      | none => rfl
      | some hc => exact congrArg some (hc.status_eq ht)
    exact ⟨congrArg Reply.status hstatus, h⟩

end

end Guard

def Moment.told (m : Moment) : Guard.Reply × Snapshot := (m.reply, m.after.snapshot)

namespace Guard

theorem Moved.trace {δ : Int} {g g' : Guard} (h : g.Moved δ g') {calls calls' : List Call}
    (hcalls : List.Forall₂ (Call.Moved δ) calls calls')
    (hfits : ∀ call ∈ calls, (call.instant.later? g.limits.block).isSome)
    (hfits' : ∀ call ∈ calls', (call.instant.later? g.limits.block).isSome) :
    (g'.trace calls').map Moment.told = (g.trace calls).map Moment.told := by
  induction hcalls generalizing g g' with
  | nil => rfl
  | @cons call call' rest rest' hcall hrest ih =>
    obtain ⟨hanswer, hstep⟩ := h.step hcall (hfits _ List.mem_cons_self)
      (hfits' _ List.mem_cons_self)
    have htail := ih hstep
      (fun c hc => (g.step_fixed call).1 ▸ hfits c (List.mem_cons_of_mem _ hc))
      (fun c hc => (g.step_fixed call).1 ▸ hfits' c (List.mem_cons_of_mem _ hc))
    have htold : Moment.told ⟨g', call'⟩ = Moment.told ⟨g, call⟩ :=
      congrArg₂ Prod.mk hanswer hstep.snapshot_eq
    rw [Guard.trace, Guard.trace, List.map_cons, List.map_cons, htold, htail]

theorem sweep_answer (g : Guard) (now : Instant) :
    (g.sweep now).answer =
      g.clients.entries.countP fun e => e.2.Forgettable now g.limits.staleAfter := by
  have hkept : (g.clients.sweep now g.limits.staleAfter).size =
      g.clients.entries.countP fun e => ¬e.2.Forgettable now g.limits.staleAfter := by
    rw [Store.sweep_eq_filter]
    exact List.countP_eq_length_filter.symm
  have hall := g.clients.entries.length_eq_countP_add_countP
    fun e => e.2.Forgettable now g.limits.staleAfter
  simp only [decide_eq_true_eq] at hall
  show g.clients.entries.length - (g.clients.sweep now g.limits.staleAfter).size = _
  omega

/-- A run whose instants are all moved by `δ` tells its caller the same, as long as every block that
a call of either run could start ends within the range of the clock. A sweep follows the same rule
at every instant: where the clock does not reach back to its cutoff, nobody was last seen before it. -/
theorem only_time_differences_matter (limits : Limits) :
    (∀ (δ : Int) (start start' : Instant) (calls calls' : List Call), start.Moved δ start' →
      List.Forall₂ (Call.Moved δ) calls calls' →
      (∀ call ∈ calls ++ calls', (call.instant.later? limits.block).isSome) →
      (history limits start' calls').map Moment.told =
        (history limits start calls).map Moment.told) ∧
    ∀ (g : Guard) (now : Instant),
      let stale := g.limits.staleAfter
      (g.sweep now).guard.clients = g.clients.filter (fun c => ¬c.Forgettable now stale) ∧
        (g.sweep now).answer = g.clients.entries.countP (fun e => e.2.Forgettable now stale) ∧
        (now.earlier? stale = none →
          ∀ e ∈ g.clients.entries, now.nanos - stale.nanos ≤ e.2.lastSeen.nanos) := by
  refine ⟨fun δ start start' calls calls' hstart hcalls hfits => ?_, fun g now => ⟨?_, ?_, ?_⟩⟩
  · exact (create_moved limits hstart).trace hcalls
      (fun call hmem => hfits call (List.mem_append_left _ hmem))
      (fun call hmem => hfits call (List.mem_append_right _ hmem))
  · exact g.clients.sweep_eq_filter now g.limits.staleAfter
  · exact g.sweep_answer now
  · exact fun hnone e _ => Instant.le_of_earlier?_eq_none hnone e.2.lastSeen

/-- Moved to the lowest instants, a run has its sweep where the clock does not reach the cutoff. -/
theorem strict_run_at_lowest_instants :
    let late : Instant := ⟨10000000000, by decide, by decide⟩
    let lowest : Instant := ⟨-clockLimit, by decide, by decide⟩
    let lowestLate : Instant := ⟨10000000000 - clockLimit, by decide, by decide⟩
    let calls := [Call.check "a" .origin, .check "a" .origin, .sweep late, .status "a" late]
    let calls' :=
      [Call.check "a" lowest, .check "a" lowest, .sweep lowestLate, .status "a" lowestLate]
    Instant.origin.Moved (-clockLimit) lowest ∧
      List.Forall₂ (Call.Moved (-clockLimit)) calls calls' ∧
      (∀ call ∈ calls ++ calls', (call.instant.later? Limits.strict.block).isSome) ∧
      lowestLate.earlier? Limits.strict.staleAfter = none ∧
      (history .strict lowest calls').map Moment.told =
        (history .strict .origin calls).map Moment.told := by
  intro late lowest lowestLate calls calls'
  have hstart : Instant.origin.Moved (-clockLimit) lowest := by decide
  have hlate : late.Moved (-clockLimit) lowestLate := by decide
  have hcalls : List.Forall₂ (Call.Moved (-clockLimit)) calls calls' :=
    .cons (.check "a" hstart) (.cons (.check "a" hstart)
      (.cons (.sweep hlate) (.cons (.status "a" hlate) .nil)))
  have hfits : ∀ call ∈ calls ++ calls', (call.instant.later? Limits.strict.block).isSome := by
    decide +kernel
  refine ⟨hstart, hcalls, hfits, by decide +kernel, ?_⟩
  exact (only_time_differences_matter .strict).1 _ _ _ _ _ hstart hcalls hfits

end Guard
end AdmissionGuard

import AdmissionGuard.Proofs.History

/-! Blocks. A block is served to its end whatever else happens before that, and a client is turned
away as blocked only while it serves one. -/
namespace AdmissionGuard

theorem Client.blockRemaining?_eq_some {c : Client} {now : Instant} {r : Span} :
    c.blockRemaining? now = some r ↔
      ∃ u, c.blockedUntil = some u ∧ now < u ∧ r = u.since now := by
  rw [blockRemaining?]
  cases c.blockedUntil with
  | none => simp
  | some u =>
    by_cases h : now < u
    · simp [Option.filter_some, h, eq_comm]
    · simp [Option.filter_some, h]

theorem Client.blockRemaining?_of_unblocked {c : Client} (h : c.blockedUntil = none)
    (now : Instant) : c.blockRemaining? now = none := by
  rw [blockRemaining?, h]
  rfl

section
variable {limits : Limits} {now : Instant} {c c' : Client} {b b' : TokenBucket} {d : Decision}

/-- A check during a block changes nothing but the time of the last sighting. -/
theorem Judged.eq_of_blocked (h : Judged limits now c b d c' b') {r : Span}
    (hr : c.blockRemaining? now = some r) : d = .blocked r ∧ c' = c ∧ b' = b := by
  cases h with
  | blocked r' h' =>
    rw [h'] at hr
    cases hr
    exact ⟨rfl, rfl, rfl⟩
  | admitted h' | limited h' | punished h' =>
    rw [h'] at hr
    cases hr

theorem Judged.first_strike (h : Judged limits now c b d c' b')
    (hr : c.blockRemaining? now = none) (hs : c.strikes = 0) :
    d = .admitted ∨ ∃ blocks, d = .rateLimited 1 blocks := by
  have hone : min (c.strikes + 1) Guard.mostStrikes = 1 := by
    rw [hs]
    rfl
  cases h with
  | blocked r h' =>
    rw [h'] at hr
    cases hr
  | admitted => exact .inl rfl
  | limited | punished => exact .inr ⟨_, by rw [hone]⟩

/-- A stored end of a block was there before or belongs to the block that the check starts. -/
theorem Judged.blockedUntil_cases (h : Judged limits now c b d c' b') {u : Instant}
    (hu : c'.blockedUntil = some u) :
    (∃ r, d = .blocked r) ∧ c.blockedUntil = some u ∨
      (∃ strikes, d = .rateLimited strikes true) ∧ u = now.blockEnd limits.block := by
  cases h with
  | blocked r => exact .inl ⟨⟨r, rfl⟩, hu⟩
  | admitted => cases hu
  | limited => cases hu
  | punished =>
    cases hu
    exact .inr ⟨⟨_, rfl⟩, rfl⟩

theorem Judged.of_blocks {strikes : Nat}
    (h : Judged limits now c b (.rateLimited strikes true) c' b') :
    c'.blockedUntil = some (now.blockEnd limits.block) ∧ c'.strikes = 0 := by
  cases h
  exact ⟨rfl, rfl⟩

end

namespace Guard

def Serving (g : Guard) (key : String) (d : Instant) : Prop :=
  ∃ c, g.clients.get? key = some c ∧ c.blockedUntil = some d ∧ c.strikes = 0

theorem Serving.check {g : Guard} {key : String} {d : Instant} (h : g.Serving key d)
    (hkey : g.allowlist.contains key = false) {s : Instant} (hs : s < d) :
    (g.check key s).answer = .blocked (d.since s) ∧ (g.check key s).guard.shared = g.shared ∧
      ∃ c seen, g.clients.get? key = some c ∧
        (g.check key s).guard.clients.get? key = some { c with lastSeen := seen } := by
  obtain ⟨c, hc, hu, -⟩ := h
  obtain ⟨v, c', b, hj, hv, hget, hb⟩ := g.step_own s hkey
  rw [Store.sighted, hc] at hj
  have hr : (c.seen s).blockRemaining? s = some (d.since s) :=
    Client.blockRemaining?_eq_some.2 ⟨d, hu, hs, rfl⟩
  obtain ⟨rfl, rfl, rfl⟩ := hj.eq_of_blocked hr
  exact ⟨hv, hb, c, _, hc, hget⟩

theorem Serving.step {g : Guard} {key : String} {d : Instant} (h : g.Serving key d)
    (hkey : g.allowlist.contains key = false) {call : Call} (hcall : call.instant < d) :
    (g.step call).guard.Serving key d := by
  by_cases hown : ∃ s, call = .check key s
  · obtain ⟨s, rfl⟩ := hown
    obtain ⟨-, -, c, seen, hc, hget⟩ := h.check hkey hcall
    obtain ⟨c', hc', hu, hs⟩ := h
    rw [hc] at hc'
    cases hc'
    exact ⟨_, hget, hu, hs⟩
  · obtain ⟨c, hc, hu, hs⟩ := h
    obtain he | ⟨-, -, c', hc', -, hnone⟩ :=
      g.step_other key call fun s heq => absurd ⟨s, heq⟩ hown
    · exact ⟨c, he.trans hc, hu, hs⟩
    · rw [hc] at hc'
      cases hc'
      rw [Client.blockRemaining?_eq_some.2 ⟨d, hu, hcall, rfl⟩] at hnone
      cases hnone

theorem Serving.run {g : Guard} {key : String} {d : Instant} (h : g.Serving key d)
    (hkey : g.allowlist.contains key = false) (rest : List Call)
    (hrest : ∀ call ∈ rest, call.instant < d) : (g.run rest).guard.Serving key d := by
  induction rest generalizing g with
  | nil => exact h
  | cons call rest ih =>
    have hstep := h.step hkey (hrest call List.mem_cons_self)
    have hkey' : (g.step call).guard.allowlist.contains key = false := by
      rw [(g.step_fixed call).2, hkey]
    exact ih hstep hkey' fun c hc => hrest c (List.mem_cons_of_mem call hc)

theorem Serving.status {g : Guard} {key : String} {d : Instant} (h : g.Serving key d)
    {s : Instant} (hs : s < d) :
    ∃ status, g.status? key s = some status ∧ status.strikes = 0 ∧ status.blocked = true ∧
      status.remaining = some (d.since s) := by
  obtain ⟨c, hc, hu, hzero⟩ := h
  have hr : (c.status s).remaining = some (d.since s) :=
    Client.blockRemaining?_eq_some.2 ⟨d, hu, hs, rfl⟩
  refine ⟨c.status s, ?_, hzero, ?_, hr⟩
  · rw [status?, hc]
    rfl
  · rw [ClientStatus.blocked, hr]
    rfl

def Released (g : Guard) (key : String) (d : Instant) : Prop :=
  ∀ c, g.clients.get? key = some c →
    c.strikes = 0 ∧ ∀ u, c.blockedUntil = some u → u.nanos ≤ d.nanos

theorem Serving.released {g : Guard} {key : String} {d : Instant} (h : g.Serving key d) :
    g.Released key d := by
  obtain ⟨c, hc, hu, hzero⟩ := h
  intro c' hc'
  rw [hc] at hc'
  cases hc'
  refine ⟨hzero, fun u hu' => ?_⟩
  rw [hu] at hu'
  cases hu'
  exact Int.le_refl _

theorem Released.run {g : Guard} {key : String} {d : Instant} (h : g.Released key d)
    (later : List Call) (hlater : ∀ call ∈ later, ∀ t, call ≠ .check key t) :
    (g.run later).guard.Released key d := by
  induction later generalizing g with
  | nil => exact h
  | cons call later ih =>
    have hcall := hlater call List.mem_cons_self
    refine ih ?_ fun c hc => hlater c (List.mem_cons_of_mem call hc)
    intro c hc
    obtain he | ⟨hnone, -⟩ := g.step_other key call fun t ht => absurd ht (hcall t)
    · exact h c (he.symm.trans hc)
    · rw [hnone] at hc
      cases hc

theorem Released.check {g : Guard} {key : String} {d : Instant} (h : g.Released key d)
    (hkey : g.allowlist.contains key = false) {s : Instant} (hs : d ≤ s) :
    (g.check key s).answer = .admitted ∨
      ∃ blocks, (g.check key s).answer = .rateLimited 1 blocks := by
  obtain ⟨v, c', b, hj, hv, -⟩ := g.step_own s hkey
  have hfound : (g.clients.sighted g.limits key s).strikes = 0 ∧
      ∀ u, (g.clients.sighted g.limits key s).blockedUntil = some u → u.nanos ≤ d.nanos := by
    rw [Store.sighted]
    cases hc : g.clients.get? key with
    | none =>
      refine ⟨rfl, fun u hu => ?_⟩
      cases hu
    | some c => exact h c hc
  have hr : (g.clients.sighted g.limits key s).blockRemaining? s = none := by
    rw [Option.eq_none_iff_forall_ne_some]
    intro r hr
    obtain ⟨u, hu, hlt, -⟩ := Client.blockRemaining?_eq_some.1 hr
    have hle := hfound.2 u hu
    have hds : d.nanos ≤ s.nanos := hs
    have hsu : s.nanos < u.nanos := hlt
    omega
  rw [hv]
  exact hj.first_strike hr hfound.1

end Guard

/-- A check of the client at `t` started a block, and the client has been answered nothing but that
it is blocked since then. -/
def BlockedSince (key : String) (h : List Moment) (t : Instant) : Prop :=
  ∃ past g strikes between, h = past ++ ⟨g, .check key t⟩ :: between ∧
    (g.check key t).answer = .rateLimited strikes true ∧
    ∀ v ∈ verdictsOf key between, ∃ r, v.decision = .blocked r

theorem BlockedSince.append {key : String} {h u : List Moment} {t : Instant}
    (hb : BlockedSince key h t) (hu : ∀ v ∈ verdictsOf key u, ∃ r, v.decision = .blocked r) :
    BlockedSince key (h ++ u) t := by
  obtain ⟨past, g, strikes, between, rfl, hd, hall⟩ := hb
  refine ⟨past, g, strikes, between ++ u, by simp, hd, ?_⟩
  intro v hv
  rw [verdictsOf_append, List.mem_append] at hv
  exact hv.elim (hall v) (hu v)

theorem BlockedSince.prepend {key : String} {h : List Moment} {t : Instant}
    (hb : BlockedSince key h t) (u : List Moment) : BlockedSince key (u ++ h) t := by
  obtain ⟨past, g, strikes, between, rfl, hd, hall⟩ := hb
  exact ⟨u ++ past, g, strikes, between, by simp, hd, hall⟩

/-- A stored end of a block is that of a block which the client has served since. -/
def Client.Explained (limits : Limits) (key : String) (h : List Moment) (c : Client) : Prop :=
  ∀ u, c.blockedUntil = some u → ∃ t, BlockedSince key h t ∧ u = t.blockEnd limits.block

theorem Client.fresh_explained (limits : Limits) (key : String) (now : Instant) :
    (Client.fresh limits now).Explained limits key [] := by
  intro u hu
  cases hu

namespace Guard
variable (limits : Limits) (start : Instant) (calls : List Call)

theorem entry_explained {key : String} (c : Client)
    (h : (reached limits start calls).clients.get? key = some c) :
    c.Explained limits key (lifetime key (history limits start calls)) := by
  refine entry_induction limits start (P := Client.Explained limits key) ?_ ?_ calls c h
  · intro life c g now d c' b' hc hj hd u hu
    obtain ⟨⟨r, rfl⟩, hold⟩ | ⟨⟨strikes, rfl⟩, hnew⟩ := hj.blockedUntil_cases hu
    · obtain hc | ⟨-, rfl⟩ := hc
      · obtain ⟨t, hb, ht⟩ := hc u hold
        refine ⟨t, hb.append ?_, ht⟩
        rw [verdictsOf_check, hd]
        simp
      · cases hold
    · exact ⟨now, ⟨life, g, strikes, [], rfl, hd, by simp [verdictsOf, verdicts]⟩, hnew⟩
  · intro life c m hc hm u hu
    obtain ⟨t, hb, ht⟩ := hc u hu
    exact ⟨t, hb.append (by simp [verdictsOf_other hm]), ht⟩

theorem serving_of_blocks {key : String} {t : Instant} {strikes : Nat}
    (h : ((reached limits start calls).check key t).answer = .rateLimited strikes true) :
    (reached limits start (calls ++ [.check key t])).Serving key (t.blockEnd limits.block) := by
  have hkey := not_exempt_of_answer limits start calls h nofun
  obtain ⟨c₀, d, c, b, -, hj, hd, hget, -⟩ := own_check limits start calls t hkey
  rw [h] at hd
  subst hd
  exact ⟨c, hget, hj.of_blocks⟩

/-- A check that starts a block is followed by nothing but refusals before the end of the block, and
the first check after that is judged on no strikes. Conversely every refusal belongs to a block. -/
theorem block_served (key : String) :
    (∀ t strikes,
      ((reached limits start calls).check key t).answer = .rateLimited strikes true →
      ∀ rest : List Call, (∀ call ∈ rest, call.instant < t.blockEnd limits.block) →
        let d := t.blockEnd limits.block
        let g := reached limits start (calls ++ .check key t :: rest)
        (∀ s, s < d →
          (g.check key s).answer = .blocked (d.since s) ∧
            ((d.since s).nanos : Int) = d.nanos - s.nanos ∧
            (∃ status, g.status? key s = some status ∧ status.strikes = 0 ∧
              status.blocked = true ∧ status.remaining = some (d.since s)) ∧
            (g.check key s).guard.shared = g.shared ∧
            ∃ c seen, g.clients.get? key = some c ∧
              (g.check key s).guard.clients.get? key = some { c with lastSeen := seen }) ∧
        ∀ later : List Call, (∀ call ∈ later, ∀ s, call ≠ .check key s) →
          let after := (g.run later).guard
          ∀ s, d ≤ s →
            (∀ c, after.clients.get? key = some c → c.strikes = 0) ∧
              ((after.check key s).answer = .admitted ∨
                ∃ blocks, (after.check key s).answer = .rateLimited 1 blocks)) ∧
    ∀ s r, ((reached limits start calls).check key s).answer = .blocked r →
      ∃ t, BlockedSince key (history limits start calls) t ∧
        s < t.blockEnd limits.block ∧ r = (t.blockEnd limits.block).since s := by
  constructor
  · intro t strikes h rest hrest d g
    have hkey := not_exempt_of_answer limits start calls h nofun
    have hallow : ∀ cs, (reached limits start cs).allowlist.contains key = false :=
      fun cs => (reached_contains limits start cs key).trans hkey
    have hserving : g.Serving key d := by
      have hg : g = ((reached limits start (calls ++ [.check key t])).run rest).guard := by
        rw [reached, ← run_append, List.append_assoc]
        rfl
      rw [hg]
      exact (serving_of_blocks limits start calls h).run (hallow _) rest hrest
    constructor
    · intro s hs
      obtain ⟨hanswer, hshared, hentry⟩ := hserving.check (hallow _) hs
      exact ⟨hanswer, Instant.nanos_since hs, hserving.status hs, hshared, hentry⟩
    · intro later hlater after s hs
      have hreleased : after.Released key d := hserving.released.run later hlater
      have hafter : after = reached limits start (calls ++ .check key t :: rest ++ later) :=
        (run_append _ _ later).symm
      refine ⟨fun c hc => (hreleased c hc).1, hreleased.check ?_ hs⟩
      rw [hafter]
      exact hallow _
  · intro s r h
    have hkey := not_exempt_of_answer limits start calls h nofun
    obtain ⟨c₀, d, c, b, hc, hj, hd, -⟩ := own_check_of limits start calls s hkey
      (Client.fresh_explained limits key s) (entry_explained limits start calls)
    rw [h] at hd
    subst hd
    cases hj with
    | blocked _ hr =>
      obtain ⟨u, hu, hlt, rfl⟩ := Client.blockRemaining?_eq_some.1 hr
      obtain ⟨t, hb, rfl⟩ := hc u hu
      obtain ⟨past, hpast⟩ := lifetime_suffix key (history limits start calls)
      exact ⟨t, hpast ▸ hb.prepend past, hlt, rfl⟩

theorem strict_block_outlives_sweep :
    ((reached .strict .origin [.check "a" .origin]).check "a" .origin).answer =
        .rateLimited 1 true ∧
      ((reached .strict .origin [.check "a" .origin, .check "a" .origin, .sweep .origin]).check "a"
        .origin).answer = .blocked (.ofSeconds 30) := by
  have hserved := (block_served .strict .origin [.check "a" .origin] "a").1 .origin 1
    strict_second_check [.sweep .origin] (by decide +kernel)
  have hspan : (Instant.origin.blockEnd Limits.strict.block).since .origin = .ofSeconds 30 := by
    decide +kernel
  rw [← hspan]
  exact ⟨strict_second_check, (hserved.1 .origin (by decide +kernel)).1⟩

end Guard
end AdmissionGuard

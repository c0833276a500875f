import AdmissionGuard.Proofs.Burst
import AdmissionGuard.Proofs.Forecast

/-! Waiting. A client that comes later to the same guard is not treated worse: buckets only fill, and
what is left of a block shrinks by the time waited. -/
namespace AdmissionGuard

section
variable {perMinute burst : UInt32} {b : TokenBucket} {s t : Instant}

theorem TokenBucket.Fits.attempt_later (h : b.Fits perMinute burst) (hst : s ≤ t)
    (hs : (b.attempt s).1 = true) : (b.attempt t).1 = true := by
  rw [attempt_fst_eq_true] at hs ⊢
  exact hs.trans (h.refill_level_mono hst)

theorem TokenBucket.Fits.available_mono (h : b.Fits perMinute burst) (hst : s ≤ t) :
    b.available s ≤ b.available t := by
  rw [available, available, whole_eq, whole_eq]
  exact Nat.floor_le_floor (h.refill_level_mono hst)

/-- A bucket grants the first attempt. -/
theorem TokenBucket.attempt_full (perMinute burst : UInt32) (now : Instant) :
    ((full perMinute burst now).attempt now).1 = true := by
  rw [attempt_granted_iff, available_full]
  exact Nat.le_max_right ..

end

namespace Client
variable {c c' : Client} {s t : Instant}

theorem blockRemaining?_congr (h : c.blockedUntil = c'.blockedUntil) (now : Instant) :
    c.blockRemaining? now = c'.blockRemaining? now := by
  rw [blockRemaining?, h, blockRemaining?]

/-- Of a block, the time waited is gone, and the rest is left if there is any. -/
theorem blockRemaining?_later {r r' : Span} (hst : s ≤ t) (hr : c.blockRemaining? s = some r) :
    c.blockRemaining? t = some r' ↔ (t.since s).nanos + r'.nanos = r.nanos ∧ 0 < r'.nanos := by
  obtain ⟨u, hu, hsu, rfl⟩ := blockRemaining?_eq_some.1 hr
  have hle : s.nanos ≤ t.nanos := hst
  have hlt : s.nanos < u.nanos := hsu
  have hwait := t.since_eq_max s
  have hold := u.since_eq_max s
  have hnew := u.since_eq_max t
  rw [blockRemaining?_eq_some]
  constructor
  · rintro ⟨v, hv, htv, rfl⟩
    rw [hu, Option.some.injEq] at hv
    subst hv
    have htu : t.nanos < u.nanos := htv
    omega
  · rintro ⟨hsum, hpos⟩
    have htu : t.nanos < u.nanos := by omega
    refine ⟨u, hu, htu, ?_⟩
    ext
    omega

end Client

/-- After that wait the second status is no worse than the first, and it shows what is then left of
the block. -/
structure ClientStatus.Eases (waited : Span) (x y : ClientStatus) : Prop where
  strikes_eq : y.strikes = x.strikes
  available_le : x.available ≤ y.available
  remainingSeconds_le : y.remainingSeconds ≤ x.remainingSeconds
  not_blocked : x.blocked = false → y.blocked = false
  remaining_iff : ∀ r, x.remaining = some r → ∀ r',
    y.remaining = some r' ↔ waited.nanos + r'.nanos = r.nanos ∧ 0 < r'.nanos

theorem Client.status_eases {perMinute burst : UInt32} {c : Client} {s t : Instant}
    (h : c.bucket.Fits perMinute burst) (hst : s ≤ t) :
    (c.status s).Eases (t.since s) (c.status t) where
  strikes_eq := rfl
  available_le := h.available_mono hst
  remainingSeconds_le := by
    show ((c.blockRemaining? t).map Span.seconds).getD 0 ≤
      ((c.blockRemaining? s).map Span.seconds).getD 0
    cases ht : c.blockRemaining? t with
    | none => exact Nat.zero_le _
    | some r' =>
      cases hs : c.blockRemaining? s with
      | none =>
        rw [Client.blockRemaining?_of_le hs hst] at ht
        cases ht
      | some r =>
        have hsum := ((blockRemaining?_later hst hs).1 ht).1
        have hle : r'.nanos ≤ r.nanos := by omega
        exact Nat.div_le_div_right hle
  not_blocked hfree := by
    rw [ClientStatus.blocked_eq_false] at hfree ⊢
    exact Client.blockRemaining?_of_le hfree hst
  remaining_iff _ hr _ := blockRemaining?_later hst hr

section
variable {limits : Limits} {now : Instant} {c c' : Client} {b b' : TokenBucket} {d : Decision}

theorem Judged.allows_iff (h : Judged limits now c b d c' b') :
    d.Allows ↔ c.blockRemaining? now = none ∧ (c.bucket.attempt now).1 = true ∧
      (b.attempt now).1 = true := by
  cases h with
  | blocked r hr =>
    rw [hr]
    exact ⟨False.elim, nofun⟩
  | admitted hr own shared => exact ⟨fun _ => ⟨hr, own, shared⟩, fun _ => trivial⟩
  | limited _ denied | punished _ denied => exact ⟨False.elim, fun hgrants => denied hgrants.2⟩

theorem Judged.blocked_iff (h : Judged limits now c b d c' b') (r : Span) :
    d = .blocked r ↔ c.blockRemaining? now = some r := by
  constructor
  · rintro rfl
    cases h with
    | blocked _ hr => exact hr
  · intro hr
    exact (h.eq_of_blocked hr).1

end

theorem Store.blockedUntil_sighted (clients : Store) (limits : Limits) (key : String)
    (s t : Instant) :
    (clients.sighted limits key s).blockedUntil = (clients.sighted limits key t).blockedUntil := by
  rw [sighted, sighted]
  cases clients.get? key <;> rfl

namespace Guard

section
variable (limits : Limits) (start : Instant) (calls : List Call) (key : String) {s t : Instant}

/-- The bucket that a check finds at `s` or would find at `t`: that of the client's entry, or a full
one. -/
theorem own_attempt_later (hst : s ≤ t) :
    let clients := (reached limits start calls).clients
    ((clients.sighted limits key s).bucket.attempt s).1 = true →
      ((clients.sighted limits key t).bucket.attempt t).1 = true := by
  intro clients hs
  rw [Store.sighted] at hs ⊢
  cases hc : clients.get? key with
  | none =>
    rw [Option.getD_none]
    exact TokenBucket.attempt_full _ _ t
  | some c =>
    rw [hc] at hs
    exact (entry_sound limits start calls hc).fits.attempt_later hst hs

theorem allows_later (hst : s ≤ t) (h : ((reached limits start calls).check key s).answer.Allows) :
    ((reached limits start calls).check key t).answer.Allows := by
  have hfixed := reached_fixed limits start calls
  cases hx : (reached limits start calls).allowlist.contains key with
  | true =>
    rw [check_exempt _ t hx]
    trivial
  | false =>
    obtain ⟨d, c, b, hj, hd, -⟩ := step_own _ s hx
    obtain ⟨d', c', b', hj', hd', -⟩ := step_own _ t hx
    rw [hfixed.1] at hj hj'
    rw [hd, hj.allows_iff] at h
    obtain ⟨hfree, own, shared⟩ := h
    rw [hd', hj'.allows_iff]
    refine ⟨?_, own_attempt_later limits start calls key hst own,
      (shared_fits limits start calls).attempt_later hst shared⟩
    rw [Client.blockRemaining?_congr (Store.blockedUntil_sighted _ limits key t s)]
    exact Client.blockRemaining?_of_le hfree hst

theorem blocked_later (hst : s ≤ t) {r : Span}
    (h : ((reached limits start calls).check key s).answer = .blocked r) (r' : Span) :
    ((reached limits start calls).check key t).answer = .blocked r' ↔
      (t.since s).nanos + r'.nanos = r.nanos ∧ 0 < r'.nanos := by
  have hkey := not_exempt_of_answer limits start calls h nofun
  have hx := (reached_contains limits start calls key).trans hkey
  obtain ⟨d, c, b, hj, hd, -⟩ := step_own _ s hx
  obtain ⟨d', c', b', hj', hd', -⟩ := step_own _ t hx
  rw [hd, hj.blocked_iff] at h
  rw [hd', hj'.blocked_iff, Client.blockRemaining?_congr (Store.blockedUntil_sighted _ _ key t s)]
  exact Client.blockRemaining?_later hst h

end

/-- Waiting never hurts. Whoever would be let through at `s` would be let through at `t` as well, and
the status at `t` is no worse than that at `s`. Who would be turned away as blocked at `s` would be
so at `t` exactly for as long as the block still has after the wait. -/
theorem waiting_never_hurts (limits : Limits) (start : Instant) (calls : List Call) (key : String)
    {s t : Instant} (hst : s ≤ t) :
    let g := reached limits start calls
    ((g.check key s).answer.Allows → (g.check key t).answer.Allows) ∧
    (∀ r, (g.check key s).answer = .blocked r → ∀ r', (g.check key t).answer = .blocked r' ↔
      (t.since s).nanos + r'.nanos = r.nanos ∧ 0 < r'.nanos) ∧
    (g.status? key s = none → g.status? key t = none) ∧
    ∀ x, g.status? key s = some x → ∃ y, g.status? key t = some y ∧ x.Eases (t.since s) y := by
  intro g
  refine ⟨allows_later limits start calls key hst,
    fun r h => blocked_later limits start calls key hst h, fun h => ?_, fun x hx => ?_⟩
  · rw [status?, Option.map_eq_none_iff] at h ⊢
    exact h
  · rw [status?, Option.map_eq_some_iff] at hx
    obtain ⟨c, hc, rfl⟩ := hx
    have hfits := (entry_sound limits start calls hc).fits
    exact ⟨c.status t, congrArg (Option.map (Client.status · t)) hc, Client.status_eases hfits hst⟩

/-- Ten seconds into a block of thirty, and fifteen seconds later. -/
theorem strict_block_after_wait :
    let calls := [Call.check "a" .origin, .check "a" .origin]
    let g := reached .strict .origin calls
    let s : Instant := ⟨10000000000, by decide, by decide⟩
    let t : Instant := ⟨25000000000, by decide, by decide⟩
    s ≤ t ∧ (g.check "a" s).answer = .blocked (.ofSeconds 20) ∧
      (g.check "a" t).answer = .blocked (.ofSeconds 5) ∧ (g.check "b" s).answer = .admitted ∧
      (g.check "b" t).answer.Allows ∧
      ∃ x y, g.status? "a" s = some x ∧ g.status? "a" t = some y ∧ x.remainingSeconds = 20 ∧
        y.remaining = some (.ofSeconds 5) := by
  intro calls g s t
  have hst : s ≤ t := by decide
  have hblocked : (g.check "a" s).answer = .blocked (.ofSeconds 20) := by decide +kernel
  have hadmitted : (g.check "b" s).answer = .admitted := by decide +kernel
  have hallows : (g.check "b" s).answer.Allows := by
    rw [hadmitted]
    trivial
  obtain ⟨-, hblock, -, hstatus⟩ := waiting_never_hurts .strict .origin calls "a" hst
  obtain ⟨hlater, -⟩ := waiting_never_hurts .strict .origin calls "b" hst
  obtain ⟨x, hx⟩ := Option.isSome_iff_exists.1
    (show (g.status? "a" s).isSome = true by decide +kernel)
  have hremaining : x.remaining = some (.ofSeconds 20) := by
    have hshown : (g.status? "a" s).bind (·.remaining) = some (.ofSeconds 20) := by decide +kernel
    rwa [hx, Option.bind_some] at hshown
  obtain ⟨y, hy, heases⟩ := hstatus x hx
  have hwait : (t.since s).nanos + (Span.ofSeconds 5).nanos = (Span.ofSeconds 20).nanos ∧
      0 < (Span.ofSeconds 5).nanos := by decide
  refine ⟨hst, hblocked, (hblock _ hblocked _).2 hwait, hadmitted, hlater hallows, x, y, hx, hy, ?_,
    (heases.remaining_iff _ hremaining _).2 hwait⟩
  rw [ClientStatus.remainingSeconds, hremaining]
  rfl

end Guard
end AdmissionGuard

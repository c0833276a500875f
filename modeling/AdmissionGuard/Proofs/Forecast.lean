import AdmissionGuard.Proofs.RestedClient
import AdmissionGuard.Proofs.Strikes
import AdmissionGuard.Proofs.WholeTokens

/-! Forecasts. What the status of a client shows at an instant determines its check at that instant,
but for the answer of the shared bucket, and the status that the check leaves. -/
namespace AdmissionGuard

def Limits.unseen (limits : Limits) : ClientStatus where
  strikes := 0
  remaining := none
  available := max limits.perClientBurst.toNat 1

theorem Client.fresh_status (limits : Limits) (now : Instant) :
    (Client.fresh limits now).status now = limits.unseen := by
  have havailable : (Client.fresh limits now).bucket.available now =
      max limits.perClientBurst.toNat 1 := TokenBucket.available_full ..
  rw [Client.status, havailable]
  rfl

namespace ClientStatus

/-- A client with status `s` has that decision made of it, and then the other status. -/
def Foretells (s : ClientStatus) (sharedGrant : Bool) : Decision → ClientStatus → Prop
  | .exempt, _ => False
  | .blocked remaining, _ => s.remaining = some remaining
  | .admitted, after =>
    s.remaining = none ∧ (1 ≤ s.available ∧ sharedGrant = true) ∧
      after.strikes = s.strikes - 1 ∧ after.available + 1 = s.available
  | .rateLimited strikes blocks, after =>
    s.remaining = none ∧ ¬(1 ≤ s.available ∧ sharedGrant = true) ∧ strikes = s.strikes + 1 ∧
      after.strikes = (if blocks then 0 else s.strikes + 1) ∧ after.available = s.available - 1

theorem blocked_iff (s : ClientStatus) : s.blocked = true ↔ ∃ r, s.remaining = some r :=
  Option.isSome_iff_exists

theorem blocked_eq_false (s : ClientStatus) : s.blocked = false ↔ s.remaining = none := by
  rw [blocked, Option.isSome_eq_false_iff, Option.isNone_iff_eq_none]

end ClientStatus

/-- A status shows all that a check reads of the client. -/
theorem Judged.foretold {limits : Limits} {now : Instant} {c c' : Client} {b b' : TokenBucket}
    {d : Decision} (h : Judged limits now c b d c' b')
    (hfits : c.bucket.Fits limits.perClientPerMinute limits.perClientBurst)
    (hbounds : c.InBounds limits) :
    (c.status now).Foretells (b.attempt now).1 d (c'.status now) := by
  have hgranted := c.bucket.attempt_granted_iff now
  have hleft := hfits.available_attempt now
  obtain ⟨hmin, -⟩ := next_strike hbounds
  cases h with
  | blocked remaining hr => exact hr
  | admitted hr own shared =>
    have hone : 1 ≤ c.bucket.available now := hgranted.1 own
    refine ⟨hr, ⟨hone, shared⟩, rfl, ?_⟩
    show (c.bucket.attempt now).2.available now + 1 = c.bucket.available now
    omega
  | limited hr denied _ =>
    rw [hgranted] at denied
    exact ⟨hr, denied, hmin, hmin, hleft⟩
  | punished hr denied _ =>
    rw [hgranted] at denied
    exact ⟨hr, denied, hmin, rfl, hleft⟩

namespace Guard
variable (limits : Limits) (start : Instant) (calls : List Call)

/-- A check finds the client in a state with the status that it shows. -/
theorem shown_of_sighted (key : String) (now : Instant) :
    let g := reached limits start calls
    let c := g.clients.sighted limits key now
    (g.status? key now).getD limits.unseen = c.status now ∧
      c.bucket.Fits limits.perClientPerMinute limits.perClientBurst ∧ c.InBounds limits := by
  intro g c
  cases hc : g.clients.get? key with
  | none =>
    have hfound : c = (Client.fresh limits now).seen now := by
      simp only [c, Store.sighted, hc, Option.getD_none]
    rw [hfound, status?, hc]
    have hbounds := Client.fresh_inBounds limits now
    exact ⟨(Client.fresh_status limits now).symm, TokenBucket.full_fits _ _ now,
      hbounds.strikes_lt, hbounds.strikes_eq⟩
  | some c₀ =>
    have hfound : c = c₀.seen now := by
      simp only [c, Store.sighted, hc, Option.getD_some]
    have hbounds := (entry_inLedger limits start calls c₀ hc).2
    rw [hfound, status?, hc]
    exact ⟨rfl, (entry_sound limits start calls hc).fits, hbounds.strikes_lt, hbounds.strikes_eq⟩

theorem check_foretold {key : String} (now : Instant)
    (hkey : (Allowlist.ofEntries limits.allowlist).contains key = false) :
    let g := reached limits start calls
    ∃ after, (g.check key now).guard.status? key now = some after ∧
      ((g.status? key now).getD limits.unseen).Foretells (g.shared.attempt now).1
        (g.check key now).answer after := by
  intro g
  obtain ⟨hshown, hfits, hbounds⟩ := shown_of_sighted limits start calls key now
  obtain ⟨d, c, b, hj, hd, hget, -⟩ :=
    g.step_own now ((reached_contains limits start calls key).trans hkey)
  rw [(reached_fixed limits start calls).1] at hj
  refine ⟨c.status now, congrArg (Option.map (Client.status · now)) hget, ?_⟩
  rw [hshown, hd]
  exact hj.foretold hfits hbounds

/-- The status of a client foretells its check at the same instant: the client is turned away as
blocked for the time shown, it is admitted if a token is shown and the shared bucket grants one too,
and it is denied otherwise. The status afterwards follows from the one before. -/
theorem status_predicts_check {key : String} (now : Instant)
    (hkey : (Allowlist.ofEntries limits.allowlist).contains key = false) :
    let g := reached limits start calls
    let s := (g.status? key now).getD limits.unseen
    let o := g.check key now
    ∃ after, o.guard.status? key now = some after ∧
      ((∃ r, o.answer = .blocked r) ↔ s.blocked = true) ∧
      (∀ r, o.answer = .blocked r → r.seconds = s.remainingSeconds) ∧
      (s.blocked = false →
        (o.answer = .admitted ↔ 1 ≤ s.available ∧ (g.shared.attempt now).1 = true) ∧
        (o.answer = .admitted →
          after.strikes = s.strikes - 1 ∧ after.available + 1 = s.available) ∧
        (o.answer ≠ .admitted → ∃ blocks, o.answer = .rateLimited (s.strikes + 1) blocks ∧
          after.strikes = (if blocks then 0 else s.strikes + 1) ∧
          after.available = s.available - 1)) := by
  intro g s o
  obtain ⟨after, hafter, hforetold⟩ := check_foretold limits start calls now hkey
  refine ⟨after, hafter, ?_⟩
  change s.Foretells _ o.answer after at hforetold
  rw [s.blocked_iff, s.blocked_eq_false]
  cases hd : o.answer with
  | exempt =>
    rw [hd] at hforetold
    exact hforetold.elim
  | blocked remaining =>
    rw [hd] at hforetold
    have hr : s.remaining = some remaining := hforetold
    refine ⟨⟨fun _ => ⟨remaining, hr⟩, fun _ => ⟨remaining, rfl⟩⟩, ?_, ?_⟩
    · rintro r ⟨⟩
      rw [ClientStatus.remainingSeconds, hr]
      rfl
    · intro hnone
      rw [hr] at hnone
      cases hnone
  | admitted =>
    rw [hd] at hforetold
    obtain ⟨hnone, hgrants, hleft⟩ := hforetold
    rw [hnone]
    exact ⟨⟨nofun, nofun⟩, nofun, fun _ =>
      ⟨⟨fun _ => hgrants, fun _ => rfl⟩, fun _ => hleft, fun h => absurd rfl h⟩⟩
  | rateLimited strikes blocks =>
    rw [hd] at hforetold
    obtain ⟨hnone, hdenied, rfl, hleft⟩ := hforetold
    rw [hnone]
    exact ⟨⟨nofun, nofun⟩, nofun, fun _ =>
      ⟨⟨nofun, fun hgrants => absurd hgrants hdenied⟩, nofun, fun _ => ⟨blocks, rfl, hleft⟩⟩⟩

/-- Five other clients have emptied the shared bucket, so one never seen is denied and loses its
token as well. -/
theorem strict_unseen_client_is_denied :
    let g := reached .strict .origin (["b", "c", "d", "e", "f"].map (.check · .origin))
    (Allowlist.ofEntries Limits.strict.allowlist).contains "a" = false ∧
      g.status? "a" .origin = none ∧ (g.shared.attempt .origin).1 = false ∧
      ∃ blocks after, (g.check "a" .origin).answer = .rateLimited 1 blocks ∧
        (g.check "a" .origin).guard.status? "a" .origin = some after ∧ after.available = 0 := by
  intro g
  have hkey : (Allowlist.ofEntries Limits.strict.allowlist).contains "a" = false := by
    decide +kernel
  have hunseen : g.status? "a" .origin = none := by decide +kernel
  have hshared : (g.shared.attempt .origin).1 = false := by decide +kernel
  obtain ⟨after, hafter, -, -, hfree⟩ := status_predicts_check .strict .origin _ .origin hkey
  rw [hunseen, hshared] at hfree
  obtain ⟨hadmitted, -, hdenied⟩ := hfree rfl
  obtain ⟨blocks, hanswer, -, havailable⟩ := hdenied fun h => nomatch (hadmitted.1 h).2
  exact ⟨hkey, hunseen, hshared, blocks, after, hanswer, hafter, havailable⟩

end Guard
end AdmissionGuard

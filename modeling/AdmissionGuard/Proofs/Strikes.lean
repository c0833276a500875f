import AdmissionGuard.Proofs.History

/-! The strike ledger. The strikes stored of a client are those that its decisions add up to since
its entry was created, and they stay below the number that starts a block. -/
namespace AdmissionGuard

def strikesAfter (n : Nat) : Decision → Nat
  | .admitted => n - 1
  | .rateLimited _ false => n + 1
  | .rateLimited _ true => 0
  | .exempt | .blocked _ => n

def strikesOf (vs : List Verdict) : Nat :=
  vs.foldl (fun n v => strikesAfter n v.decision) 0

theorem strikesOf_snoc (vs : List Verdict) (v : Verdict) :
    strikesOf (vs ++ [v]) = strikesAfter (strikesOf vs) v.decision := by
  simp [strikesOf]

def Limits.lastStrike (limits : Limits) : Nat := max limits.strikeThreshold.toNat 1

theorem Limits.lastStrike_le (limits : Limits) : limits.lastStrike ≤ Guard.mostStrikes := by
  have hlt := limits.strikeThreshold.toNat_lt
  simp only [lastStrike, Guard.mostStrikes]
  omega

structure Client.InBounds (limits : Limits) (c : Client) : Prop where
  strikes_lt : c.strikes < limits.lastStrike
  strikes_eq : c.blockedUntil ≠ none → c.strikes = 0

theorem Client.fresh_inBounds (limits : Limits) (now : Instant) :
    (Client.fresh limits now).InBounds limits :=
  ⟨Nat.lt_of_lt_of_le Nat.one_pos (Nat.le_max_right ..), fun _ => rfl⟩

section
variable {limits : Limits} {now : Instant} {c c' : Client} {b b' : TokenBucket} {d : Decision}

/-- Below the last strike the count does not saturate, and only the last strike starts a block. -/
theorem next_strike (hc : c.InBounds limits) :
    min (c.strikes + 1) Guard.mostStrikes = c.strikes + 1 ∧
      (limits.strikeThreshold.toNat ≤ c.strikes + 1 ↔ c.strikes + 1 = limits.lastStrike) := by
  have hlt := hc.strikes_lt
  have hle := limits.lastStrike_le
  refine ⟨by omega, ?_⟩
  simp only [Limits.lastStrike] at hlt ⊢
  omega

theorem Judged.strikes_eq (h : Judged limits now c b d c' b') (hc : c.InBounds limits) :
    c'.strikes = strikesAfter c.strikes d := by
  cases h with
  | blocked | admitted | punished => rfl
  | limited => exact (next_strike hc).1

theorem Judged.inBounds (h : Judged limits now c b d c' b') (hc : c.InBounds limits) :
    c'.InBounds limits := by
  obtain ⟨hmin, hlast⟩ := next_strike hc
  have hlt := hc.strikes_lt
  cases h with
  | blocked => exact hc
  | admitted =>
    refine ⟨?_, fun hu => absurd rfl hu⟩
    dsimp only
    omega
  | limited _ _ below =>
    refine ⟨?_, fun hu => absurd rfl hu⟩
    dsimp only
    omega
  | punished =>
    refine ⟨?_, fun _ => rfl⟩
    dsimp only
    omega

theorem Judged.rateLimited_iff {strikes : Nat} {blocks : Bool}
    (h : Judged limits now c b (.rateLimited strikes blocks) c' b') (hc : c.InBounds limits) :
    strikes = c.strikes + 1 ∧ strikes ≤ limits.lastStrike ∧
      (blocks = true ↔ strikes = limits.lastStrike) := by
  obtain ⟨hmin, hlast⟩ := next_strike hc
  have hlt := hc.strikes_lt
  cases h with
  | limited _ _ below =>
    refine ⟨hmin, by omega, ?_⟩
    simp only [Bool.false_eq_true, false_iff]
    omega
  | punished _ _ reached =>
    refine ⟨hmin, by omega, ?_⟩
    simp only [true_iff]
    omega

end

def Client.InLedger (limits : Limits) (key : String) (h : List Moment) (c : Client) : Prop :=
  c.strikes = strikesOf (verdictsOf key h) ∧ c.InBounds limits

theorem Client.fresh_inLedger (limits : Limits) (key : String) (now : Instant) :
    (Client.fresh limits now).InLedger limits key [] :=
  ⟨rfl, Client.fresh_inBounds limits now⟩

namespace Guard
variable (limits : Limits) (start : Instant) (calls : List Call)

theorem entry_inLedger {key : String} (c : Client)
    (h : (reached limits start calls).clients.get? key = some c) :
    c.InLedger limits key (lifetime key (history limits start calls)) := by
  refine entry_induction limits start (P := Client.InLedger limits key) ?_ ?_ calls c h
  · intro life c g now d c' b' hc hj hd
    have hold : c.InLedger limits key life := by
      obtain hc | ⟨rfl, rfl⟩ := hc
      · exact hc
      · exact Client.fresh_inLedger limits key now
    have hb : (c.seen now).InBounds limits := ⟨hold.2.strikes_lt, hold.2.strikes_eq⟩
    refine ⟨?_, hj.inBounds hb⟩
    rw [verdictsOf_append, verdictsOf_check, strikesOf_snoc, hd, ← hold.1]
    exact hj.strikes_eq hb
  · intro life c m hc hm
    rw [Client.InLedger, verdictsOf_append, verdictsOf_other hm, List.append_nil]
    exact hc

/-- Stored strikes are the sum of the client's decisions, a denial counts one more, and it starts a
block exactly at the last strike. -/
theorem strike_ledger (key : String) :
    (∀ c, (reached limits start calls).clients.get? key = some c →
      c.strikes = strikesOf (verdictsOf key (lifetime key (history limits start calls))) ∧
        c.strikes < limits.lastStrike ∧ c.strikes < mostStrikes ∧
        (c.blockedUntil ≠ none → c.strikes = 0)) ∧
    ∀ now strikes blocks,
      ((reached limits start calls).check key now).answer = .rateLimited strikes blocks →
        strikes = strikesOf (verdictsOf key (lifetime key (history limits start calls))) + 1 ∧
          1 ≤ strikes ∧ strikes ≤ limits.lastStrike ∧
          (blocks = true ↔ strikes = limits.lastStrike) := by
  constructor
  · intro c h
    obtain ⟨hsum, hb⟩ := entry_inLedger limits start calls c h
    have hmost := Nat.lt_of_lt_of_le hb.strikes_lt limits.lastStrike_le
    exact ⟨hsum, hb.strikes_lt, hmost, hb.strikes_eq⟩
  · intro now strikes blocks h
    have hkey := not_exempt_of_answer limits start calls h nofun
    obtain ⟨c₀, d, c, b, ⟨hsum, hb⟩, hj, hd, -⟩ := own_check_of limits start calls now hkey
      (Client.fresh_inLedger limits key now) (entry_inLedger limits start calls)
    rw [h] at hd
    subst hd
    obtain ⟨hone, hle, hlast⟩ := hj.rateLimited_iff ⟨hb.strikes_lt, hb.strikes_eq⟩
    have hs : strikes = c₀.strikes + 1 := hone
    exact ⟨by omega, by omega, hle, hlast⟩

theorem strict_denial_is_last_strike :
    let life := lifetime "a" (history .strict .origin [.check "a" .origin])
    ((reached .strict .origin [.check "a" .origin]).check "a" .origin).answer =
        .rateLimited 1 true ∧
      1 = strikesOf (verdictsOf "a" life) + 1 ∧ 1 = Limits.strict.lastStrike := by
  have hledger := (strike_ledger .strict .origin [.check "a" .origin] "a").2 .origin 1 true
    strict_second_check
  exact ⟨strict_second_check, hledger.1, hledger.2.2.2.1 rfl⟩

end Guard
end AdmissionGuard

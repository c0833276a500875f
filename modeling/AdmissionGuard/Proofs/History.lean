import AdmissionGuard.Proofs.Check
import Mathlib.Data.List.DropRight

/-! The history of a run, and induction over what a run does to one client's entry. -/
namespace AdmissionGuard

structure Moment where
  before : Guard
  call : Guard.Call

structure Verdict where
  key : String
  instant : Instant
  decision : Decision

namespace Moment

def reply (m : Moment) : Guard.Reply := (m.before.step m.call).answer
def after (m : Moment) : Guard := (m.before.step m.call).guard

def verdict? (m : Moment) : Option Verdict :=
  match m.call with
  | .check key now => some ⟨key, now, (m.before.check key now).answer⟩
  | .sweep _ | .status .. => none

end Moment

namespace Guard

def tracks (g : Guard) (key : String) : Bool := (g.clients.get? key).isSome

def trace (g : Guard) : List Call → List Moment
  | [] => []
  | c :: cs => ⟨g, c⟩ :: (g.step c).guard.trace cs

theorem run_append (g : Guard) (u v : List Call) :
    (g.run (u ++ v)).guard = ((g.run u).guard.run v).guard := by
  induction u generalizing g with
  | nil => rfl
  | cons c cs ih => exact ih (g.step c).guard

theorem trace_append (g : Guard) (u v : List Call) :
    g.trace (u ++ v) = g.trace u ++ (g.run u).guard.trace v := by
  induction u generalizing g with
  | nil => rfl
  | cons c cs ih => exact congrArg (_ :: ·) (ih (g.step c).guard)

def reached (limits : Limits) (start : Instant) (calls : List Call) : Guard :=
  ((create limits start).run calls).guard

def history (limits : Limits) (start : Instant) (calls : List Call) : List Moment :=
  (create limits start).trace calls

end Guard

def Limits.strict : Limits where
  enabled := true
  perClientPerMinute := 60
  perClientBurst := 1
  globalPerMinute := 600
  globalBurst := 5
  strikeThreshold := 1
  blockSeconds := 30
  allowlist := ["10.0.0.0/8"]

/-- The moments since the client's entry was last created, that one included. There are none if
the client is not tracked at the end. -/
def lifetime (key : String) (h : List Moment) : List Moment :=
  h.rtakeWhile fun m => m.after.tracks key

theorem lifetime_suffix (key : String) (h : List Moment) : lifetime key h <:+ h :=
  List.rtakeWhile_suffix _ h

def Moment.evicts (m : Moment) (key : String) : Bool := m.before.tracks key && !m.after.tracks key

def sinceEviction (key : String) (h : List Moment) : List Moment :=
  h.rtakeWhile fun m => !m.evicts key

def verdicts (h : List Moment) : List Verdict := h.filterMap Moment.verdict?

def verdictsOf (key : String) (h : List Moment) : List Verdict :=
  (verdicts h).filter fun v => v.key = key

theorem verdicts_append (u v : List Moment) : verdicts (u ++ v) = verdicts u ++ verdicts v :=
  List.filterMap_append

theorem verdictsOf_append (key : String) (u v : List Moment) :
    verdictsOf key (u ++ v) = verdictsOf key u ++ verdictsOf key v := by
  rw [verdictsOf, verdicts_append, List.filter_append]
  rfl

theorem verdictsOf_check (key : String) (g : Guard) (now : Instant) :
    verdictsOf key [⟨g, .check key now⟩] = [⟨key, now, (g.check key now).answer⟩] := by
  simp [verdictsOf, verdicts, Moment.verdict?]

theorem verdictsOf_other {key : String} {m : Moment} (h : ∀ now, m.call ≠ .check key now) :
    verdictsOf key [m] = [] := by
  obtain ⟨g, call⟩ := m
  cases call with
  | check k now =>
    have hne : k ≠ key := by
      rintro rfl
      exact h now rfl
    simp [verdictsOf, verdicts, Moment.verdict?, hne]
  | sweep now => rfl
  | status k now => rfl

namespace Guard
variable (limits : Limits) (start : Instant)

theorem reached_snoc (calls : List Call) (call : Call) :
    reached limits start (calls ++ [call]) = ((reached limits start calls).step call).guard :=
  run_append _ calls [call]

theorem history_snoc (calls : List Call) (call : Call) :
    history limits start (calls ++ [call]) =
      history limits start calls ++ [⟨reached limits start calls, call⟩] :=
  trace_append _ calls [call]

theorem reached_fixed (calls : List Call) :
    (reached limits start calls).limits = limits ∧
      (reached limits start calls).allowlist = .ofEntries limits.allowlist := by
  induction calls using List.reverseRecOn with
  | nil => exact ⟨rfl, rfl⟩
  | append_singleton calls call ih =>
    have hs := (reached limits start calls).step_fixed call
    rw [reached_snoc]
    exact ⟨hs.1.trans ih.1, hs.2.trans ih.2⟩

theorem reached_contains (calls : List Call) (key : String) :
    (reached limits start calls).allowlist.contains key =
      (Allowlist.ofEntries limits.allowlist).contains key := by
  rw [(reached_fixed limits start calls).2]

theorem lifetime_of_tracks_false (calls : List Call) (key : String)
    (h : (reached limits start calls).tracks key = false) :
    lifetime key (history limits start calls) = [] := by
  cases calls using List.reverseRecOn with
  | nil => rfl
  | append_singleton calls call =>
    rw [reached_snoc] at h
    rw [history_snoc, lifetime, List.rtakeWhile_concat_neg]
    simp [Moment.after, h]

theorem lifetime_snoc (calls : List Call) (call : Call) (key : String)
    (h : (reached limits start (calls ++ [call])).tracks key = true) :
    lifetime key (history limits start (calls ++ [call])) =
      lifetime key (history limits start calls) ++ [⟨reached limits start calls, call⟩] := by
  rw [reached_snoc] at h
  rw [history_snoc, lifetime, List.rtakeWhile_concat_pos]
  · rfl
  · exact h

/-- Only clients that are not exempt have an entry. -/
theorem not_exempt_of_tracked (calls : List Call) {key : String} {c : Client}
    (h : (reached limits start calls).clients.get? key = some c) :
    (Allowlist.ofEntries limits.allowlist).contains key = false := by
  induction calls using List.reverseRecOn generalizing c with
  | nil => cases h
  | append_singleton calls call ih =>
    cases hk : (Allowlist.ofEntries limits.allowlist).contains key with
    | false => rfl
    | true =>
      have hx := (reached_contains limits start calls key).trans hk
      rw [reached_snoc] at h
      obtain he | ⟨he, -⟩ := (reached limits start calls).step_other key call fun _ _ => hx
      · rw [ih (he.symm.trans h)] at hk
        cases hk
      · rw [he] at h
        cases h

/-- A check of a client that is not exempt finds its entry, or a fresh one if it has none. -/
theorem own_check (calls : List Call) {key : String} (now : Instant)
    (hkey : (Allowlist.ofEntries limits.allowlist).contains key = false) :
    ∃ c₀ d c b,
      ((reached limits start calls).clients.get? key = some c₀ ∨
        lifetime key (history limits start calls) = [] ∧ c₀ = .fresh limits now) ∧
      Judged limits now (c₀.seen now) (reached limits start calls).shared d c b ∧
      ((reached limits start calls).check key now).answer = d ∧
      (reached limits start (calls ++ [.check key now])).clients.get? key = some c ∧
      (reached limits start (calls ++ [.check key now])).shared = b := by
  have hx := (reached_contains limits start calls key).trans hkey
  obtain ⟨d, c, b, hj, hd, hget, hb⟩ := step_own _ now hx
  rw [(reached_fixed limits start calls).1, Store.sighted] at hj
  rw [reached_snoc]
  cases hc : (reached limits start calls).clients.get? key with
  | none =>
    have hlife := lifetime_of_tracks_false limits start calls key (by simp [tracks, hc])
    rw [hc] at hj
    exact ⟨_, d, c, b, .inr ⟨hlife, rfl⟩, hj, hd, hget, hb⟩
  | some c₀ =>
    rw [hc] at hj
    exact ⟨c₀, d, c, b, .inl rfl, hj, hd, hget, hb⟩

/-- A check finds the client with all that holds of fresh clients and of entries. -/
theorem own_check_of (calls : List Call) {key : String} (now : Instant)
    (hkey : (Allowlist.ofEntries limits.allowlist).contains key = false)
    {P : List Moment → Client → Prop} (fresh : P [] (.fresh limits now))
    (entry : ∀ c, (reached limits start calls).clients.get? key = some c →
      P (lifetime key (history limits start calls)) c) :
    ∃ c₀ d c b, P (lifetime key (history limits start calls)) c₀ ∧
      Judged limits now (c₀.seen now) (reached limits start calls).shared d c b ∧
      ((reached limits start calls).check key now).answer = d ∧
      (reached limits start (calls ++ [.check key now])).clients.get? key = some c ∧
      (reached limits start (calls ++ [.check key now])).shared = b := by
  obtain ⟨c₀, d, c, b, hc, hrest⟩ := own_check limits start calls now hkey
  refine ⟨c₀, d, c, b, ?_, hrest⟩
  obtain hc | ⟨hlife, rfl⟩ := hc
  · exact entry c₀ hc
  · rw [hlife]
    exact fresh

/-- What holds of an entry after the check that created it, and is kept by every further check of
the client and by every other moment, holds of every entry and its lifetime. -/
theorem entry_induction {key : String} {P : List Moment → Client → Prop}
    (own : ∀ life c g now d c' b', (P life c ∨ life = [] ∧ c = .fresh limits now) →
      Judged limits now (c.seen now) g.shared d c' b' → (g.check key now).answer = d →
      P (life ++ [⟨g, .check key now⟩]) c')
    (other : ∀ life c m, P life c → (∀ now, m.call ≠ .check key now) → P (life ++ [m]) c)
    (calls : List Call) (c : Client)
    (h : (reached limits start calls).clients.get? key = some c) :
    P (lifetime key (history limits start calls)) c := by
  induction calls using List.reverseRecOn generalizing c with
  | nil => cases h
  | append_singleton calls call ih =>
    have htracks : (reached limits start (calls ++ [call])).tracks key = true := by
      simp [tracks, h]
    rw [lifetime_snoc limits start calls call key htracks]
    by_cases hcall : ∃ now, call = .check key now
    · obtain ⟨now, rfl⟩ := hcall
      have hkey := not_exempt_of_tracked limits start _ h
      obtain ⟨c₀, d, c', b, hc, hj, hd, hget, -⟩ := own_check limits start calls now hkey
      rw [h] at hget
      cases hget
      exact own _ c₀ _ now d c b (hc.imp_left (ih c₀)) hj hd
    · have hne : ∀ now, call ≠ .check key now := fun now he => hcall ⟨now, he⟩
      rw [reached_snoc] at h
      obtain he | ⟨he, -⟩ := step_other _ key call fun now heq => absurd heq (hne now)
      · exact other _ c _ (ih c (he.symm.trans h)) hne
      · rw [he] at h
        cases h

/-- Between its eviction and the check that creates its next entry a client gets no verdict. -/
theorem verdictsOf_sinceEviction (calls : List Call) {key : String}
    (hkey : (Allowlist.ofEntries limits.allowlist).contains key = false) :
    verdictsOf key (sinceEviction key (history limits start calls)) =
      verdictsOf key (lifetime key (history limits start calls)) := by
  induction calls using List.reverseRecOn with
  | nil => rfl
  | append_singleton calls call ih =>
    have hafter : ((reached limits start calls).step call).guard =
        reached limits start (calls ++ [call]) := (reached_snoc limits start calls call).symm
    cases ht : (reached limits start (calls ++ [call])).tracks key with
    | true =>
      rw [lifetime_snoc limits start calls call key ht, verdictsOf_append, ← ih, history_snoc,
        sinceEviction, List.rtakeWhile_concat_pos, verdictsOf_append]
      · rfl
      · simp [Moment.evicts, Moment.after, hafter, ht]
    | false =>
      rw [lifetime_of_tracks_false limits start _ key ht, history_snoc]
      cases hb : (reached limits start calls).tracks key with
      | true =>
        rw [sinceEviction, List.rtakeWhile_concat_neg]
        simp [Moment.evicts, Moment.after, hafter, ht, hb]
      | false =>
        have hne : ∀ now, call ≠ .check key now := by
          rintro now rfl
          obtain ⟨-, -, c, -, -, -, -, hget, -⟩ := own_check limits start calls now hkey
          simp [tracks, hget] at ht
        rw [lifetime_of_tracks_false limits start _ key hb] at ih
        rw [sinceEviction, List.rtakeWhile_concat_pos, verdictsOf_append, verdictsOf_other hne,
          List.append_nil]
        · exact ih
        · simp [Moment.evicts, hb]

theorem not_exempt_of_answer (calls : List Call) {key : String} {now : Instant} {d : Decision}
    (h : ((reached limits start calls).check key now).answer = d) (hd : d ≠ .exempt) :
    (Allowlist.ofEntries limits.allowlist).contains key = false := by
  cases hk : (Allowlist.ofEntries limits.allowlist).contains key with
  | false => rfl
  | true =>
    have hx := (reached_contains limits start calls key).trans hk
    rw [check_exempt _ now hx] at h
    exact absurd h.symm hd

theorem strict_second_check :
    ((reached .strict .origin [.check "a" .origin]).check "a" .origin).answer =
      .rateLimited 1 true := by
  decide +kernel

end Guard
end AdmissionGuard

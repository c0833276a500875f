import AdmissionGuard.Proofs.Blocks
import AdmissionGuard.Proofs.Statistics

/-! Memory. No block outlasts the time for which its client is remembered, so a sweep leaves exactly
the clients checked recently, and the number of tracked clients stays bounded between sweeps. -/
namespace AdmissionGuard

theorem Limits.block_le_staleAfter (limits : Limits) :
    limits.block.nanos ≤ limits.staleAfter.nanos := by
  have hlongest : limits.block.nanos ≤ Span.longest.nanos :=
    Nat.le_sub_one_of_lt limits.block.nanos_lt
  exact Nat.le_min.2 ⟨by omega, hlongest⟩

def Client.BlockNear (limits : Limits) (c : Client) : Prop :=
  ∀ u, c.blockedUntil = some u → u.nanos ≤ c.lastSeen.nanos + limits.block.nanos

/-- A client idle for longer than the limits say serves no block. -/
theorem Client.BlockNear.not_blocked {limits : Limits} {c : Client} (h : c.BlockNear limits)
    {now : Instant} (hold : c.lastSeen.nanos < now.nanos - limits.staleAfter.nanos) :
    c.blockRemaining? now = none := by
  rw [Option.eq_none_iff_forall_ne_some]
  intro r hr
  obtain ⟨u, hu, hlt, -⟩ := Client.blockRemaining?_eq_some.1 hr
  have hnow : now.nanos < u.nanos := hlt
  have hnear := h u hu
  have hstale := limits.block_le_staleAfter
  omega

def Guard.Ordered (calls : List Guard.Call) : Prop :=
  calls.Pairwise fun c d => c.instant ≤ d.instant

instance (calls : List Guard.Call) : Decidable (Guard.Ordered calls) :=
  inferInstanceAs (Decidable (calls.Pairwise _))

def lastCheck? (key : String) (h : List Moment) : Option Instant :=
  (verdictsOf key h).getLast?.map (·.instant)

def Recent (limits : Limits) (h : List Moment) (now : Instant) (key : String) : Prop :=
  (Allowlist.ofEntries limits.allowlist).contains key = false ∧
    ∃ t ∈ lastCheck? key h, now.nanos - limits.staleAfter.nanos ≤ t.nanos

instance (limits : Limits) (h : List Moment) (now : Instant) (key : String) :
    Decidable (Recent limits h now key) :=
  inferInstanceAs (Decidable (_ ∧ _))

def recentClients (limits : Limits) (h : List Moment) : Finset String :=
  match h.getLast? with
  | none => ∅
  | some m => ((verdicts h).map (·.key)).toFinset.filter (Recent limits h m.call.instant)

def Moment.periodic (m : Moment) : Bool := !m.call.isSweep && m.before.sweepsIn m.call

def throughPeriodic (h : List Moment) : List Moment := h.rdropWhile fun m => !m.periodic

theorem lastCheck?_snoc_check (h : List Moment) (g : Guard) (key : String) (now : Instant) :
    lastCheck? key (h ++ [⟨g, .check key now⟩]) = some now := by
  simp [lastCheck?, verdictsOf_append, verdictsOf_check]

theorem lastCheck?_snoc_other (h : List Moment) {key : String} {m : Moment}
    (hm : ∀ now, m.call ≠ .check key now) : lastCheck? key (h ++ [m]) = lastCheck? key h := by
  rw [lastCheck?, verdictsOf_append, verdictsOf_other hm, List.append_nil]
  rfl

theorem mem_keys_of_lastCheck? {key : String} {h : List Moment} {t : Instant}
    (ht : t ∈ lastCheck? key h) : key ∈ (verdicts h).map (·.key) := by
  obtain ⟨v, hv, -⟩ := Option.map_eq_some_iff.1 ht
  have hmem : v ∈ verdictsOf key h := List.mem_of_getLast? hv
  rw [verdictsOf, List.mem_filter] at hmem
  exact List.mem_map.2 ⟨v, hmem.1, of_decide_eq_true hmem.2⟩

theorem mem_recentClients {limits : Limits} {h : List Moment} {m : Moment} {key : String} :
    key ∈ recentClients limits (h ++ [m]) ↔ Recent limits (h ++ [m]) m.call.instant key := by
  rw [recentClients, List.getLast?_concat]
  simp only [Finset.mem_filter, List.mem_toFinset, and_iff_right_iff_imp]
  rintro ⟨-, t, ht, -⟩
  exact mem_keys_of_lastCheck? ht

/-- An exempt check makes no entry. -/
theorem Moment.judgedBy_of_creates {m : Moment} (h : m.creates = true) :
    m.call.judgedBy m.before.allowlist = true := by
  obtain ⟨g, call⟩ := m
  cases call with
  | check key now =>
    cases hkey : g.allowlist.contains key with
    | false => simp [Guard.Call.judgedBy, hkey]
    | true =>
      have hsame : (g.step (.check key now)).guard.tracks key = g.tracks key := by
        simp only [Guard.step, g.check_exempt now hkey]
        rfl
      cases ht : g.tracks key <;> simp [creates, after, hsame, ht] at h
  | sweep | status => cases h

namespace Guard

theorem Ordered.of_snoc {calls : List Call} {call : Call} (h : Ordered (calls ++ [call])) :
    Ordered calls ∧ ∀ c ∈ calls, c.instant ≤ call.instant := by
  rw [Ordered, List.pairwise_append] at h
  exact ⟨h.1, fun c hc => h.2.2 c hc call (List.mem_singleton_self call)⟩

/-- What a sweep leaves is too fresh for it. -/
theorem not_forgettable_of_sweepsIn {g : Guard} {call : Call} (h : g.sweepsIn call) {key : String}
    {c : Client} (hc : (g.step call).guard.clients.get? key = some c) :
    ¬c.Forgettable call.instant g.limits.staleAfter := by
  have hswept : ∀ x : Guard, x.limits = g.limits →
      (x.sweep call.instant).guard.clients.get? key = some c →
      ¬c.Forgettable call.instant g.limits.staleAfter := by
    intro x hx hget
    rw [sweep_get?, hx, Option.filter_eq_some_iff] at hget
    exact of_decide_eq_true hget.2
  cases call with
  | check k now =>
    obtain ⟨hkey, hdue⟩ := h
    obtain ⟨d, c', b, -, -, hg⟩ := g.check_judged now hkey
    simp only [step, hg, if_pos hdue] at hc
    exact hswept (g.settled k d c' b) rfl hc
  | sweep now => exact hswept g rfl hc
  | status k now => exact absurd h id

variable (limits : Limits) (start : Instant)

theorem entry_blockNear (calls : List Call) {key : String} (c : Client)
    (h : (reached limits start calls).clients.get? key = some c) : c.BlockNear limits := by
  refine entry_induction limits start (P := fun _ c => c.BlockNear limits) ?_ ?_ calls c h
  · intro life c g now d c' b' hc hj hd u hu
    rw [hj.lastSeen_eq]
    obtain ⟨-, hold⟩ | ⟨-, rfl⟩ := hj.blockedUntil_cases hu
    · obtain hc | ⟨-, rfl⟩ := hc
      · exact (hc u hold).trans (Int.add_le_add_right (Instant.le_latest_left c.lastSeen now) _)
      · cases hold
    · exact (now.blockEnd_le limits.block).trans
        (Int.add_le_add_right (Instant.le_latest_right c.lastSeen now) _)
  · intro life c m hc hm
    exact hc

theorem mem_of_lastCheck? {calls : List Call} {key : String} {t : Instant}
    (h : lastCheck? key (history limits start calls) = some t) :
    ∃ call ∈ calls, call.instant = t := by
  induction calls using List.reverseRecOn with
  | nil => cases h
  | append_singleton calls call ih =>
    rw [history_snoc] at h
    by_cases hown : ∃ now, call = .check key now
    · obtain ⟨now, rfl⟩ := hown
      rw [lastCheck?_snoc_check] at h
      cases h
      exact ⟨.check key t, by simp, rfl⟩
    · rw [lastCheck?_snoc_other _ fun now he => hown ⟨now, he⟩] at h
      obtain ⟨c, hc, ht⟩ := ih h
      exact ⟨c, List.mem_append_left _ hc, ht⟩

/-- The entry of a client was last seen at its latest check. A client without entry was last checked
too long ago for every sweep that is still to come. -/
def UpToDate (calls : List Call) (last : Option Instant) : Option Client → Prop
  | some c => last = some c.lastSeen
  | none => ∀ t, last = some t → ∀ now : Instant, (∀ call ∈ calls, call.instant ≤ now) →
      t.nanos < now.nanos - limits.staleAfter.nanos

theorem upToDate_of_ordered {calls : List Call} (h : Ordered calls) {key : String}
    (hkey : (Allowlist.ofEntries limits.allowlist).contains key = false) :
    UpToDate limits calls (lastCheck? key (history limits start calls))
      ((reached limits start calls).clients.get? key) := by
  induction calls using List.reverseRecOn with
  | nil => exact fun t ht => nomatch ht
  | append_singleton calls call ih =>
    obtain ⟨hcalls, hlast⟩ := h.of_snoc
    have hold := ih hcalls
    rw [history_snoc]
    by_cases hown : ∃ now, call = .check key now
    · obtain ⟨now, rfl⟩ := hown
      obtain ⟨c₀, d, c, b, hc, hj, -, hget, -⟩ := own_check limits start calls now hkey
      have hle : c₀.lastSeen ≤ now := by
        obtain hc | ⟨-, rfl⟩ := hc
        · rw [hc] at hold
          obtain ⟨call, hmem, heq⟩ := mem_of_lastCheck? limits start hold
          exact heq ▸ hlast call hmem
        · exact Int.le_refl now.nanos
      have hseen : c.lastSeen = now := by
        rw [hj.lastSeen_eq]
        exact Instant.latest_eq_right hle
      rw [hget, lastCheck?_snoc_check]
      exact congrArg some hseen.symm
    · have hne : ∀ now, call ≠ .check key now := fun now he => hown ⟨now, he⟩
      rw [lastCheck?_snoc_other _ hne, reached_snoc]
      obtain he | ⟨hnone, -, c, hc, hforget⟩ :=
        step_other _ key call fun now heq => absurd heq (hne now)
      · rw [he]
        cases hc : (reached limits start calls).clients.get? key with
        | some c =>
          rw [hc] at hold
          exact hold
        | none =>
          rw [hc] at hold
          exact fun t ht now hnow => hold t ht now fun c hc => hnow c (List.mem_append_left _ hc)
      · -- Forgotten just now: idle at this instant already, so idle at every later one.
        rw [hc] at hold
        rw [hnone]
        intro t ht now hnow
        have hcall : call.instant.nanos ≤ now.nanos := hnow call (by simp)
        have hidle := hforget.1
        rw [(reached_fixed limits start calls).1] at hidle
        cases hold.symm.trans ht
        omega

/-- Right after a sweep exactly the recent clients are tracked. -/
theorem tracks_iff_recent {calls : List Call} {call : Call} (h : Ordered (calls ++ [call]))
    (hsweeps : (reached limits start calls).sweepsIn call) (key : String) :
    (reached limits start (calls ++ [call])).tracks key = true ↔
      Recent limits (history limits start (calls ++ [call])) call.instant key := by
  constructor
  · intro ht
    obtain ⟨c, hc⟩ := Option.isSome_iff_exists.1 ht
    have hkey := not_exempt_of_tracked limits start _ hc
    have hlast := upToDate_of_ordered limits start h hkey
    have hnear := entry_blockNear limits start _ c hc
    rw [hc] at hlast
    rw [reached_snoc] at hc
    have hkept := not_forgettable_of_sweepsIn hsweeps hc
    rw [(reached_fixed limits start calls).1] at hkept
    refine ⟨hkey, c.lastSeen, hlast, ?_⟩
    by_contra hold
    rw [Int.not_le] at hold
    exact hkept ⟨hold, hnear.not_blocked hold⟩
  · rintro ⟨hkey, t, ht, hrecent⟩
    by_contra hno
    have hnone : (reached limits start (calls ++ [call])).clients.get? key = none := by
      simpa [tracks] using hno
    have hlast := upToDate_of_ordered limits start h hkey
    rw [hnone] at hlast
    have hold := hlast t ht call.instant fun c hc => by
      rw [List.mem_append, List.mem_singleton] at hc
      obtain hc | rfl := hc
      · exact h.of_snoc.2 c hc
      · exact Int.le_refl _
    omega

/-- Between two periodic sweeps every new entry comes from a check that counts towards the next. -/
theorem tracked_le {calls : List Call} (h : Ordered calls) :
    (reached limits start calls).tracked ≤
      (recentClients limits (throughPeriodic (history limits start calls))).card +
        judgedChecks limits calls % 1024 := by
  induction calls using List.reverseRecOn with
  | nil => exact Nat.zero_le _
  | append_singleton calls call ih =>
    have hin := sweepsIn_iff limits start calls call
    rw [history_snoc, throughPeriodic]
    by_cases hp : Moment.periodic ⟨reached limits start calls, call⟩ = true
    · -- A periodic sweep leaves the recent clients, and the bound starts again from their number.
      have hsweeps : (reached limits start calls).sweepsIn call := by
        simp only [Moment.periodic, Bool.and_eq_true, decide_eq_true_eq] at hp
        exact hp.2
      have hkeys : (reached limits start (calls ++ [call])).keys =
          recentClients limits (history limits start (calls ++ [call])) := by
        ext key
        rw [mem_keys, tracks_iff_recent limits start h hsweeps, history_snoc, mem_recentClients]
      rw [List.rdropWhile_concat_neg _ _ _ (by simp [hp]), ← history_snoc, ← hkeys, card_keys]
      exact Nat.le_add_right _ _
    · -- Any other call makes an entry only if it counts towards the next periodic sweep.
      have hone := Moment.tracked_add_forgotten ⟨reached limits start calls, call⟩
      have hnext : judgedChecks limits (calls ++ [call]) = judgedChecks limits calls +
          (call.judgedBy (.ofEntries limits.allowlist)).toNat := countP_snoc _ calls call
      have hbound := ih h.of_snoc.1
      rw [List.rdropWhile_concat_pos _ _ _ (by simp [hp]), reached_snoc, hnext]
      simp only [Moment.after, throughPeriodic] at hone hbound
      cases hj : call.judgedBy (.ofEntries limits.allowlist) with
      | false =>
        have hcreates : Moment.creates ⟨reached limits start calls, call⟩ = false := by
          rw [Bool.eq_false_iff]
          intro hc
          have hjudged := Moment.judgedBy_of_creates hc
          rw [(reached_fixed limits start calls).2, hj] at hjudged
          cases hjudged
        simp only [hcreates, Bool.toNat_false] at hone ⊢
        omega
      | true =>
        have hno : call.isSweep = false := by cases call <;> trivial
        have hdue : ¬1024 ∣ judgedChecks limits calls + 1 := by
          intro hdue
          simp [Moment.periodic, hno, hin, hj, hdue] at hp
        have hcreates := Bool.toNat_le (Moment.creates ⟨reached limits start calls, call⟩)
        simp only [Bool.toNat_true]
        omega

/-- No client that a sweep could find stale is blocked, whatever the order of the calls. In an
ordered run every sweep leaves exactly the recent clients, and at any point fewer than 1024 clients
are tracked beyond those that the latest periodic sweep left. -/
theorem memory_bounded (calls : List Call) :
    (∀ key c, (reached limits start calls).clients.get? key = some c →
      (∀ u, c.blockedUntil = some u → u.nanos ≤ c.lastSeen.nanos + limits.block.nanos) ∧
        ∀ now : Instant, c.lastSeen.nanos < now.nanos - limits.staleAfter.nanos →
          c.blockRemaining? now = none) ∧
    (Ordered calls →
      (∀ past call rest, calls = past ++ call :: rest → (reached limits start past).sweepsIn call →
        ∀ key, (reached limits start (past ++ [call])).tracks key = true ↔
          Recent limits (history limits start (past ++ [call])) call.instant key) ∧
      (reached limits start calls).tracked ≤
        (recentClients limits (throughPeriodic (history limits start calls))).card + 1023) := by
  refine ⟨fun key c hc => ?_, fun h => ⟨?_, ?_⟩⟩
  · have hnear := entry_blockNear limits start calls c hc
    exact ⟨hnear, fun now hold => hnear.not_blocked hold⟩
  · rintro past call rest rfl hsweeps key
    have hpast : Ordered (past ++ [call]) := by
      rw [List.append_cons] at h
      exact (List.pairwise_append.1 h).1
    exact tracks_iff_recent limits start hpast hsweeps key
  · have hbound := tracked_le limits start h
    have hlt := Nat.mod_lt (judgedChecks limits calls) (show 0 < 1024 by decide)
    omega

/-- The sweep comes one nanosecond more than three blocks after the first of the two checks. -/
theorem strict_sweep_spares_client_at_cutoff :
    let last : Instant := ⟨90000000001, by decide, by decide⟩
    let past := [Call.check "a" .origin, .check "b" ⟨1, by decide, by decide⟩]
    let g := reached .strict .origin (past ++ [.sweep last])
    Ordered (past ++ [.sweep last]) ∧ (reached .strict .origin past).sweepsIn (.sweep last) ∧
      g.tracks "a" = false ∧ g.tracks "b" = true := by
  intro last past g
  have hordered : Ordered (past ++ [.sweep last]) := by decide +kernel
  have htracks := ((memory_bounded .strict .origin (past ++ [.sweep last])).2 hordered).1
    past (.sweep last) [] rfl trivial
  refine ⟨hordered, trivial, ?_, (htracks "b").2 ?_⟩
  · rw [Bool.eq_false_iff, ne_eq, htracks "a"]
    decide +kernel
  · decide +kernel

end Guard
end AdmissionGuard

import AdmissionGuard.Guard
import AdmissionGuard.Proofs.Store
import Mathlib.Data.List.Nodup

/-! Sweeps. A sweep takes away exactly the entries of idle clients, in whatever order it erases
them, and makes up for every earlier one that reached less far. -/
namespace AdmissionGuard

namespace Client
variable {c : Client} {now now₁ now₂ : Instant} {stale stale₁ stale₂ : Span}

theorem blockRemaining?_eq_none :
    c.blockRemaining? now = none ↔ ∀ u, c.blockedUntil = some u → u ≤ now := by
  simp only [blockRemaining?, Option.map_eq_none_iff, Option.filter_eq_none_iff,
    decide_eq_true_eq, Instant.not_lt]

/-- Idle clients stay idle. -/
theorem Forgettable.later (h : c.Forgettable now₁ stale₁) (hnow : now₁ ≤ now₂)
    (hcutoff : now₁.nanos - stale₁.nanos ≤ now₂.nanos - stale₂.nanos) :
    c.Forgettable now₂ stale₂ := by
  obtain ⟨hseen, hblock⟩ := h
  refine ⟨Int.lt_of_lt_of_le hseen hcutoff, blockRemaining?_eq_none.2 fun u hu => ?_⟩
  exact Int.le_trans (blockRemaining?_eq_none.1 hblock u hu) hnow

end Client

namespace Store
variable (s : Store)

theorem ext_entries {s s' : Store} (h : s.entries = s'.entries) : s = s' := by
  cases s
  cases s'
  cases h
  rfl

theorem entries_sweep (now : Instant) (stale : Span) :
    (s.sweep now stale).entries = s.entries.filter fun e => ¬e.2.Forgettable now stale :=
  congrArg entries (s.sweep_eq_filter now stale)

def idleKeys (now : Instant) (stale : Span) : List String :=
  match now.earlier? stale with
  | none => []
  | some cutoff => (s.entries.filter fun e => Idle cutoff now e.2).map Prod.fst

theorem idleKeys_eq (now : Instant) (stale : Span) :
    s.idleKeys now stale = (s.entries.filter fun e => e.2.Forgettable now stale).map Prod.fst := by
  rw [idleKeys]
  cases h : now.earlier? stale with
  | none =>
    have hnobody : ∀ e ∈ s.entries, ¬e.2.Forgettable now stale := by
      rintro e - ⟨hseen, -⟩
      have hle := Instant.le_of_earlier?_eq_none h e.2.lastSeen
      omega
    rw [List.filter_eq_nil_iff.2 (by simpa using hnobody)]
    rfl
  | some cutoff =>
    rw [Instant.earlier?, Instant.ofNanos?] at h
    split at h
    · cases h
      rfl
    · cases h

theorem foldl_erase (keys : List String) :
    (keys.foldl erase s).entries = s.entries.filter fun e => e.1 ∉ keys := by
  induction keys generalizing s with
  | nil => simp
  | cons key keys ih =>
    have herase : (s.erase key).entries = s.entries.filter fun e => e.1 ≠ key := rfl
    rw [List.foldl_cons, ih, herase, List.filter_filter]
    refine List.filter_congr fun e _ => ?_
    simp [Bool.and_comm]

variable {s} in
/-- A key is collected exactly if its own client is idle: there is only one entry of it. -/
theorem mem_idleKeys {e : String × Client} (he : e ∈ s.entries) (now : Instant) (stale : Span) :
    e.1 ∈ s.idleKeys now stale ↔ e.2.Forgettable now stale := by
  rw [idleKeys_eq, List.mem_map]
  constructor
  · rintro ⟨d, hd, hkey⟩
    rw [List.mem_filter, decide_eq_true_eq] at hd
    have hsame : d = e := List.inj_on_of_nodup_map s.nodup_keys hd.1 he hkey
    exact hsame ▸ hd.2
  · intro hidle
    exact ⟨e, List.mem_filter.2 ⟨he, decide_eq_true hidle⟩, rfl⟩

theorem foldl_erase_idleKeys {now : Instant} {stale : Span} {keys : List String}
    (hkeys : keys.Perm (s.idleKeys now stale)) : keys.foldl erase s = s.sweep now stale := by
  apply ext_entries
  rw [foldl_erase, entries_sweep]
  refine List.filter_congr fun e he => ?_
  rw [decide_eq_decide, hkeys.mem_iff, mem_idleKeys he]

theorem length_idleKeys (now : Instant) (stale : Span) :
    (s.idleKeys now stale).length + (s.sweep now stale).size = s.size := by
  have hall := s.entries.length_eq_length_filter_add fun e => e.2.Forgettable now stale
  rw [idleKeys_eq, List.length_map, size, size, hall, entries_sweep]
  simp only [decide_not]

theorem sweep_sweep {now₁ now₂ : Instant} {stale₁ stale₂ : Span} (hnow : now₁ ≤ now₂)
    (hcutoff : now₁.nanos - stale₁.nanos ≤ now₂.nanos - stale₂.nanos) :
    (s.sweep now₁ stale₁).sweep now₂ stale₂ = s.sweep now₂ stale₂ := by
  apply ext_entries
  rw [entries_sweep, entries_sweep, entries_sweep, List.filter_filter]
  refine List.filter_congr fun e _ => ?_
  rw [Bool.eq_iff_iff, Bool.and_eq_true, decide_eq_true_eq, decide_eq_true_eq]
  exact ⟨And.left, fun h => ⟨h, mt (fun hidle => hidle.later hnow hcutoff) h⟩⟩

/-- A sweep erases the idle clients and no other, whichever first, and a guard answers how many. An
earlier sweep that reaches less far makes no difference to what is left, and takes its clients out
of the count. -/
theorem sweep_exact_and_absorbing (s : Store) :
    (∀ (now : Instant) (stale : Span),
      (∀ key c, (s.sweep now stale).get? key = some c ↔ s.get? key = some c ∧
        ¬(c.lastSeen.nanos < now.nanos - stale.nanos ∧ ∀ u, c.blockedUntil = some u → u ≤ now)) ∧
      ∀ keys : List String, keys.Perm (s.idleKeys now stale) →
        keys.foldl erase s = s.sweep now stale ∧
          keys.length + (s.sweep now stale).size = s.size) ∧
    (∀ (g : Guard) (now : Instant), g.clients = s →
      (g.sweep now).answer = (s.idleKeys now g.limits.staleAfter).length) ∧
    (∀ (now₁ now₂ : Instant) (stale₁ stale₂ : Span), now₁ ≤ now₂ →
      now₁.nanos - stale₁.nanos ≤ now₂.nanos - stale₂.nanos →
      let s₁ := s.sweep now₁ stale₁
      s₁.sweep now₂ stale₂ = s.sweep now₂ stale₂ ∧
        (s.idleKeys now₁ stale₁).length + (s₁.idleKeys now₂ stale₂).length =
          (s.idleKeys now₂ stale₂).length) ∧
    ∀ now stale,
      let s₁ := s.sweep now stale
      s₁.sweep now stale = s₁ ∧ s₁.idleKeys now stale = [] := by
  refine ⟨fun now stale => ⟨fun key c => ?_, fun keys hkeys => ⟨?_, ?_⟩⟩, ?_, ?_, ?_⟩
  · rw [get?_sweep, Option.filter_eq_some_iff, decide_eq_true_eq, Client.Forgettable,
      Client.blockRemaining?_eq_none]
  · exact s.foldl_erase_idleKeys hkeys
  · rw [hkeys.length_eq]
    exact s.length_idleKeys now stale
  · rintro g now rfl
    have hcount := g.clients.length_idleKeys now g.limits.staleAfter
    show g.clients.size - (g.clients.sweep now g.limits.staleAfter).size = _
    omega
  · intro now₁ now₂ stale₁ stale₂ hnow hcutoff s₁
    have hsame : s₁.sweep now₂ stale₂ = s.sweep now₂ stale₂ := s.sweep_sweep hnow hcutoff
    have hfirst := s.length_idleKeys now₁ stale₁
    have hsecond := s₁.length_idleKeys now₂ stale₂
    have halone := s.length_idleKeys now₂ stale₂
    have hsize : s₁.size = (s.sweep now₁ stale₁).size := rfl
    rw [hsame] at hsecond
    exact ⟨hsame, by omega⟩
  · intro now stale s₁
    have hsame : s₁.sweep now stale = s₁ := s.sweep_sweep (Int.le_refl _) (Int.le_refl _)
    have hnone := s₁.length_idleKeys now stale
    rw [hsame] at hnone
    exact ⟨hsame, List.length_eq_zero_iff.1 (by omega)⟩

/-- At ten seconds one client is idle. At fifteen a second one is too, and so is a third one, whose
block ends there. They may be erased in any order. -/
theorem sweep_at_end_of_block :
    let five : Instant := ⟨5000000000, by decide, by decide⟩
    let ten : Instant := ⟨10000000000, by decide, by decide⟩
    let fifteen : Instant := ⟨15000000000, by decide, by decide⟩
    let client (stop : Option Instant) (seen : Instant) : Client :=
      ⟨.full 30 1 .origin, 0, stop, seen⟩
    let s : Store := ⟨[("idle", client none .origin), ("later", client none five),
      ("blocked", client (some fifteen) .origin), ("seen", client none ten)], by decide⟩
    let stale : Span := .ofSeconds 5
    s.idleKeys ten stale = ["idle"] ∧ s.idleKeys fifteen stale = ["idle", "later", "blocked"] ∧
      ["blocked", "idle", "later"].foldl erase s = s.sweep fifteen stale ∧
      (s.sweep ten stale).sweep fifteen stale = s.sweep fifteen stale ∧
      ((s.sweep ten stale).idleKeys fifteen stale).length = 2 := by
  intro five ten fifteen client s stale
  have hten : s.idleKeys ten stale = ["idle"] := by decide +kernel
  have hfifteen : s.idleKeys fifteen stale = ["idle", "later", "blocked"] := by decide +kernel
  obtain ⟨herased, -, habsorbed, -⟩ := sweep_exact_and_absorbing s
  have hkeys : ["blocked", "idle", "later"].Perm (s.idleKeys fifteen stale) := by
    rw [hfifteen]
    decide
  obtain ⟨hsame, hcount⟩ :=
    habsorbed ten fifteen stale stale (by decide +kernel) (by decide +kernel)
  rw [hten, hfifteen] at hcount
  exact ⟨hten, hfifteen, ((herased fifteen stale).2 _ hkeys).1, hsame, Nat.add_left_cancel hcount⟩

end Store
end AdmissionGuard

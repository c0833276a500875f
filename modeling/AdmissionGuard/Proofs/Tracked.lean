import AdmissionGuard.Proofs.History
import Mathlib.Data.Finset.Card

/-! The tracked clients as a set of keys: which of them a call adds and which it takes away. -/
namespace AdmissionGuard

namespace Store

def keys (s : Store) : Finset String := (s.entries.map Prod.fst).toFinset

theorem mem_keys {s : Store} {key : String} : key ∈ s.keys ↔ (s.get? key).isSome := by
  rw [Option.isSome_iff_ne_none, ne_eq, get?, List.lookup_eq_none_iff]
  simp only [keys, List.mem_toFinset, List.mem_map, bne_iff_ne, ne_eq]
  grind

theorem card_keys (s : Store) : s.keys.card = s.size := by
  rw [keys, List.toFinset_card_of_nodup s.nodup_keys, List.length_map, size]

theorem keys_set (s : Store) (key : String) (c : Client) :
    (s.set key c).keys = insert key s.keys := by
  ext k
  simp only [keys, set, List.mem_toFinset, mem_keys_setEntry, Finset.mem_insert]

theorem size_set (s : Store) (key : String) (c : Client) :
    (s.set key c).size = s.size + (!(s.get? key).isSome).toNat := by
  rw [← card_keys, ← card_keys, keys_set]
  by_cases h : key ∈ s.keys
  · rw [Finset.insert_eq_of_mem h, mem_keys.1 h]
    rfl
  · rw [Finset.card_insert_of_notMem h, Bool.eq_false_iff.2 (mt mem_keys.2 h)]
    rfl

end Store

namespace Guard

def keys (g : Guard) : Finset String := g.clients.keys

theorem mem_keys {g : Guard} {key : String} : key ∈ g.keys ↔ g.tracks key = true :=
  Store.mem_keys

theorem card_keys (g : Guard) : g.keys.card = g.tracked := g.clients.card_keys

/-- Nothing but a check of the client itself makes an entry for it. -/
theorem check_of_mem_keys_step {g : Guard} {call : Call} {key : String}
    (hafter : key ∈ (g.step call).guard.keys) (hbefore : key ∉ g.keys) :
    ∃ now, call = .check key now := by
  by_contra hcall
  rw [keys, Store.mem_keys] at hafter hbefore
  obtain he | ⟨hnone, -⟩ := g.step_other key call fun now heq => absurd ⟨now, heq⟩ hcall
  · rw [he] at hafter
    exact hbefore hafter
  · simp [hnone] at hafter

/-- The client of a check is still tracked right after it, unless it is exempt. -/
theorem tracks_checked (g : Guard) {key : String} (now : Instant)
    (h : g.allowlist.contains key = false) : (g.step (.check key now)).guard.tracks key = true := by
  obtain ⟨-, c, -, -, -, hget, -⟩ := g.step_own now h
  rw [tracks, hget]
  rfl

/-- Nothing but a sweep takes an entry away. -/
theorem sweepsIn_of_forgotten {g : Guard} {call : Call} {key : String}
    (hbefore : key ∈ g.keys) (hafter : key ∉ (g.step call).guard.keys) : g.sweepsIn call := by
  rw [mem_keys] at hafter
  have hexempt : ∀ now, call = .check key now → g.allowlist.contains key = true := by
    rintro now rfl
    rw [← Bool.not_eq_false]
    exact fun hkey => hafter (g.tracks_checked now hkey)
  obtain he | ⟨-, hsweeps, -⟩ := g.step_other key call hexempt
  · rw [tracks, he] at hafter
    exact absurd (Store.mem_keys.1 hbefore) hafter
  · exact hsweeps

end Guard

namespace Moment

def forgotten (m : Moment) : List String :=
  (m.before.clients.entries.map Prod.fst).filter fun key => !m.after.tracks key

def creates (m : Moment) : Bool :=
  match m.call with
  | .check key _ => !m.before.tracks key && m.after.tracks key
  | .sweep _ | .status .. => false

theorem length_forgotten (m : Moment) :
    m.forgotten.length = (m.before.keys \ m.after.keys).card := by
  have hnodup : m.forgotten.Nodup := m.before.clients.nodup_keys.filter _
  rw [← List.toFinset_card_of_nodup hnodup]
  congr 1
  ext key
  rw [List.mem_toFinset, forgotten, List.mem_filter, Finset.mem_sdiff,
    Guard.mem_keys (g := m.after), Guard.keys, Store.keys, List.mem_toFinset, Bool.not_eq_true']
  simp

theorem card_created (m : Moment) :
    (m.after.keys \ m.before.keys).card = m.creates.toNat := by
  obtain ⟨g, call⟩ := m
  have hnew : ∀ key ∈ (g.step call).guard.keys \ g.keys, ∃ now, call = .check key now := by
    intro key hkey
    rw [Finset.mem_sdiff] at hkey
    exact Guard.check_of_mem_keys_step hkey.1 hkey.2
  cases call with
  | check k now =>
    have hcreates : creates ⟨g, .check k now⟩ = true ↔
        k ∈ (g.step (.check k now)).guard.keys \ g.keys := by
      rw [Finset.mem_sdiff, Guard.mem_keys, Guard.mem_keys]
      simp [creates, after, and_comm]
    have hsub : (g.step (.check k now)).guard.keys \ g.keys ⊆ {k} := by
      intro key hkey
      obtain ⟨_, h⟩ := hnew key hkey
      cases h
      exact Finset.mem_singleton_self k
    obtain he | he := Finset.subset_singleton_iff.1 hsub
    · rw [he] at hcreates
      simp [after, he, show creates ⟨g, .check k now⟩ = false by simpa using hcreates]
    · rw [he] at hcreates
      simp [after, he, show creates ⟨g, .check k now⟩ = true by simpa using hcreates]
  | sweep | status =>
    refine Finset.card_eq_zero.2 (Finset.eq_empty_of_forall_notMem fun key hkey => ?_)
    obtain ⟨_, h⟩ := hnew key hkey
    cases h

/-- An entry that is there before a moment or made in it is there afterwards or forgotten. -/
theorem tracked_add_forgotten (m : Moment) :
    m.after.tracked + m.forgotten.length = m.before.tracked + m.creates.toNat := by
  rw [length_forgotten, ← card_created, ← Guard.card_keys, ← Guard.card_keys,
    Nat.add_comm, Finset.card_sdiff_add_card, Nat.add_comm, Finset.card_sdiff_add_card,
    Finset.union_comm]

end Moment

end AdmissionGuard

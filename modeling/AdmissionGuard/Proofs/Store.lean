import AdmissionGuard.Store
import AdmissionGuard.Proofs.Clock

/-! What a key finds in the store after each operation, and which clients a sweep forgets. -/
namespace AdmissionGuard

theorem lookup_setEntry_self (key : String) (c : Client) (l : List (String × Client)) :
    (setEntry key c l).lookup key = some c := by
  induction l with
  | nil => simp [setEntry]
  | cons e rest ih =>
    rw [setEntry]
    split
    · simp
    · next h =>
      have hne : (key == e.1) = false := by simpa using Ne.symm h
      rw [List.lookup_cons, hne]
      exact ih

theorem lookup_setEntry_ne {key k : String} (c : Client) (l : List (String × Client))
    (hk : k ≠ key) : (setEntry key c l).lookup k = l.lookup k := by
  have hne : (k == key) = false := by simpa using hk
  induction l with
  | nil => simp [setEntry, hk]
  | cons e rest ih =>
    rw [setEntry]
    split
    · next h => rw [List.lookup_cons, List.lookup_cons, h, hne]
    · rw [List.lookup_cons, List.lookup_cons, ih]

theorem lookup_filter {l : List (String × Client)} (h : (l.map Prod.fst).Nodup)
    (p : Client → Bool) (key : String) :
    (l.filter fun e => p e.2).lookup key = (l.lookup key).filter p := by
  induction l with
  | nil => rfl
  | cons e rest ih =>
    obtain ⟨k, c⟩ := e
    rw [List.map_cons, List.nodup_cons] at h
    have hrest := ih h.2
    by_cases hk : key = k
    · subst hk
      have habs : rest.lookup key = none := by
        rw [List.lookup_eq_none_iff]
        intro q hq
        have hne : key ≠ q.1 := by
          intro he
          apply h.1
          exact List.mem_map.mpr ⟨q, hq, he.symm⟩
        simpa using hne
      rw [habs] at hrest
      cases hp : p c <;> simp [hp, hrest, Option.filter]
    · have hne : (key == k) = false := by simpa using hk
      cases hp : p c <;> simp [List.lookup_cons, hp, hne, hrest]

theorem lookup_erased (key k : String) (l : List (String × Client)) :
    (l.filter fun e => e.1 ≠ key).lookup k = if k = key then none else l.lookup k := by
  induction l with
  | nil => simp
  | cons e rest ih =>
    obtain ⟨j, c⟩ := e
    by_cases hj : j = key
    · subst hj
      rw [List.filter_cons_of_neg (by simp), ih, List.lookup_cons]
      by_cases hk : k = j
      · rw [if_pos hk, if_pos hk]
      · have hne : (k == j) = false := by simpa using hk
        rw [hne]
    · rw [List.filter_cons_of_pos (by simpa using hj), List.lookup_cons, List.lookup_cons, ih]
      by_cases hk : k = j
      · subst hk
        simp [hj]
      · have hne : (k == j) = false := by simpa using hk
        rw [hne]

/-- What a sweep at `now` forgets: a client that is not blocked and was last seen more than `stale`
ago. The clock's range plays no part. -/
def Client.Forgettable (now : Instant) (stale : Span) (c : Client) : Prop :=
  c.lastSeen.nanos < now.nanos - stale.nanos ∧ c.blockRemaining? now = none

instance (now : Instant) (stale : Span) (c : Client) : Decidable (c.Forgettable now stale) :=
  inferInstanceAs (Decidable (_ ∧ _))

namespace Store

@[simp] theorem get?_set_self (s : Store) (key : String) (c : Client) :
    (s.set key c).get? key = some c :=
  lookup_setEntry_self key c s.entries

theorem get?_set_ne (s : Store) {key k : String} (c : Client) (hk : k ≠ key) :
    (s.set key c).get? k = s.get? k :=
  lookup_setEntry_ne c s.entries hk

theorem get?_filter (s : Store) (p : Client → Bool) (key : String) :
    (s.filter p).get? key = (s.get? key).filter p :=
  lookup_filter s.nodup_keys p key

def erase (s : Store) (key : String) : Store where
  entries := s.entries.filter fun e => e.1 ≠ key
  nodup_keys := s.nodup_keys.sublist (List.filter_sublist.map _)

theorem get?_erase (s : Store) (key k : String) :
    (s.erase key).get? k = if k = key then none else s.get? k :=
  lookup_erased key k s.entries

theorem filter_eq_self (s : Store) (p : Client → Bool) (h : ∀ c, p c = true) :
    s.filter p = s := by
  have he : s.entries.filter (fun e => p e.2) = s.entries :=
    List.filter_eq_self.2 fun e _ => h e.2
  cases s
  simpa only [filter, mk.injEq] using he

theorem sweep_eq_filter (s : Store) (now : Instant) (stale : Span) :
    s.sweep now stale = s.filter fun c => ¬c.Forgettable now stale := by
  rw [sweep]
  cases h : now.earlier? stale with
  | none =>
    -- The clock does not reach back to the cutoff, so no reading of it lies before the cutoff.
    refine (s.filter_eq_self _ fun c => decide_eq_true ?_).symm
    have hle := Instant.le_of_earlier?_eq_none h c.lastSeen
    rintro ⟨hold, -⟩
    omega
  | some cutoff =>
    rw [Instant.earlier?, Instant.ofNanos?] at h
    split at h
    · cases h
      rfl
    · cases h

theorem get?_sweep (s : Store) (now : Instant) (stale : Span) (key : String) :
    (s.sweep now stale).get? key = (s.get? key).filter fun c => ¬c.Forgettable now stale := by
  rw [sweep_eq_filter, get?_filter]

end Store
end AdmissionGuard

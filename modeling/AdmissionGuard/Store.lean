import AdmissionGuard.Client
/-!
The clients that the guard tracks, by key.
-/

namespace AdmissionGuard

def setEntry (key : String) (c : Client) : List (String × Client) → List (String × Client)
  | [] => [(key, c)]
  | (k, d) :: rest => if k = key then (key, c) :: rest else (k, d) :: setEntry key c rest

theorem mem_keys_setEntry {key k : String} {c : Client} {l : List (String × Client)} :
    k ∈ (setEntry key c l).map Prod.fst ↔ k = key ∨ k ∈ l.map Prod.fst := by
  induction l with
  | nil => simp [setEntry]
  | cons e rest ih =>
    rw [setEntry]
    split
    · next h => simp [h]
    · simp only [List.map_cons, List.mem_cons, ih]
      grind

theorem nodup_keys_setEntry {key : String} {c : Client} {l : List (String × Client)}
    (h : (l.map Prod.fst).Nodup) : ((setEntry key c l).map Prod.fst).Nodup := by
  induction l with
  | nil => simp [setEntry]
  | cons e rest ih =>
    rw [List.map_cons, List.nodup_cons] at h
    rw [setEntry]
    split
    · next hk => simpa [← hk] using h
    · next hk =>
      rw [List.map_cons, List.nodup_cons, mem_keys_setEntry]
      exact ⟨by simpa [hk] using h.1, ih h.2⟩

structure Store where
  entries : List (String × Client)
  nodup_keys : (entries.map Prod.fst).Nodup

namespace Store

def empty : Store := ⟨[], by simp⟩

def size (s : Store) : Nat := s.entries.length

def get? (s : Store) (key : String) : Option Client := s.entries.lookup key

def set (s : Store) (key : String) (c : Client) : Store :=
  ⟨setEntry key c s.entries, nodup_keys_setEntry s.nodup_keys⟩

def sighted (s : Store) (limits : Limits) (key : String) (now : Instant) : Client :=
  ((s.get? key).getD (.fresh limits now)).seen now

def touch (s : Store) (limits : Limits) (key : String) (now : Instant) : Store :=
  s.set key (s.sighted limits key now)

def filter (s : Store) (p : Client → Bool) : Store where
  entries := s.entries.filter fun e => p e.2
  nodup_keys := s.nodup_keys.sublist (List.filter_sublist.map _)

def Idle (cutoff now : Instant) (c : Client) : Prop :=
  c.lastSeen < cutoff ∧ c.blockRemaining? now = none

instance (cutoff now : Instant) (c : Client) : Decidable (Idle cutoff now c) :=
  inferInstanceAs (Decidable (_ ∧ _))

/-- Forgets the clients that have been idle for longer than `stale` at `now`. Where the clock does
not reach back that far, none has. -/
def sweep (s : Store) (now : Instant) (stale : Span) : Store :=
  match now.earlier? stale with
  | none => s
  | some cutoff => s.filter fun c => ¬Idle cutoff now c

end Store

end AdmissionGuard

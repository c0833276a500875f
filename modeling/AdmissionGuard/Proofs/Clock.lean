import AdmissionGuard.Time

/-! Arithmetic of the clock: what instants that are compared, subtracted or moved come to in
nanoseconds. -/
namespace AdmissionGuard

namespace Instant

protected theorem not_lt {s t : Instant} : ¬s < t ↔ t ≤ s := Int.not_lt

theorem since_eq_max (t s : Instant) : ((t.since s).nanos : Int) = max (t.nanos - s.nanos) 0 := by
  simp only [since]
  omega

theorem since_of_le {s t : Instant} (h : t ≤ s) : (t.since s).nanos = 0 := by
  have hle : t.nanos ≤ s.nanos := h
  have hmax := t.since_eq_max s
  omega

theorem since_add_since {r s t : Instant} (hrs : r ≤ s) (hst : s ≤ t) :
    (s.since r).nanos + (t.since s).nanos = (t.since r).nanos := by
  have hle : r.nanos ≤ s.nanos := hrs
  have hle' : s.nanos ≤ t.nanos := hst
  have h₁ := s.since_eq_max r
  have h₂ := t.since_eq_max s
  have h₃ := t.since_eq_max r
  omega

theorem nanos_since {s t : Instant} (h : s < t) :
    ((t.since s).nanos : Int) = t.nanos - s.nanos := by
  have hlt : s.nanos < t.nanos := h
  have hmax := t.since_eq_max s
  omega

theorem latest_eq_max (s t : Instant) : (s.latest t).nanos = max s.nanos t.nanos := by
  by_cases h : s < t
  · have hlt : s.nanos < t.nanos := h
    simp only [latest, if_pos h]
    omega
  · have hle : t.nanos ≤ s.nanos := Instant.not_lt.1 h
    simp only [latest, if_neg h]
    omega

theorem le_latest_left (s t : Instant) : s.nanos ≤ (s.latest t).nanos := by
  rw [latest_eq_max]
  exact Int.le_max_left ..

theorem le_latest_right (s t : Instant) : t.nanos ≤ (s.latest t).nanos := by
  rw [latest_eq_max]
  exact Int.le_max_right ..

theorem latest_eq_right {s t : Instant} (h : s ≤ t) : s.latest t = t := by
  ext
  rw [latest_eq_max]
  exact Int.max_eq_right h

theorem latest_since (s t : Instant) : (s.latest t).since s = t.since s := by
  have hlatest := s.latest_eq_max t
  have h₁ := (s.latest t).since_eq_max s
  have h₂ := t.since_eq_max s
  ext
  omega

theorem nanos_of_later? {t u : Instant} {d : Span} (h : t.later? d = some u) :
    u.nanos = t.nanos + d.nanos := by
  rw [later?, ofNanos?] at h
  split at h
  · cases h
    rfl
  · cases h

/-- Where the clock does not reach back by `d`, none of its readings is that early. -/
theorem le_of_earlier?_eq_none {now : Instant} {d : Span} (h : now.earlier? d = none)
    (t : Instant) : now.nanos - d.nanos ≤ t.nanos := by
  rw [earlier?, ofNanos?] at h
  have hout : ¬(-(clockLimit : Int) ≤ now.nanos - d.nanos ∧ now.nanos - d.nanos < clockLimit) := by
    intro hin
    simp [hin] at h
  have hlt := now.nanos_lt
  have hle := t.le_nanos
  have hd : (0 : Int) ≤ d.nanos := Int.natCast_nonneg _
  omega

theorem blockEnd_of_later? {t u : Instant} {block : Span} (h : t.later? block = some u) :
    t.blockEnd block = u := by
  rw [blockEnd]
  split
  · next v hv =>
    rw [h] at hv
    exact (Option.some.inj hv).symm
  · next hnone =>
    rw [h] at hnone
    cases hnone

theorem blockEnd_le (now : Instant) (block : Span) :
    (now.blockEnd block).nanos ≤ now.nanos + block.nanos := by
  fun_induction blockEnd now block with
  | case1 block t h => exact Int.le_of_eq (nanos_of_later? h)
  | case2 block h ih =>
    have hhalf : block.half.nanos = block.nanos / 2 := rfl
    omega

end Instant
end AdmissionGuard

import AdmissionGuard.Proofs.Clock
import Mathlib.Algebra.Ring.Nat
import Mathlib.Data.Nat.Size
import Mathlib.Order.Bounds.Basic

/-! Blocks near the end of the clock. A block whose end the clock cannot show is halved until it
can, and not once more, so it takes at least half of the time that is left. -/
namespace AdmissionGuard.Instant

def last : Instant := ⟨clockLimit - 1, by decide, by decide⟩

theorem le_last (t : Instant) : t ≤ last := Int.le_sub_one_of_lt t.nanos_lt

def Shows (t : Instant) (n : Nat) : Prop := ∃ u : Instant, u.nanos = t.nanos + n

section
variable {t : Instant} {d : Span} {n : Nat}

theorem shows_iff : t.Shows n ↔ t.nanos + n ≤ last.nanos := by
  constructor
  · rintro ⟨u, hu⟩
    rw [← hu]
    exact u.le_last
  · intro hle
    have hlow := t.le_nanos
    exact ⟨⟨t.nanos + n, by omega, Int.lt_of_le_sub_one hle⟩, rfl⟩

theorem not_shows_iff : ¬t.Shows n ↔ last.nanos < t.nanos + n := by
  rw [shows_iff, Int.not_le]

theorem later?_eq_none_iff_not_shows : t.later? d = none ↔ ¬t.Shows d.nanos := by
  rw [not_shows_iff, later?_eq_none_iff]
  exact Int.sub_one_lt_iff.symm

theorem shows_div_one : t.Shows (n / 2 ^ 0) ↔ t.Shows n := by
  rw [pow_zero, Nat.div_one]

/-- Once all its binary digits are gone, nothing is left of a number. -/
theorem shows_div_size (t : Instant) (n : Nat) : t.Shows (n / 2 ^ n.size) := by
  rw [Nat.div_eq_of_lt n.lt_size_self]
  exact ⟨t, (Int.add_zero t.nanos).symm⟩

end

section
variable {now : Instant} {block : Span} {k n : Nat}

theorem isLeast_halvings_succ (h : ¬now.Shows n)
    (hk : IsLeast {j | now.Shows (n / 2 / 2 ^ j)} k) :
    IsLeast {j | now.Shows (n / 2 ^ j)} (k + 1) := by
  have hhalf (j : Nat) : n / 2 / 2 ^ j = n / 2 ^ (j + 1) := by
    rw [Nat.div_div_eq_div_mul, pow_succ']
  simp only [hhalf] at hk
  refine ⟨hk.1, fun j hj => ?_⟩
  cases j with
  | zero => exact absurd (shows_div_one.1 hj) h
  | succ j => exact Nat.succ_le_succ (hk.2 hj)

/-- A block is halved as often as it takes for the clock to show its end. -/
theorem exists_isLeast_blockEnd (now : Instant) (block : Span) :
    ∃ k, IsLeast {j | now.Shows (block.nanos / 2 ^ j)} k ∧
      (now.blockEnd block).nanos = now.nanos + (block.nanos / 2 ^ k : Nat) := by
  fun_induction blockEnd now block with
  | case1 block stop h =>
    have hstop : stop.nanos = now.nanos + (block.nanos / 2 ^ 0 : Nat) := by
      rw [pow_zero, Nat.div_one]
      exact nanos_of_later? h
    exact ⟨0, ⟨⟨stop, hstop⟩, fun j _ => j.zero_le⟩, hstop⟩
  | case2 block h ih =>
    -- The half of the block takes one halving less.
    obtain ⟨k, hk, hstop⟩ := ih
    refine ⟨k + 1, isLeast_halvings_succ (later?_eq_none_iff_not_shows.1 h) hk, ?_⟩
    rw [hstop, Span.half, Nat.div_div_eq_div_mul, pow_succ']

theorem le_blockEnd (now : Instant) (block : Span) : now ≤ now.blockEnd block := by
  obtain ⟨k, -, hstop⟩ := exists_isLeast_blockEnd now block
  show now.nanos ≤ (now.blockEnd block).nanos
  rw [hstop]
  exact Int.le_add_of_nonneg_right (Int.natCast_nonneg _)

theorem nanos_blockEnd_of_shows (h : now.Shows block.nanos) :
    (now.blockEnd block).nanos = now.nanos + block.nanos := by
  obtain ⟨k, hk, hstop⟩ := exists_isLeast_blockEnd now block
  have hzero : k = 0 := Nat.le_zero.1 (hk.2 (shows_div_one.2 h))
  rw [hstop, hzero, pow_zero, Nat.div_one]

/-- One halving less ends beyond the last reading, so the last one does not lose more than half of
the time left. -/
theorem time_left_le_of_not_shows (h : ¬now.Shows block.nanos) :
    last.nanos - now.nanos ≤ 2 * ((now.blockEnd block).nanos - now.nanos) := by
  obtain ⟨k, hk, hstop⟩ := exists_isLeast_blockEnd now block
  cases k with
  | zero => exact absurd (shows_div_one.1 hk.1) h
  | succ k =>
    have hbefore : ¬now.Shows (block.nanos / 2 ^ k) := fun hshown =>
      Nat.not_succ_le_self k (hk.2 hshown)
    rw [not_shows_iff] at hbefore
    rw [pow_succ, ← Nat.div_div_eq_div_mul] at hstop
    omega

theorem lt_blockEnd (hblock : 0 < block.nanos) (hleft : now < last) : now < now.blockEnd block := by
  have hlast : now.nanos < last.nanos := hleft
  show now.nanos < (now.blockEnd block).nanos
  by_cases hshown : now.Shows block.nanos
  · have hend := nanos_blockEnd_of_shows hshown
    omega
  · have htaken := time_left_le_of_not_shows hshown
    omega

end

/-- A block ends where the fewest halvings let it end, which are no more than its length has binary
digits. It is never longer than it should be, and no shorter if the clock shows its end. Otherwise
it takes at least half of the time left: it is only empty if no time is left. -/
theorem blockEnd_is_first_shown (now : Instant) (block : Span) :
    let stop := now.blockEnd block
    (∃ k ≤ block.nanos.size, IsLeast {j | now.Shows (block.nanos / 2 ^ j)} k ∧
      stop.nanos = now.nanos + (block.nanos / 2 ^ k : Nat)) ∧
    now ≤ stop ∧ stop.nanos ≤ now.nanos + block.nanos ∧
    (now.Shows block.nanos → stop.nanos = now.nanos + block.nanos) ∧
    (¬now.Shows block.nanos → (last.since now).nanos ≤ 2 * (stop.since now).nanos) ∧
    (0 < block.nanos → now < last → now < stop) := by
  intro stop
  obtain ⟨k, hk, hstop⟩ := exists_isLeast_blockEnd now block
  refine ⟨⟨k, hk.2 (now.shows_div_size block.nanos), hk, hstop⟩, now.le_blockEnd block,
    now.blockEnd_le block, nanos_blockEnd_of_shows, fun hout => ?_, lt_blockEnd⟩
  have htaken : last.nanos - now.nanos ≤ 2 * (stop.nanos - now.nanos) :=
    time_left_le_of_not_shows hout
  have hleft := last.since_eq_max now
  have hspan := stop.since_eq_max now
  omega

/-- One nanosecond after the origin half of the longest block ends one nanosecond too late. A
quarter of it is shown and takes no more than half of the time left. -/
theorem longest_block_is_halved_twice :
    let now : Instant := ⟨1, by decide, by decide⟩
    let stop := now.blockEnd .longest
    0 < Span.longest.nanos ∧ now < last ∧ ¬now.Shows Span.longest.nanos ∧
      ¬now.Shows (Span.longest.nanos / 2) ∧ now < stop ∧
      stop.nanos = now.nanos + (Span.longest.nanos / 4 : Nat) ∧
      (last.since now).nanos = 2 * (stop.since now).nanos := by
  intro now stop
  have hwhole : ¬now.Shows Span.longest.nanos := not_shows_iff.2 (by decide)
  have hhalf : ¬now.Shows (Span.longest.nanos / 2) := not_shows_iff.2 (by decide)
  have hquarter : now.Shows (Span.longest.nanos / 2 / 2 / 2 ^ 0) := shows_iff.2 (by decide)
  have htwice : IsLeast {j | now.Shows (Span.longest.nanos / 2 ^ j)} 2 :=
    isLeast_halvings_succ hwhole (isLeast_halvings_succ hhalf ⟨hquarter, fun j _ => j.zero_le⟩)
  obtain ⟨⟨k, -, hk, hstop⟩, -, -, -, htaken, hlater⟩ := blockEnd_is_first_shown now .longest
  rw [hk.unique htwice] at hstop
  have hend : stop = ⟨clockLimit / 2, by decide, by decide⟩ := Instant.ext hstop
  have hle : 2 * (stop.since now).nanos ≤ (last.since now).nanos := by
    rw [hend]
    decide
  exact ⟨by decide, by decide, hwhole, hhalf, hlater (by decide) (by decide), hstop,
    Nat.le_antisymm (htaken hwhole) hle⟩

end AdmissionGuard.Instant

import AdmissionGuard.Address.Range
import AdmissionGuard.Proofs.ClientKeys

/-! Ranges written as an address, a slash and a number of bits. What is a plain address is read as
that address inside a range too. -/
namespace AdmissionGuard

namespace Text

theorem cut?_append {sep : Char} {t : List Char} (h : sep ∉ t) (cs : List Char) :
    cut? sep (t ++ sep :: cs) = some (t, cs) := by
  induction t with
  | nil => simp [cut?]
  | cons c t ih =>
    rw [List.mem_cons, not_or] at h
    rw [List.cons_append, cut?, if_neg (Ne.symm h.1), ih h.2]
    rfl

/-- What is no hexadecimal digit is no decimal one. -/
theorem digit?_ten_of_sixteen {c : Char} (h : digit? 16 c = none) : digit? 10 c = none := by
  simp only [digit?, le_iff_toNat_le, Char.reduceToNat] at h ⊢
  by_cases hdecimal : 48 ≤ c.toNat ∧ c.toNat ≤ 57
  · rw [if_pos hdecimal, if_pos (by omega)] at h
    cases h
  · rw [if_neg hdecimal, if_neg]
    split_ifs <;> omega

end Text

structure Strictness.Within (s t : Strictness) : Prop where
  leadingZeros : s.leadingZeros = true → t.leadingZeros = true
  leastGap : t.leastGap ≤ s.leastGap

theorem Strictness.plain_within_ranged : Strictness.plain.Within .ranged :=
  ⟨fun _ => rfl, Nat.zero_le 1⟩

namespace Address
open Text

theorem mapM_mono {α β : Type} {f g : α → Option β} (hfg : ∀ a b, f a = some b → g a = some b)
    {l : List α} {bs : List β} (h : l.mapM f = some bs) : l.mapM g = some bs := by
  induction l generalizing bs with
  | nil => exact h
  | cons a l ih =>
    rw [List.mapM_cons] at h ⊢
    obtain ⟨b, hb, h⟩ := Option.bind_eq_some_iff.1 h
    obtain ⟨cs, hcs, h⟩ := Option.bind_eq_some_iff.1 h
    rw [hfg a b hb, ih hcs]
    exact h

section
variable {s t : Strictness} (hst : s.Within t)
include hst

theorem octet?_within {cs : List Char} {o : UInt8} (h : octet? s cs = some o) :
    octet? t cs = some o := by
  rw [octet?] at h ⊢
  split at h
  · cases h
  · next hs =>
    have ht : ¬(3 < cs.length ∨
        t.leadingZeros = false ∧ 1 < cs.length ∧ cs.head? = some '0') := by
      rintro (hlong | ⟨hzeros, hfront⟩)
      · exact hs (.inl hlong)
      · refine hs (.inr ⟨Bool.eq_false_iff.2 fun hz => ?_, hfront⟩)
        rw [hst.leadingZeros hz] at hzeros
        cases hzeros
    rw [if_neg ht]
    exact h

theorem quad?_within {cs : List Char} {a : IPv4} (h : quad? s cs = some a) :
    quad? t cs = some a := by
  obtain ⟨os, hos, h⟩ := Option.bind_eq_some_iff.1 h
  rw [quad?, mapM_mono (fun _ _ => octet?_within hst) hos]
  exact h

theorem groups?_within {quads : Bool} {ps : List (List Char)} {gs : List UInt16}
    (h : groups? s quads ps = some gs) : groups? t quads ps = some gs := by
  fun_induction groups? s quads ps generalizing gs with
  | case1 => exact h
  | case2 p hp =>
    obtain ⟨a, ha, h⟩ := Option.map_eq_some_iff.1 h
    rw [groups?, if_pos hp, quad?_within hst ha, ← h]
    rfl
  | case3 p hp =>
    rw [groups?, if_neg hp]
    exact h
  | case4 p ps hps ih =>
    obtain ⟨g, hg, h⟩ := Option.bind_eq_some_iff.1 h
    obtain ⟨rest, hrest, h⟩ := Option.map_eq_some_iff.1 h
    rw [groups?, hg, Option.bind_some, ih hrest, ← h]
    · rfl
    · exact hps

theorem side?_within {quads : Bool} {cs : List Char} {gs : List UInt16}
    (h : side? s quads cs = some gs) : side? t quads cs = some gs := by
  rw [side?] at h ⊢
  split at h
  · next hcs => rw [if_pos hcs, h]
  · next hcs => rw [if_neg hcs, groups?_within hst h]

theorem fillGap?_within {front back gs : List UInt16}
    (h : fillGap? s.leastGap front back = some gs) :
    fillGap? t.leastGap front back = some gs := by
  have hgap := hst.leastGap
  rw [fillGap?] at h ⊢
  split at h
  · next hfit =>
    rw [if_pos ⟨hfit.1, by omega⟩]
    exact h
  · cases h

theorem ipv6?_within {cs : List Char} {a : IPv6} (h : ipv6? s cs = some a) :
    ipv6? t cs = some a := by
  obtain ⟨gs, hgs, h⟩ := Option.bind_eq_some_iff.1 h
  refine Option.bind_eq_some_iff.2 ⟨gs, ?_, h⟩
  split at hgs
  · exact groups?_within hst hgs
  · obtain ⟨front, hfront, hgs⟩ := Option.bind_eq_some_iff.1 hgs
    obtain ⟨back, hback, hgs⟩ := Option.bind_eq_some_iff.1 hgs
    rw [side?_within hst hfront, Option.bind_some, side?_within hst hback]
    exact fillGap?_within hst hgs

end

structure Foreign (c : Char) : Prop where
  ne_point : c ≠ '.'
  ne_colon : c ≠ ':'
  not_digit : digit? 16 c = none

theorem foreign_slash : Foreign '/' := ⟨by decide, by decide, by decide⟩

theorem foreign_of_isBlank {c : Char} (h : isBlank c) : Foreign c where
  ne_point := by
    rintro rfl
    cases h
  ne_colon := by
    rintro rfl
    cases h
  not_digit := by
    rw [← Option.not_isSome_iff_eq_none]
    exact fun hdigit => not_isBlank_of_digit hdigit h

theorem group?_of_notDigit {c : Char} {cs : List Char} (hmem : c ∈ cs)
    (hdigit : digit? 16 c = none) : group? cs = none := by
  simp [group?, read?, readOn?_of_notDigit hmem hdigit]

section
variable {c : Char} (hc : Foreign c) (strict : Strictness)
include hc

theorem quad?_of_foreign {cs : List Char} (hmem : c ∈ cs) : quad? strict cs = none :=
  quad?_of_notDigit hmem hc.ne_point (digit?_ten_of_sixteen hc.not_digit) strict

theorem groups?_of_foreign (quads : Bool) {ps : List (List Char)} {p : List Char} (hp : p ∈ ps)
    (hmem : c ∈ p) : groups? strict quads ps = none := by
  fun_induction groups? strict quads ps with
  | case1 => cases hp
  | case2 q hq =>
    rw [List.mem_singleton] at hp
    rw [← hp, quad?_of_foreign hc strict hmem]
    rfl
  | case3 q hq =>
    rw [List.mem_singleton] at hp
    rw [← hp, group?_of_notDigit hmem hc.not_digit]
    rfl
  | case4 q qs hqs ih =>
    obtain rfl | hp := List.mem_cons.1 hp
    · rw [group?_of_notDigit hmem hc.not_digit]
      rfl
    · rw [ih hp]
      cases group? q <;> rfl

theorem side?_of_foreign (quads : Bool) {cs : List Char} (hmem : c ∈ cs) :
    side? strict quads cs = none := by
  obtain ⟨p, hp, hcp⟩ := mem_split hmem hc.ne_colon
  have hne : ¬cs.isEmpty := by
    rw [List.isEmpty_iff]
    exact List.ne_nil_of_mem hmem
  rw [side?, if_neg hne, groups?_of_foreign hc strict quads hp hcp]

end

theorem eq_of_cutGap? {cs front back : List Char} (h : cutGap? cs = some (front, back)) :
    cs = front ++ ':' :: ':' :: back := by
  fun_induction cutGap? cs generalizing front back with
  | case1 => cases h
  | case2 cs =>
    cases h
    rfl
  | case3 c cs hcs ih =>
    obtain ⟨⟨f, b⟩, hfb, h⟩ := Option.map_eq_some_iff.1 h
    cases h
    rw [ih hfb]
    rfl

theorem ipv6?_of_foreign {c : Char} (hc : Foreign c) (strict : Strictness) {cs : List Char}
    (hmem : c ∈ cs) : ipv6? strict cs = none := by
  rw [ipv6?]
  split
  · obtain ⟨p, hp, hcp⟩ := mem_split hmem hc.ne_colon
    rw [groups?_of_foreign hc strict true hp hcp]
    rfl
  · next front back hcut =>
    rw [eq_of_cutGap? hcut] at hmem
    have hside : c ∈ front ∨ c ∈ back := by simpa [hc.ne_colon] using hmem
    obtain hfront | hback := hside
    · rw [side?_of_foreign hc strict false hfront]
      rfl
    · rw [side?_of_foreign hc strict true hback]
      cases side? strict false front <;> rfl

theorem ofText?_of_foreign {c : Char} (hc : Foreign c) {cs : List Char} (hmem : c ∈ cs) :
    ofText? cs = none := by
  rw [ofText?, quad?_of_foreign hc .plain hmem, ipv6?_of_foreign hc .plain hmem]
  rfl

theorem not_foreign_of_ofText? {cs : List Char} {a : Address} (h : ofText? cs = some a) :
    ∀ c ∈ cs, ¬Foreign c := by
  intro c hmem hc
  rw [ofText?_of_foreign hc hmem] at h
  cases h

theorem ofString?_trimmed (s : String) : ofString? (trimmed s) = ofText? (trim s.toList) := by
  rw [ofString?, trimmed, String.toList_ofList]

theorem not_isBlank_of_ofText? {cs : List Char} {a : Address} (h : ofText? cs = some a) :
    ∀ c ∈ cs, ¬isBlank c :=
  fun c hc hblank => not_foreign_of_ofText? h c hc (foreign_of_isBlank hblank)

theorem length_toGroups_le (a : IPv4) : a.toGroups.length ≤ 2 := by
  rw [IPv4.toGroups]
  split <;> simp

/-- One piece alone is too short for eight groups. -/
theorem ipv6?_of_noColon {cs : List Char} (h : ':' ∉ cs) (strict : Strictness) :
    ipv6? strict cs = none := by
  have hcut : cutGap? cs = none := by simpa [cutGap?] using cutGap?_append h []
  rw [ipv6?, hcut]
  dsimp only
  rw [split_of_notMem h, Option.bind_eq_none_iff]
  intro gs hgs
  have hlength : gs.length ≤ 2 := by
    rw [groups?] at hgs
    split at hgs
    · obtain ⟨a, -, rfl⟩ := Option.map_eq_some_iff.1 hgs
      exact length_toGroups_le a
    · obtain ⟨g, -, rfl⟩ := Option.map_eq_some_iff.1 hgs
      simp
  rw [dif_neg (by omega)]

end Address

namespace AddressRange
open Text Address

theorem ofPrefix?_write {a : Address} {p digits : Nat} (hp : p ≤ a.width)
    (hdigits : (write 10 p).length ≤ digits) :
    ofPrefix? a digits (write 10 p) = some ⟨a, p, hp⟩ := by
  rw [ofPrefix?, if_neg (by omega), read?_write (by decide) (by decide), Option.bind_some,
    dif_pos hp]

/-- An address with a slash and a number of its bits is read as the range of these. -/
theorem ofText?_prefix {cs : List Char} {a : Address} (h : Address.ofText? cs = some a) {p : Nat}
    (hp : p ≤ a.width) : ofText? (cs ++ '/' :: write 10 p) = some ⟨a, p, hp⟩ := by
  have hslash : '/' ∉ cs := fun hmem => not_foreign_of_ofText? h _ hmem foreign_slash
  have hplain : Address.ofText? (cs ++ '/' :: write 10 p) = none :=
    ofText?_of_foreign foreign_slash (by simp)
  rw [ofText?, hplain]
  dsimp only
  rw [cidr?, cut?_append hslash, Option.bind_some]
  dsimp only
  rw [Address.ofText?] at h
  split at h
  · next b hquad =>
    cases h
    have hp32 : p ≤ 32 := hp
    rw [quad?_within Strictness.plain_within_ranged hquad]
    exact ofPrefix?_write hp (Nat.toDigits_length 10 p 2 (by decide) (by omega))
  · obtain ⟨b, hb, rfl⟩ := Option.map_eq_some_iff.1 h
    have hp128 : p ≤ 128 := hp
    have hcolon : ':' ∈ cs := by
      by_contra hcolon
      rw [ipv6?_of_noColon hcolon] at hb
      cases hb
    rw [quad?_of_colon hcolon, ipv6?_within Strictness.plain_within_ranged hb]
    exact ofPrefix?_write hp (Nat.toDigits_length 10 p 3 (by decide) (by omega))

end AddressRange
end AdmissionGuard

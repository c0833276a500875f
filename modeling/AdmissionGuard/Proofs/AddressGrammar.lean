import AdmissionGuard.Proofs.Integers
import AdmissionGuard.Proofs.RangeText

/-! The texts of addresses, told without their readers. A reader takes exactly these, and answers the
address that they are texts of. -/
namespace AdmissionGuard

namespace Text

theorem readBelow?_eq_some {limit n : Nat} {cs : List Char} :
    readBelow? limit cs = some n ↔
      cs ≠ [] ∧ (∀ c ∈ cs, c.isDigit) ∧ n = decimalValue cs ∧ n < limit := by
  rw [readBelow?, Option.filter_eq_some_iff, read?_ten, decide_eq_true_eq]
  constructor
  · intro h
    obtain ⟨⟨hne, hdigits, hvalue⟩, hlimit⟩ := h
    exact ⟨hne, hdigits, hvalue, hlimit⟩
  · intro h
    obtain ⟨hne, hdigits, hvalue, hlimit⟩ := h
    exact ⟨⟨hne, hdigits, hvalue⟩, hlimit⟩

def HexDigit (c : Char) (d : Nat) : Prop :=
  ('0' ≤ c ∧ c ≤ '9' ∧ c.toNat = '0'.toNat + d) ∨
    ('a' ≤ c ∧ c ≤ 'f' ∧ c.toNat + 10 = 'a'.toNat + d) ∨
    ('A' ≤ c ∧ c ≤ 'F' ∧ c.toNat + 10 = 'A'.toNat + d)

theorem digit?_sixteen_eq_some {c : Char} {d : Nat} :
    digit? 16 c = some d ↔ HexDigit c d := by
  simp only [digit?, HexDigit, le_iff_toNat_le, Char.reduceToNat]
  split_ifs <;> grind

theorem ofDigits_reverse_cons {k : Nat} (n d : Nat) {ds : List Nat} (h : ds.length = k) :
    n * 16 ^ (k + 1) + Nat.ofDigits 16 (d :: ds).reverse =
      (n * 16 + d) * 16 ^ k + Nat.ofDigits 16 ds.reverse := by
  rw [List.reverse_cons, Nat.ofDigits_append, List.length_reverse, h, Nat.ofDigits_singleton]
  ring

theorem readOn?_sixteen {n m : Nat} {cs : List Char} :
    readOn? 16 n cs = some m ↔
      ∃ ds, List.Forall₂ HexDigit cs ds ∧ m = n * 16 ^ cs.length + Nat.ofDigits 16 ds.reverse := by
  induction cs generalizing n with
  | nil => simp [readOn?, eq_comm]
  | cons c cs ih =>
    rw [readOn?, Option.bind_eq_some_iff]
    simp only [digit?_sixteen_eq_some, ih, List.length_cons]
    constructor
    · intro h
      obtain ⟨d, hd, ds, hds, hm⟩ := h
      refine ⟨d :: ds, .cons hd hds, ?_⟩
      rw [hm, ofDigits_reverse_cons n d hds.length_eq.symm]
    · intro h
      obtain ⟨all, hall, hm⟩ := h
      obtain ⟨d, ds, hd, hds, rfl⟩ := List.forall₂_cons_left_iff.1 hall
      refine ⟨d, hd, ds, hds, ?_⟩
      rw [hm, ofDigits_reverse_cons n d hds.length_eq.symm]

theorem ofDigits_hex_lt {cs : List Char} {ds : List Nat} (h : List.Forall₂ HexDigit cs ds) :
    Nat.ofDigits 16 ds.reverse < 16 ^ cs.length := by
  have hdigits : ∀ d ∈ ds, d < 16 := by
    induction h with
    | nil => nofun
    | @cons c d cs ds hd _ ih =>
      simp only [HexDigit, le_iff_toNat_le, Char.reduceToNat] at hd
      exact List.forall_mem_cons.2 ⟨by omega, ih⟩
  rw [h.length_eq, ← List.length_reverse]
  exact Nat.ofDigits_lt_base_pow_length (by decide) (by simpa using hdigits)

end Text

namespace Address
open Text

structure OctetText (cs : List Char) (o : UInt8) : Prop where
  ne_nil : cs ≠ []
  digits : ∀ c ∈ cs, c.isDigit
  length_le : cs.length ≤ 3
  no_zero : cs.head? = some '0' → cs.length = 1
  value : o.toNat = decimalValue cs

def QuadText (cs : List Char) (a : IPv4) : Prop :=
  ∃ ts, cs = joinWith '.' ts ∧ List.Forall₂ OctetText ts a.octets

def GroupText (cs : List Char) (g : UInt16) : Prop :=
  cs ≠ [] ∧ cs.length ≤ 4 ∧ ∃ ds, List.Forall₂ HexDigit cs ds ∧ g.toNat = Nat.ofDigits 16 ds.reverse

/-- Texts of groups. If `quads` holds, the last may be a dotted quad in place of two of them. -/
inductive Pieces (quads : Bool) : List (List Char) → List UInt16 → Prop
  | nil : Pieces quads [] []
  | group {p ps g gs} : GroupText p g → Pieces quads ps gs → Pieces quads (p :: ps) (g :: gs)
  | quad {p a} : quads = true → QuadText p a → Pieces quads [p] a.toGroups

def SideText (quads : Bool) (cs : List Char) (gs : List UInt16) : Prop :=
  ∃ ps, cs = joinWith ':' ps ∧ Pieces quads ps gs

/-- Eight groups, or fewer with a gap that stands for the zeros left out, one at least. -/
inductive IPv6Text : List Char → IPv6 → Prop
  | whole {cs a} : SideText true cs a.groups → IPv6Text cs a
  | gap {front back fs bs a} : SideText false front fs → SideText true back bs →
      fs.length + bs.length < 8 →
      a.groups = fs ++ List.replicate (8 - fs.length - bs.length) 0 ++ bs →
      IPv6Text (front ++ ':' :: ':' :: back) a

inductive AddressText : List Char → Address → Prop
  | v4 {cs a} : QuadText cs a → AddressText cs (.v4 a)
  | v6 {cs a} : IPv6Text cs a → AddressText cs (.v6 a)

theorem octet?_eq_some {cs : List Char} {o : UInt8} :
    octet? .plain cs = some o ↔ OctetText cs o := by
  rw [octet?]
  constructor
  · intro h
    split at h
    · cases h
    · next hshape =>
      obtain ⟨n, hn, rfl⟩ := Option.map_eq_some_iff.1 h
      obtain ⟨hne, hdigits, hvalue, hlimit⟩ := readBelow?_eq_some.1 hn
      have hlength : 0 < cs.length := List.length_pos_of_ne_nil hne
      refine ⟨hne, hdigits, by omega, fun hzero => ?_, ?_⟩
      · by_contra hmore
        exact hshape (.inr ⟨rfl, by omega, hzero⟩)
      · rw [← hvalue]
        exact Nat.mod_eq_of_lt hlimit
  · intro h
    have hshape : ¬(3 < cs.length ∨
        Strictness.plain.leadingZeros = false ∧ 1 < cs.length ∧ cs.head? = some '0') := by
      intro hbad
      cases hbad with
      | inl hlong => exact absurd h.length_le (by omega)
      | inr hzero =>
        have := h.no_zero hzero.2.2
        omega
    have hread : readBelow? 256 cs = some o.toNat :=
      readBelow?_eq_some.2 ⟨h.ne_nil, h.digits, h.value, o.toNat_lt⟩
    rw [if_neg hshape, hread]
    exact congrArg some o.ofNat_toNat

theorem mapM_eq_some {α β : Type} {f : α → Option β} {l : List α} {bs : List β} :
    l.mapM f = some bs ↔ List.Forall₂ (fun a b => f a = some b) l bs := by
  induction l generalizing bs with
  | nil =>
    rw [List.mapM_nil, List.forall₂_nil_left_iff]
    exact Option.some_inj.trans eq_comm
  | cons a l ih =>
    rw [List.mapM_cons, List.forall₂_cons_left_iff]
    constructor
    · intro h
      obtain ⟨b, hb, h⟩ := Option.bind_eq_some_iff.1 h
      obtain ⟨cs, hcs, h⟩ := Option.bind_eq_some_iff.1 h
      exact ⟨b, cs, hb, ih.1 hcs, (Option.some.inj h).symm⟩
    · intro h
      obtain ⟨b, cs, hb, hcs, heq⟩ := h
      rw [hb, ih.2 hcs, heq]
      rfl

theorem quad?_eq_some {cs : List Char} {a : IPv4} : quad? .plain cs = some a ↔ QuadText cs a := by
  rw [quad?, Option.bind_eq_some_iff]
  simp only [mapM_eq_some, octet?_eq_some]
  constructor
  · intro h
    obtain ⟨os, hos, h⟩ := h
    split at h
    · cases h
      exact ⟨split '.' cs, (joinWith_split '.' cs).symm, hos⟩
    · cases h
  · intro h
    obtain ⟨ts, hcs, hts⟩ := h
    have hne : ts ≠ [] := by
      intro hnil
      have hlength := hts.length_eq
      rw [hnil, a.length_octets] at hlength
      cases hlength
    have hsep : ∀ t ∈ ts, '.' ∉ t := by
      have hpoint : ∀ t o, OctetText t o → '.' ∉ t ∧ OctetText t o :=
        fun t o ho => ⟨fun hmem => absurd (ho.digits _ hmem) (by decide), ho⟩
      exact ((List.forall₂_and_left ts a.octets).1 (hts.imp hpoint)).1
    refine ⟨a.octets, ?_, by simp [a.length_octets]⟩
    rw [hcs, split_joinWith hne hsep]
    exact hts

theorem group?_eq_some {cs : List Char} {g : UInt16} : group? cs = some g ↔ GroupText cs g := by
  rw [group?]
  constructor
  · intro h
    split at h
    · cases h
    · next hlength =>
      obtain ⟨n, hn, rfl⟩ := Option.map_eq_some_iff.1 h
      rw [read?] at hn
      split at hn
      · cases hn
      · next hne =>
        obtain ⟨ds, hds, hvalue⟩ := readOn?_sixteen.1 hn
        rw [zero_mul, zero_add] at hvalue
        have hlimit := ofDigits_hex_lt hds
        have hlimit' : 16 ^ cs.length ≤ 16 ^ 4 := Nat.pow_le_pow_right (by decide) (by omega)
        refine ⟨by simpa using hne, by omega, ds, hds, ?_⟩
        rw [← hvalue]
        exact Nat.mod_eq_of_lt (by omega)
  · intro h
    obtain ⟨hne, hlength, ds, hds, hvalue⟩ := h
    have hread : read? 16 cs = some g.toNat := by
      rw [read?, if_neg (by simpa using hne)]
      exact readOn?_sixteen.2 ⟨ds, hds, by rw [hvalue, zero_mul, zero_add]⟩
    rw [if_neg (by omega), hread]
    exact congrArg some g.ofNat_toNat

theorem point_mem_of_quadText {cs : List Char} {a : IPv4} (h : QuadText cs a) : '.' ∈ cs := by
  obtain ⟨ts, rfl, hts⟩ := h
  have hlength := hts.length_eq
  rw [a.length_octets] at hlength
  match ts, hlength with
  | t :: u :: us, _ => simp [joinWith]

theorem colon_notMem_of_quadText {cs : List Char} {a : IPv4} (h : QuadText cs a) : ':' ∉ cs := by
  intro hmem
  have hread := quad?_of_colon hmem .plain
  rw [quad?_eq_some.2 h] at hread
  cases hread

theorem notMem_of_groupText {c : Char} (hc : digit? 16 c = none) {cs : List Char} {g : UInt16}
    (h : GroupText cs g) : c ∉ cs := by
  intro hmem
  have hread := group?_of_notDigit hmem hc
  rw [group?_eq_some.2 h] at hread
  cases hread

theorem groups?_eq_some {quads : Bool} {ps : List (List Char)} {gs : List UInt16} :
    groups? .plain quads ps = some gs ↔ Pieces quads ps gs := by
  constructor
  · intro h
    fun_induction groups? .plain quads ps generalizing gs with
    | case1 =>
      cases h
      exact .nil
    | case2 p hquad =>
      obtain ⟨a, ha, rfl⟩ := Option.map_eq_some_iff.1 h
      exact .quad hquad.1 (quad?_eq_some.1 ha)
    | case3 p hquad =>
      obtain ⟨g, hg, rfl⟩ := Option.map_eq_some_iff.1 h
      exact .group (group?_eq_some.1 hg) .nil
    | case4 p ps hps ih =>
      obtain ⟨g, hg, h⟩ := Option.bind_eq_some_iff.1 h
      obtain ⟨rest, hrest, rfl⟩ := Option.map_eq_some_iff.1 h
      exact .group (group?_eq_some.1 hg) (ih hrest)
  · intro h
    induction h with
    | nil => rfl
    | @group p ps g gs hp _ ih =>
      cases ps with
      | nil =>
        cases ih
        have hpoint : '.' ∉ p := notMem_of_groupText (by decide) hp
        rw [groups?, if_neg fun hquad => hpoint hquad.2, group?_eq_some.2 hp]
        rfl
      | cons q qs =>
        rw [groups?, group?_eq_some.2 hp, Option.bind_some, ih]
        · rfl
        · exact List.cons_ne_nil q qs
    | @quad p a hquads hp =>
      rw [groups?, if_pos ⟨hquads, point_mem_of_quadText hp⟩, quad?_eq_some.2 hp]
      rfl

theorem Pieces.ne_nil_and_colon {quads : Bool} {ps : List (List Char)} {gs : List UInt16}
    (h : Pieces quads ps gs) : ∀ p ∈ ps, p ≠ [] ∧ ':' ∉ p := by
  induction h with
  | nil => nofun
  | group hp _ ih => exact List.forall_mem_cons.2 ⟨⟨hp.1, notMem_of_groupText (by decide) hp⟩, ih⟩
  | quad _ hp =>
    have hne := List.ne_nil_of_mem (point_mem_of_quadText hp)
    exact List.forall_mem_singleton.2 ⟨hne, colon_notMem_of_quadText hp⟩

theorem split_of_pieces {quads : Bool} {ps : List (List Char)} {gs : List UInt16}
    (h : Pieces quads ps gs) (hne : ps ≠ []) : split ':' (joinWith ':' ps) = ps :=
  split_joinWith hne fun p hp => (h.ne_nil_and_colon p hp).2

theorem sideText_of_split {quads : Bool} {cs : List Char} {gs : List UInt16}
    (h : groups? .plain quads (split ':' cs) = some gs) : SideText quads cs gs :=
  ⟨split ':' cs, (joinWith_split ':' cs).symm, groups?_eq_some.1 h⟩

theorem side?_eq_some {quads : Bool} {cs : List Char} {gs : List UInt16} :
    side? .plain quads cs = some gs ↔ SideText quads cs gs := by
  constructor
  · intro h
    rw [side?] at h
    split at h
    · next hempty =>
      cases h
      exact ⟨[], List.isEmpty_iff.1 hempty, .nil⟩
    · exact sideText_of_split h
  · intro h
    obtain ⟨ps, hcs, hps⟩ := h
    cases ps with
    | nil =>
      cases hps
      rw [hcs]
      rfl
    | cons p ps =>
      obtain ⟨rest, hrest⟩ := joinWith_cons ':' p ps
      have hne : ¬cs.isEmpty := by
        rw [hcs, hrest, List.isEmpty_iff, List.append_eq_nil_iff, not_and_or]
        exact .inl (hps.ne_nil_and_colon p List.mem_cons_self).1
      rw [side?, if_neg hne, hcs, split_of_pieces hps (by simp), groups?_eq_some.2 hps]

theorem ipv6?_eq_some {cs : List Char} {a : IPv6} : ipv6? .plain cs = some a ↔ IPv6Text cs a := by
  constructor
  · intro h
    obtain ⟨gs, hgs, h⟩ := Option.bind_eq_some_iff.1 h
    split at h
    · cases h
      split at hgs
      · exact .whole (sideText_of_split hgs)
      · next front back hcut =>
        obtain ⟨fs, hfs, hgs⟩ := Option.bind_eq_some_iff.1 hgs
        obtain ⟨bs, hbs, hgs⟩ := Option.bind_eq_some_iff.1 hgs
        rw [fillGap?] at hgs
        split at hgs
        · next hfit =>
          rw [eq_of_cutGap? hcut]
          have hgap : fs.length + 1 + bs.length ≤ 8 := hfit.2
          exact .gap (side?_eq_some.1 hfs) (side?_eq_some.1 hbs) (by omega)
            (Option.some.inj hgs).symm
        · cases hgs
    · cases h
  · intro h
    cases h with
    | whole hside =>
      obtain ⟨ps, rfl, hps⟩ := hside
      have hne : ps ≠ [] := by
        intro hnil
        rw [hnil] at hps
        have hlength := a.length_groups
        generalize a.groups = gs at hps hlength
        cases hps
        cases hlength
      have hcut : cutGap? (joinWith ':' ps) = none := by
        simpa [cutGap?] using cutGap?_joinWith hps.ne_nil_and_colon []
      rw [ipv6?, hcut]
      dsimp only
      rw [split_of_pieces hps hne, groups?_eq_some.2 hps]
      simp [a.length_groups]
    | @gap front back fs bs _ hfront hback hfit hgroups =>
      obtain ⟨ps, rfl, hps⟩ := id hfront
      have hcut : cutGap? (joinWith ':' ps ++ ':' :: ':' :: back) =
          some (joinWith ':' ps, back) := by
        simpa [cutGap?] using cutGap?_joinWith hps.ne_nil_and_colon (':' :: ':' :: back)
      have hgap : fs.length < 8 ∧ fs.length + Strictness.plain.leastGap + bs.length ≤ 8 := by
        have hleast : Strictness.plain.leastGap = 1 := rfl
        omega
      rw [ipv6?, hcut]
      dsimp only
      rw [side?_eq_some.2 hfront, side?_eq_some.2 hback, Option.bind_some, Option.bind_some,
        fillGap?, if_pos hgap, ← hgroups, Option.bind_some, dif_pos a.length_groups]

theorem colon_mem_of_ipv6Text {cs : List Char} {a : IPv6} (h : IPv6Text cs a) : ':' ∈ cs := by
  by_contra hcolon
  have hread := ipv6?_of_noColon hcolon .plain
  rw [ipv6?_eq_some.2 h] at hread
  cases hread

/-- An address is read from its texts and from no others. -/
theorem ofText?_eq_some {cs : List Char} {a : Address} :
    ofText? cs = some a ↔ AddressText cs a := by
  rw [ofText?]
  constructor
  · intro h
    split at h
    · next b hb =>
      cases h
      exact .v4 (quad?_eq_some.1 hb)
    · obtain ⟨b, hb, rfl⟩ := Option.map_eq_some_iff.1 h
      exact .v6 (ipv6?_eq_some.1 hb)
  · intro h
    cases h with
    | v4 h => rw [quad?_eq_some.2 h]
    | v6 h =>
      rw [quad?_of_colon (colon_mem_of_ipv6Text h), ipv6?_eq_some.2 h]
      rfl

end Address
end AdmissionGuard

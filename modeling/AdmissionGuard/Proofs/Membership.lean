import AdmissionGuard.Proofs.History
import AdmissionGuard.Proofs.LeadingBits
import AdmissionGuard.Proofs.RangeText

/-! Membership in an allowlist. A list has the clients that agree with one of its entries on as many
bits as the entry says, whatever else is on the list. -/
namespace AdmissionGuard

namespace Text

def Padded (s t : String) : Prop :=
  ∃ u w, (∀ c ∈ u, isBlank c) ∧ (∀ c ∈ w, isBlank c) ∧ t.toList = u ++ (s.toList ++ w)

theorem Padded.trim_eq {s t : String} (h : Padded s t) : trim t.toList = trim s.toList := by
  obtain ⟨u, w, hu, hw, ht⟩ := h
  rw [ht, trim_blanks hu hw]

end Text

namespace Allowlist
open Text

def Accepts (e : String) (r : AddressRange) : Prop :=
  AddressRange.ofText? (trim e.toList) = some r

theorem not_accepts_blank {e : String} (h : Blank e) (r : AddressRange) : ¬Accepts e r := by
  rw [Accepts, trim_eq_nil.2 h]
  exact nofun

theorem Accepts.unique {e : String} {r r' : AddressRange} (h : Accepts e r) (h' : Accepts e r') :
    r = r' := Option.some.inj (h.symm.trans h')

theorem mem_ranges (entries : List String) (r : AddressRange) :
    r ∈ (ofEntries entries).ranges ↔ ∃ e ∈ entries, Accepts e r := by
  simp only [ofEntries, candidates, List.mem_filterMap]
  constructor
  · rintro ⟨t, ⟨e, he, ht⟩, hr⟩
    refine ⟨e, he, ?_⟩
    by_cases hblank : Blank e
    · rw [trimmed?_of_blank hblank] at ht
      cases ht
    · rw [trimmed?_of_notBlank hblank, Option.some.injEq] at ht
      rwa [← ht, trimmed, String.toList_ofList] at hr
  · rintro ⟨e, he, hr⟩
    have hblank : ¬Blank e := fun h => not_accepts_blank h r hr
    refine ⟨trimmed e, ⟨e, he, trimmed?_of_notBlank hblank⟩, ?_⟩
    rwa [trimmed, String.toList_ofList]

theorem contains_iff (entries : List String) (client : String) :
    (ofEntries entries).contains client = true ↔
      ∃ a, Address.ofString? (trimmed client) = some a ∧
        ∃ r, (∃ e ∈ entries, Accepts e r) ∧ r.Contains a.canonical := by
  rw [contains, Address.ofString?_trimmed]
  cases Address.ofText? (trim client.toList) with
  | none => simp
  | some a =>
    dsimp only
    rw [decide_eq_true_iff, ContainsAddress]
    simp only [mem_ranges, Option.some.injEq, exists_eq_left']

section
variable {entries others : List String} {client : String}

/-- Only the ranges that the entries are read as matter. -/
theorem contains_congr
    (h : ∀ r, (∃ e ∈ others, Accepts e r) ↔ ∃ e ∈ entries, Accepts e r) :
    (ofEntries others).contains client = (ofEntries entries).contains client := by
  rw [Bool.eq_iff_iff, contains_iff, contains_iff]
  simp only [h]

theorem accepts_padded {e e' : String} (h : Padded e e') (r : AddressRange) :
    Accepts e' r ↔ Accepts e r := by rw [Accepts, h.trim_eq, Accepts]

theorem accepted_padded (h : List.Forall₂ Padded entries others) (r : AddressRange) :
    (∃ e ∈ others, Accepts e r) ↔ ∃ e ∈ entries, Accepts e r := by
  induction h with
  | nil => simp
  | cons he _ ih => simp only [List.exists_mem_cons_iff, accepts_padded he, ih]

theorem contains_padded {client' : String} (l : Allowlist) (h : Padded client client') :
    l.contains client' = l.contains client := by rw [contains, h.trim_eq, contains]

end

theorem contains_replaced {e e' : String} (h : ∀ r, Accepts e' r ↔ Accepts e r)
    (front back : List String) (client : String) :
    (ofEntries (front ++ e' :: back)).contains client =
      (ofEntries (front ++ e :: back)).contains client := by
  refine contains_congr fun r => ?_
  simp only [List.mem_append, List.mem_cons, or_and_right, exists_or, exists_eq_left, h]

theorem accepts_single {e : String} {a : Address} (h : Address.ofString? (trimmed e) = some a) :
    Accepts e (.single a) := by
  rw [Address.ofString?_trimmed] at h
  rw [Accepts, AddressRange.ofText?, h]

def prefixEntry (s : String) (p : Nat) : String := s ++ "/" ++ decimal p

section
variable {s : String} {a : Address} (h : Address.ofString? s = some a)
include h

theorem accepts_prefixEntry {p : Nat} (hp : p ≤ a.width) :
    Accepts (prefixEntry s p) ⟨a, p, hp⟩ := by
  have hchars : (prefixEntry s p).toList = s.toList ++ '/' :: write 10 p := by
    simp [prefixEntry, decimal]
  have hslash : ¬isBlank '/' := by decide
  have hblank : ∀ c ∈ s.toList ++ '/' :: write 10 p, ¬isBlank c := by
    rw [List.forall_mem_append, List.forall_mem_cons]
    exact ⟨Address.not_isBlank_of_ofText? h, hslash, not_isBlank_write (by decide) (by decide)⟩
  rw [Accepts, hchars, trim_of_notBlank hblank]
  exact AddressRange.ofText?_prefix h hp

/-- With all of its bits an address is read as it is without their number. -/
theorem accepts_full (r : AddressRange) : Accepts (prefixEntry s a.width) r ↔ Accepts s r := by
  have hs : trimmed s = s := by
    rw [trimmed, trim_of_notBlank (Address.not_isBlank_of_ofText? h), String.ofList_toList]
  have hprefix : Accepts (prefixEntry s a.width) (.single a) :=
    accepts_prefixEntry h (Nat.le_refl _)
  have hbare : Accepts s (.single a) := accepts_single (hs.symm ▸ h)
  constructor
  · intro hr
    rw [← hprefix.unique hr]
    exact hbare
  · intro hr
    rw [← hbare.unique hr]
    exact hprefix

end

/-- A client is on a list exactly if its canonical form has the family of an entry and agrees with
it on as many leading bits as the entry says. Nothing else of the entries counts: not their order or
number, not the blanks around them, and not those that are no range. The entry `s/p` stands for the
first `p` bits of the address `s`, and for that address alone if these are all. -/
theorem contains_iff_leading_bits (entries : List String) (client : String) :
    ((ofEntries entries).contains client = true ↔
      ∃ a, Address.ofString? (trimmed client) = some a ∧
        ∃ r, (∃ e ∈ entries, Accepts e r) ∧ r.base.SameFamily a.canonical ∧
          r.base.bits.take r.length = a.canonical.bits.take r.length) ∧
    (∀ others, (∀ e r, Accepts e r → (e ∈ others ↔ e ∈ entries)) →
      (ofEntries others).contains client = (ofEntries entries).contains client) ∧
    (∀ others client', List.Forall₂ Padded entries others → Padded client client' →
      (ofEntries others).contains client' = (ofEntries entries).contains client) ∧
    (∀ e, Blank e → ∀ r, ¬Accepts e r) ∧
    ∀ s a, Address.ofString? s = some a →
      (∀ p (hp : p ≤ a.width), Accepts (prefixEntry s p) ⟨a, p, hp⟩) ∧
      ∀ front back,
        (ofEntries (front ++ prefixEntry s a.width :: back)).contains client =
          (ofEntries (front ++ s :: back)).contains client := by
  refine ⟨?_, fun others h => ?_, fun others client' h hclient => ?_,
    fun e => not_accepts_blank, fun s a h => ⟨fun p => accepts_prefixEntry h, fun front back => ?_⟩⟩
  · rw [contains_iff]
    simp only [AddressRange.contains_iff_take]
  · refine contains_congr fun r => exists_congr fun e => ?_
    exact and_congr_left fun hr => h e r hr
  · rw [contains_padded _ hclient]
    exact contains_congr (accepted_padded h)
  · exact contains_replaced (accepts_full h) front back client

/-- One range alone, with blanks around it, and twice in a list with other texts. -/
theorem ten_slash_eight :
    let entries := ["10.0.0.0/8"]
    let padded := ["\t10.0.0.0/8 "]
    let others := ["10.0.0.0/8", "", "10.0.0.0/33", "10.0.0.0/8"]
    let client := "::ffff:10.4.5.6"
    let a : Address := .v4 ⟨[10, 1, 2, 3], rfl⟩
    (ofEntries entries).contains client = true ∧
      (ofEntries padded).contains (client ++ "\n") = true ∧
      (ofEntries others).contains client = true ∧
      Accepts (prefixEntry "10.1.2.3" 8) ⟨a, 8, by decide⟩ ∧
      (ofEntries [prefixEntry "10.1.2.3" a.width]).contains client =
        (ofEntries ["10.1.2.3"]).contains client := by
  intro entries padded others client a
  have ha : Address.ofString? "10.1.2.3" = some a := by decide +kernel
  have hentries : (ofEntries entries).contains client = true := by decide +kernel
  have hpadded : List.Forall₂ Padded entries padded :=
    .cons ⟨['\t'], [' '], by simp [isBlank], by simp [isBlank], rfl⟩ .nil
  have hclient : Padded client (client ++ "\n") := ⟨[], ['\n'], by simp, by simp [isBlank], by simp⟩
  obtain ⟨-, hset, haround, hblank, hprefix⟩ := contains_iff_leading_bits entries client
  have hothers : ∀ e r, Accepts e r → (e ∈ others ↔ e ∈ entries) := by
    intro e r hr
    have hempty : e ≠ "" := by
      rintro rfl
      exact hblank "" (by decide) r hr
    have hlong : e ≠ "10.0.0.0/33" := by
      rintro rfl
      have hnone : AddressRange.ofText? (trim "10.0.0.0/33".toList) = none := by decide +kernel
      rw [Accepts, hnone] at hr
      cases hr
    simp [others, entries, hempty, hlong]
  obtain ⟨haccepts, hfull⟩ := hprefix "10.1.2.3" a ha
  exact ⟨hentries, (haround padded _ hpadded hclient).trans hentries,
    (hset others hothers).trans hentries, haccepts 8 (by decide), hfull [] []⟩

/-- The entry of an address matches the clients whose canonical form is that very address. -/
theorem contains_of_own {entries : List String} {e client : String} {a b : Address}
    (he : e ∈ entries) (ha : Address.ofString? (trimmed e) = some a)
    (hb : Address.ofString? (trimmed client) = some b) (h : b.canonical = a) :
    (ofEntries entries).contains client = true := by
  rw [contains_iff]
  exact ⟨b, hb, .single a, ⟨e, he, accepts_single ha⟩,
    (AddressRange.single_contains_iff a b.canonical).2 h.symm⟩

/-- No client is compared in the form of an address that carries an IPv4 one. -/
theorem canonical_of_single_contains {a b : Address}
    (h : (AddressRange.single a).Contains b.canonical) : a.canonical = a := by
  rw [AddressRange.single_contains_iff] at h
  rw [h, Address.canonical_canonical]

theorem contains_without {entries : List String} {e client : String} {a : Address}
    (ha : Address.ofString? (trimmed e) = some a) (hcarried : a.canonical ≠ a) :
    (ofEntries entries).contains client =
      (ofEntries (entries.filter (· ≠ e))).contains client := by
  rw [Bool.eq_iff_iff, contains_iff, contains_iff]
  refine exists_congr fun b => and_congr_right fun _ => exists_congr fun r => ?_
  refine and_congr_left fun hr => exists_congr fun e' => and_congr_left fun hread => ?_
  have hne : e' ≠ e := by
    rintro rfl
    rw [hread.unique (accepts_single ha)] at hr
    exact hcarried (canonical_of_single_contains hr)
  simp [List.mem_filter, hne]

end Allowlist

namespace Guard
open Text

/-- An address on the list exempts all spellings of it, at any time, unless it is an IPv6 address
that carries an IPv4 one: the list is then as it would be without it. -/
theorem address_entry_exempts_itself (limits : Limits) {e : String} {a : Address}
    (he : e ∈ limits.allowlist) (ha : Address.ofString? (trimmed e) = some a) :
    (a.canonical = a → ∀ client b, Address.ofString? (trimmed client) = some b →
      b.canonical = a.canonical →
        (Allowlist.ofEntries limits.allowlist).contains client = true ∧
          ∀ start calls now, ((reached limits start calls).check client now).answer = .exempt) ∧
    (a.canonical ≠ a → ∀ client,
      (Allowlist.ofEntries limits.allowlist).contains client =
        (Allowlist.ofEntries (limits.allowlist.filter (· ≠ e))).contains client) := by
  refine ⟨fun hplain client b hb hsame => ?_, fun hcarried client =>
    Allowlist.contains_without ha hcarried⟩
  have hon := Allowlist.contains_of_own he ha hb (hsame.trans hplain)
  refine ⟨hon, fun start calls now => ?_⟩
  rw [check_exempt _ now ((reached_contains limits start calls client).trans hon)]

theorem bare_and_carried_entries :
    let limits : Limits := { Limits.strict with allowlist := ["10.0.0.1", "::ffff:10.0.0.2"] }
    (∀ start calls now,
      ((reached limits start calls).check "::FFFF:a00:1" now).answer = .exempt) ∧
    (Allowlist.ofEntries limits.allowlist).contains "::ffff:10.0.0.2" =
      (Allowlist.ofEntries ["10.0.0.1"]).contains "::ffff:10.0.0.2" := by
  intro limits
  have hbare : Address.ofString? (trimmed "10.0.0.1") = some (.v4 ⟨[10, 0, 0, 1], rfl⟩) := by
    decide +kernel
  have hcarried : Address.ofString? (trimmed "::ffff:10.0.0.2") =
      some (.v6 ⟨[0, 0, 0, 0, 0, 0xffff, 0xa00, 2], rfl⟩) := by decide +kernel
  have hclient : Address.ofString? (trimmed "::FFFF:a00:1") =
      some (.v6 ⟨[0, 0, 0, 0, 0, 0xffff, 0xa00, 1], rfl⟩) := by decide +kernel
  have hexempt :=
    (address_entry_exempts_itself limits (List.mem_cons_self ..) hbare).1 rfl _ _ hclient rfl
  have hnothing := (address_entry_exempts_itself limits (by simp [limits]) hcarried).2
    (by decide) "::ffff:10.0.0.2"
  exact ⟨hexempt.2, hnothing⟩

/-- Not every address on a list matches itself. -/
theorem carried_address_entry_misses_itself :
    ¬∀ (entries : List String) (e client : String) (a b : Address), e ∈ entries →
      Address.ofString? (trimmed e) = some a → Address.ofString? (trimmed client) = some b →
        b.canonical = a.canonical → (Allowlist.ofEntries entries).contains client = true := by
  intro h
  let e := "::ffff:10.0.0.1"
  have ha : Address.ofString? (trimmed e) =
      some (.v6 ⟨[0, 0, 0, 0, 0, 0xffff, 0xa00, 1], rfl⟩) := by decide +kernel
  have hmissed : (Allowlist.ofEntries [e]).contains e = false := by decide +kernel
  have hclaimed := h [e] e e _ _ (List.mem_singleton_self e) ha ha rfl
  rw [hmissed] at hclaimed
  cases hclaimed

end Guard
end AdmissionGuard

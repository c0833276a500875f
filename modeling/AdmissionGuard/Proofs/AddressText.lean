import AdmissionGuard.Address.Parser
import AdmissionGuard.Address.Printer
import Mathlib.Data.Nat.Digits.Defs
import Mathlib.Tactic.IntervalCases

/-! Written addresses. Reading the text of an address gives the address back. -/
namespace AdmissionGuard

namespace Text

theorem le_iff_toNat_le (c d : Char) : c ≤ d ↔ c.toNat ≤ d.toNat := Iff.rfl

theorem digit?_digitChar {base d : Nat} (hbase : base ≤ 16) (hd : d < base) :
    digit? base d.digitChar = some d := by
  have h : d < 16 := by omega
  interval_cases d <;> simp [digit?, Nat.digitChar, hd]

theorem digit?_ten_eq_some {c : Char} {d : Nat} :
    digit? 10 c = some d ↔ c.isDigit ∧ c.toNat - '0'.toNat = d := by
  have hdigit : c.isDigit ↔ 48 ≤ c.toNat ∧ c.toNat ≤ 57 := by
    simp only [Char.isDigit, Bool.and_eq_true, decide_eq_true_eq]
    exact Iff.rfl
  simp only [digit?, le_iff_toNat_le, hdigit, Char.reduceToNat]
  by_cases hrange : 48 ≤ c.toNat ∧ c.toNat ≤ 57
  · rw [if_pos hrange, if_pos (by omega), Option.some.injEq]
    exact (and_iff_right hrange).symm
  · rw [if_neg hrange, if_neg (by split_ifs <;> omega)]
    exact iff_of_false nofun fun h => hrange h.1

theorem readOn?_append (base n : Nat) (cs ds : List Char) :
    readOn? base n (cs ++ ds) = (readOn? base n cs).bind fun m => readOn? base m ds := by
  induction cs generalizing n with
  | nil => rfl
  | cons c cs ih =>
    rw [List.cons_append, readOn?, readOn?]
    cases digit? base c with
    | none => rfl
    | some d => exact ih (n * base + d)

section
variable {base : Nat} (hbase : 1 < base) (hmax : base ≤ 16)
include hbase hmax

theorem readOn?_write (n : Nat) : readOn? base 0 (write base n) = some n := by
  induction n using Nat.strongRecOn with
  | ind n ih =>
    rw [write, Nat.toDigits_eq_if hbase]
    split
    · next hn => simp [readOn?, digit?_digitChar hmax hn]
    · next hn =>
      -- All digits but the last are those of `n / base`.
      have hlast : n % base < base := Nat.mod_lt n (by omega)
      have hfront := ih (n / base) (Nat.div_lt_self (by omega) hbase)
      rw [write] at hfront
      rw [readOn?_append, hfront]
      simp [readOn?, digit?_digitChar hmax hlast, Nat.div_add_mod']

theorem read?_write (n : Nat) : read? base (write base n) = some n := by
  have hne : ¬(write base n).isEmpty := by simp [write, Nat.toDigits_ne_nil]
  rw [read?, if_neg hne, readOn?_write hbase hmax]

end

theorem isSome_digit?_of_readOn? {base n m : Nat} {cs : List Char}
    (h : readOn? base n cs = some m) : ∀ c ∈ cs, (digit? base c).isSome := by
  induction cs generalizing n with
  | nil => simp
  | cons c cs ih =>
    obtain ⟨d, hd, hrest⟩ := Option.bind_eq_some_iff.1 h
    simp only [List.mem_cons, forall_eq_or_imp]
    exact ⟨by simp [hd], ih hrest⟩

theorem readOn?_of_notDigit {base : Nat} {c : Char} {cs : List Char} (hmem : c ∈ cs)
    (hc : digit? base c = none) (n : Nat) : readOn? base n cs = none := by
  rw [Option.eq_none_iff_forall_ne_some]
  intro m hm
  have hdigit := isSome_digit?_of_readOn? hm c hmem
  rw [hc] at hdigit
  cases hdigit

/-- No number but zero is written with a zero in front. -/
theorem head?_write_ne {base n : Nat} (hbase : 1 < base) (hn : 0 < n) :
    (write base n).head? ≠ some '0' := by
  induction n using Nat.strongRecOn with
  | ind n ih =>
    rw [write, Nat.toDigits_eq_if hbase]
    split
    · simp [Nat.digitChar_eq_zero]
      omega
    · next hlt =>
      have hfront := ih (n / base) (Nat.div_lt_self hn hbase) (Nat.div_pos (by omega) (by omega))
      rw [write] at hfront
      cases hc : Nat.toDigits base (n / base) with
      | nil => exact absurd hc Nat.toDigits_ne_nil
      | cons c cs =>
        rw [hc] at hfront
        exact hfront

theorem split_of_notMem {sep : Char} {cs : List Char} (h : sep ∉ cs) : split sep cs = [cs] := by
  induction cs with
  | nil => rfl
  | cons c cs ih =>
    rw [List.mem_cons, not_or] at h
    rw [split, if_neg (Ne.symm h.1), ih h.2]

theorem split_append_sep {sep : Char} {t : List Char} (h : sep ∉ t) (cs : List Char) :
    split sep (t ++ sep :: cs) = t :: split sep cs := by
  induction t with
  | nil => simp [split]
  | cons c t ih =>
    rw [List.mem_cons, not_or] at h
    rw [List.cons_append, split, if_neg (Ne.symm h.1), ih h.2]

theorem split_ne_nil (sep : Char) (cs : List Char) : split sep cs ≠ [] := by
  cases cs with
  | nil => simp [split]
  | cons c cs =>
    rw [split]
    split
    · simp
    · split <;> simp

theorem mem_split {sep c : Char} {cs : List Char} (h : c ∈ cs) (hc : c ≠ sep) :
    ∃ p ∈ split sep cs, c ∈ p := by
  induction cs with
  | nil => cases h
  | cons d cs ih =>
    rw [List.mem_cons] at h
    obtain ⟨piece, pieces, heq⟩ := List.exists_cons_of_ne_nil (split_ne_nil sep cs)
    rw [heq] at ih
    by_cases hd : d = sep
    · rw [split, if_pos hd, heq]
      obtain ⟨p, hp, hcp⟩ := ih (h.resolve_left fun he => hc (he.trans hd))
      exact ⟨p, List.mem_cons_of_mem [] hp, hcp⟩
    · rw [split, if_neg hd, heq]
      obtain rfl | h := h
      · exact ⟨c :: piece, by simp⟩
      · obtain ⟨p, hp, hcp⟩ := ih h
        obtain rfl | hp := List.mem_cons.1 hp
        · exact ⟨d :: p, by simp [hcp]⟩
        · exact ⟨p, by simp [hp], hcp⟩

theorem notMem_split (sep : Char) (cs : List Char) : ∀ p ∈ split sep cs, sep ∉ p := by
  induction cs with
  | nil => simp [split]
  | cons d cs ih =>
    obtain ⟨piece, pieces, heq⟩ := List.exists_cons_of_ne_nil (split_ne_nil sep cs)
    rw [heq, List.forall_mem_cons] at ih
    by_cases hd : d = sep
    · rw [split, if_pos hd, heq, List.forall_mem_cons, List.forall_mem_cons]
      exact ⟨by simp, ih⟩
    · rw [split, if_neg hd, heq, List.forall_mem_cons]
      exact ⟨by simp [Ne.symm hd, ih.1], ih.2⟩

end Text

namespace Address
open Text

theorem split_joinWith {sep : Char} {ts : List (List Char)} (hne : ts ≠ [])
    (h : ∀ t ∈ ts, sep ∉ t) : split sep (joinWith sep ts) = ts := by
  induction ts with
  | nil => exact absurd rfl hne
  | cons t ts ih =>
    have ht := h t List.mem_cons_self
    cases ts with
    | nil => exact split_of_notMem ht
    | cons u us =>
      rw [joinWith, split_append_sep ht, ih (by simp) fun v hv => h v (List.mem_cons_of_mem t hv)]
      simp

theorem joinWith_split (sep : Char) (cs : List Char) : joinWith sep (split sep cs) = cs := by
  induction cs with
  | nil => rfl
  | cons d cs ih =>
    obtain ⟨piece, pieces, heq⟩ := List.exists_cons_of_ne_nil (split_ne_nil sep cs)
    rw [heq] at ih
    by_cases hd : d = sep
    · rw [split, if_pos hd, heq, joinWith, ih, hd, List.nil_append]
      simp
    · rw [split, if_neg hd, heq]
      cases pieces with
      | nil => rw [← ih]; rfl
      | cons u us => rw [← ih]; rfl

theorem octet?_write (o : UInt8) : octet? .plain (write 10 o.toNat) = some o := by
  have hlt := o.toNat_lt
  have hlength : (write 10 o.toNat).length ≤ 3 :=
    Nat.toDigits_length 10 o.toNat 3 (by decide) (by omega)
  have hzero : (write 10 o.toNat).head? = some '0' → (write 10 o.toNat).length = 1 := by
    intro h0
    obtain ho | ho := Nat.eq_zero_or_pos o.toNat
    · rw [ho]
      rfl
    · exact absurd h0 (head?_write_ne (by decide) ho)
  have hplain : ¬(3 < (write 10 o.toNat).length ∨ Strictness.plain.leadingZeros = false ∧
      1 < (write 10 o.toNat).length ∧ (write 10 o.toNat).head? = some '0') := by
    rintro (hlong | ⟨-, hmore, h0⟩)
    · omega
    · exact absurd (hzero h0) (by omega)
  rw [octet?, if_neg hplain, readBelow?, read?_write (by decide) (by decide)]
  simp [Option.filter, hlt]

theorem group?_write (g : UInt16) : group? (write 16 g.toNat) = some g := by
  have hlength : (write 16 g.toNat).length ≤ 4 :=
    Nat.toDigits_length 16 g.toNat 4 (by decide) g.toNat_lt
  rw [group?, if_neg (by omega), read?_write (by decide) (by decide)]
  simp

theorem notMem_write {base : Nat} (hbase : 1 < base) (hmax : base ≤ 16) {c : Char}
    (hc : digit? base c = none) (n : Nat) : c ∉ write base n := by
  intro hmem
  have hdigit := isSome_digit?_of_readOn? (readOn?_write hbase hmax n) c hmem
  rw [hc] at hdigit
  cases hdigit

theorem mapM_octet?_write (os : List UInt8) :
    (os.map fun o => write 10 o.toNat).mapM (octet? .plain) = some os := by
  induction os with
  | nil => rfl
  | cons o os ih =>
    rw [List.map_cons, List.mapM_cons, octet?_write, ih]
    rfl

theorem quad?_printIPv4 (a : IPv4) : quad? .plain (printIPv4 a) = some a := by
  have hne : (a.octets.map fun o => write 10 o.toNat) ≠ [] := by
    intro h
    have hlength := a.length_octets
    rw [List.map_eq_nil_iff.1 h] at hlength
    cases hlength
  have hsep : ∀ t ∈ a.octets.map fun o => write 10 o.toNat, '.' ∉ t := by
    intro t ht
    obtain ⟨o, -, rfl⟩ := List.mem_map.1 ht
    exact notMem_write (by decide) (by decide) (by decide) o.toNat
  rw [quad?, printIPv4, split_joinWith hne hsep, mapM_octet?_write]
  simp [a.length_octets]

theorem octet?_of_notDigit {c : Char} {cs : List Char} (hmem : c ∈ cs) (hc : digit? 10 c = none)
    (strict : Strictness) : octet? strict cs = none := by
  simp [octet?, readBelow?, read?, readOn?_of_notDigit hmem hc]

theorem mapM_eq_none {α β : Type} {f : α → Option β} {l : List α} {a : α} (hmem : a ∈ l)
    (ha : f a = none) : l.mapM f = none := by
  induction l with
  | nil => cases hmem
  | cons b l ih =>
    rw [List.mapM_cons]
    obtain rfl | hmem := List.mem_cons.1 hmem
    · rw [ha]
      rfl
    · rw [ih hmem]
      cases f b <;> rfl

theorem quad?_of_notDigit {c : Char} {cs : List Char} (hmem : c ∈ cs) (hpoint : c ≠ '.')
    (hc : digit? 10 c = none) (strict : Strictness) : quad? strict cs = none := by
  obtain ⟨p, hp, hcp⟩ := mem_split hmem hpoint
  rw [quad?, mapM_eq_none hp (octet?_of_notDigit hcp hc strict)]
  rfl

/-- A text with a colon is no dotted quad. -/
theorem quad?_of_colon {cs : List Char} (h : ':' ∈ cs) (strict : Strictness) :
    quad? strict cs = none := quad?_of_notDigit h (by decide) (by decide) strict

theorem groups?_write (strict : Strictness) (quads : Bool) (gs : List UInt16) :
    groups? strict quads (gs.map fun g => write 16 g.toNat) = some gs := by
  induction gs with
  | nil => rfl
  | cons g gs ih =>
    cases gs with
    | nil =>
      have hpoint : '.' ∉ write 16 g.toNat :=
        notMem_write (by decide) (by decide) (by decide) g.toNat
      simp [groups?, hpoint, group?_write]
    | cons h gs =>
      rw [List.map_cons] at ih
      simp only [List.map_cons, groups?, group?_write, ih]
      rfl

theorem split_printGroups {gs : List UInt16} (h : gs ≠ []) :
    split ':' (printGroups gs) = gs.map fun g => write 16 g.toNat := by
  refine split_joinWith (by simpa using h) fun t ht => ?_
  obtain ⟨g, -, rfl⟩ := List.mem_map.1 ht
  exact notMem_write (by decide) (by decide) (by decide) g.toNat

theorem joinWith_cons (sep : Char) (t : List Char) (ts : List (List Char)) :
    ∃ rest, joinWith sep (t :: ts) = t ++ rest := by
  cases ts with
  | nil => exact ⟨[], by simp [joinWith]⟩
  | cons u us => exact ⟨sep :: joinWith sep (u :: us), rfl⟩

theorem side?_printGroups (strict : Strictness) (quads : Bool) (gs : List UInt16) :
    side? strict quads (printGroups gs) = some gs := by
  cases gs with
  | nil => rfl
  | cons g gs =>
    have hne : ¬(printGroups (g :: gs)).isEmpty := by
      obtain ⟨rest, hrest⟩ :=
        joinWith_cons ':' (write 16 g.toNat) (gs.map fun h => write 16 h.toNat)
      rw [printGroups, List.map_cons, hrest]
      simp [write, Nat.toDigits_ne_nil]
    rw [side?, if_neg hne, split_printGroups (by simp), groups?_write]

/-- No gap begins in a text without colons. -/
theorem cutGap?_append {t : List Char} (h : ':' ∉ t) (rest : List Char) :
    cutGap? (t ++ rest) = (cutGap? rest).map fun (front, back) => (t ++ front, back) := by
  induction t with
  | nil => simp
  | cons c t ih =>
    rw [List.mem_cons, not_or] at h
    rw [List.cons_append, cutGap?.eq_3 _ _ (fun cs hc => absurd hc.symm h.1), ih h.2]
    cases cutGap? rest <;> rfl

/-- Texts that are not empty, joined by single colons, hold no gap. -/
theorem cutGap?_joinWith {ts : List (List Char)} (h : ∀ t ∈ ts, t ≠ [] ∧ ':' ∉ t)
    (rest : List Char) :
    cutGap? (joinWith ':' ts ++ rest) =
      (cutGap? rest).map fun (front, back) => (joinWith ':' ts ++ front, back) := by
  induction ts with
  | nil => simp [joinWith]
  | cons t ts ih =>
    have ht := (h t List.mem_cons_self).2
    cases ts with
    | nil => exact cutGap?_append ht rest
    | cons u us =>
      obtain ⟨hne, hu⟩ := h u (by simp)
      have hnext : ∀ cs, joinWith ':' (u :: us) ++ rest ≠ ':' :: cs := by
        obtain ⟨more, hmore⟩ := joinWith_cons ':' u us
        obtain ⟨c, cs, rfl⟩ := List.exists_cons_of_ne_nil hne
        intro ds hds
        simp only [hmore, List.cons_append, List.cons.injEq] at hds
        simp [hds.1] at hu
      have hrest := ih fun v hv => h v (List.mem_cons_of_mem t hv)
      rw [joinWith, List.append_assoc, cutGap?_append ht, List.cons_append,
        cutGap?.eq_3 _ _ (fun cs _ => hnext cs), hrest]
      · cases cutGap? rest <;> simp
      · simp

theorem leadingZeros_spec (gs : List UInt16) :
    List.replicate (leadingZeros gs) 0 ++ gs.drop (leadingZeros gs) = gs := by
  induction gs with
  | nil => rfl
  | cons g gs ih =>
    by_cases hg : g = 0
    · have hcount : leadingZeros (g :: gs) = leadingZeros gs + 1 := by simp [leadingZeros, hg]
      rw [hcount, List.replicate_succ, List.drop_succ_cons, List.cons_append, ih, hg]
    · simp [leadingZeros, hg]

/-- The first longest run is a run of zeros at its place. -/
theorem longestRun_spec (gs : List UInt16) :
    gs.take (longestRun gs).1 ++ List.replicate (longestRun gs).2 0 ++
      gs.drop ((longestRun gs).1 + (longestRun gs).2) = gs := by
  induction gs with
  | nil => rfl
  | cons g gs ih =>
    rw [longestRun]
    dsimp only
    split
    · simpa using leadingZeros_spec (g :: gs)
    · simpa [Nat.add_right_comm _ 1] using ih

theorem cutGap?_printGroups (gs : List UInt16) (rest : List Char) :
    cutGap? (printGroups gs ++ rest) =
      (cutGap? rest).map fun (front, back) => (printGroups gs ++ front, back) := by
  refine cutGap?_joinWith (fun t ht => ?_) rest
  obtain ⟨g, -, rfl⟩ := List.mem_map.1 ht
  exact ⟨Nat.toDigits_ne_nil, notMem_write (by decide) (by decide) (by decide) g.toNat⟩

theorem ipv6?_printGapped (a : IPv6) : ipv6? .plain (printGapped a.groups) = some a := by
  have hgroups : a.groups ≠ [] := by
    intro h
    have hlength := a.length_groups
    rw [h] at hlength
    cases hlength
  rw [printGapped]
  dsimp only
  split
  · have hcut : cutGap? (printGroups a.groups) = none := by
      simpa [cutGap?] using cutGap?_printGroups a.groups []
    rw [ipv6?, hcut]
    dsimp only
    rw [split_printGroups hgroups, groups?_write]
    simp [a.length_groups]
  · next hlong =>
    have hrun := longestRun_spec a.groups
    have hlength := congrArg List.length hrun
    -- From here on only the three parts matter, and that they make up the eight groups.
    generalize longestRun a.groups = run at hlong hrun hlength ⊢
    generalize a.groups.take run.1 = front at hrun hlength ⊢
    generalize a.groups.drop (run.1 + run.2) = back at hrun hlength ⊢
    simp only [List.length_append, List.length_replicate, a.length_groups] at hlength
    have hcut : cutGap? (printGroups front ++ ':' :: ':' :: printGroups back) =
        some (printGroups front, printGroups back) := by
      rw [cutGap?_printGroups, cutGap?.eq_2]
      simp
    have hfill : fillGap? 1 front back = some a.groups := by
      have hgap : 8 - front.length - back.length = run.2 := by omega
      rw [fillGap?, if_pos (by omega), hgap, hrun]
    rw [ipv6?, hcut]
    dsimp only
    rw [side?_printGroups, Option.bind_some, side?_printGroups, Option.bind_some,
      Strictness.plain, hfill]
    simp [a.length_groups]

theorem toUInt16_octets (g : UInt16) :
    (g >>> 8).toUInt8.toUInt16 * 256 + g.toUInt8.toUInt16 = g := by
  apply UInt16.toNat_inj.1
  have hlt := g.toNat_lt
  simp [Nat.shiftRight_eq_div_pow]
  omega

theorem toGroups_of_octets {b : IPv4} {g k : UInt16}
    (h : b.octets = octetsOfGroup g ++ octetsOfGroup k) : b.toGroups = [g, k] := by
  rw [IPv4.toGroups, h]
  simp only [octetsOfGroup, List.cons_append, List.nil_append]
  rw [toUInt16_octets, toUInt16_octets]

/-- An address that carries an IPv4 one is that address's groups after fixed ones. -/
theorem groups_of_canonical_eq_v4 {a : IPv6} {b : IPv4} (h : canonical (v6 a) = v4 b) :
    b.toGroups.length = 2 ∧ a.groups = [0, 0, 0, 0, 0, 0xffff] ++ b.toGroups := by
  rw [canonical] at h
  split at h
  · next g k hgroups =>
    cases h
    rw [toGroups_of_octets rfl, hgroups]
    exact ⟨rfl, rfl⟩
  · cases h

theorem mem_joinWith {sep : Char} {ts : List (List Char)} (h : 1 < ts.length) :
    sep ∈ joinWith sep ts := by
  cases ts with
  | nil => cases h
  | cons t ts =>
    cases ts with
    | nil => exact absurd h (by simp)
    | cons u us => simp [joinWith]

theorem groups?_printIPv4 (b : IPv4) :
    groups? .plain true (split ':' ("ffff:".toList ++ printIPv4 b)) =
      some (0xffff :: b.toGroups) := by
  have hcolon : ':' ∉ printIPv4 b := by
    -- A text with a colon is not read as a quad, and this one is.
    intro h
    have hquad := quad?_of_colon h .plain
    rw [quad?_printIPv4] at hquad
    cases hquad
  have hpoint : '.' ∈ printIPv4 b := mem_joinWith (by simp [b.length_octets])
  have hsplit : split ':' ("ffff".toList ++ ':' :: printIPv4 b) = ["ffff".toList, printIPv4 b] := by
    rw [split_append_sep (by decide), split_of_notMem hcolon]
  have hfront : group? "ffff".toList = some 0xffff := by decide +kernel
  change groups? .plain true (split ':' ("ffff".toList ++ ':' :: printIPv4 b)) = _
  rw [hsplit, groups?, hfront, groups?, if_pos ⟨rfl, hpoint⟩, quad?_printIPv4]
  · rfl
  · simp

theorem ipv6?_printIPv6 (a : IPv6) : ipv6? .plain (printIPv6 a) = some a := by
  rw [printIPv6]
  split
  · next b hb =>
    obtain ⟨hlength, hgroups⟩ := groups_of_canonical_eq_v4 hb
    have hcut : cutGap? ("::ffff:".toList ++ printIPv4 b) =
        some ([], "ffff:".toList ++ printIPv4 b) := rfl
    have hback : side? .plain true ("ffff:".toList ++ printIPv4 b) = some (0xffff :: b.toGroups) :=
      groups?_printIPv4 b
    have hfill : fillGap? 1 [] (0xffff :: b.toGroups) = some a.groups := by
      simp [fillGap?, hlength, hgroups, List.replicate]
    rw [ipv6?, hcut]
    dsimp only
    rw [hback]
    change ((fillGap? 1 [] (0xffff :: b.toGroups)).bind _) = _
    rw [hfill]
    simp [a.length_groups]
  · exact ipv6?_printGapped a

theorem colon_mem_printIPv6 (a : IPv6) : ':' ∈ printIPv6 a := by
  rw [printIPv6]
  split
  · simp
  · rw [printGapped]
    dsimp only
    split
    · exact mem_joinWith (by simp [a.length_groups])
    · simp

/-- The written form of an address is read as that address. -/
theorem ofText?_print (a : Address) : ofText? (print a) = some a := by
  cases a with
  | v4 a => rw [ofText?, print, quad?_printIPv4]
  | v6 a =>
    rw [ofText?, print, quad?_of_colon (colon_mem_printIPv6 a), ipv6?_printIPv6]
    rfl

end Address
end AdmissionGuard

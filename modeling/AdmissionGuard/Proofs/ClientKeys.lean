import AdmissionGuard.Http.Route
import AdmissionGuard.Proofs.AddressText
import Mathlib.Data.List.DropRight

/-! Client keys. Two texts name one client exactly if they spell one address, or are one text up to
the blanks around it. -/
namespace AdmissionGuard

namespace Text

def Blank (s : String) : Prop := ∀ c ∈ s.toList, isBlank c

instance (s : String) : Decidable (Blank s) :=
  decidable_of_iff (s.toList.all isBlank) List.all_eq_true

theorem trim_eq (cs : List Char) : trim cs = (cs.dropWhile isBlank).rdropWhile isBlank := rfl

theorem trim_eq_nil {cs : List Char} : trim cs = [] ↔ ∀ c ∈ cs, isBlank c := by
  rw [trim_eq, List.rdropWhile_eq_nil_iff]
  constructor
  · intro h
    -- What is left begins with no blank, so nothing is left.
    rw [← List.dropWhile_eq_nil_iff]
    by_contra hne
    have hpos := List.length_pos_of_ne_nil hne
    exact List.dropWhile_get_zero_not _ _ hpos (h _ (List.get_mem _ _))
  · intro h c hc
    exact h c ((List.dropWhile_suffix _).subset hc)

theorem trim_of_notBlank {cs : List Char} (h : ∀ c ∈ cs, ¬isBlank c) : trim cs = cs := by
  have hfront : cs.dropWhile isBlank = cs :=
    List.dropWhile_eq_self_iff.2 fun _ => h _ (List.getElem_mem _)
  rw [trim_eq, hfront]
  exact List.rdropWhile_eq_self_iff.2 fun _ => h _ (List.getLast_mem _)

theorem trim_trim (cs : List Char) : trim (trim cs) = trim cs := by
  have hfront : (trim cs).dropWhile isBlank = trim cs := by
    rw [List.dropWhile_eq_self_iff]
    intro hpos
    have hrest : trim cs <+: cs.dropWhile isBlank := List.rdropWhile_prefix _ _
    have hle := hrest.length_le
    rw [hrest.getElem hpos]
    exact List.dropWhile_get_zero_not _ _ (by omega)
  rw [trim_eq (trim cs), hfront, trim_eq, List.rdropWhile_idempotent]

theorem trim_blanks {u w : List Char} (hu : ∀ c ∈ u, isBlank c) (hw : ∀ c ∈ w, isBlank c)
    (cs : List Char) : trim (u ++ (cs ++ w)) = trim cs := by
  by_cases hblank : ∀ c ∈ cs, isBlank c
  · have hall : ∀ c ∈ u ++ (cs ++ w), isBlank c :=
      List.forall_mem_append.2 ⟨hu, List.forall_mem_append.2 ⟨hblank, hw⟩⟩
    rw [trim_eq_nil.2 hall, trim_eq_nil.2 hblank]
  · have hrest : ¬(cs.dropWhile isBlank).isEmpty := by
      rwa [List.isEmpty_iff, List.dropWhile_eq_nil_iff]
    have hfront : (u ++ (cs ++ w)).dropWhile isBlank = cs.dropWhile isBlank ++ w := by
      rw [List.dropWhile_append_of_pos hu, List.dropWhile_append, if_neg hrest]
    rw [trim_eq, hfront, List.rdropWhile, List.reverse_append, List.dropWhile_append_of_pos,
      ← List.rdropWhile, ← trim_eq]
    simpa using hw

theorem trimmed_trimmed (s : String) : trimmed (trimmed s) = trimmed s := by
  simp [trimmed, trim_trim]

theorem trimmed_of_blank {s : String} (h : Blank s) : trimmed s = "" := by
  rw [trimmed, trim_eq_nil.2 h]

theorem blank_trimmed {s : String} : Blank (trimmed s) ↔ Blank s := by
  rw [Blank, trimmed, String.toList_ofList, ← trim_eq_nil, trim_trim, trim_eq_nil, Blank]

theorem trimmed?_of_blank {s : String} (h : Blank s) : trimmed? s = none := by
  have hnil : trim s.toList = [] := trim_eq_nil.2 h
  simp [trimmed?, trimmed, hnil]

theorem trimmed?_of_notBlank {s : String} (h : ¬Blank s) : trimmed? s = some (trimmed s) := by
  have hne : trim s.toList ≠ [] := fun hnil => h (trim_eq_nil.1 hnil)
  simp [trimmed?, trimmed, hne]

/-- Digits are graphic ASCII characters. -/
theorem graphic_of_digit {base : Nat} {c : Char} (h : (digit? base c).isSome) :
    0x20 < c.toNat ∧ c.toNat < 0x7f := by
  simp only [digit?, le_iff_toNat_le, Char.reduceToNat] at h
  by_contra hrange
  have hdecimal : ¬(48 ≤ c.toNat ∧ c.toNat ≤ 57) := by omega
  have hlower : ¬(97 ≤ c.toNat ∧ c.toNat ≤ 102) := by omega
  have hupper : ¬(65 ≤ c.toNat ∧ c.toNat ≤ 70) := by omega
  simp [hdecimal, hlower, hupper] at h

theorem not_isBlank_of_digit {base : Nat} {c : Char} (h : (digit? base c).isSome) :
    ¬isBlank c := by
  have hgraphic := graphic_of_digit h
  simp only [isBlank, Bool.or_eq_true, Bool.and_eq_true, decide_eq_true_eq, beq_iff_eq]
  omega

theorem not_isBlank_write {base n : Nat} (hbase : 1 < base) (hmax : base ≤ 16) :
    ∀ c ∈ write base n, ¬isBlank c := fun c hc =>
  not_isBlank_of_digit (isSome_digit?_of_readOn? (readOn?_write hbase hmax n) c hc)

end Text

namespace Address
open Text

theorem forall_mem_joinWith {p : Char → Prop} {sep : Char} {ts : List (List Char)} (hsep : p sep)
    (h : ∀ t ∈ ts, ∀ c ∈ t, p c) : ∀ c ∈ joinWith sep ts, p c := by
  induction ts with
  | nil => simp [joinWith]
  | cons t ts ih =>
    rw [List.forall_mem_cons] at h
    cases ts with
    | nil => exact h.1
    | cons u us =>
      rw [joinWith, List.forall_mem_append, List.forall_mem_cons]
      · exact ⟨h.1, hsep, ih h.2⟩
      · simp

theorem not_isBlank_printIPv4 (a : IPv4) : ∀ c ∈ printIPv4 a, ¬isBlank c := by
  refine forall_mem_joinWith (by decide) fun t ht => ?_
  obtain ⟨o, -, rfl⟩ := List.mem_map.1 ht
  exact not_isBlank_write (by decide) (by decide)

theorem not_isBlank_printGroups (gs : List UInt16) : ∀ c ∈ printGroups gs, ¬isBlank c := by
  refine forall_mem_joinWith (by decide) fun t ht => ?_
  obtain ⟨g, -, rfl⟩ := List.mem_map.1 ht
  exact not_isBlank_write (by decide) (by decide)

theorem not_isBlank_printGapped (gs : List UInt16) : ∀ c ∈ printGapped gs, ¬isBlank c := by
  rw [printGapped]
  dsimp only
  split
  · exact not_isBlank_printGroups gs
  · have hcolon : ¬isBlank ':' := by decide
    rw [List.forall_mem_append, List.forall_mem_cons, List.forall_mem_cons]
    exact ⟨not_isBlank_printGroups _, hcolon, hcolon, not_isBlank_printGroups _⟩

/-- No blank is written in an address. -/
theorem not_isBlank_print (a : Address) : ∀ c ∈ print a, ¬isBlank c := by
  cases a with
  | v4 a => exact not_isBlank_printIPv4 a
  | v6 a =>
    rw [print, printIPv6]
    split
    · next b _ =>
      rw [List.forall_mem_append]
      exact ⟨by simp [isBlank], not_isBlank_printIPv4 b⟩
    · exact not_isBlank_printGapped a.groups

theorem ofString?_toString (a : Address) : ofString? a.toString = some a := by
  rw [ofString?, toString, String.toList_ofList, ofText?_print]

theorem toString_injective {a b : Address} (h : a.toString = b.toString) : a = b := by
  have hread := congrArg ofString? h
  rwa [ofString?_toString, ofString?_toString, Option.some.injEq] at hread

theorem trimmed_toString (a : Address) : trimmed a.toString = a.toString := by
  rw [trimmed, toString, String.toList_ofList, trim_of_notBlank (not_isBlank_print a)]

theorem not_blank_toString (a : Address) : ¬Blank a.toString := by
  intro h
  have hnil : print a = [] := by
    rw [List.eq_nil_iff_forall_not_mem]
    intro c hc
    refine not_isBlank_print a c hc (h c ?_)
    rwa [toString, String.toList_ofList]
  have hread := ofText?_print a
  rw [hnil] at hread
  cases hread

theorem canonical_canonical (a : Address) : a.canonical.canonical = a.canonical := by
  cases a with
  | v4 a => rfl
  | v6 a =>
    cases h : canonical (v6 a) with
    | v4 b => rfl
    | v6 b =>
      have hb : b = a := by
        rw [canonical] at h
        split at h
        · cases h
        · exact (v6.inj h).symm
      rw [hb] at h ⊢
      exact h

end Address

namespace ClientKey
open Text Address

def named (t : String) : String :=
  match ofString? t with
  | some a => a.canonical.toString
  | none => t

theorem named_of_some {t : String} {a : Address} (h : ofString? t = some a) :
    named t = a.canonical.toString := by
  rw [named, h]

theorem named_of_none {t : String} (h : ofString? t = none) : named t = t := by
  rw [named, h]

theorem named_toString (a : Address) : named a.canonical.toString = a.canonical.toString := by
  rw [named_of_some (ofString?_toString a.canonical), canonical_canonical]

theorem named_named (t : String) : named (named t) = named t := by
  cases h : ofString? t with
  | some a => rw [named_of_some h, named_toString]
  | none => rw [named_of_none h, named_of_none h]

theorem trimmed_named (x : String) : trimmed (named (trimmed x)) = named (trimmed x) := by
  cases h : ofString? (trimmed x) with
  | some a => rw [named_of_some h, trimmed_toString]
  | none => rw [named_of_none h, trimmed_trimmed]

theorem blank_named (x : String) : Blank (named (trimmed x)) ↔ Blank x := by
  cases h : ofString? (trimmed x) with
  | some a =>
    have hx : ¬Blank x := by
      intro hx
      rw [trimmed_of_blank hx] at h
      cases h
    rw [named_of_some h]
    exact iff_of_false (not_blank_toString a.canonical) hx
  | none => rw [named_of_none h, blank_trimmed]

theorem named_eq_iff (t u : String) :
    named t = named u ↔
      (∃ a b, ofString? t = some a ∧ ofString? u = some b ∧ a.canonical = b.canonical) ∨
        (ofString? t = none ∧ ofString? u = none ∧ t = u) := by
  cases ht : ofString? t with
  | some a =>
    cases hu : ofString? u with
    | some b =>
      rw [named_of_some ht, named_of_some hu]
      simpa using ⟨toString_injective, congrArg toString⟩
    | none =>
      have hne : a.canonical.toString ≠ u := by
        rintro rfl
        rw [ofString?_toString] at hu
        cases hu
      rw [named_of_some ht, named_of_none hu]
      simp [hne]
  | none =>
    cases hu : ofString? u with
    | some b =>
      have hne : t ≠ b.canonical.toString := by
        rintro rfl
        rw [ofString?_toString] at ht
        cases ht
      rw [named_of_none ht, named_of_some hu]
      simp [hne]
    | none =>
      rw [named_of_none ht, named_of_none hu]
      simp

theorem normalize_eq (x : String) :
    normalize x = if Blank x then none else some (named (trimmed x)) := by
  split
  · next h =>
    rw [normalize, trimmed?_of_blank h, Option.map_none]
  · next h =>
    rw [normalize, trimmed?_of_notBlank h, Option.map_some]
    cases hread : ofString? (trimmed x) with
    | some a => rw [named_of_some hread]
    | none => rw [named_of_none hread]

theorem normalize_eq_none (x : String) : normalize x = none ↔ Blank x := by
  rw [normalize_eq]
  split <;> simpa

theorem normalize_fixed {x k : String} (h : normalize x = some k) : normalize k = some k := by
  have hx : ¬Blank x := by
    rw [← normalize_eq_none, h]
    simp
  rw [normalize_eq, if_neg hx, Option.some.injEq] at h
  rw [← h, normalize_eq, if_neg (mt (blank_named x).1 hx), trimmed_named, named_named]

theorem normalize_eq_normalize (x y : String) :
    normalize x = normalize y ↔ named (trimmed x) = named (trimmed y) := by
  rw [normalize_eq x, normalize_eq y]
  constructor
  · intro h
    split at h
    · next hx =>
      split at h
      · next hy => rw [trimmed_of_blank hx, trimmed_of_blank hy]
      · cases h
    · split at h
      · cases h
      · exact Option.some.inj h
  · intro h
    -- A blank text and no other is named by a blank key.
    have hblank : Blank x ↔ Blank y := by rw [← blank_named x, h, blank_named]
    simp only [hblank, h]

/-- Both texts name one client: they are blank, spell one address, or are one text. -/
def SameClient (x y : String) : Prop :=
  (Blank x ∧ Blank y) ∨
    (∃ a b, ofString? (trimmed x) = some a ∧ ofString? (trimmed y) = some b ∧
      a.canonical = b.canonical) ∨
    (ofString? (trimmed x) = none ∧ ofString? (trimmed y) = none ∧ trimmed x = trimmed y)

theorem normalize_eq_iff (x y : String) : normalize x = normalize y ↔ SameClient x y := by
  rw [normalize_eq_normalize, named_eq_iff, SameClient]
  refine ⟨.inr, ?_⟩
  rintro (⟨hx, hy⟩ | h)
  · rw [trimmed_of_blank hx, trimmed_of_blank hy]
    exact .inr ⟨rfl, rfl, rfl⟩
  · exact h

theorem normalize_forwarded? {headers : List Http.Header} {k : String}
    (h : forwarded? headers = some k) : normalize k = some k := by
  rw [forwarded?] at h
  obtain h | ⟨-, h⟩ := Option.or_eq_some_iff.1 h
  · obtain ⟨v, -, hv⟩ := Option.bind_eq_some_iff.1 h
    obtain ⟨c, -, hc⟩ := Option.bind_eq_some_iff.1 hv
    exact normalize_fixed hc
  · obtain ⟨v, -, hv⟩ := Option.bind_eq_some_iff.1 h
    exact normalize_fixed hv

theorem normalize_ofPeer (peer : Option Address) :
    normalize (ofPeer peer) = some (ofPeer peer) := by
  cases peer with
  | some a =>
    rw [ofPeer, normalize_eq, if_neg (not_blank_toString a.canonical), trimmed_toString,
      named_toString]
  | none => decide +kernel

/-- The key of a request is in canonical form. -/
theorem normalize_ofRequest (trust : Bool) (headers : List Http.Header) (peer : Option Address) :
    normalize (ofRequest trust headers peer) = some (ofRequest trust headers peer) := by
  rw [ofRequest]
  split
  · cases h : forwarded? headers with
    | some k => exact normalize_forwarded? h
    | none => exact normalize_ofPeer peer
  · exact normalize_ofPeer peer

end ClientKey

namespace Http.Route
open Text ClientKey

/-- A client route looks up what the guard keeps for the key that its text names. -/
theorem answer_client (g : Guard) (now : Instant) {written raw k : String}
    (hwritten : percentDecoded? written = some raw) (hk : normalize raw = some k) :
    (client written).answer (some g) now =
      match g.clients.get? k with
      | some c => { status := .ok, body := .client k (c.status now) }
      | none => { status := .notFound, body := .untracked k } := by
  unfold answer
  dsimp only
  rw [hwritten]
  dsimp only
  rw [hk, Option.getD_some, Guard.status?]
  cases g.clients.get? k <;> rfl

end Http.Route

namespace ClientKey
open Text Address Http

/-- Client keys are canonical forms: texts have one key exactly if they name one client, each key of
a request is its own key, and the client route looks up the entry of its text's key. -/
theorem keys_are_canonical :
    (∀ x k, normalize x = some k → normalize k = some k) ∧
    (∀ x, normalize x = none ↔ Blank x) ∧
    (∀ x y, normalize x = normalize y ↔ SameClient x y) ∧
    (∀ x y a, ofString? (trimmed x) = some a → ofString? (trimmed y) = none →
      normalize x ≠ normalize y) ∧
    (∀ a : Address, ofString? a.canonical.toString = some a.canonical) ∧
    (∀ trust headers peer, ¬Blank (ofRequest trust headers peer) ∧
      normalize (ofRequest trust headers peer) = some (ofRequest trust headers peer)) ∧
    ∀ (g : Guard) (now : Instant) (written raw k : String),
      percentDecoded? written = some raw → normalize raw = some k →
        (Route.client written).answer (some g) now =
          match g.clients.get? k with
          | some c => { status := .ok, body := .client k (c.status now) }
          | none => { status := .notFound, body := .untracked k } := by
  refine ⟨fun _ _ => normalize_fixed, normalize_eq_none, normalize_eq_iff, ?_,
    fun a => ofString?_toString a.canonical, ?_, fun g now _ _ _ => Route.answer_client g now⟩
  · intro x y a hx hy h
    rw [normalize_eq_normalize, named_of_some hx, named_of_none hy] at h
    rw [← h, ofString?_toString] at hy
    cases hy
  · intro trust headers peer
    have hkey := normalize_ofRequest trust headers peer
    refine ⟨fun hblank => ?_, hkey⟩
    rw [(normalize_eq_none _).2 hblank] at hkey
    cases hkey

/-- A carried IPv4 address, in capitals and between blanks, is looked up as the IPv4 address. -/
theorem carried_address_is_one_client :
    let g := ((Guard.create (.ofOptions {}) .origin).check "1.2.3.4" .origin).guard
    let raw := " ::FFFF:1.2.3.4 "
    normalize raw = some "1.2.3.4" ∧ normalize "1.2.3.4" = some "1.2.3.4" ∧
      ofString? (trimmed raw) = some (.v6 ⟨[0, 0, 0, 0, 0, 0xffff, 0x102, 0x304], rfl⟩) ∧
      ofString? (trimmed "proxy") = none ∧ normalize raw ≠ normalize "proxy" ∧
      percentDecoded? "%20::FFFF:1.2.3.4%20" = some raw ∧
      ∃ c, g.clients.get? "1.2.3.4" = some c ∧
        (Route.client "%20::FFFF:1.2.3.4%20").answer (some g) .origin =
          { status := .ok, body := .client "1.2.3.4" (c.status .origin) } := by
  intro g raw
  obtain ⟨hfixed, -, -, hapart, -, -, hlookup⟩ := keys_are_canonical
  have hkey : normalize raw = some "1.2.3.4" := by decide +kernel
  have haddress : ofString? (trimmed raw) =
      some (.v6 ⟨[0, 0, 0, 0, 0, 0xffff, 0x102, 0x304], rfl⟩) := by decide +kernel
  have hproxy : ofString? (trimmed "proxy") = none := by decide +kernel
  have hraw : percentDecoded? "%20::FFFF:1.2.3.4%20" = some raw := by decide +kernel
  have htracked : (g.clients.get? "1.2.3.4").isSome := by decide +kernel
  obtain ⟨c, hc⟩ := Option.isSome_iff_exists.1 htracked
  have hanswer := hlookup g .origin _ _ _ hraw hkey
  rw [hc] at hanswer
  exact ⟨hkey, hfixed _ _ hkey, haddress, hproxy, hapart _ _ _ haddress hproxy, hraw, c, hc,
    hanswer⟩

end ClientKey
end AdmissionGuard

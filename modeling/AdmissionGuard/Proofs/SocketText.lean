import AdmissionGuard.Address.Socket
import AdmissionGuard.Proofs.AddressGrammar

/-! The texts of socket addresses: an address and a port, where one of IPv6 stands in brackets and may
name a scope. -/
namespace AdmissionGuard

namespace Text

theorem eq_of_cut? {sep : Char} {cs front back : List Char}
    (h : cut? sep cs = some (front, back)) : cs = front ++ sep :: back := by
  induction cs generalizing front with
  | nil => cases h
  | cons c cs ih =>
    rw [cut?] at h
    split at h
    · next hc =>
      cases h
      rw [hc, List.nil_append]
    · obtain ⟨⟨f, b⟩, hfb, h⟩ := Option.map_eq_some_iff.1 h
      cases h
      rw [ih hfb, List.cons_append]

theorem cut?_of_notMem {sep : Char} {cs : List Char} (h : sep ∉ cs) : cut? sep cs = none := by
  induction cs with
  | nil => rfl
  | cons c cs ih =>
    rw [List.mem_cons, not_or] at h
    rw [cut?, if_neg (Ne.symm h.1), ih h.2]
    rfl

end Text

namespace SocketAddress
open Text Address

def PortText (cs : List Char) (port : UInt16) : Prop :=
  cs ≠ [] ∧ (∀ c ∈ cs, c.isDigit) ∧ port.toNat = decimalValue cs

def ScopeText (cs : List Char) : Prop :=
  cs ≠ [] ∧ (∀ c ∈ cs, c.isDigit) ∧ decimalValue cs < 0x100000000

inductive SocketText : List Char → SocketAddress → Prop
  | v4 {cs ds a port} : QuadText cs a → PortText ds port → SocketText (cs ++ ':' :: ds) ⟨.v4 a, port⟩
  | v6 {cs ds a port} : IPv6Text cs a → PortText ds port →
      SocketText ('[' :: (cs ++ ']' :: ':' :: ds)) ⟨.v6 a, port⟩
  | v6Scoped {cs scope ds a port} : IPv6Text cs a → ScopeText scope → PortText ds port →
      SocketText ('[' :: (cs ++ '%' :: scope ++ ']' :: ':' :: ds)) ⟨.v6 a, port⟩

theorem port?_eq_some {cs : List Char} {port : UInt16} :
    port? cs = some port ↔ PortText cs port := by
  rw [port?, Option.map_eq_some_iff]
  constructor
  · intro h
    obtain ⟨n, hn, hport⟩ := h
    obtain ⟨hne, hdigits, hvalue, hlimit⟩ := readBelow?_eq_some.1 hn
    refine ⟨hne, hdigits, ?_⟩
    rw [← hport, ← hvalue]
    exact Nat.mod_eq_of_lt hlimit
  · intro h
    obtain ⟨hne, hdigits, hvalue⟩ := h
    exact ⟨port.toNat, readBelow?_eq_some.2 ⟨hne, hdigits, hvalue, port.toNat_lt⟩, port.ofNat_toNat⟩

theorem readBelow?_scope {cs : List Char} :
    (∃ n, readBelow? 0x100000000 cs = some n) ↔ ScopeText cs := by
  simp only [readBelow?_eq_some]
  constructor
  · intro h
    obtain ⟨n, hne, hdigits, hvalue, hlimit⟩ := h
    exact ⟨hne, hdigits, hvalue ▸ hlimit⟩
  · intro h
    obtain ⟨hne, hdigits, hlimit⟩ := h
    exact ⟨_, hne, hdigits, rfl, hlimit⟩

theorem notMem_of_ipv6Text {c : Char} (hc : Foreign c) {cs : List Char} {a : IPv6}
    (h : IPv6Text cs a) : c ∉ cs := by
  intro hmem
  have hread := ipv6?_of_foreign hc .plain hmem
  rw [ipv6?_eq_some.2 h] at hread
  cases hread

theorem scoped?_eq_some {cs : List Char} {a : IPv6} :
    scoped? cs = some a ↔
      IPv6Text cs a ∨ ∃ t scope, cs = t ++ '%' :: scope ∧ IPv6Text t a ∧ ScopeText scope := by
  have hpercent : Foreign '%' := ⟨by decide, by decide, by decide⟩
  constructor
  · intro h
    rw [scoped?] at h
    split at h
    · exact .inl (ipv6?_eq_some.1 h)
    · next t scope hcut =>
      obtain ⟨n, hn, ht⟩ := Option.bind_eq_some_iff.1 h
      exact .inr ⟨t, scope, eq_of_cut? hcut, ipv6?_eq_some.1 ht, readBelow?_scope.1 ⟨n, hn⟩⟩
  · intro h
    cases h with
    | inl h =>
      rw [scoped?, cut?_of_notMem (notMem_of_ipv6Text hpercent h)]
      exact ipv6?_eq_some.2 h
    | inr h =>
      obtain ⟨t, scope, rfl, ht, hscope⟩ := h
      obtain ⟨n, hn⟩ := readBelow?_scope.2 hscope
      rw [scoped?, cut?_append (notMem_of_ipv6Text hpercent ht)]
      dsimp only
      rw [hn, Option.bind_some, ipv6?_eq_some.2 ht]

theorem ofText?_bracket {cs ds : List Char} (hcs : ']' ∉ cs) :
    ofText? ('[' :: (cs ++ ']' :: ':' :: ds)) =
      (scoped? cs).bind fun a => (port? ds).map fun port => ⟨.v6 a, port⟩ := by
  rw [ofText?, cut?_append hcs]
  rfl

/-- A socket address is read from its texts and from no others. -/
theorem ofText?_eq_some {cs : List Char} {s : SocketAddress} :
    ofText? cs = some s ↔ SocketText cs s := by
  have hbracket : Foreign ']' := ⟨by decide, by decide, by decide⟩
  constructor
  · intro h
    unfold ofText? at h
    split at h
    · next rest =>
      split at h
      · next t ds hcut =>
        obtain ⟨a, ha, h⟩ := Option.bind_eq_some_iff.1 h
        obtain ⟨port, hport, rfl⟩ := Option.map_eq_some_iff.1 h
        rw [eq_of_cut? hcut]
        cases scoped?_eq_some.1 ha with
        | inl ha => exact .v6 ha (port?_eq_some.1 hport)
        | inr ha =>
          obtain ⟨u, scope, rfl, hu, hscope⟩ := ha
          exact .v6Scoped hu hscope (port?_eq_some.1 hport)
      · cases h
    · obtain ⟨⟨t, ds⟩, hcut, h⟩ := Option.bind_eq_some_iff.1 h
      obtain ⟨a, ha, h⟩ := Option.bind_eq_some_iff.1 h
      obtain ⟨port, hport, rfl⟩ := Option.map_eq_some_iff.1 h
      rw [eq_of_cut? hcut]
      exact .v4 (quad?_eq_some.1 ha) (port?_eq_some.1 hport)
  · intro h
    cases h with
    | @v4 t ds a port ht hport =>
      have hquad := quad?_eq_some.2 ht
      have hplain : ∀ rest, t ++ ':' :: ds ≠ '[' :: rest := by
        intro rest heq
        cases t with
        | nil => cases heq
        | cons c t =>
          rw [List.cons_append, List.cons.injEq] at heq
          rw [heq.1, quad?_of_foreign (c := '[') ⟨by decide, by decide, by decide⟩ .plain
            List.mem_cons_self] at hquad
          cases hquad
      rw [ofText?, cut?_append (colon_notMem_of_quadText ht), Option.bind_some]
      · dsimp only
        rw [hquad, Option.bind_some, port?_eq_some.2 hport]
        rfl
      · exact hplain
    | v6 ha hport =>
      rw [ofText?_bracket (notMem_of_ipv6Text hbracket ha), scoped?_eq_some.2 (.inl ha),
        Option.bind_some, port?_eq_some.2 hport]
      rfl
    | @v6Scoped t scope ds a port ha hscope hport =>
      have hclose : ']' ∉ t ++ '%' :: scope := by
        rw [List.mem_append, List.mem_cons, not_or, not_or]
        refine ⟨notMem_of_ipv6Text hbracket ha, by decide, fun hmem => ?_⟩
        exact absurd (hscope.2.1 _ hmem) (by decide)
      rw [ofText?_bracket hclose, scoped?_eq_some.2 (.inr ⟨t, scope, rfl, ha, hscope⟩),
        Option.bind_some, port?_eq_some.2 hport]
      rfl

theorem isSome_ofString? (s : String) :
    (ofString? s).isSome ↔ ∃ a, SocketText s.toList a := by
  rw [ofString?, Option.isSome_iff_exists]
  simp only [ofText?_eq_some]

end SocketAddress
end AdmissionGuard

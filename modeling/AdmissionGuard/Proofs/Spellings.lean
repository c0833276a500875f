import AdmissionGuard.Proofs.ClientKeys
import AdmissionGuard.Proofs.Membership

/-! Spellings of a client. Whether a text is on the allowlist depends on the address that it spells
alone, so the key of a request is on it exactly if the text is that the request gives. -/
namespace AdmissionGuard

namespace Allowlist
open Text ClientKey

theorem contains_eq (l : Allowlist) (client : String) :
    l.contains client =
      match Address.ofString? (trimmed client) with
      | some a => decide (l.ContainsAddress a)
      | none => false := by
  rw [Address.ofString?_trimmed]
  rfl

theorem containsAddress_canonical (l : Allowlist) (a : Address) :
    l.ContainsAddress a.canonical ↔ l.ContainsAddress a := by
  rw [ContainsAddress, Address.canonical_canonical, ContainsAddress]

/-- A list does not tell a text from what the text names. -/
theorem contains_named (l : Allowlist) (raw : String) :
    l.contains (named (trimmed raw)) = l.contains raw := by
  rw [contains_eq, contains_eq, trimmed_named]
  cases h : Address.ofString? (trimmed raw) with
  | some a =>
    rw [named_of_some h, Address.ofString?_toString]
    exact decide_eq_decide.2 (l.containsAddress_canonical a)
  | none => rw [named_of_none h, h]

theorem contains_of_normalize (l : Allowlist) {raw k : String} (h : normalize raw = some k) :
    l.contains raw = l.contains k := by
  rw [normalize_eq] at h
  split at h
  · cases h
  · rw [← Option.some.inj h, contains_named]

theorem contains_of_blank (l : Allowlist) {raw : String} (h : Blank raw) :
    l.contains raw = false := by
  have hnone : Address.ofString? "" = none := by decide
  rw [contains_eq, trimmed_of_blank h, hnone]

theorem contains_eq_of_normalize_eq (l : Allowlist) {x y : String}
    (h : normalize x = normalize y) : l.contains x = l.contains y := by
  rw [← contains_named, (normalize_eq_normalize x y).1 h, contains_named]

theorem contains_unknown (l : Allowlist) : l.contains unknown = false := by
  have hnone : Address.ofString? (trimmed unknown) = none := by decide +kernel
  rw [contains_eq, hnone]

end Allowlist

namespace ClientKey
open Text

def firstForwarded? (headers : List Http.Header) : Option String :=
  (Http.firstText? headers "x-forwarded-for").bind fun v =>
    (split ',' v.toList).head?.map String.ofList

def given? (field : Option String) : Option String := field.filter fun t => ¬Blank t

def rawOfRequest? (trustForwarded : Bool) (headers : List Http.Header) (peer : Option Address) :
    Option String :=
  let peer? := peer.map Address.toString
  if trustForwarded then
    (given? (firstForwarded? headers)).or ((given? (Http.firstText? headers "x-real-ip")).or peer?)
  else peer?

theorem bind_normalize (field : Option String) :
    field.bind normalize = (given? field).map fun t => named (trimmed t) := by
  cases field with
  | none => rfl
  | some t =>
    rw [Option.bind_some, normalize_eq, given?, Option.filter_some]
    split <;> simp [*]

theorem forwarded?_eq (headers : List Http.Header) :
    forwarded? headers =
      ((firstForwarded? headers).bind normalize).or
        ((Http.firstText? headers "x-real-ip").bind normalize) := by
  simp only [forwarded?, firstForwarded?, Option.bind_assoc, Option.bind_map, Function.comp_def]

theorem ofPeer_eq (peer : Option Address) :
    ofPeer peer = ((peer.map Address.toString).map fun t => named (trimmed t)).getD unknown := by
  cases peer with
  | none => rfl
  | some a =>
    have hread : Address.ofString? (trimmed a.toString) = some a := by
      rw [Address.trimmed_toString, Address.ofString?_toString]
    rw [ofPeer, Option.map_some, Option.map_some, Option.getD_some, named_of_some hread]

/-- The key of a request is what the text names that the request gives for its client. -/
theorem ofRequest_eq (trust : Bool) (headers : List Http.Header) (peer : Option Address) :
    ofRequest trust headers peer =
      ((rawOfRequest? trust headers peer).map fun t => named (trimmed t)).getD unknown := by
  cases trust with
  | false => exact ofPeer_eq peer
  | true =>
    rw [ofRequest, rawOfRequest?, if_pos rfl, if_pos rfl, forwarded?_eq, bind_normalize,
      bind_normalize, ofPeer_eq]
    simp only [Option.map_or, Option.getD_or]

theorem contains_ofRequest (l : Allowlist) (trust : Bool) (headers : List Http.Header)
    (peer : Option Address) :
    l.contains (ofRequest trust headers peer) =
      (rawOfRequest? trust headers peer).any l.contains := by
  rw [ofRequest_eq]
  cases rawOfRequest? trust headers peer with
  | none => exact l.contains_unknown
  | some raw => rw [Option.map_some, Option.getD_some, Option.any_some, l.contains_named]

end ClientKey

namespace Guard
open Text ClientKey

theorem answer_eq_exempt_iff (limits : Limits) (start : Instant) (calls : List Call)
    (client : String) (now : Instant) :
    ((reached limits start calls).check client now).answer = .exempt ↔
      (Allowlist.ofEntries limits.allowlist).contains client = true := by
  constructor
  · intro hexempt
    by_contra hoff
    obtain ⟨c₀, d, c, b, -, hj, hd, -⟩ :=
      own_check limits start calls now (Bool.eq_false_of_not_eq_true hoff)
    rw [hd] at hexempt
    rw [hexempt] at hj
    cases hj
  · intro hon
    rw [check_exempt _ now ((reached_contains limits start calls client).trans hon)]

/-- Whether a client is exempt does not depend on how its text spells its address: a text is on the
list exactly if its key is, texts with one key are on it together, and a text without a key is not.
So the key of a request is exempt exactly if the text is that the request gives, and the key of a
client that cannot be told never is. -/
theorem exemption_ignores_spelling (limits : Limits) :
    let l := Allowlist.ofEntries limits.allowlist
    (∀ raw k, normalize raw = some k → l.contains raw = l.contains k) ∧
    (∀ raw, normalize raw = none → l.contains raw = false) ∧
    (∀ x y, normalize x = normalize y → l.contains x = l.contains y) ∧
    (∀ trust headers peer, l.contains (ofRequest trust headers peer) =
      (rawOfRequest? trust headers peer).any l.contains) ∧
    l.contains unknown = false ∧
    ∀ start calls now,
      let exempts client := ((reached limits start calls).check client now).answer = .exempt
      (∀ raw k, normalize raw = some k → (exempts k ↔ exempts raw)) ∧
      (∀ trust headers peer, exempts (ofRequest trust headers peer) ↔
        ∃ raw, rawOfRequest? trust headers peer = some raw ∧ exempts raw) ∧
      ¬exempts unknown := by
  intro l
  refine ⟨fun raw k => l.contains_of_normalize, fun raw h => ?_,
    fun x y => l.contains_eq_of_normalize_eq, contains_ofRequest l, l.contains_unknown,
    fun start calls now => ?_⟩
  · exact l.contains_of_blank ((normalize_eq_none raw).1 h)
  · simp only [answer_eq_exempt_iff]
    refine ⟨fun raw k h => ?_, fun trust headers peer => ?_, ?_⟩
    · rw [l.contains_of_normalize h]
    · rw [contains_ofRequest, Option.any_eq_true]
    · rw [l.contains_unknown]
      exact Bool.false_ne_true

/-- An address of an exempt network in its carried form: as a text between blanks, and as the peer of
a connection. -/
theorem carried_spelling_is_exempt :
    let l := Allowlist.ofEntries Limits.strict.allowlist
    let raw := "\t::FFFF:a04:506 "
    let peer : Address := .v6 ⟨[0, 0, 0, 0, 0, 0xffff, 0xa04, 0x506], rfl⟩
    normalize raw = some "10.4.5.6" ∧ normalize " " = none ∧
      normalize raw = normalize "::ffff:10.4.5.6" ∧ l.contains "10.4.5.6" = true ∧
      l.contains raw = true ∧ l.contains "::ffff:10.4.5.6" = true ∧ l.contains " " = false ∧
      ∀ start calls now,
        ((reached .strict start calls).check raw now).answer = .exempt ∧
        ((reached .strict start calls).check (ofRequest false [] (some peer)) now).answer =
          .exempt := by
  intro l raw peer
  obtain ⟨hkey, hnone, hsame, -, -, hguard⟩ := exemption_ignores_spelling .strict
  have hraw : normalize raw = some "10.4.5.6" := by decide +kernel
  have hblank : normalize " " = none := by decide +kernel
  have hcarried : normalize raw = normalize "::ffff:10.4.5.6" := by decide +kernel
  have hpeer : normalize peer.toString = some "10.4.5.6" := by decide +kernel
  have hon : l.contains "10.4.5.6" = true := by decide +kernel
  have hrawOn : l.contains raw = true := (hkey _ _ hraw).trans hon
  refine ⟨hraw, hblank, hcarried, hon, hrawOn, (hsame _ _ hcarried).symm.trans hrawOn,
    hnone _ hblank, fun start calls now => ?_⟩
  obtain ⟨htext, hrequest, -⟩ := hguard start calls now
  have hexempt : ((reached .strict start calls).check "10.4.5.6" now).answer = .exempt :=
    (answer_eq_exempt_iff .strict start calls _ now).2 hon
  refine ⟨(htext _ _ hraw).1 hexempt, (hrequest false [] (some peer)).2 ⟨peer.toString, ?_, ?_⟩⟩
  · rfl
  · exact (htext _ _ hpeer).1 hexempt

end Guard
end AdmissionGuard

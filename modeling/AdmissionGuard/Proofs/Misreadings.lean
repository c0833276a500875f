import AdmissionGuard.Proofs.SocketText
import AdmissionGuard.Proofs.Variables

/-! What an environment comes to. Of the variables that do not hold a value of their type the first
one is the error, whatever the others hold. If there is none, the server options are checked, and a
variable that holds nothing leaves its default. -/
namespace AdmissionGuard

namespace Environment

def Holds (env : Environment) (name value : String) : Prop :=
  (∃ s : String, env name = some s.toUTF8 ∧ Text.trimmed s = value) ∧ value ≠ ""

/-- The variable holds a text of `a`, or nothing, and then `a` is the default. -/
def Settles {α : Type} (env : Environment) (name : String) (Written : String → α → Prop)
    (default a : α) : Prop :=
  (∃ value, env.Holds name value ∧ Written value a) ∨
    (∀ value, ¬env.Holds name value) ∧ a = default

end Environment

structure TypedVariable where
  name : String
  Readable : String → Prop

def FlagText (value : String) (b : Bool) : Prop :=
  value = "true" ∧ b = true ∨ value = "false" ∧ b = false

def NumberText (value : String) (n : Int) : Prop := Text.IntegerText value.toList n

/-- The text is some pieces with commas between them, and the entries are the pieces without the
blanks around them, those left out of which nothing remains. -/
def ListText (value : String) (entries : List String) : Prop :=
  ∃ pieces : List (List Char), pieces ≠ [] ∧ (∀ p ∈ pieces, ',' ∉ p) ∧
    value.toList = Address.joinWith ',' pieces ∧
    entries = (pieces.map fun p => Text.trimmed (String.ofList p)).filter (· ≠ "")

namespace TypedVariable

def flag (name : String) : TypedVariable := ⟨name, fun value => ∃ b, FlagText value b⟩

def number (name : String) : TypedVariable := ⟨name, fun value => ∃ n, NumberText value n⟩

/-- In the order in which they are read. -/
def all : List TypedVariable := [
  flag "TRUST_FORWARDED_HEADERS", flag "DDOS_GUARD_ENABLED",
  number "DDOS_GUARD_PER_IP_PER_MINUTE", number "DDOS_GUARD_PER_IP_BURST",
  number "DDOS_GUARD_GLOBAL_PER_MINUTE", number "DDOS_GUARD_GLOBAL_BURST",
  number "DDOS_GUARD_STRIKE_THRESHOLD", number "DDOS_GUARD_BLOCK_SECONDS"]

end TypedVariable

namespace Environment

def Misreads (env : Environment) (v : TypedVariable) (value : String) : Prop :=
  env.Holds v.name value ∧ ¬v.Readable value

def FirstMisread (env : Environment) (vs : List TypedVariable) (name value : String) : Prop :=
  ∃ before v after, vs = before ++ v :: after ∧ (∀ u ∈ before, ∀ w, ¬env.Misreads u w) ∧
    v.name = name ∧ env.Misreads v value

structure Describes (env : Environment) (s : Settings) : Prop where
  bindAddress : env.Settles "BIND_ADDR" (fun value a => a = value)
    ({} : ServerOptions).bindAddress s.server.bindAddress
  logLevel : env.Settles "LOG_LEVEL" (fun value a => a = value)
    ({} : ServerOptions).logLevel s.server.logLevel
  trustForwarded : env.Settles "TRUST_FORWARDED_HEADERS" FlagText
    ({} : ServerOptions).trustForwarded s.server.trustForwarded
  enabled : env.Settles "DDOS_GUARD_ENABLED" FlagText ({} : GuardOptions).enabled s.guard.enabled
  perClientPerMinute : env.Settles "DDOS_GUARD_PER_IP_PER_MINUTE" NumberText
    ({} : GuardOptions).perClientPerMinute s.guard.perClientPerMinute
  perClientBurst : env.Settles "DDOS_GUARD_PER_IP_BURST" NumberText
    ({} : GuardOptions).perClientBurst s.guard.perClientBurst
  globalPerMinute : env.Settles "DDOS_GUARD_GLOBAL_PER_MINUTE" NumberText
    ({} : GuardOptions).globalPerMinute s.guard.globalPerMinute
  globalBurst : env.Settles "DDOS_GUARD_GLOBAL_BURST" NumberText
    ({} : GuardOptions).globalBurst s.guard.globalBurst
  strikeThreshold : env.Settles "DDOS_GUARD_STRIKE_THRESHOLD" NumberText
    ({} : GuardOptions).strikeThreshold s.guard.strikeThreshold
  blockSeconds : env.Settles "DDOS_GUARD_BLOCK_SECONDS" NumberText
    ({} : GuardOptions).blockSeconds s.guard.blockSeconds
  allowlist : env.Settles "DDOS_GUARD_WHITELIST" ListText
    ({} : GuardOptions).allowlist s.guard.allowlist

/-! ### One variable -/

theorem fromUTF8?_eq_some {bytes : ByteArray} {s : String} :
    String.fromUTF8? bytes = some s ↔ bytes = s.toUTF8 := by
  constructor
  · intro h
    rw [String.fromUTF8?] at h
    split at h
    · cases h
      rfl
    · cases h
  · rintro rfl
    exact fromUTF8?_toUTF8 s

theorem trimmed?_eq (s : String) :
    Text.trimmed? s = if Text.trimmed s = "" then none else some (Text.trimmed s) := by
  simp only [Text.trimmed?, String.isEmpty_iff]

theorem trimmed?_eq_some {s value : String} :
    Text.trimmed? s = some value ↔ Text.trimmed s = value ∧ value ≠ "" := by
  rw [trimmed?_eq]
  split
  · next hempty =>
    rw [hempty]
    exact iff_of_false nofun fun h => h.2 h.1.symm
  · next hempty =>
    rw [Option.some.injEq]
    exact ⟨fun h => ⟨h, h ▸ hempty⟩, And.left⟩

section
variable {env : Environment} {name value : String}

theorem text?_eq_some : env.text? name = some value ↔ env.Holds name value := by
  simp only [text?, string?, Option.bind_eq_some_iff, fromUTF8?_eq_some, trimmed?_eq_some, Holds]
  constructor
  · rintro ⟨s, ⟨_, hset, rfl⟩, htrimmed, hne⟩
    exact ⟨⟨s, hset, htrimmed⟩, hne⟩
  · rintro ⟨⟨s, hset, htrimmed⟩, hne⟩
    exact ⟨s, ⟨_, hset, rfl⟩, htrimmed, hne⟩

theorem text?_eq_none : env.text? name = none ↔ ∀ value, ¬env.Holds name value := by
  simp only [Option.eq_none_iff_forall_ne_some, ne_eq, text?_eq_some]

section
variable {α : Type} {Written : String → α → Prop} {default a : α}

theorem settles_of_none (h : env.text? name = none) :
    env.Settles name Written default a ↔ a = default := by
  have hnone := text?_eq_none.1 h
  simp [Settles, hnone]

theorem settles_of_some (h : env.text? name = some value) :
    env.Settles name Written default a ↔ Written value a := by
  have hholds := text?_eq_some.1 h
  constructor
  · rintro (⟨w, hw, hwritten⟩ | ⟨hnone, -⟩)
    · rw [← text?_eq_some, h] at hw
      cases hw
      exact hwritten
    · exact absurd hholds (hnone value)
  · intro hwritten
    exact .inl ⟨value, hholds, hwritten⟩

theorem settles_map {f : String → α} (hf : ∀ {value a}, f value = a ↔ Written value a) :
    env.Settles name Written default a ↔ ((env.text? name).map f).getD default = a := by
  cases h : env.text? name with
  | none => rw [settles_of_none h, eq_comm]; rfl
  | some value => rw [settles_of_some h, ← hf]; rfl

theorem settles_text {default a : String} :
    env.Settles name (fun value a => a = value) default a ↔ (env.text? name).getD default = a := by
  have hmap : env.Settles name (fun value a => a = value) default a ↔
      ((env.text? name).map id).getD default = a := settles_map eq_comm
  rwa [Option.map_id_fun] at hmap

variable {read? : List Char → Option α}
  (hread : ∀ {value a}, read? value.toList = some a ↔ Written value a)
include hread

theorem readD_eq_ok : env.readD name read? default = .ok a ↔
    env.Settles name Written default a := by
  cases h : env.text? name with
  | none => simp [readD, h, settles_of_none h, eq_comm (a := a)]
  | some value =>
    rw [settles_of_some h, ← hread]
    cases hvalue : read? value.toList <;> simp [readD, h, hvalue]

theorem misreads_iff (default : α) :
    env.Misreads ⟨name, fun value => ∃ a, Written value a⟩ value ↔
      env.readD name read? default = .error (.badVariable name value) := by
  simp only [Misreads, ← text?_eq_some, ← hread]
  cases h : env.text? name with
  | none => simp [readD, h]
  | some w =>
    cases hvalue : read? w.toList <;> simp [readD, h, hvalue] <;> rintro rfl <;> simp [hvalue]

omit hread in
theorem badVariable_of_readD {e : SettingsError} (h : env.readD name read? default = .error e) :
    ∃ value, e = .badVariable name value := by
  rw [readD] at h
  split at h
  · cases h
  · split at h
    · cases h
    · cases h
      exact ⟨_, rfl⟩

end

end

/-! ### The chain of variables -/

section
variable {env : Environment} {v : TypedVariable} {vs : List TypedVariable} {name value : String}

theorem not_firstMisread_nil : ¬env.FirstMisread [] name value := by
  rintro ⟨before, v, after, hvs, -⟩
  simp at hvs

theorem firstMisread_cons : env.FirstMisread (v :: vs) name value ↔
    v.name = name ∧ env.Misreads v value ∨
      (∀ w, ¬env.Misreads v w) ∧ env.FirstMisread vs name value := by
  constructor
  · rintro ⟨_ | ⟨u, before⟩, x, after, hvs, hbefore, hname, hx⟩
    · cases hvs
      exact .inl ⟨hname, hx⟩
    · cases hvs
      rw [List.forall_mem_cons] at hbefore
      exact .inr ⟨hbefore.1, before, x, after, rfl, hbefore.2, hname, hx⟩
  · rintro (⟨hname, hv⟩ | ⟨hv, before, x, after, rfl, hbefore, hname, hx⟩)
    · exact ⟨[], v, vs, rfl, by simp, hname, hv⟩
    · exact ⟨v :: before, x, after, rfl, List.forall_mem_cons.2 ⟨hv, hbefore⟩, hname, hx⟩

/-- Some variable is the first one exactly if there is any. -/
theorem exists_firstMisread :
    (∃ name value, env.FirstMisread vs name value) ↔ ∃ v ∈ vs, ∃ value, env.Misreads v value := by
  induction vs with
  | nil => simp [not_firstMisread_nil]
  | cons v vs ih =>
    simp only [firstMisread_cons, List.exists_mem_cons_iff, ← ih]
    by_cases hv : ∃ w, env.Misreads v w
    · obtain ⟨w, hw⟩ := hv
      exact iff_of_true ⟨v.name, w, .inl ⟨rfl, hw⟩⟩ (.inl ⟨w, hw⟩)
    · simp [not_exists.1 hv]

end

section
variable {α β : Type} {env : Environment} {name : String} {Written : String → α → Prop}
  {default : α} {read? : List Char → Option α} {f : α → Except SettingsError β}
  (hread : ∀ {value a}, read? value.toList = some a ↔ Written value a)
include hread

/-- A variable is the first misread one, or it is read and leaves that to the others. -/
theorem bind_readD_eq_badVariable {vs : List TypedVariable} {n value : String}
    (hf : ∀ a, f a = .error (.badVariable n value) ↔ env.FirstMisread vs n value) :
    (env.readD name read? default >>= f) = .error (.badVariable n value) ↔
      env.FirstMisread (⟨name, fun value => ∃ a, Written value a⟩ :: vs) n value := by
  simp only [firstMisread_cons, misreads_iff hread default]
  cases hx : env.readD name read? default with
  | ok a => simp [bind, Except.bind, hf]
  | error e =>
    obtain ⟨w, rfl⟩ := badVariable_of_readD hx
    simp [bind, Except.bind]

theorem bind_readD_eq {r : Except SettingsError β}
    (hr : ∀ name value, r ≠ .error (.badVariable name value)) :
    (env.readD name read? default >>= f) = r ↔
      ∃ a, env.Settles name Written default a ∧ f a = r := by
  simp only [← readD_eq_ok hread]
  cases hx : env.readD name read? default with
  | ok a => simp [bind, Except.bind]
  | error e =>
    obtain ⟨w, rfl⟩ := badVariable_of_readD hx
    simp [bind, Except.bind, (hr name w).symm]

end

end Environment

/-! ### The options that are checked -/

namespace CheckedOption

def valueIn (o : ServerOptions) : CheckedOption → String
  | bindAddress => o.bindAddress
  | logLevel => o.logLevel

def Allows : CheckedOption → String → Prop
  | bindAddress, value => (SocketAddress.ofString? value).isSome
  | logLevel, value => value.map Char.toLower ∈ ["trace", "debug", "info", "warn", "error"]

instance : (c : CheckedOption) → (value : String) → Decidable (c.Allows value)
  | bindAddress, value => inferInstanceAs (Decidable ((SocketAddress.ofString? value).isSome))
  | logLevel, value => inferInstanceAs (Decidable (value.map Char.toLower ∈ _))

theorem allows_bindAddress (value : String) :
    bindAddress.Allows value ↔ ∃ a, SocketAddress.SocketText value.toList a :=
  SocketAddress.isSome_ofString? value

end CheckedOption

def ServerOptions.failing (o : ServerOptions) : List Flaw :=
  ([.bindAddress, .logLevel].filter fun c : CheckedOption => ¬c.Allows (c.valueIn o)).map fun c =>
    ⟨c, c.valueIn o⟩

theorem Level.isSome_ofString? (s : String) :
    (Level.ofString? s).isSome ↔ CheckedOption.logLevel.Allows s := by
  rw [Level.ofString?, CheckedOption.Allows]
  split <;> simp_all

theorem ServerOptions.flaws_eq_failing (o : ServerOptions) : o.flaws = o.failing := by
  have haddress : (SocketAddress.ofString? o.bindAddress).isSome ↔
      CheckedOption.bindAddress.Allows o.bindAddress := Iff.rfl
  have hlevel := Level.isSome_ofString? o.logLevel
  simp only [flaws, failing, haddress, hlevel]
  by_cases ha : CheckedOption.bindAddress.Allows o.bindAddress <;>
    by_cases hl : CheckedOption.logLevel.Allows o.logLevel <;>
      simp [CheckedOption.valueIn, ha, hl]

namespace Settings

theorem validated_eq (s : Settings) : s.validated =
    if s.server.failing = [] then .ok s else .error (.invalid s.server.failing) := by
  simp only [validated, ServerOptions.flaws_eq_failing, List.isEmpty_iff]

theorem validated_eq_ok {s t : Settings} :
    s.validated = .ok t ↔ s = t ∧ s.server.failing = [] := by
  rw [validated_eq]
  split <;> simp [*]

theorem validated_eq_invalid {s : Settings} {flaws : List Flaw} :
    s.validated = .error (.invalid flaws) ↔ s.server.failing = flaws ∧ flaws ≠ [] := by
  rw [validated_eq]
  split
  · next hnone => simp [hnone, eq_comm]
  · next hsome =>
    simp only [Except.error.injEq, SettingsError.invalid.injEq]
    exact ⟨fun h => ⟨h, h ▸ hsome⟩, And.left⟩

theorem validated_ne_badVariable (s : Settings) (name value : String) :
    s.validated ≠ .error (.badVariable name value) := by
  rw [validated]
  split <;> simp

end Settings

/-! ### The environment as a whole -/

namespace Environment

theorem readFlag?_eq_some {value : String} {b : Bool} :
    readFlag? value.toList = some b ↔ FlagText value b := by
  have htext : ∀ s : String, value.toList = s.toList ↔ value = s := fun s => String.toList_inj
  have htrue : value.toList = ['t', 'r', 'u', 'e'] ↔ value = "true" := by simpa using htext "true"
  have hfalse : value.toList = ['f', 'a', 'l', 's', 'e'] ↔ value = "false" := by
    simpa using htext "false"
  simp only [readFlag?, htrue, hfalse, FlagText]
  by_cases ht : value = "true"
  · simp [ht, eq_comm]
  · by_cases hf : value = "false" <;> simp [ht, hf, eq_comm]

theorem filterMap_trimmed? (pieces : List (List Char)) :
    (pieces.filterMap fun p => Text.trimmed? (String.ofList p)) =
      (pieces.map fun p => Text.trimmed (String.ofList p)).filter (· ≠ "") := by
  induction pieces with
  | nil => rfl
  | cons p pieces ih =>
    rw [List.filterMap_cons, List.map_cons, List.filter_cons, ih, trimmed?_eq]
    by_cases hempty : Text.trimmed (String.ofList p) = "" <;> simp [hempty]

theorem splitEntries_eq {value : String} {entries : List String} :
    splitEntries value = entries ↔ ListText value entries := by
  rw [splitEntries, filterMap_trimmed?]
  constructor
  · rintro rfl
    exact ⟨_, Text.split_ne_nil _ _, Text.notMem_split _ _, (Address.joinWith_split _ _).symm, rfl⟩
  · rintro ⟨pieces, hne, hcomma, hvalue, rfl⟩
    rw [hvalue, Address.split_joinWith hne hcomma]

theorem readInt?_eq_some {value : String} {n : Int} :
    Text.readInt? value.toList = some n ↔ NumberText value n := Text.readInt?_eq_some_iff

end Environment

namespace Settings

open Environment

theorem ofEnvironment_eq_badVariable {env : Environment} {name value : String} :
    ofEnvironment env = .error (.badVariable name value) ↔
      env.FirstMisread TypedVariable.all name value := by
  dsimp only [ofEnvironment]
  refine bind_readD_eq_badVariable readFlag?_eq_some fun _ => ?_
  refine bind_readD_eq_badVariable readFlag?_eq_some fun _ => ?_
  iterate 6 refine bind_readD_eq_badVariable readInt?_eq_some fun _ => ?_
  exact iff_of_false (validated_ne_badVariable _ _ _) not_firstMisread_nil

/-- Any other outcome is that of the check of the settings that the environment describes. -/
theorem ofEnvironment_eq {env : Environment} {r : Except SettingsError Settings}
    (hr : ∀ name value, r ≠ .error (.badVariable name value)) :
    ofEnvironment env = r ↔ ∃ s, env.Describes s ∧ s.validated = r := by
  dsimp only [ofEnvironment]
  simp only [bind_readD_eq readFlag?_eq_some hr, bind_readD_eq readInt?_eq_some hr]
  constructor
  · rintro ⟨trust, htrust, enabled, henabled, a, ha, b, hb, c, hc, d, hd, e, he, f, hf, h⟩
    refine ⟨_, ⟨?_, ?_, htrust, henabled, ha, hb, hc, hd, he, hf, ?_⟩, h⟩
    · exact settles_text.2 rfl
    · exact settles_text.2 rfl
    · exact (settles_map splitEntries_eq).2 rfl
  · rintro ⟨s, hs, h⟩
    refine ⟨_, hs.trustForwarded, _, hs.enabled, _, hs.perClientPerMinute, _, hs.perClientBurst,
      _, hs.globalPerMinute, _, hs.globalBurst, _, hs.strikeThreshold, _, hs.blockSeconds, ?_⟩
    rw [settles_text.1 hs.bindAddress, settles_text.1 hs.logLevel,
      (settles_map splitEntries_eq).1 hs.allowlist]
    exact h

/-- The first misread variable is the error. If none is misread, the environment describes settings,
and they come back unless an option is not allowed; all such options are told. -/
theorem environment_errors_precise (env : Environment) :
    (∀ name value, ofEnvironment env = .error (.badVariable name value) ↔
        env.FirstMisread TypedVariable.all name value) ∧
      ((∃ name value, ofEnvironment env = .error (.badVariable name value)) ↔
        ∃ v ∈ TypedVariable.all, ∃ value, env.Misreads v value) ∧
      ((∃ s, env.Describes s) ↔ ¬∃ v ∈ TypedVariable.all, ∃ value, env.Misreads v value) ∧
      (∀ flaws, ofEnvironment env = .error (.invalid flaws) ↔
        ∃ s, env.Describes s ∧ s.server.failing = flaws ∧ flaws ≠ []) ∧
      (∀ s, ofEnvironment env = .ok s ↔ env.Describes s ∧ s.server.failing = []) ∧
      ∀ (cs : List Char) (n : Int), Text.readInt? cs = some n ↔ Text.IntegerText cs n := by
  have hmisread : (∃ name value, ofEnvironment env = .error (.badVariable name value)) ↔
      ∃ v ∈ TypedVariable.all, ∃ value, env.Misreads v value := by
    simp only [ofEnvironment_eq_badVariable, exists_firstMisread]
  refine ⟨fun _ _ => ofEnvironment_eq_badVariable, hmisread, ?_, fun flaws => ?_, fun s => ?_,
    fun _ _ => Text.readInt?_eq_some_iff⟩
  · rw [← hmisread]
    constructor
    · rintro ⟨s, hs⟩ ⟨name, value, hbad⟩
      have hvalidated := (ofEnvironment_eq (validated_ne_badVariable s)).2 ⟨s, hs, rfl⟩
      exact validated_ne_badVariable s name value (hvalidated.symm.trans hbad)
    · intro hgood
      have hr : ∀ name value, ofEnvironment env ≠ .error (.badVariable name value) :=
        fun name value hbad => hgood ⟨name, value, hbad⟩
      obtain ⟨s, hs, -⟩ := (ofEnvironment_eq hr).1 rfl
      exact ⟨s, hs⟩
  · rw [ofEnvironment_eq (by simp)]
    simp only [validated_eq_invalid]
  · rw [ofEnvironment_eq (by simp)]
    simp only [validated_eq_ok]
    constructor
    · rintro ⟨_, hs, rfl, hnone⟩
      exact ⟨hs, hnone⟩
    · rintro ⟨hs, hnone⟩
      exact ⟨s, hs, rfl, hnone⟩

end Settings
end AdmissionGuard

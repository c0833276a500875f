import AdmissionGuard.Proofs.JsonReaders
import AdmissionGuard.Proofs.Variables
import AdmissionGuard.Settings.Document

/-! The two sources of settings. An environment and a document that make one choice of settings give
one outcome, whatever the layout of the document. -/
namespace AdmissionGuard

open Json Text

structure EntryList where
  entries : List Trimmed
  ne_nil : entries ≠ []
  noComma : ∀ e ∈ entries, ',' ∉ e.chars

def EntryList.texts (l : EntryList) : List String := l.entries.map Trimmed.text

structure ServerChoice where
  bindAddress : Option Trimmed := none
  logLevel : Option Trimmed := none
  trustForwarded : Option Bool := none

structure GuardChoice where
  enabled : Option Bool := none
  perClientPerMinute : Option Int64 := none
  perClientBurst : Option Int64 := none
  globalPerMinute : Option Int64 := none
  globalBurst : Option Int64 := none
  strikeThreshold : Option Int64 := none
  blockSeconds : Option Int64 := none
  allowlist : Option EntryList := none

structure Choice where
  server : ServerChoice := {}
  guard : GuardChoice := {}

def ServerChoice.options (c : ServerChoice) : ServerOptions :=
  let default : ServerOptions := {}
  { bindAddress := c.bindAddress.elim default.bindAddress Trimmed.text
    logLevel := c.logLevel.elim default.logLevel Trimmed.text
    trustForwarded := c.trustForwarded.elim default.trustForwarded id }

def GuardChoice.options (c : GuardChoice) : GuardOptions :=
  let default : GuardOptions := {}
  { enabled := c.enabled.elim default.enabled id
    perClientPerMinute := c.perClientPerMinute.elim default.perClientPerMinute Int64.toInt
    perClientBurst := c.perClientBurst.elim default.perClientBurst Int64.toInt
    globalPerMinute := c.globalPerMinute.elim default.globalPerMinute Int64.toInt
    globalBurst := c.globalBurst.elim default.globalBurst Int64.toInt
    strikeThreshold := c.strikeThreshold.elim default.strikeThreshold Int64.toInt
    blockSeconds := c.blockSeconds.elim default.blockSeconds Int64.toInt
    allowlist := c.allowlist.elim default.allowlist EntryList.texts }

def Choice.settings (c : Choice) : Settings :=
  { server := c.server.options, guard := c.guard.options }

/-! ### The environment -/

structure Choice.SetIn (c : Choice) (env : Environment) : Prop where
  bindAddress : env.Sets "BIND_ADDR" c.server.bindAddress fun e cs => cs = e.chars
  logLevel : env.Sets "LOG_LEVEL" c.server.logLevel fun e cs => cs = e.chars
  trustForwarded :
    env.Sets "TRUST_FORWARDED_HEADERS" c.server.trustForwarded fun b cs => cs = flagText b
  enabled : env.Sets "DDOS_GUARD_ENABLED" c.guard.enabled fun b cs => cs = flagText b
  perClientPerMinute : env.Sets "DDOS_GUARD_PER_IP_PER_MINUTE" c.guard.perClientPerMinute
    fun n => DecimalText n.toInt
  perClientBurst :
    env.Sets "DDOS_GUARD_PER_IP_BURST" c.guard.perClientBurst fun n => DecimalText n.toInt
  globalPerMinute :
    env.Sets "DDOS_GUARD_GLOBAL_PER_MINUTE" c.guard.globalPerMinute fun n => DecimalText n.toInt
  globalBurst :
    env.Sets "DDOS_GUARD_GLOBAL_BURST" c.guard.globalBurst fun n => DecimalText n.toInt
  strikeThreshold :
    env.Sets "DDOS_GUARD_STRIKE_THRESHOLD" c.guard.strikeThreshold fun n => DecimalText n.toInt
  blockSeconds :
    env.Sets "DDOS_GUARD_BLOCK_SECONDS" c.guard.blockSeconds fun n => DecimalText n.toInt
  allowlist : env.Sets "DDOS_GUARD_WHITELIST" c.guard.allowlist fun l => Joined l.entries

theorem inInt64_toInt (n : Int64) : inInt64 n.toInt := by
  have := n.le_toInt
  have := n.toInt_lt
  simp only [inInt64, Bool.and_eq_true, decide_eq_true_eq]
  omega

namespace Environment
variable {env : Environment} {name : String}

theorem getD_text?_sets {o : Option Trimmed} (h : env.Sets name o fun e cs => cs = e.chars)
    (default : String) : (env.text? name).getD default = o.elim default Trimmed.text := by
  cases o with
  | none => simp [text?_of_unset h]
  | some e =>
    obtain ⟨_, rfl, hset⟩ := h
    simp [text?_of_trim hset (Trimmed.trim_around e.around_self) e.ne_nil, Trimmed.text]

theorem readD_flag {o : Option Bool} (h : env.Sets name o fun b cs => cs = flagText b)
    (default : Bool) : env.readD name readFlag? default = .ok (o.elim default id) := by
  refine readD_sets h ?_ default
  rintro b _ rfl
  cases b <;> simp [flagText, isBlank, readFlag?]

theorem readD_integer {o : Option Int64} (h : env.Sets name o fun n => DecimalText n.toInt)
    (default : Int) : env.readD name readInt? default = .ok (o.elim default Int64.toInt) := by
  refine readD_sets h (fun n cs hcs => ?_) default
  exact ⟨notBlank_decimal hcs, readInt?_text hcs (inInt64_toInt n)⟩

theorem getD_entries_sets {o : Option EntryList} (h : env.Sets name o fun l => Joined l.entries)
    (default : List String) :
    ((env.text? name).map splitEntries).getD default = o.elim default EntryList.texts := by
  cases o with
  | none => simp [text?_of_unset h]
  | some l =>
    obtain ⟨cs, hjoined, hset⟩ := h
    obtain ⟨e, he, hentries⟩ := hjoined.trimmed
    simp [text?_of_trim hset (Trimmed.trim_around he) e.ne_nil,
      splitEntries_joined hentries l.noComma, EntryList.texts]

end Environment

theorem ofEnvironment_of_setIn {c : Choice} {env : Environment} (h : c.SetIn env) :
    Settings.ofEnvironment env = c.settings.validated := by
  simp only [Settings.ofEnvironment, Environment.readD_flag h.trustForwarded,
    Environment.readD_flag h.enabled, Environment.readD_integer h.perClientPerMinute,
    Environment.readD_integer h.perClientBurst, Environment.readD_integer h.globalPerMinute,
    Environment.readD_integer h.globalBurst, Environment.readD_integer h.strikeThreshold,
    Environment.readD_integer h.blockSeconds, Environment.getD_text?_sets h.bindAddress,
    Environment.getD_text?_sets h.logLevel, Environment.getD_entries_sets h.allowlist]
  rfl

/-! ### The document -/

def ServerChoice.WrittenAs (c : ServerChoice) (cs : List Char) : Prop :=
  ∃ ms, ObjectText ms cs ∧
    Holds ms "bind_addr" c.bindAddress (fun e => StringText e.text) ∧
    Holds ms "log_level" c.logLevel (fun e => StringText e.text) ∧
    Holds ms "trust_forwarded_headers" c.trustForwarded (fun b v => v = flagText b) ∧
    Others (ServerOptions.fields.map (·.name)) ms

def GuardChoice.WrittenAs (c : GuardChoice) (cs : List Char) : Prop :=
  ∃ ms, ObjectText ms cs ∧
    Holds ms "enabled" c.enabled (fun b v => v = flagText b) ∧
    Holds ms "per_ip_per_minute" c.perClientPerMinute (fun n v => v = integerText n.toInt) ∧
    Holds ms "per_ip_burst" c.perClientBurst (fun n v => v = integerText n.toInt) ∧
    Holds ms "global_per_minute" c.globalPerMinute (fun n v => v = integerText n.toInt) ∧
    Holds ms "global_burst" c.globalBurst (fun n v => v = integerText n.toInt) ∧
    Holds ms "strike_threshold" c.strikeThreshold (fun n v => v = integerText n.toInt) ∧
    Holds ms "block_seconds" c.blockSeconds (fun n v => v = integerText n.toInt) ∧
    Holds ms "whitelist" c.allowlist (fun l => StringsText l.texts) ∧
    Others (GuardOptions.fields.map (·.name)) ms

/-- The text is a document of the choice. A group of settings may be left out if none of it is
chosen. -/
def Choice.WrittenAs (c : Choice) : List Char → Prop :=
  Padded fun cs => ∃ ms, ObjectText ms cs ∧
    Gives ms "server" (c.server = {}) c.server.WrittenAs ∧
    Gives ms "guard" (c.guard = {}) c.guard.WrittenAs ∧
    Others (Settings.fields.map (·.name)) ms

def whenSeen {α : Type} (seen : List String) (name : String) (o : Option α) : Option α :=
  if name ∈ seen then o else none

@[simp]
theorem whenSeen_nil {α : Type} (name : String) (o : Option α) : whenSeen [] name o = none := by
  simp [whenSeen]

theorem whenSeen_self {α : Type} {name : String} {o : Option α} {ms : List (String × List Char)}
    {P : α → List Char → Prop} (h : Holds ms name o P) :
    whenSeen (ms.map Prod.fst).reverse name o = o := by
  obtain rfl | hseen := Gives.mem_or h
  · exact ite_self none
  · exact if_pos hseen

@[simp]
theorem whenSeen_cons_self {α : Type} {name : String} {o : Option α} (seen : List String) :
    whenSeen (name :: seen) name o = o := by simp [whenSeen]

@[simp]
theorem whenSeen_cons_of_ne {α : Type} {name other : String} (h : other ≠ name) (seen : List String)
    (o : Option α) : whenSeen (other :: seen) name o = whenSeen seen name o := by
  simp [whenSeen, Ne.symm h]

def ServerChoice.among (c : ServerChoice) (seen : List String) : ServerChoice where
  bindAddress := whenSeen seen "bind_addr" c.bindAddress
  logLevel := whenSeen seen "log_level" c.logLevel
  trustForwarded := whenSeen seen "trust_forwarded_headers" c.trustForwarded

def GuardChoice.among (c : GuardChoice) (seen : List String) : GuardChoice where
  enabled := whenSeen seen "enabled" c.enabled
  perClientPerMinute := whenSeen seen "per_ip_per_minute" c.perClientPerMinute
  perClientBurst := whenSeen seen "per_ip_burst" c.perClientBurst
  globalPerMinute := whenSeen seen "global_per_minute" c.globalPerMinute
  globalBurst := whenSeen seen "global_burst" c.globalBurst
  strikeThreshold := whenSeen seen "strike_threshold" c.strikeThreshold
  blockSeconds := whenSeen seen "block_seconds" c.blockSeconds
  allowlist := whenSeen seen "whitelist" c.allowlist

theorem reads_server {c : ServerChoice} {cs : List Char} (h : c.WrittenAs cs) (expected : String) :
    (Reader.record ServerOptions.fields {} expected).Reads cs c.options := by
  obtain ⟨ms, hcs, haddress, hlevel, htrust, hothers⟩ := h
  let state : List String → ServerOptions := fun seen => (c.among seen).options
  have hnone : state [] = {} := by
    simp only [state, ServerChoice.among, whenSeen_nil]
    rfl
  have hall : state (ms.map Prod.fst).reverse = c.options := by
    simp only [state, ServerChoice.among, whenSeen_self haddress, whenSeen_self hlevel,
      whenSeen_self htrust]
  refine reads_record hcs hnone hall ?_ hothers ?_ expected
  · intro name seen hname
    simp only [ServerOptions.fields, List.map_cons, List.mem_cons, not_or] at hname
    simp [state, ServerChoice.among, hname]
  · simp only [ServerOptions.fields, List.forall_mem_cons]
    refine ⟨haddress.fills (fun e v hv => reads_string hv) ?_,
      hlevel.fills (fun e v hv => reads_string hv) ?_,
      htrust.fills (fun b v hv => hv ▸ reads_bool b) ?_, by simp⟩
    all_goals
      intro a ha seen
      rw [Option.mem_def] at ha
      simp [state, ServerChoice.among, ServerChoice.options, ha]

theorem reads_guard {c : GuardChoice} {cs : List Char} (h : c.WrittenAs cs) (expected : String) :
    (Reader.record GuardOptions.fields {} expected).Reads cs c.options := by
  obtain ⟨ms, hcs, henabled, hrate, hburst, hglobal, hglobalBurst, hstrikes, hblock, hallowlist,
    hothers⟩ := h
  have hinteger : ∀ (n : Int64) v, v = integerText n.toInt → Reader.int64.Reads v n.toInt := by
    rintro n _ rfl
    exact reads_int64 (inInt64_toInt n)
  let state : List String → GuardOptions := fun seen => (c.among seen).options
  have hnone : state [] = {} := by
    simp only [state, GuardChoice.among, whenSeen_nil]
    rfl
  have hall : state (ms.map Prod.fst).reverse = c.options := by
    simp only [state, GuardChoice.among, whenSeen_self henabled, whenSeen_self hrate,
      whenSeen_self hburst, whenSeen_self hglobal, whenSeen_self hglobalBurst,
      whenSeen_self hstrikes, whenSeen_self hblock, whenSeen_self hallowlist]
  refine reads_record hcs hnone hall ?_ hothers ?_ expected
  · intro name seen hname
    simp only [GuardOptions.fields, List.map_cons, List.mem_cons, not_or] at hname
    simp [state, GuardChoice.among, hname]
  · simp only [GuardOptions.fields, List.forall_mem_cons]
    refine ⟨henabled.fills (fun b v hv => hv ▸ reads_bool b) ?_, hrate.fills hinteger ?_,
      hburst.fills hinteger ?_, hglobal.fills hinteger ?_, hglobalBurst.fills hinteger ?_,
      hstrikes.fills hinteger ?_, hblock.fills hinteger ?_,
      hallowlist.fills (fun l v hv => reads_strings hv) ?_, by simp⟩
    all_goals
      intro a ha seen
      rw [Option.mem_def] at ha
      simp [state, GuardChoice.among, GuardChoice.options, ha]

theorem reads_settings {c : Choice} {ms : List (String × List Char)} {cs : List Char}
    (hcs : ObjectText ms cs) (hserver : Gives ms "server" (c.server = {}) c.server.WrittenAs)
    (hguard : Gives ms "guard" (c.guard = {}) c.guard.WrittenAs)
    (hothers : Others (Settings.fields.map (·.name)) ms) : Settings.reader.Reads cs c.settings := by
  let state : List String → Settings := fun seen =>
    { server := if "server" ∈ seen then c.server.options else {}
      guard := if "guard" ∈ seen then c.guard.options else {} }
  have hnone : state [] = {} := by simp [state]
  have hall : state (ms.map Prod.fst).reverse = c.settings := by
    have hserver : c.server.options = {} ∨ "server" ∈ (ms.map Prod.fst).reverse :=
      hserver.mem_or.imp_left fun h => by rw [h]; rfl
    have hguard : c.guard.options = {} ∨ "guard" ∈ (ms.map Prod.fst).reverse :=
      hguard.mem_or.imp_left fun h => by rw [h]; rfl
    simp only [state, Choice.settings]
    congr 1
    · obtain h | h := hserver
      · rw [h, ite_self]
      · exact if_pos h
    · obtain h | h := hguard
      · rw [h, ite_self]
      · exact if_pos h
  refine reads_record hcs hnone hall ?_ hothers ?_ "struct Config"
  · intro name seen hname
    simp only [Settings.fields, List.map_cons, List.map_nil, List.mem_cons, not_or] at hname
    simp [state, Ne.symm hname.1, Ne.symm hname.2.1]
  · simp only [Settings.fields, List.forall_mem_cons]
    refine ⟨hserver.fills fun v hv => ⟨_, reads_server hv _, ?_⟩,
      hguard.fills fun v hv => ⟨_, reads_guard hv _, ?_⟩, by simp⟩ <;> simp [state]

theorem document_of_writtenAs {c : Choice} {text : List Char} (h : c.WrittenAs text) :
    Settings.reader.document text = .ok c.settings := by
  obtain ⟨ws, cs, us, hws, ⟨ms, hcs, hserver, hguard, hothers⟩, hus, rfl⟩ := h
  have hread := reads_settings hcs hserver hguard hothers ws us hws (ends_of_spaces hus)
  have hend : skipSpace us = [] := List.dropWhile_eq_nil_iff.2 hus
  simp [Reader.document, hread, hend]

theorem ofFile_of_writtenAs {c : Choice} {text : List Char} (h : c.WrittenAs text) (path : String) :
    Settings.ofFile path (.ok (String.ofList text).toUTF8) = c.settings.validated := by
  simp only [Settings.ofFile, Environment.fromUTF8?_toUTF8, String.toList_ofList,
    Settings.ofDocument, document_of_writtenAs h]

/-- An environment and a document of one choice give one outcome: the choice's settings, or what is
wrong with them. What is not chosen has its default in both, and splitting the entries of the
environment undoes their joining. -/
theorem sources_agree {c : Choice} {env : Environment} {text : List Char} (henv : c.SetIn env)
    (htext : c.WrittenAs text) (path : String) :
    Settings.ofEnvironment env = c.settings.validated ∧
      Settings.ofFile path (.ok (String.ofList text).toUTF8) = c.settings.validated ∧
      ∀ l ∈ c.guard.allowlist, ∀ cs, Joined l.entries cs →
        splitEntries (String.ofList cs) = l.texts :=
  ⟨ofEnvironment_of_setIn henv, ofFile_of_writtenAs htext path,
    fun l _ _ h => splitEntries_joined h l.noComma⟩

theorem stringText_plain {s : String} (h : s.toList.all (Plain ·)) :
    StringText s ('"' :: (s.toList ++ ['"'])) := by
  refine ⟨s.toList.map fun c => [c], ?_, by rw [← List.flatMap_def, List.flatMap_singleton']⟩
  rw [List.forall₂_map_right_iff, List.forall₂_same]
  exact fun c hc => .plain (of_decide_eq_true (List.all_eq_true.1 h c hc))

theorem padded_self {P : List Char → Prop} {cs : List Char} (h : P cs) : Padded P cs :=
  ⟨[], cs, [], spaces_nil, h, spaces_nil, by simp⟩

theorem memberText_plain {name : String} (h : name.toList.all (Plain ·)) (v : List Char) :
    MemberText (name, v) ('"' :: (name.toList ++ ['"']) ++ ':' :: v) :=
  ⟨_, _, padded_self (stringText_plain h), padded_self rfl, rfl⟩

theorem others_of_mem {names : List String} {ms : List (String × List Char)}
    (h : ∀ m ∈ ms, m.1 ∈ names) : Others names ms := fun m hm hnot => absurd (h m hm) hnot

namespace Choice

def portless : Choice where
  server := { bindAddress := some ⟨['b'], by decide, by decide, by decide⟩ }
  guard :=
    { perClientBurst := some Int64.minValue
      allowlist := some
        { entries :=
            [⟨['a'], by decide, by decide, by decide⟩, ⟨['/'], by decide, by decide, by decide⟩]
          ne_nil := by decide
          noComma := by decide } }

def portlessVariables : Environment := fun name =>
  if name = "BIND_ADDR" then some "b".toUTF8
  else if name = "DDOS_GUARD_PER_IP_BURST" then some "-09223372036854775808".toUTF8
  else if name = "DDOS_GUARD_WHITELIST" then some "\ta , /".toUTF8
  else none

def portlessServer : String := "\x7b\"bind_addr\":\"\\u0062\"\x7d"

def portlessGuard : String :=
  "\x7b\"whitelist\":[\"a\", \"\\/\"],\"per_ip_burst\":-9223372036854775808\x7d"

def portlessDocument : String :=
  "\x7b\"guard\":" ++ portlessGuard ++ "\n,\"x\":[\x7b\x7d],\"server\":" ++ portlessServer ++ "\x7d"

theorem portless_setIn : portless.SetIn portlessVariables where
  bindAddress := ⟨_, rfl, rfl⟩
  logLevel := rfl
  trustForwarded := rfl
  enabled := rfl
  perClientPerMinute := rfl
  perClientBurst := ⟨"-09223372036854775808".toList, ⟨['-'], 1, by decide, by decide +kernel⟩, rfl⟩
  globalPerMinute := rfl
  globalBurst := rfl
  strikeThreshold := rfl
  blockSeconds := rfl
  allowlist := by
    refine ⟨['\t', 'a', ' '] ++ ',' :: [' ', '/'], .more ?_ (.last ?_), rfl⟩
    · exact ⟨['\t'], [' '], by simp [isBlank], by simp [isBlank], rfl⟩
    · exact ⟨[' '], [], by simp [isBlank], by simp, rfl⟩

theorem portless_server_writtenAs :
    portless.server.WrittenAs portlessServer.toList := by
  have hb : HexText 'b'.toNat ['0', '0', '6', '2'] :=
    ⟨by decide, .cons (.inl rfl) (.cons (.inl rfl) (.cons (.inl rfl) (.cons (.inl rfl) .nil)))⟩
  have haddress : StringText "b" "\"\\u0062\"".toList := ⟨[_], .cons (.unicode hb) .nil, rfl⟩
  refine ⟨[("bind_addr", "\"\\u0062\"".toList)], ⟨_, .inr (.last (memberText_plain ?_ _)), rfl⟩,
    .inr ⟨_, rfl, _, rfl, haddress⟩, .inl ⟨rfl, rfl⟩, .inl ⟨rfl, rfl⟩, ?_⟩
  · decide +kernel
  · exact others_of_mem (by decide +kernel)

theorem portless_guard_writtenAs :
    portless.guard.WrittenAs portlessGuard.toList := by
  have hslash : StringText "/" "\"\\/\"".toList := ⟨[_], .cons (.letter (by decide)) .nil, rfl⟩
  have hlist : StringsText ["a", "/"] "[\"a\", \"\\/\"]".toList := by
    have hsecond : Padded (StringText "/") " \"\\/\"".toList :=
      ⟨[' '], _, [], by decide, hslash, spaces_nil, rfl⟩
    exact ⟨_, .more (padded_self (stringText_plain (by decide +kernel))) (.last hsecond), rfl⟩
  have hnumber : "-9223372036854775808".toList = integerText Int64.minValue.toInt := by
    decide +kernel
  refine ⟨[("whitelist", "[\"a\", \"\\/\"]".toList),
      ("per_ip_burst", "-9223372036854775808".toList)],
    ⟨_, .inr (.more (memberText_plain ?_ _) (.last (memberText_plain ?_ _))), rfl⟩,
    .inl ⟨rfl, rfl⟩, .inl ⟨rfl, rfl⟩, .inr ⟨_, rfl, _, rfl, hnumber⟩, .inl ⟨rfl, rfl⟩,
    .inl ⟨rfl, rfl⟩, .inl ⟨rfl, rfl⟩, .inl ⟨rfl, rfl⟩, .inr ⟨_, rfl, _, rfl, hlist⟩, ?_⟩
  · decide +kernel
  · decide +kernel
  · exact others_of_mem (by decide +kernel)

theorem portless_writtenAs : portless.WrittenAs portlessDocument.toList := by
  have hlist : Written .value ['[', '\x7b', '\x7d', ']'] :=
    .full (.last (f := .list) spaces_nil (.empty .object spaces_nil) spaces_nil)
  have hguard : MemberText ("guard", portlessGuard.toList) _ :=
    ⟨_, _, padded_self (stringText_plain (by decide +kernel)),
      ⟨[], _, ['\n'], spaces_nil, rfl, by decide, rfl⟩, rfl⟩
  have hx : MemberText ("x", ['[', '\x7b', '\x7d', ']']) _ :=
    memberText_plain (by decide +kernel) _
  have hserver : MemberText ("server", portlessServer.toList) _ :=
    memberText_plain (by decide +kernel) _
  have hobject : ObjectText [("guard", portlessGuard.toList), ("x", ['[', '\x7b', '\x7d', ']']),
      ("server", portlessServer.toList)] portlessDocument.toList :=
    ⟨_, .inr (.more hguard (.more hx (.last hserver))), by decide +kernel⟩
  refine padded_self ⟨_, hobject, .inr ⟨_, ?_, portless_server_writtenAs⟩,
    .inr ⟨_, ?_, portless_guard_writtenAs⟩, ?_⟩
  · decide +kernel
  · decide +kernel
  · intro m hm hother
    simp only [List.mem_cons, List.not_mem_nil, or_false] at hm
    obtain rfl | rfl | rfl := hm
    · exact absurd (by decide +kernel) hother
    · exact hlist
    · exact absurd (by decide +kernel) hother

theorem portless_address_is_invalid_in_both :
    (portless.SetIn portlessVariables ∧ portless.WrittenAs portlessDocument.toList) ∧
      Settings.ofEnvironment portlessVariables = .error (.invalid [⟨.bindAddress, "b"⟩]) ∧
      Settings.ofFile "guard.json" (.ok portlessDocument.toUTF8) =
        .error (.invalid [⟨.bindAddress, "b"⟩]) := by
  have haddress : SocketAddress.ofString? "b" = none := by decide +kernel
  have hlower : "info".map Char.toLower = "info" := by simp [← String.toList_inj]
  have hvalidated : portless.settings.validated = .error (.invalid [⟨.bindAddress, "b"⟩]) := by
    have hflaws : portless.settings.server.flaws = [⟨.bindAddress, "b"⟩] := by
      change ServerOptions.flaws { bindAddress := "b", logLevel := "info" } = _
      simp [ServerOptions.flaws, haddress, Level.ofString?, hlower]
    simp [Settings.validated, hflaws]
  obtain ⟨henv, hfile, -⟩ := sources_agree portless_setIn portless_writtenAs "guard.json"
  rw [String.ofList_toList] at hfile
  exact ⟨⟨portless_setIn, portless_writtenAs⟩, henv.trans hvalidated, hfile.trans hvalidated⟩

end Choice

end AdmissionGuard

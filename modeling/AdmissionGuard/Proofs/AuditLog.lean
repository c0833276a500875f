import AdmissionGuard.Proofs.Application

/-! The log. Between the start and the end of a request stand exactly the events that its decision
and the sweep after it call for, in their order, and all of them agree on who was checked. -/
namespace AdmissionGuard

def Guard.blockEvents (limits : Limits) (key : String) : Decision → List Event
  | .rateLimited _ true => [.blockStarted key limits.blockSeconds.toNat]
  | .rateLimited _ false | .exempt | .admitted | .blocked _ => []

def Moment.sweepEvents (m : Moment) : List Event :=
  if m.before.sweepsIn m.call then [.swept m.forgotten.length m.after.tracked] else []

namespace Guard

theorem charge_events (g : Guard) (key : String) (c : Client) (now : Instant) :
    (g.charge key c now).events = blockEvents g.limits key (g.charge key c now).answer := by
  unfold charge
  dsimp only
  split
  · rfl
  · split <;> rfl

theorem judge_events (g : Guard) (key : String) (now : Instant) :
    (g.judge key now).events = blockEvents g.limits key (g.judge key now).answer := by
  unfold judge
  dsimp only
  split
  · rfl
  · exact g.charge_events key _ now

/-- A check that a sweep follows reports what that sweep took: the client's own entry is in the store
by then, and stays. -/
theorem check_events (g : Guard) (key : String) (now : Instant) :
    (g.check key now).events =
      blockEvents g.limits key (g.check key now).answer ++
        Moment.sweepEvents ⟨g, .check key now⟩ := by
  cases hkey : g.allowlist.contains key with
  | true =>
    have hno : ¬g.sweepsIn (.check key now) := by simp [sweepsIn, hkey]
    rw [g.check_exempt now hkey, Moment.sweepEvents, if_neg hno]
    rfl
  | false =>
    have hcheck := g.check_eq_counted now hkey
    by_cases hdue : (g.checked + 1) % sweepEvery = 0
    · rw [if_pos hdue] at hcheck
      have hin : g.sweepsIn (.check key now) := ⟨hkey, hdue⟩
      have hfound : (g.counted key now).guard.tracked =
          g.tracked + (Moment.creates ⟨g, .check key now⟩).toNat := by
        obtain ⟨c, b, -, hg⟩ := g.judge_judged key now
        have hthere := g.tracks_checked now hkey
        simp only [Moment.creates, Moment.after, hthere, Bool.and_true, counted, hg]
        exact g.clients.size_set key c
      have hafter : (g.step (.check key now)).guard =
          ((g.counted key now).guard.sweep now).guard := by
        rw [step, hcheck]
        rfl
      have hremoved := length_forgotten_of_sweep (.check key now) hafter hfound
      rw [Moment.sweepEvents, if_pos hin, ← hremoved, Moment.after, hafter, hcheck]
      exact congrArg (· ++ _) (g.judge_events key now)
    · rw [if_neg hdue] at hcheck
      have hno : ¬g.sweepsIn (.check key now) := fun hin => hdue hin.2
      rw [Moment.sweepEvents, if_neg hno, List.append_nil, hcheck]
      exact g.judge_events key now

end Guard

namespace Http

def App.denialEvents (client : String) (r : Request) : Decision → List Event
  | .rateLimited strikes blocks => [.denied client r.target.path r.method strikes blocks]
  | .blocked remaining => [.refused client remaining.seconds]
  | .exempt | .admitted => []

namespace App

theorem judged_events (g : Guard) (trust : Bool) (now : Instant) (r : Request) :
    let client := ClientKey.ofRequest trust r.headers r.peer
    (judged ⟨some g, trust⟩ now (routed now) r).events =
      (g.check client now).events ++ denialEvents client r (g.check client now).answer := by
  intro client
  cases h : (g.check client now).answer <;>
    simp [judged, h, client, Rejection.ofDecision?, denialEvents]

theorem handle_events (g : Guard) (trust : Bool) (fresh : String) (now : Instant) {r : Request}
    (h : r.method ≠ "OPTIONS") :
    let client := ClientKey.ofRequest trust r.headers r.peer
    let d := (g.check client now).answer
    let x := handle ⟨some g, trust⟩ fresh now r
    x.events =
      .requestStarted (requestId fresh r) r.method r.target.toString client ::
        (Guard.blockEvents g.limits client d ++ Moment.sweepEvents ⟨g, .check client now⟩ ++
          denialEvents client r d) ++
        [.requestFinished (requestId fresh r) r.method r.target.toString
          x.response.status.toString] := by
  intro client d x
  rw [← g.check_events client now, ← judged_events]
  simp only [x, handle, handleAt_eq _ fresh now now h]
  rfl

end App

def IsText (value : List UInt8) : Prop :=
  value ≠ [] ∧ ∀ b ∈ value, b = 0x9 ∨ 0x20 ≤ b ∧ b ≤ 0x7e

/-- The text of a request's own identifier, or the fresh one where the first it brings is empty or no
text. -/
def Request.IdentifiedBy (r : Request) (fresh id : String) : Prop :=
  match firstValue? r.headers "x-request-id" with
  | none => id = fresh
  | some value =>
    (IsText value → id.toList.map Char.toNat = value.map UInt8.toNat) ∧
      (¬IsText value → id = fresh)

theorem toNat_textValue? {value : List UInt8} {t : String} (h : textValue? value = some t) :
    t.toList.map Char.toNat = value.map UInt8.toNat := by
  rw [textValue?] at h
  split at h
  · cases h
    simp [toNat_ofNat_byte]
  · cases h

theorem textValue?_isSome {value : List UInt8} :
    (textValue? value).isSome ↔ ∀ b ∈ value, b = 0x9 ∨ 0x20 ≤ b ∧ b ≤ 0x7e := by
  rw [textValue?]
  split
  · next h => simpa [isTextByte] using h
  · next h => simpa [isTextByte] using h

namespace App

theorem requestId_identifies (fresh : String) (r : Request) :
    r.IdentifiedBy fresh (requestId fresh r) := by
  unfold Request.IdentifiedBy requestId firstText? requestIdField
  cases firstValue? r.headers "x-request-id" with
  | none => rfl
  | some value =>
    rw [Option.bind_some]
    cases ht : textValue? value with
    | none =>
      have hno : ¬∀ b ∈ value, b = 0x9 ∨ 0x20 ≤ b ∧ b ≤ 0x7e := by
        rw [← textValue?_isSome, ht]
        exact Bool.false_ne_true
      exact ⟨fun h => absurd h.2 hno, fun _ => rfl⟩
    | some t =>
      have hyes := textValue?_isSome.1 (Option.isSome_iff_exists.2 ⟨t, ht⟩)
      have hbytes := toNat_textValue? ht
      have htext : t = "" ↔ value = [] := by
        rw [← String.toList_eq_nil_iff, ← List.map_eq_nil_iff (f := Char.toNat), hbytes,
          List.map_eq_nil_iff]
      by_cases hempty : value = []
      · refine ⟨fun h => absurd hempty h.1, fun _ => ?_⟩
        simp [htext.2 hempty, Option.filter]
      · have hkept : t ≠ "" := fun h => hempty (htext.1 h)
        rw [Option.filter_some_pos (by simpa using hkept)]
        exact ⟨fun _ => hbytes, fun h => absurd ⟨hempty, hyes⟩ h⟩

theorem single_id (r : Request) (id : String) (a : Answer) :
    (respond r id a).headers.filter (fun h => h.1 = "x-request-id") = [("x-request-id", id)] := by
  have hother : ∀ h ∈ originHeaders ++ allowHeader r ++ a.headers, h.1 ≠ "x-request-id" := by
    unfold originHeaders allowHeader Answer.headers
    cases a.body.contentType? <;> cases a.retryAfter <;> split <;> simp
  have hnone : (originHeaders ++ allowHeader r ++ a.headers).filter (fun h => h.1 = "x-request-id") =
      [] := by
    rw [List.filter_eq_nil_iff]
    simpa using hother
  rw [respond, List.filter_append, hnone]
  rfl

theorem no_id_of_options (r : Request) :
    (preflight r).headers.filter (fun h => h.1 = "x-request-id") = [] := by
  unfold preflight originHeaders allowHeader
  split <;> simp

end App
end Http

structure LogEntry where
  level : Level
  message : String
  fields : List (String × Field)
deriving DecidableEq

def Event.entry (e : Event) : LogEntry := ⟨e.level, e.message, e.fields⟩

def checkEntries (limits : Limits) (client : String) (r : Http.Request) (swept : Option (Nat × Nat))
    (d : Decision) : List LogEntry :=
  (match d with
    | .rateLimited _ true => [⟨.debug, "Strike threshold reached, blocking client",
        [Event.subsystem, ("client", .plain client),
          ("block_seconds", .number limits.blockSeconds.toNat)]⟩]
    | _ => []) ++
  (match swept with
    | some (removed, remaining) => [⟨.debug, "Swept idle clients",
        [Event.subsystem, ("removed", .number removed), ("remaining", .number remaining)]⟩]
    | none => []) ++
  match d with
  | .rateLimited strikes blocks => [⟨.warn, "Request denied by anti-DDoS guard",
      [Event.subsystem, ("client", .plain client), ("path", .plain r.target.path),
        ("method", .plain r.method), ("strikes", .number strikes), ("blocked", .flag blocks)]⟩]
  | .blocked remaining => [⟨.debug, "Request from blocked client rejected",
      [Event.subsystem, ("client", .plain client), ("remaining_secs", .number remaining.seconds)]⟩]
  | _ => []

namespace Http.App

theorem entries_of_check (limits : Limits) (client : String) (r : Request) (m : Moment)
    (d : Decision) :
    (Guard.blockEvents limits client d ++ m.sweepEvents ++ denialEvents client r d).map Event.entry =
      checkEntries limits client r
        (if m.before.sweepsIn m.call then some (m.forgotten.length, m.after.tracked) else none) d := by
  unfold checkEntries Moment.sweepEvents
  rw [List.map_append, List.map_append]
  congr 1
  · congr 1
    · cases d with
      | rateLimited strikes blocks => cases blocks <;> rfl
      | exempt | admitted | blocked => rfl
    · split <;> rfl
  · cases d <;> rfl

theorem run_create (s : Settings) (start : Instant) (past : List Arrival)
    (h : s.guard.enabled = true) :
    ((create s start).run past).2 =
      ⟨some (Guard.reached (.ofOptions s.guard) start (guardCalls s.server.trustForwarded past)),
        s.server.trustForwarded⟩ := by
  have hnew : create s start =
      ⟨some (.create (.ofOptions s.guard) start), s.server.trustForwarded⟩ := by
    have henabled : (Limits.ofOptions s.guard).enabled = true := h
    rw [create, if_pos henabled]
  rw [hnew, run_app]
  rfl

/-- The log of a request is its start, what its check calls for and its end. Start and end name it as
its response does, and a sweep is told exactly with every 1024th check that is not exempt. -/
theorem log_is_faithful (s : Settings) (start : Instant) (past : List Arrival) (a : Arrival)
    (h : s.guard.enabled = true) :
    let limits := Limits.ofOptions s.guard
    let r := a.request
    let client := ClientKey.ofRequest s.server.trustForwarded r.headers r.peer
    let calls := guardCalls s.server.trustForwarded past
    let m : Moment := ⟨Guard.reached limits start calls, .check client a.now⟩
    let e := ((create s start).run past).2.handle a.fresh a.now r
    (create s start).run (past ++ [a]) =
        (((create s start).run past).1 ++ [(e.response, e.events)], e.app) ∧
      (r.method = "OPTIONS" →
        e.events = [] ∧ e.response.headers.filter (fun f => f.1 = "x-request-id") = []) ∧
      (r.method ≠ "OPTIONS" → ∃ id,
        e.response.headers.filter (fun f => f.1 = "x-request-id") = [("x-request-id", id)] ∧
        r.IdentifiedBy a.fresh id ∧
        e.events.map Event.entry =
          ⟨.info, "Incoming request",
              [("request_id", .plain id), ("method", .plain r.method),
                ("uri", .plain r.target.toString), ("client", .plain client)]⟩ ::
            checkEntries limits client r
              (if (Allowlist.ofEntries limits.allowlist).contains client = false ∧
                  1024 ∣ Guard.judgedChecks limits calls + 1 then
                some (m.forgotten.length, m.after.tracked)
              else none)
              (m.before.check client a.now).answer ++
          [⟨.info, "Request completed",
              [("request_id", .plain id), ("method", .plain r.method),
                ("uri", .plain r.target.toString),
                ("status", .plain e.response.status.toString)]⟩]) := by
  intro limits r client calls m e
  refine ⟨run_snoc _ past a, ?_, ?_⟩
  · intro hm
    have he : e = ⟨preflight r, ((create s start).run past).2, []⟩ :=
      handleAt_options _ a.fresh a.now a.now hm
    rw [he]
    exact ⟨rfl, no_id_of_options r⟩
  · intro hm
    have he : e = handle ⟨some m.before, s.server.trustForwarded⟩ a.fresh a.now r :=
      congrArg (fun app => handle app a.fresh a.now r) (run_create s start past h)
    have hresponse := (handle_checked m.before s.server.trustForwarded a.fresh a.now hm).1
    have hevents := handle_events m.before s.server.trustForwarded a.fresh a.now hm
    rw [← he] at hresponse hevents
    refine ⟨requestId a.fresh r, ?_, requestId_identifies a.fresh r, ?_⟩
    · rw [hresponse]
      exact single_id r _ _
    · have hlimits : m.before.limits = limits := (Guard.reached_fixed limits start calls).1
      have hentries := entries_of_check limits client r m (m.before.check client a.now).answer
      have hsweeps : m.before.sweepsIn m.call ↔
          (Allowlist.ofEntries limits.allowlist).contains client = false ∧
            1024 ∣ Guard.judgedChecks limits calls + 1 := by
        rw [Guard.sweepsIn_iff limits start calls m.call]
        simp [m, Guard.Call.isSweep, Guard.Call.judgedBy]
      rw [if_congr hsweeps rfl rfl] at hentries
      rw [hevents, hlimits, List.map_append, List.map_cons, hentries]
      rfl

/-- Two requests of one client, of which the second starts a block: its log has the block before the
denial. -/
theorem log_of_blocking_denial :
    let s : Settings := { guard := { perClientBurst := 1, strikeThreshold := 1 } }
    let a : Arrival := ⟨.origin, "id", ⟨"POST", { path := "/x", query := some "q" }, [], none⟩⟩
    let e := ((create s .origin).run [a]).2.handle a.fresh a.now a.request
    s.guard.enabled = true ∧ a.request.method ≠ "OPTIONS" ∧
      e.events.map Event.entry = [
        ⟨.info, "Incoming request",
          [("request_id", .plain "id"), ("method", .plain "POST"), ("uri", .plain "/x?q"),
            ("client", .plain "unknown")]⟩,
        ⟨.debug, "Strike threshold reached, blocking client",
          [Event.subsystem, ("client", .plain "unknown"), ("block_seconds", .number 600)]⟩,
        ⟨.warn, "Request denied by anti-DDoS guard",
          [Event.subsystem, ("client", .plain "unknown"), ("path", .plain "/x"),
            ("method", .plain "POST"), ("strikes", .number 1), ("blocked", .flag true)]⟩,
        ⟨.info, "Request completed",
          [("request_id", .plain "id"), ("method", .plain "POST"), ("uri", .plain "/x?q"),
            ("status", .plain "429 Too Many Requests")]⟩] := by
  intro s a e
  obtain ⟨-, -, hchecked⟩ := log_is_faithful s .origin [a] a rfl
  obtain ⟨id, -, hid, hentries⟩ := hchecked (by decide)
  have hfresh : id = "id" := hid
  subst hfresh
  refine ⟨rfl, by decide, hentries.trans ?_⟩
  decide +kernel

end Http.App
end AdmissionGuard

import AdmissionGuard.Proofs.Layers
import AdmissionGuard.Proofs.Statistics

/-! The application. Its guard is in the state that one check for each request but OPTIONS leaves,
and a response follows from the decision of its own check. -/
namespace AdmissionGuard.Http

theorem Request.answer_status_ne (guard? : Option Guard) (now : Instant) (r : Request) :
    (r.answer guard? now).status ≠ .tooManyRequests := by
  rw [Request.answer]
  split
  · simp
  · split
    · next route _ _ =>
      cases route with
      | health | statistics => simp [Route.answer]
      | client written =>
        unfold Route.answer
        dsimp only
        split
        · simp
        · simp
        · split <;> simp
    · simp

def Request.answerAfter (r : Request) (now : Instant) (o : Outcome Decision) : Answer :=
  match Rejection.ofDecision? o.answer with
  | none => r.answer (some o.guard) now
  | some rejection => .ofRejection rejection

def Request.Bodiless (r : Request) : Prop :=
  r.method = "HEAD" ∧ (Route.ofPath? r.target.path).isSome

instance (r : Request) : Decidable r.Bodiless := inferInstanceAs (Decidable (_ ∧ _))

def Response.Refuses (x : Response) (r : Request) (text : String) : Prop :=
  x.status = .tooManyRequests ∧ (∀ v, ("retry-after", v) ∈ x.headers ↔ v = "60") ∧
    x.body = if r.Bodiless then "" else text

/-- The response is what the guard's check calls for. Only the refusal of a blocked client says how
long to wait; a client that is let through gets what its route answers on the guard after the
check. -/
def Response.Follows (x : Response) (r : Request) (id : String) (now : Instant)
    (o : Outcome Decision) : Prop :=
  match o.answer with
  | .blocked remaining =>
    x.Refuses r (Json.writeObject
      [("error", Json.writeString "Request blocked by anti-DDoS guard."),
        ("retry_after_seconds", Json.writeNat remaining.seconds)])
  | .rateLimited .. =>
    x.Refuses r (Json.writeObject
      [("error", Json.writeString "Too many requests. Please slow down.")])
  | .exempt | .admitted =>
    x.status ≠ .tooManyRequests ∧ x = App.respond r id (r.answer (some o.guard) now)

theorem Response.Follows.eq_of_passed {x : Response} {r : Request} {id : String} {now : Instant}
    {o : Outcome Decision} (h : x.Follows r id now o) (hpassed : x.status ≠ .tooManyRequests) :
    x = App.respond r id (r.answer (some o.guard) now) := by
  unfold Follows at h
  split at h
  · exact absurd h.1 hpassed
  · exact absurd h.1 hpassed
  · exact h.2
  · exact h.2

namespace App

def guardCall? (trustForwarded : Bool) (a : Arrival) : Option Guard.Call :=
  if a.request.method = "OPTIONS" then none
  else some (.check (ClientKey.ofRequest trustForwarded a.request.headers a.request.peer) a.now)

def guardCalls (trustForwarded : Bool) (arrivals : List Arrival) : List Guard.Call :=
  arrivals.filterMap (guardCall? trustForwarded)

theorem guardCalls_append (trust : Bool) (u v : List Arrival) :
    guardCalls trust (u ++ v) = guardCalls trust u ++ guardCalls trust v :=
  List.filterMap_append

theorem judged_eq (g : Guard) (trust : Bool) (now : Instant) (r : Request) :
    let o := g.check (ClientKey.ofRequest trust r.headers r.peer) now
    (judged ⟨some g, trust⟩ now (routed now) r).answer = r.answerAfter now o ∧
      (judged ⟨some g, trust⟩ now (routed now) r).app = ⟨some o.guard, trust⟩ := by
  intro o
  cases h : Rejection.ofDecision? o.answer <;>
    simp [judged, Request.answerAfter, routed, h, o]

theorem handle_checked (g : Guard) (trust : Bool) (fresh : String) (now : Instant) {r : Request}
    (h : r.method ≠ "OPTIONS") :
    let o := g.check (ClientKey.ofRequest trust r.headers r.peer) now
    (handle ⟨some g, trust⟩ fresh now r).response =
        respond r (requestId fresh r) (r.answerAfter now o) ∧
      (handle ⟨some g, trust⟩ fresh now r).app = ⟨some o.guard, trust⟩ := by
  intro o
  obtain ⟨hanswer, happ⟩ := judged_eq g trust now r
  rw [handle, handleAt_eq _ fresh now now h, ← hanswer, ← happ]
  exact ⟨rfl, rfl⟩

theorem handle_app (g : Guard) (trust : Bool) (a : Arrival) :
    (handle ⟨some g, trust⟩ a.fresh a.now a.request).app =
      ⟨some (g.run (guardCalls trust [a])).guard, trust⟩ := by
  by_cases h : a.request.method = "OPTIONS"
  · simp [handle, handleAt_options _ _ _ _ h, guardCalls, guardCall?, h, Guard.run]
  · rw [(handle_checked g trust a.fresh a.now h).2]
    simp [guardCalls, guardCall?, h, Guard.run, Guard.step]

theorem run_app (g : Guard) (trust : Bool) (arrivals : List Arrival) :
    (run ⟨some g, trust⟩ arrivals).2 =
      ⟨some (g.run (guardCalls trust arrivals)).guard, trust⟩ := by
  induction arrivals generalizing g with
  | nil => rfl
  | cons a rest ih =>
    have hcalls : guardCalls trust (a :: rest) = guardCalls trust [a] ++ guardCalls trust rest :=
      guardCalls_append trust [a] rest
    rw [hcalls, Guard.run_append, ← ih, ← handle_app]
    rfl

theorem run_snoc (app : App) (past : List Arrival) (a : Arrival) :
    let e := (app.run past).2.handle a.fresh a.now a.request
    app.run (past ++ [a]) = ((app.run past).1 ++ [(e.response, e.events)], e.app) := by
  induction past generalizing app with
  | nil => rfl
  | cons b past ih =>
    have htail := ih (app.handle b.fresh b.now b.request).app
    simp only [List.cons_append, run, htail]

theorem countP_guardCalls (trust : Bool) (arrivals : List Arrival) :
    (guardCalls trust arrivals).countP Guard.Call.isCheck =
      arrivals.countP fun a => a.request.method ≠ "OPTIONS" := by
  rw [guardCalls, List.countP_filterMap]
  refine List.countP_congr fun a _ => ?_
  by_cases h : a.request.method = "OPTIONS" <;> simp [guardCall?, h, Guard.Call.isCheck]

theorem retryAfter_of_rejection (r : Request) (id : String) (rejection : Rejection) (v : String) :
    ("retry-after", v) ∈ (respond r id (.ofRejection rejection)).headers ↔ v = "60" := by
  have hdecimal : Text.decimal Rejection.retryAfter = "60" := by decide +kernel
  have hallow : ("retry-after", v) ∉ allowHeader r := by
    rw [allowHeader]
    split <;> simp
  simp [respond, originHeaders, hallow, Answer.headers, Answer.ofRejection, Body.contentType?,
    requestIdField, hdecimal]

theorem refuses_of_rejection (r : Request) (id : String) (rejection : Rejection) :
    (respond r id (.ofRejection rejection)).Refuses r (Body.rejection rejection).text :=
  ⟨rfl, retryAfter_of_rejection r id rejection, rfl⟩

theorem response_follows (r : Request) (id : String) (now : Instant) (o : Outcome Decision) :
    (respond r id (r.answerAfter now o)).Follows r id now o := by
  unfold Response.Follows Request.answerAfter
  cases o.answer with
  | exempt | admitted => exact ⟨r.answer_status_ne (some o.guard) now, rfl⟩
  | blocked remaining => exact refuses_of_rejection r id (.blocked remaining.seconds)
  | rateLimited strikes blocks => exact refuses_of_rejection r id .rateLimited

theorem body_statistics (g : Guard) (now : Instant) (id : String) {r : Request}
    (hget : r.method = "GET") (hpath : r.target.path = "/guard/stats") :
    (respond r id (r.answer (some g) now)).body = (Body.statistics (some g.snapshot)).text := by
  have hroute : Route.ofPath? r.target.path = some .statistics := by
    rw [hpath]
    rfl
  simp only [respond, Request.answer, hroute, hget]
  rfl

theorem total_reached (limits : Limits) (start : Instant) (trust : Bool)
    (arrivals : List Arrival) :
    (Guard.reached limits start (guardCalls trust arrivals)).counters.total =
      (arrivals.countP fun a => a.request.method ≠ "OPTIONS").toUInt64 := by
  rw [Guard.counters_eq_tally, ← countP_guardCalls, ← Guard.length_verdicts_history limits start]
  rfl

/-- The guard of an application that starts with one is driven by its requests alone: one check for
each but OPTIONS, made before the request is answered, and the response follows from that check. -/
theorem app_simulates_guard (s : Settings) (start : Instant) (past : List Arrival) (a : Arrival)
    (h : s.guard.enabled = true) :
    let limits := Limits.ofOptions s.guard
    let trust := s.server.trustForwarded
    let r := a.request
    let g := Guard.reached limits start (guardCalls trust past)
    let o := g.check (ClientKey.ofRequest trust r.headers r.peer) a.now
    let app := ((create s start).run past).2
    let e := app.handle a.fresh a.now r
    app = ⟨some g, trust⟩ ∧
      (create s start).run (past ++ [a]) =
        (((create s start).run past).1 ++ [(e.response, e.events)], e.app) ∧
      (r.method = "OPTIONS" → e.app = app ∧ e.response.status ≠ .tooManyRequests) ∧
      (r.method ≠ "OPTIONS" →
        e.app = ⟨some o.guard, trust⟩ ∧
        e.response.Follows r (requestId a.fresh r) a.now o ∧
        (r.method = "GET" → r.target.path = "/guard/stats" →
          e.response.status ≠ .tooManyRequests →
          ∃ members, e.response.body = Json.writeObject
              [("enabled", Json.writeBool true), ("stats", Json.writeObject members)] ∧
            ("total_requests", Json.writeNat (((past ++ [a]).countP fun b =>
              b.request.method ≠ "OPTIONS") % 0x10000000000000000)) ∈ members)) := by
  intro limits trust r g o app e
  have hnew : create s start = ⟨some (.create limits start), trust⟩ := by
    have henabled : limits.enabled = true := h
    simp only [create, limits, trust] at henabled ⊢
    rw [if_pos henabled]
  have happ : app = ⟨some g, trust⟩ := by
    have hrun := run_app (.create limits start) trust past
    rwa [← hnew] at hrun
  refine ⟨happ, run_snoc _ past a, ?_, ?_⟩
  · intro hm
    have he : e = ⟨preflight r, app, []⟩ := handleAt_options app a.fresh a.now a.now hm
    rw [he]
    exact ⟨rfl, nofun⟩
  · intro hm
    obtain ⟨hresponse, hafter⟩ := handle_checked g trust a.fresh a.now hm
    rw [← happ] at hresponse hafter
    have hfollows : e.response.Follows r (requestId a.fresh r) a.now o :=
      hresponse ▸ response_follows r (requestId a.fresh r) a.now o
    refine ⟨hafter, hfollows, ?_⟩
    intro hget hpath hpassed
    have hbody : e.response.body = (Body.statistics (some o.guard.snapshot)).text := by
      rw [hfollows.eq_of_passed hpassed, body_statistics o.guard a.now _ hget hpath]
    have hcall : guardCalls trust [a] =
        [.check (ClientKey.ofRequest trust r.headers r.peer) a.now] := by
      simp [guardCalls, guardCall?, hm, r]
    have htotal := total_reached limits start trust (past ++ [a])
    rw [guardCalls_append, hcall, Guard.reached_snoc] at htotal
    have hcount : o.guard.snapshot.total.toNat =
        ((past ++ [a]).countP fun b => b.request.method ≠ "OPTIONS") % 0x10000000000000000 :=
      (congrArg UInt64.toNat htotal).trans UInt64.toNat_ofNat'
    refine ⟨statisticsMembers o.guard.snapshot, hbody, ?_⟩
    rw [← hcount]
    simp [statisticsMembers]

def Arrival.plain (method path : String) : Arrival where
  now := .origin
  fresh := "id"
  request := { method, target := { path }, headers := [], peer := none }

theorem statistics_count_own_request :
    let past := [Arrival.plain "GET" "/x", .plain "OPTIONS" "/guard/stats"]
    let e := ((create {} .origin).run past).2.handle "id" .origin
      (Arrival.plain "GET" "/guard/stats").request
    ({} : Settings).guard.enabled = true ∧
      ∃ members, e.response.body = Json.writeObject
          [("enabled", Json.writeBool true), ("stats", Json.writeObject members)] ∧
        ("total_requests", Json.writeNat 2) ∈ members := by
  intro past e
  have hsim := app_simulates_guard {} .origin past (.plain "GET" "/guard/stats") rfl
  obtain ⟨-, -, -, hchecked⟩ := hsim
  exact ⟨rfl, (hchecked (by decide)).2.2 rfl rfl (by decide +kernel)⟩

/-- Three requests of one client under small limits: the first is admitted, the second starts a
block and the third, a HEAD request on a route, is refused without any body. -/
theorem refusal_of_head_has_no_body :
    let s : Settings := { guard := { perClientBurst := 1, strikeThreshold := 1 } }
    let past := [Arrival.plain "GET" "/health", .plain "GET" "/health"]
    let g := Guard.reached (.ofOptions s.guard) .origin (guardCalls false past)
    let e := ((create s .origin).run past).2.handle "id" .origin
      (Arrival.plain "HEAD" "/health").request
    (g.check ClientKey.unknown .origin).answer = .blocked (.ofSeconds 600) ∧
      e.response.status = .tooManyRequests ∧
      ∀ members, e.response.body ≠ Json.writeObject members := by
  intro s past g e
  have hbody : e.response.body = "" := by decide +kernel
  refine ⟨by decide +kernel, by decide +kernel, fun members => ?_⟩
  rw [hbody]
  simp [Json.writeObject]

end App
end AdmissionGuard.Http

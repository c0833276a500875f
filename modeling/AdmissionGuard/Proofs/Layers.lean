import AdmissionGuard.Http.App
import AdmissionGuard.Proofs.HeaderFields

/-! The layers that a request passes. The guard finds the client that the log names, although the
request has been given its identifier in between; and what the clock shows when a route answers is seen
in nothing but the status of a client. -/
namespace AdmissionGuard

namespace ClientKey
open Http

theorem forwarded?_congr {hs ks : List Header}
    (hfor : firstValue? hs "x-forwarded-for" = firstValue? ks "x-forwarded-for")
    (hip : firstValue? hs "x-real-ip" = firstValue? ks "x-real-ip") :
    forwarded? hs = forwarded? ks := by
  simp only [forwarded?, firstText?, hfor, hip]

theorem ofRequest_congr {trust : Bool} {hs ks : List Header} (peer : Option Address)
    (h : trust = true → firstValue? hs "x-forwarded-for" = firstValue? ks "x-forwarded-for" ∧
      firstValue? hs "x-real-ip" = firstValue? ks "x-real-ip") :
    ofRequest trust hs peer = ofRequest trust ks peer := by
  cases trust with
  | false => rfl
  | true => rw [ofRequest, ofRequest, forwarded?_congr (h rfl).1 (h rfl).2]

end ClientKey

namespace Http.App

theorem identified_eq (id : String) (r : Request) :
    identified id r = { r with headers := (identified id r).headers } := by
  rw [identified]
  split <;> rfl

theorem ofRequest_identified (trust : Bool) (id : String) (r : Request) :
    ClientKey.ofRequest trust (identified id r).headers r.peer =
      ClientKey.ofRequest trust r.headers r.peer := by
  rw [identified]
  split
  · next value _ =>
    refine ClientKey.ofRequest_congr r.peer fun _ => ⟨?_, ?_⟩
    · exact firstValue?_setField_other r.headers value (by decide +kernel)
    · exact firstValue?_setField_other r.headers value (by decide +kernel)
  · rfl

/-- The identifier is a text that a field can hold, if a fresh one is. -/
theorem textValue?_requestId {fresh : String} {value : List UInt8}
    (hfresh : textValue? value = some fresh) (hne : fresh ≠ "") (r : Request) :
    requestId fresh r ≠ "" ∧ ∃ value, textValue? value = some (requestId fresh r) := by
  rw [requestId]
  cases h : firstText? r.headers requestIdField with
  | none => exact ⟨hne, value, hfresh⟩
  | some t =>
    by_cases hempty : t = ""
    · rw [Option.filter_some_neg (by simp [hempty])]
      exact ⟨hne, value, hfresh⟩
    · rw [Option.filter_some_pos (by simpa using hempty)]
      obtain ⟨own, -, hown⟩ := Option.bind_eq_some_iff.1 h
      exact ⟨hempty, own, hown⟩

/-- The layers within find in the request the identifier that the log gives it. -/
theorem requestId_identified {fresh : String} {value : List UInt8}
    (hfresh : textValue? value = some fresh) (hne : fresh ≠ "") (other : String) (r : Request) :
    requestId other (identified (requestId fresh r) r) = requestId fresh r := by
  obtain ⟨hid, own, hown⟩ := textValue?_requestId hfresh hne r
  have hfirst : firstText? (identified (requestId fresh r) r).headers requestIdField =
      some (requestId fresh r) := by
    rw [identified, fieldValue?_of_textValue? hown]
    dsimp only
    rw [firstText?, firstValue?_setField_self, Option.bind_some, hown]
  conv_lhs => rw [requestId, hfirst, Option.filter_some_pos (by simpa using hid)]
  rfl

/-- What the guard's layer reads of header fields is the client's key. -/
theorem judged_congr {app : App} {next : App → Request → Answer} {r : Request}
    {headers : List Header} (now : Instant)
    (hclient : ClientKey.ofRequest app.trustForwarded headers r.peer =
      ClientKey.ofRequest app.trustForwarded r.headers r.peer)
    (hnext : ∀ app, next app { r with headers } = next app r) :
    app.judged now next { r with headers } = app.judged now next r := by
  simp only [judged, hclient, hnext]

theorem handleAt_options (app : App) (fresh : String) (checked answered : Instant) {r : Request}
    (h : r.method = "OPTIONS") :
    app.handleAt fresh checked answered r = ⟨preflight r, app, []⟩ := by
  rw [handleAt, if_pos h]

/-- The key is derived once in each layer, and from different header fields; it is the one that the
request as it came has. -/
theorem handleAt_eq (app : App) (fresh : String) (checked answered : Instant) {r : Request}
    (h : r.method ≠ "OPTIONS") :
    let id := requestId fresh r
    let uri := r.target.toString
    let client := ClientKey.ofRequest app.trustForwarded r.headers r.peer
    let p := app.judged checked (routed answered) r
    app.handleAt fresh checked answered r =
      { response := respond r id p.answer
        app := p.app
        events := .requestStarted id r.method uri client :: p.events ++
          [.requestFinished id r.method uri p.answer.status.toString] } := by
  intro id uri client p
  have hclient := ofRequest_identified app.trustForwarded id r
  have hjudged : app.judged checked (routed answered) (identified id r) = p := by
    rw [identified_eq]
    exact judged_congr checked hclient fun _ => rfl
  rw [handleAt, if_neg h]
  dsimp only [logged]
  rw [hjudged, identified_eq id r]
  dsimp only
  rw [hclient]
  rfl

theorem judged_app_events (app : App) (now : Instant) (next next' : App → Request → Answer)
    (r : Request) :
    (app.judged now next r).app = (app.judged now next' r).app ∧
      (app.judged now next r).events = (app.judged now next' r).events := by
  unfold judged
  dsimp only
  split
  · exact ⟨rfl, rfl⟩
  · split <;> exact ⟨rfl, rfl⟩

/-- What relates the answers of the layer within relates those of the guard's layer. -/
theorem judged_answer (app : App) (now : Instant) {next next' : App → Request → Answer}
    {r : Request} {R : Answer → Answer → Prop} (hself : ∀ a, R a a)
    (hnext : ∀ app, R (next app r) (next' app r)) :
    R (app.judged now next r).answer (app.judged now next' r).answer := by
  unfold judged
  dsimp only
  split
  · exact hnext app
  · split
    · exact hnext _
    · exact hself _

theorem routed_status (now later : Instant) (app : App) (r : Request) :
    (routed now app r).status = (routed later app r).status := by
  unfold routed Request.answer
  split
  · rfl
  · next route _ =>
    split
    · cases route with
      | health | statistics => rfl
      | client written =>
        unfold Route.answer
        dsimp only
        split
        · rfl
        · rfl
        · next raw g _ _ =>
          unfold Guard.status?
          cases g.clients.get? ((ClientKey.normalize raw).getD raw) <;> rfl
    · rfl

theorem routed_eq (now later : Instant) (app : App) {r : Request}
    (h : ∀ key, Route.ofPath? r.target.path ≠ some (.client key)) :
    routed now app r = routed later app r := by
  unfold routed Request.answer
  split
  · rfl
  · next route hroute =>
    cases route with
    | health | statistics => rfl
    | client key => exact absurd hroute (h key)

/-- What the clock shows when a request is answered decides neither the application that is left nor
the log, and of the response nothing but the status of a client that it may show. -/
theorem handleAt_clock (app : App) (fresh : String) (checked now later : Instant) (r : Request) :
    let x := app.handleAt fresh checked now r
    let y := app.handleAt fresh checked later r
    x.app = y.app ∧ x.events = y.events ∧ x.response.status = y.response.status ∧
      ((∀ key, Route.ofPath? r.target.path ≠ some (.client key)) → x = y) := by
  intro x y
  by_cases hm : r.method = "OPTIONS"
  · have heq : x = y := by
      simp only [x, y, handleAt_options app fresh checked _ hm]
    rw [heq]
    exact ⟨rfl, rfl, rfl, fun _ => rfl⟩
  · have hx := app.handleAt_eq fresh checked now hm
    have hy := app.handleAt_eq fresh checked later hm
    obtain ⟨happ, hevents⟩ := app.judged_app_events checked (routed now) (routed later) r
    have hstatus := app.judged_answer checked (r := r)
      (R := fun a b => a.status = b.status) (fun _ => rfl)
      fun app => routed_status now later app r
    refine ⟨?_, ?_, ?_, ?_⟩
    · simp only [x, y, hx, hy, happ]
    · simp only [x, y, hx, hy, hevents, hstatus]
    · simp only [x, y, hx, hy]
      exact hstatus
    · intro hroute
      have hanswer := app.judged_answer checked (r := r) (fun _ => rfl)
        fun app => routed_eq now later app hroute
      simp only [x, y, hx, hy, happ, hevents, hanswer]

end Http.App
end AdmissionGuard

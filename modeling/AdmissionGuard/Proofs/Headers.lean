import AdmissionGuard.Proofs.Layers

/-! What a sender can bring about with header fields: its request's identifier, and its key where
forwarding fields are trusted, through the first of each. Two runs that differ in other fields are
told apart by nothing but identifiers. -/
namespace AdmissionGuard

def Event.anonymous : Event → Event
  | requestStarted _ method uri client => requestStarted "" method uri client
  | requestFinished _ method uri status => requestFinished "" method uri status
  | e => e

namespace Http

def Response.anonymous (x : Response) : Response :=
  { x with headers := x.headers.filter fun h => h.1 ≠ App.requestIdField }

namespace App

/-- The requests differ in header fields alone and, where those are trusted, not in the first of
either forwarding field. -/
structure Arrival.Agrees (trust : Bool) (a b : Arrival) : Prop where
  now : a.now = b.now
  method : a.request.method = b.request.method
  target : a.request.target = b.request.target
  peer : a.request.peer = b.request.peer
  forwarding : trust = true →
    firstValue? a.request.headers "x-forwarded-for" =
        firstValue? b.request.headers "x-forwarded-for" ∧
      firstValue? a.request.headers "x-real-ip" = firstValue? b.request.headers "x-real-ip"

def SameReply (p q : Response × List Event) : Prop :=
  p.1.anonymous = q.1.anonymous ∧ p.2.map Event.anonymous = q.2.map Event.anonymous

/-- An answer is worded without regard to the header fields of its request. -/
theorem respond_anonymous (r : Request) (headers : List Header) (id id' : String) (a : Answer) :
    (respond r id a).anonymous = (respond { r with headers } id' a).anonymous := by
  simp [respond, Response.anonymous, allowHeader, List.filter_cons]

theorem judged_trust (app : App) (now : Instant) (next : App → Request → Answer) (r : Request) :
    (app.judged now next r).app.trustForwarded = app.trustForwarded := by
  unfold judged
  split
  · rfl
  · dsimp only
    split <;> rfl

theorem handle_trust (app : App) (a : Arrival) :
    (app.handle a.fresh a.now a.request).app.trustForwarded = app.trustForwarded := by
  by_cases hm : a.request.method = "OPTIONS"
  · rw [handle, handleAt_options app a.fresh a.now a.now hm]
  · rw [handle, handleAt_eq app a.fresh a.now a.now hm]
    exact judged_trust app a.now _ a.request

/-- One request: the application is left the same, and the replies are. -/
theorem handle_agrees {app : App} {a b : Arrival} (h : a.Agrees app.trustForwarded b) :
    let x := app.handle a.fresh a.now a.request
    let y := app.handle b.fresh b.now b.request
    x.app = y.app ∧ SameReply (x.response, x.events) (y.response, y.events) := by
  obtain ⟨now, fresh, r⟩ := a
  obtain ⟨now', fresh', r'⟩ := b
  obtain ⟨hnow, hmethod, htarget, hpeer, hforwarding⟩ := h
  have hr : r' = { r with headers := r'.headers } := by
    cases r
    cases r'
    simp_all
  have hclient := ClientKey.ofRequest_congr r.peer hforwarding
  have hjudged : app.judged now (routed now) { r with headers := r'.headers } =
      app.judged now (routed now) r := judged_congr now hclient.symm fun _ => rfl
  dsimp only at hnow hr hclient ⊢
  rw [hr, ← hnow]
  by_cases hm : r.method = "OPTIONS"
  · rw [handle, handle, handleAt_options app fresh now now hm,
      handleAt_options app fresh' now now (r := { r with headers := r'.headers }) hm]
    exact ⟨rfl, rfl, rfl⟩
  · rw [handle, handle, handleAt_eq app fresh now now hm,
      handleAt_eq app fresh' now now (r := { r with headers := r'.headers }) hm]
    dsimp only
    rw [hclient, hjudged]
    refine ⟨rfl, respond_anonymous r r'.headers _ _ _, ?_⟩
    simp [Event.anonymous]

theorem run_agrees {trust : Bool} {u v : List Arrival} (h : List.Forall₂ (Arrival.Agrees trust) u v)
    (app : App) (htrust : app.trustForwarded = trust) :
    (app.run u).2 = (app.run v).2 ∧ List.Forall₂ SameReply (app.run u).1 (app.run v).1 := by
  induction h generalizing app with
  | nil => exact ⟨rfl, .nil⟩
  | @cons a b u v hab _ ih =>
    rw [← htrust] at hab
    obtain ⟨happ, hreply⟩ := handle_agrees hab
    obtain ⟨hlast, hreplies⟩ := ih _ ((handle_trust app a).trans htrust)
    simp only [run]
    rw [← happ]
    exact ⟨hlast, .cons hreply hreplies⟩

/-- Two sequences of requests that agree in all but header fields leave the same application and get
the same replies, but for the identifiers in them; where forwarding fields are trusted, the first of
each has to agree as well. -/
theorem headers_without_influence (s : Settings) (start : Instant) {u v : List Arrival}
    (h : List.Forall₂ (Arrival.Agrees s.server.trustForwarded) u v) :
    ((create s start).run u).2 = ((create s start).run v).2 ∧
      List.Forall₂ SameReply ((create s start).run u).1 ((create s start).run v).1 :=
  run_agrees h (create s start) rfl

def Arrival.withHeaders (a : Arrival) (fresh : String) (headers : List (String × String)) : Arrival :=
  { a with
    fresh
    request := { a.request with
      headers := headers.map fun (name, value) => ⟨name, value.toUTF8.toList⟩ } }

/-- A sender that claims another address each time is denied all the same, at its second request. -/
theorem spoofed_address_is_denied :
    let s : Settings := { guard := { perClientBurst := 1, strikeThreshold := 1 } }
    let u := [Arrival.mk .origin "id" ⟨"GET", { path := "/x" }, [], none⟩,
      .mk .origin "id" ⟨"GET", { path := "/x" }, [], none⟩]
    let v := [u[0].withHeaders "a" [("X-Forwarded-For", "192.0.2.1")],
      u[1].withHeaders "b" [("x-forwarded-for", "192.0.2.2"), ("X-Request-Id", "mine")]]
    List.Forall₂ (Arrival.Agrees s.server.trustForwarded) u v ∧
      ((create s .origin).run u).1.map (·.1.status) = [.ok, .tooManyRequests] ∧
      ((create s .origin).run u).2 = ((create s .origin).run v).2 ∧
      List.Forall₂ SameReply ((create s .origin).run u).1 ((create s .origin).run v).1 := by
  intro s u v
  have hagrees : List.Forall₂ (Arrival.Agrees s.server.trustForwarded) u v :=
    .cons ⟨rfl, rfl, rfl, rfl, nofun⟩ (.cons ⟨rfl, rfl, rfl, rfl, nofun⟩ .nil)
  exact ⟨hagrees, by decide +kernel, headers_without_influence s .origin hagrees⟩

end App
end Http
end AdmissionGuard

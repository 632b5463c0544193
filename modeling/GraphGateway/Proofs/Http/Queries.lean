import GraphGateway.Http.Router
import GraphGateway.Library.Schema
import GraphGateway.Proofs.Gateway.EnvelopeReading
import GraphGateway.Proofs.Gateway.ResponseClasses
import Mathlib

/-!
This module contains the proof of what is answered to a body that is posted as a query: what is no
envelope is refused and changes nothing, and every envelope is answered as the gateway answers its
request, with a status that tells whether a panic has been caught meanwhile.
-/

namespace GraphGateway

theorem Response.mem_codes_iff {response : Response} {cls : ErrorClass}
    (h : ∀ e ∈ response.errors, e.code? = some cls.code) (other : ErrorClass)
    : other.code ∈ response.codes ↔ response.errors ≠ [] ∧ cls = other := by
  unfold codes
  rw [List.mem_filterMap]
  constructor
  . rintro ⟨e, he, hcode⟩
    have hcls := Option.some.inj ((h e he).symm.trans hcode)
    exact ⟨List.ne_nil_of_mem he, ErrorClass.code_injective hcls⟩
  . rintro ⟨hne, rfl⟩
    obtain ⟨e, he⟩ := List.exists_mem_of_ne_nil _ hne
    exact ⟨e, he, h e he⟩

namespace Gateway

theorem PrepareError.mem_codes_iff (e : PrepareError)
    : ErrorClass.internalFault.code ∈ e.toResponse.codes ↔ e.isInternal = true := by
  rw [Response.mem_codes_iff fun error he => code?_of_mem_toResponse he]
  cases e <;> simp [errorClass, isInternal, toResponse, Response.ofErrors]

theorem mem_codes_answerOfPlan (plan : Plan) (request : Request)
    : ErrorClass.internalFault.code ∈ (answerOfPlan plan request).response.codes
        ↔ (request.run plan).panicked = true := by
  have hclass := hasClass_answerOfPlan plan request
  rw [panicked_run_iff, Response.mem_codes_iff hclass.code]
  constructor
  . intro h
    cases hcls : classOfPlan plan request <;> rw [hcls] at h <;> simp_all [ResponseClass.errorClass]
  . intro hcls
    rw [hcls] at hclass ⊢
    exact ⟨hclass.errors_ne_nil nofun, rfl⟩

section Catching

variable (gateway : Gateway) (request : Request) (state : State)

theorem mem_codes_answer
    : ErrorClass.internalFault.code ∈ (gateway.answer request state).1.response.codes
        ↔ gateway.catchesPanic request state = true := by
  unfold catchesPanic
  rw [answer_eq]
  cases houtcome : (gateway.course request.text state.cache).outcome with
  | error e =>
    rw [answerBy_of_error state gateway request.run request houtcome]
    exact e.mem_codes_iff
  | ok plan =>
    rw [answerBy_of_plan state gateway request.run request houtcome]
    exact mem_codes_answerOfPlan plan request

theorem outcome_course_of_get?_eq_none (h : state.cache.get? request.text = none)
    : (gateway.course request.text state.cache).outcome = gateway.planOf request.text := by
  unfold course
  rw [h]
  exact gateway.outcome_courseOfMiss request.text

theorem get?_eq_none_of_outcome {e : PrepareError}
    (h : (gateway.course request.text state.cache).outcome = .error e)
    : state.cache.get? request.text = none := by
  unfold course at h
  split at h
  . cases h
  . assumption

theorem catchesPanic_iff
    : gateway.catchesPanic request state = true
        ↔ (state.cache.get? request.text = none ∧ gateway.PanicsOn request.text)
          ∨ (gateway.answer request state).1.journal.Panicked := by
  unfold catchesPanic
  rw [answer_eq, panicsOn_iff]
  cases houtcome : (gateway.course request.text state.cache).outcome with
  | error e =>
    have hmiss := gateway.get?_eq_none_of_outcome request state houtcome
    rw [answerBy_of_error state gateway request.run request houtcome, hmiss,
      ← gateway.outcome_course_of_get?_eq_none request state hmiss, houtcome]
    cases e <;> simp [PrepareError.isInternal, Journal.not_panicked_empty]
  | ok plan =>
    rw [answerBy_of_plan state gateway request.run request houtcome]
    refine ((panicked_run_iff plan request).trans (classOfPlan_eq_faulted_iff plan request)).trans
      ?_
    -- A text that comes to a plan has not met a panic on the way there.
    refine ⟨.inr, fun h => h.resolve_left ?_⟩
    rintro ⟨hmiss, panic, hplan⟩
    rw [gateway.outcome_course_of_get?_eq_none request state hmiss, hplan] at houtcome
    cases houtcome

end Catching

end Gateway

namespace Http

namespace Router

section Bodies

variable (gateway : Gateway) {body : List UInt8} (state : Gateway.State)

theorem query_of_tooLarge (h : bodyLimit < body.length)
    : query gateway body state = (tooLarge, state) := by
  unfold query
  rw [if_pos h]
  rfl

theorem query_of_fault {fault : Json.Fault} (h : body.length ≤ bodyLimit)
    (hfault : Envelope.ofBytes body = .error fault)
    : query gateway body state = (badRequest fault, state) := by
  unfold query
  rw [if_neg (Nat.not_lt.mpr h), hfault]
  rfl

theorem query_of_envelope {envelope : Envelope} (h : body.length ≤ bodyLimit)
    (henvelope : Envelope.ofBytes body = .ok envelope)
    : query gateway body state
        =
      let (answered, after) := gateway.answer envelope.toRequest state
      (.json (statusOf answered.response) answered.response.toJson, after) := by
  unfold query
  rw [if_neg (Nat.not_lt.mpr h), henvelope]
  rfl

end Bodies

section Posting

variable (router : Router) {request : Request} (state : Gateway.State)

theorem route_query (hmethod : request.method = "POST")
    (hpath : request.path = "/" ∨ request.path = "/graphql")
    : router.route request = query router.gateway request.body := by
  have hendpoint : Endpoint.ofPath? request.path = some .query := by
    rcases hpath with hpath | hpath <;> rw [hpath] <;> rfl
  unfold route
  rw [hendpoint]
  simp [hmethod, Endpoint.methods, serve]

theorem respond_query (hmethod : request.method = "POST")
    (hpath : request.path = "/" ∨ request.path = "/graphql")
    : router.respond request state
        =
      let (response, after) := query router.gateway request.body state
      (router.origins.share request response, after) := by
  have hhead : answersHead request = false := by
    simp [answersHead, hmethod]
  unfold respond
  rw [route_query router hmethod hpath, hhead]
  rfl

/--
A body that is posted as a query is refused, and changes nothing, if it is too large or no envelope.
Every envelope is answered with the response that the gateway gives to its request, and its state
becomes the one that the gateway is left in. The status tells whether a panic was caught, whatever
the errors of resolvers carry.
-/
theorem respond_posted (hmethod : request.method = "POST")
    (hpath : request.path = "/" ∨ request.path = "/graphql")
    : let responded := router.respond request state
      (bodyLimit < request.body.length → responded.1.status = 413 ∧ responded.2 = state)
        ∧ (request.body.length ≤ bodyLimit →
          (∀ envelope : Envelope,
            envelope.WrittenAsObject request.body ∨ envelope.WrittenAsList request.body →
            let asked := ⟨envelope.text, envelope.bindings.getD [], .object [], .object []⟩
            let answered := router.gateway.answer asked state
            let caught :=
              (state.cache.get? asked.text = none ∧ router.gateway.PanicsOn asked.text)
                ∨ answered.1.journal.Panicked
            responded.1.body = answered.1.response.toJson.render ∧ responded.2 = answered.2
              ∧ (caught → responded.1.status = 500
                ∧ answered.2.counters.internalFaults = state.counters.internalFaults + 1)
              ∧ (¬ caught → responded.1.status = 200
                ∧ answered.2.counters.internalFaults = state.counters.internalFaults))
          ∧ ((∀ envelope : Envelope,
              ¬ envelope.WrittenAsObject request.body ∧ ¬ envelope.WrittenAsList request.body) →
            responded.1.status = 400 ∧ responded.2 = state
              ∧ ∃ e, responded.1.body = (GraphGateway.Response.ofErrors [e]).toJson.render
                ∧ e.code? = some ErrorClass.badRequest.code)) := by
  intro responded
  have hresponded : responded = _ := respond_query router state hmethod hpath
  refine ⟨?_, fun hlimit => ⟨?_, ?_⟩⟩
  . intro hlarge
    rw [hresponded, query_of_tooLarge _ _ hlarge]
    exact ⟨Origins.status_share _ _ _, rfl⟩
  . intro envelope hwritten asked answered caught
    have henvelope := Envelope.ofBytes_eq_ok_iff.mpr hwritten
    have hcaught : router.gateway.catchesPanic asked state = true ↔ caught :=
      router.gateway.catchesPanic_iff asked state
    -- The router does not see the panic itself, but the code of its error.
    have hcodes : ErrorClass.internalFault.code ∈ answered.1.response.codes ↔ caught :=
      (router.gateway.mem_codes_answer asked state).trans hcaught
    have hfaults : answered.2.counters.internalFaults = _ :=
      router.gateway.internalFaults_answer asked state
    rw [hresponded, query_of_envelope _ _ hlimit henvelope]
    refine ⟨Origins.body_share _ _ _, rfl, ?_, ?_⟩
    . intro h
      refine ⟨(Origins.status_share _ _ _).trans (if_pos (hcodes.mpr h)), ?_⟩
      rw [hfaults, hcaught.mpr h]
      rfl
    . intro h
      refine ⟨(Origins.status_share _ _ _).trans (if_neg fun hmem => h (hcodes.mp hmem)), ?_⟩
      rw [hfaults, Bool.eq_false_iff.mpr fun htrue => h (hcaught.mp htrue)]
      rfl
  . intro hnone
    cases hread : Envelope.ofBytes request.body with
    | ok envelope =>
      obtain ⟨hobject, hlist⟩ := hnone envelope
      exact absurd (Envelope.ofBytes_eq_ok_iff.mp hread) (not_or.mpr ⟨hobject, hlist⟩)
    | error fault =>
      rw [hresponded, query_of_fault _ _ hlimit hread]
      exact ⟨Origins.status_share _ _ _, rfl, _, Origins.body_share _ _ _, rfl⟩

end Posting

def overLibrary : Router :=
  ⟨.ofSchema (Library.schema Library.authors .sync) true, .any⟩

def posting (body : String) : Request :=
  ⟨"POST", "/", [], body.toUTF8.toList⟩

theorem path_posting (body : String) : (posting body).path = "/" := by
  have hpath : (posting body).path = (posting "").path := rfl
  rw [hpath]
  cbv

theorem respond_posted_plain
    : let responded := overLibrary.respond (posting "authors") (.initial .unbounded)
      responded.1.status = 400 ∧ responded.2 = .initial .unbounded := by
  have hsmall : (posting "authors").body.length ≤ bodyLimit := by
    cbv
  have hnone : (Envelope.ofBytes (posting "authors").body).toOption = none := by
    cbv
  have hrefused := ((respond_posted overLibrary (.initial .unbounded) rfl
    (.inl (path_posting "authors"))).2 hsmall).2 fun envelope =>
      not_or.mp fun hwritten => by
        rw [Envelope.ofBytes_eq_ok_iff.mpr hwritten] at hnone
        cases hnone
  exact ⟨hrefused.1, hrefused.2.1⟩

def listed : Request :=
  posting "[\"\x7b authors \x7b id \x7d \x7d\"]"

theorem ofBytes_listed
    : Envelope.ofBytes listed.body = .ok ⟨"\x7b authors \x7b id \x7d \x7d", none⟩ := by
  cbv

theorem not_writtenAsObject_listed (envelope : Envelope)
    : ¬ envelope.WrittenAsObject listed.body := by
  rintro ⟨_, _, ⟨_, _, hpeek, _⟩, _⟩
  have hlist : Json.Read.peekPastSpace (.ofBytes listed.body)
      = .ok (some '[') (.ofBytes listed.body) := by
    cbv
  cases hlist.symm.trans hpeek

theorem codes_listed
    : (overLibrary.gateway.answer ⟨"\x7b authors \x7b id \x7d \x7d", [], .object [], .object []⟩
        (.initial .unbounded)).1.response.codes = [] := by
  cbv

theorem status_listed
    : (overLibrary.respond listed (.initial .unbounded)).1.status = 200 := by
  have hsmall : listed.body.length ≤ bodyLimit := by
    cbv
  have hresponded := respond_query overLibrary (.initial .unbounded) (rfl : listed.method = "POST")
    (.inl (path_posting _))
  rw [hresponded, query_of_envelope _ _ hsmall ofBytes_listed]
  refine (Origins.status_share _ _ _).trans (if_neg ?_)
  intro hmem
  cases codes_listed ▸ hmem

theorem not_respond_badRequest
    : ¬ ∀ (router : Router) (request : Request) (state : Gateway.State), request.method = "POST" →
        request.path = "/" → (∀ envelope : Envelope, ¬ envelope.WrittenAsObject request.body) →
        (router.respond request state).1.status = 400 := by
  intro h
  have hbad := h overLibrary listed (.initial .unbounded) rfl (path_posting _)
    not_writtenAsObject_listed
  rw [status_listed] at hbad
  cases hbad

end Router

end Http
end GraphGateway

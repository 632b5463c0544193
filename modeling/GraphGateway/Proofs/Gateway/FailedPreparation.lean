import GraphGateway.Proofs.Gateway.Course
import GraphGateway.Proofs.Gateway.Transparency

/-!
This module contains the proof that what stops a text before its plan runs leaves no trace in the
cache, and that the run of a plan leaves none either.
-/

namespace GraphGateway

namespace PlanCache

variable {α : Type}

theorem settle_empty (retention : Retention)
    : (PlanCache.empty retention : PlanCache α).settle = .empty retention := by
  cases retention <;> simp [empty, settle, keep]

theorem settle_withLooks (cache : PlanCache α) (looks : Nat)
    : { cache with looks }.settle = cache.settle := rfl

/--
In a settled cache a text that is not found leaves no other trace than that it was looked for.
-/
theorem exists_lookup_eq_withLooks {cache : PlanCache α} {text : String}
    (hsettled : cache.settle = cache) (h : cache.get? text = none) (looks : Nat)
    : ∃ after, ({ cache with looks }.lookup text).2 = { cache with looks := after } := by
  unfold lookup
  dsimp only
  split
  . rw [settle_withLooks, hsettled, touch_of_get?_eq_none cache text h]
    exact ⟨_, rfl⟩
  . rw [touch_of_get?_eq_none { cache with looks } text h]
    exact ⟨_, rfl⟩

end PlanCache

namespace Gateway

namespace PrepareError

def errorClass : PrepareError → ErrorClass
  | syntaxError _ => .syntaxError
  | compileErrors _ => .compilationError
  | panic _ => .internalFault

theorem data_toResponse (e : PrepareError) : e.toResponse.data = none := by
  cases e <;> rfl

theorem code?_of_mem_toResponse {e : PrepareError} {error : ResponseError}
    (h : error ∈ e.toResponse.errors)
    : error.code? = some e.errorClass.code := by
  cases e with
  | syntaxError e | panic p =>
    rw [List.mem_singleton.mp h]
    rfl
  | compileErrors errors =>
    obtain ⟨e, _, rfl⟩ := List.mem_map.mp h
    rfl

end PrepareError

namespace Course

theorem get?_of_error {gateway : Gateway} {text : String} {cache : PlanCache PreparedPlan}
    {e : PrepareError} (h : (gateway.course text cache).outcome = .error e)
    : cache.get? text = none := by
  unfold course at h
  split at h
  . cases h
  . assumption

theorem planOf_of_error {gateway : Gateway} {text : String} {cache : PlanCache PreparedPlan}
    {e : PrepareError} (h : (gateway.course text cache).outcome = .error e)
    : gateway.planOf text = .error e := by
  rw [← outcome_courseOfMiss, ← h]
  unfold course
  rw [get?_of_error h]

theorem keep_of_error {course : Course} {e : PrepareError} (h : course.outcome = .error e)
    (gateway : Gateway) (text : String) (number : Nat) (cache : PlanCache PreparedPlan)
    : course.keep gateway text number cache = course.look gateway text cache := by
  cases course with
  | compiled plan => cases h
  | _ => rfl

theorem exists_look_eq_withLooks {cache : PlanCache PreparedPlan} {text : String}
    (hsettled : cache.settle = cache) (hnone : cache.get? text = none) (gateway : Gateway)
    (course : Course)
    : ∃ after, course.look gateway text cache = { cache with looks := after } := by
  obtain ⟨once, honce⟩ := PlanCache.exists_lookup_eq_withLooks hsettled hnone cache.looks
  obtain ⟨twice, htwice⟩ := PlanCache.exists_lookup_eq_withLooks hsettled hnone once
  have honce : (cache.lookup text).2 = { cache with looks := once } := honce
  unfold look
  dsimp only
  rw [honce]
  split
  . exact ⟨twice, htwice⟩
  . exact ⟨once, rfl⟩

theorem settle_keep_of_error {gateway : Gateway} {text : String} {cache : PlanCache PreparedPlan}
    {e : PrepareError} (h : (gateway.course text cache).outcome = .error e)
    (hsettled : cache.settle = cache) (number : Nat)
    : ((gateway.course text cache).keep gateway text number cache).settle = cache := by
  obtain ⟨looks, hlook⟩ := exists_look_eq_withLooks hsettled (get?_of_error h) gateway
    (gateway.course text cache)
  rw [keep_of_error h, hlook]
  exact hsettled

end Course

end Gateway

def SessionStep.stopped (e : Gateway.PrepareError) : SessionStep → StepAnswer
  | execute _ => .executed ⟨e.toResponse, .empty⟩
  | _ => .prepared (.error e)

namespace Session

open Gateway (State PrepareError Course)

theorem settle_cache_run (session : Session) (steps : List (Bool × SessionStep)) {state : State}
    (h : state.cache.settle = state.cache)
    : (session.run steps state).2.cache.settle = (session.run steps state).2.cache := by
  induction steps generalizing state with
  | nil => exact h
  | cons head rest ih =>
    obtain ⟨second, step⟩ := head
    rw [run_cons]
    apply ih
    apply PlanCache.settle_settle

theorem perform_of_error (session : Session) (second : Bool) {step : SessionStep} {text : String}
    (h : step.asked? = some text) {state : State} {e : PrepareError}
    (houtcome : ((session.gateway second).course text state.cache).outcome = .error e)
    : (session.perform second step state).1 = step.stopped e := by
  cases step with
  | execute request =>
    cases h
    have hanswer := Gateway.answerBy_of_error state (session.gateway second) request.run request
      houtcome
    exact congrArg (fun answered => StepAnswer.executed answered.1) hanswer
  | prepare text =>
    cases h
    have hprepare := (session.gateway second).prepare_apply text state
    rw [(Course.result_eq_error_iff _).mpr houtcome] at hprepare
    exact congrArg (fun prepared => StepAnswer.prepared prepared.1) hprepare
  | lookup text | contains text | clear => cases h

theorem cache_kept_of_stopped (session : Session) (retention : Retention)
    (steps : List (Bool × SessionStep)) (second : Bool) (step : SessionStep)
    : let gateway := session.gateway second
      let before := (session.run steps (.initial retention)).2
      let after := session.step second step before
      (∀ text e, step.asked? = some text → (gateway.prepare text before).1 = .error e →
        after.2.cache = before.cache ∧ after.1 = step.stopped e
          ∧ gateway.planOf text = .error e ∧ e.toResponse.data = none
          ∧ ∀ error, error ∈ e.toResponse.errors → error.code? = some e.errorClass.code)
        ∧ ∀ request run, step = .execute request →
            after.2.cache = (gateway.answerBy run request before).2.cache.settle := by
  intro gateway before after
  have hsettled : before.cache.settle = before.cache :=
    session.settle_cache_run steps (PlanCache.settle_empty retention)
  constructor
  . intro text e hasked hprepare
    rw [Gateway.prepare_apply] at hprepare
    have houtcome := (Course.result_eq_error_iff _).mp hprepare
    have hcache : after.2.cache = (session.perform second step before).2.cache.settle := rfl
    rw [(alike_perform_of_asked session second hasked before).cache] at hcache
    refine ⟨?_, ?_, Course.planOf_of_error houtcome, e.data_toResponse, ?_⟩
    . exact hcache.trans (Course.settle_keep_of_error houtcome hsettled before.plansMade)
    . exact perform_of_error session second hasked houtcome
    . intro error hmem
      exact PrepareError.code?_of_mem_toResponse hmem
  . intro request run heq
    subst heq
    have hcache : after.2.cache
        = (session.perform second (.execute request) before).2.cache.settle :=
      rfl
    rw [hcache, perform_execute, (Gateway.alike_answerBy before _ request.run request).cache,
      (Gateway.alike_answerBy before _ run request).cache]

theorem cache_kept_of_stopped_ofLibrary
    : let before :=
        (ofLibrary.run [(false, .prepare namesRequest.text)] (.initial (.lru 1))).2
      let request : Gateway.Request := ⟨"\x7b", [], .object [], .object []⟩
      (ofLibrary.step true (.execute request) before).2.cache = before.cache := by
  intro before request
  have hscan : Tokens.ofText "\x7b" = .ok ⟨[⟨.punctuator .braceL, ⟨1, 1⟩⟩], ⟨1, 2⟩⟩ := by
    cbv
  have hread : Document.ofText "\x7b" = .error ⟨.expectedToken .name none, ⟨1, 2⟩⟩ := by
    unfold Document.ofText
    rw [hscan]
    rfl
  have hplan : ofLibrary.second.planOf "\x7b"
      = .error (.syntaxError ⟨.expectedToken .name none, ⟨1, 2⟩⟩) := by
    simp [Gateway.planOf, Gateway.documentOf, ofLibrary, Gateway.ofSchema, hread, Except.mapError,
      bind, Except.bind]
  have hagrees : ofLibrary.second.Agrees before.cache :=
    (agrees_gateway ⟨rfl, rfl, rfl⟩ true before.cache).mpr
      (agrees_run ⟨rfl, rfl, rfl⟩ _ (ofLibrary.first.agrees_empty (.lru 1)))
  have hprepared := (ofLibrary.second.prepare_agrees "\x7b" before hagrees).1
  rw [hplan] at hprepared
  have hfailed : (ofLibrary.second.prepare "\x7b" before).1
      = .error (.syntaxError ⟨.expectedToken .name none, ⟨1, 2⟩⟩) := by
    cases hresult : (ofLibrary.second.prepare "\x7b" before).1 with
    | ok prepared =>
      rw [hresult] at hprepared
      cases hprepared
    | error e =>
      rw [hresult] at hprepared
      exact congrArg _ (Except.error.inj hprepared)
  exact ((cache_kept_of_stopped ofLibrary (.lru 1) [(false, .prepare namesRequest.text)] true
    (.execute request)).1 "\x7b" _ rfl hfailed).1

end Session

end GraphGateway

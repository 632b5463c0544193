import GraphGateway.Proofs.Gateway.Course
import GraphGateway.Proofs.Gateway.Transparency

/-!
This module contains what a cache without a bound holds in a session: the plans of the texts that
were asked for since it was last cleared, each with a number of its own.
-/

namespace GraphGateway

namespace SessionStep

def askedAfter (asked : List String) : SessionStep → List String
  | execute request => asked ++ [request.text]
  | prepare text => asked ++ [text]
  | clear => []
  | _ => asked

end SessionStep

namespace Gateway

namespace Course

variable (gateway : Gateway) (text : String) {cache : PlanCache PreparedPlan}

theorem get?_look (h : cache.retention = .unbounded) (course : Course) (other : String)
    : (course.look gateway text cache).get? other = cache.get? other := by
  have hlooked := PlanCache.get?_lookup cache h text other
  unfold look
  dsimp only
  split
  . rw [PlanCache.get?_lookup _ ((cache.retention_lookup text).trans h), hlooked]
  . exact hlooked

theorem retention_look (course : Course)
    : (course.look gateway text cache).retention = cache.retention := by
  unfold look
  dsimp only
  split
  . rw [PlanCache.retention_lookup, PlanCache.retention_lookup]
  . rw [PlanCache.retention_lookup]

theorem get?_keep (h : cache.retention = .unbounded) (course : Course) (number : Nat)
    (other : String)
    : (course.keep gateway text number cache).get? other
        =
      match course with
      | compiled plan => if text = other then some ⟨plan, number⟩ else cache.get? other
      | _ => cache.get? other := by
  cases course with
  | compiled plan =>
    unfold keep
    rw [PlanCache.get?_store _ ((retention_look gateway text _).trans h), get?_look gateway text h]
  | _ => exact get?_look gateway text h _ other

theorem retention_keep (course : Course) (number : Nat)
    : (course.keep gateway text number cache).retention = cache.retention := by
  cases course with
  | compiled plan =>
    unfold keep
    rw [PlanCache.retention_store, retention_look gateway text]
  | _ => exact retention_look gateway text _

theorem eq_compiled_of_planOf {gateway : Gateway} {text : String} {plan : Plan}
    (h : gateway.planOf text = .ok plan)
    : gateway.courseOfMiss text = .compiled plan := by
  rw [← outcome_courseOfMiss] at h
  unfold courseOfMiss at h ⊢
  split at h
  . cases h
  . cases h
  . split at h
    . cases h
    . cases h
    . cases h
      rfl

theorem reads_courseOfMiss : (gateway.courseOfMiss text).reads = true := by
  unfold courseOfMiss
  split
  . rfl
  . rfl
  . split <;> rfl

theorem get?_of_hit {gateway : Gateway} {text : String} {prepared : PreparedPlan}
    (h : gateway.course text cache = .hit prepared)
    : cache.get? text = some prepared := by
  unfold course at h
  split at h
  . next found hfound =>
    cases h
    exact hfound
  . have hreads := reads_courseOfMiss gateway text
    rw [h] at hreads
    cases hreads

theorem compiles_courseOfMiss
    : (gateway.courseOfMiss text).compiles = (gateway.documentOf text).toOption.isSome := by
  unfold courseOfMiss documentOf
  rcases gateway.parse text with p | e | document
  . rfl
  . rfl
  . dsimp only
    split <;> rfl

end Course

end Gateway

namespace Session

open Gateway (State Course)

/--
What is known of a state, by what the texts compile to, the texts asked for since the last clear,
and the texts of all plans that were made, one after the other.
-/
structure Remembers (planOf : String → Except Gateway.PrepareError Plan) (asked made : List String)
    (state : State) : Prop where
  retention : state.cache.retention = .unbounded
  found : ∀ text, (state.cache.get? text).isSome ↔ text ∈ asked ∧ ∃ plan, planOf text = .ok plan
  plan : ∀ text prepared, state.cache.get? text = some prepared → planOf text = .ok prepared.plan
  number : ∀ text prepared, state.cache.get? text = some prepared →
    made[prepared.number]? = some text
  plansMade : state.plansMade = made.length

theorem remembers_initial (planOf : String → Except Gateway.PrepareError Plan)
    : Remembers planOf [] [] (.initial .unbounded) where
  retention := rfl
  found := by
    intro text
    simp [State.initial, PlanCache.get?, PlanCache.empty, Ordered.get?]
  plan := nofun
  number := nofun
  plansMade := rfl

namespace Remembers

variable {planOf : String → Except Gateway.PrepareError Plan} {asked made : List String}
  {state : State}

theorem congr (h : Remembers planOf asked made state) {other : State}
    (hretention : other.cache.retention = .unbounded)
    (hget : ∀ text, other.cache.get? text = state.cache.get? text)
    (hplans : other.plansMade = state.plansMade)
    : Remembers planOf asked made other where
  retention := hretention
  found := by
    intro text
    rw [hget]
    exact h.found text
  plan := by
    intro text prepared
    rw [hget]
    exact h.plan text prepared
  number := by
    intro text prepared
    rw [hget]
    exact h.number text prepared
  plansMade := hplans.trans h.plansMade

theorem asks (h : Remembers planOf asked made state) {text : String}
    (htext : text ∈ asked ∨ ∀ plan, planOf text ≠ .ok plan)
    : Remembers planOf (asked ++ [text]) made state where
  retention := h.retention
  found := by
    intro other
    rw [h.found other, List.mem_append, List.mem_singleton]
    constructor
    . rintro ⟨hmem, hplan⟩
      exact ⟨.inl hmem, hplan⟩
    . rintro ⟨hmem | rfl, plan, hplan⟩
      . exact ⟨hmem, plan, hplan⟩
      . rcases htext with htext | htext
        . exact ⟨htext, plan, hplan⟩
        . exact absurd hplan (htext plan)
  plan := h.plan
  number := h.number
  plansMade := h.plansMade

theorem makes (h : Remembers planOf asked made state) {text : String} {plan : Plan}
    (hplan : planOf text = .ok plan) {other : State}
    (hretention : other.cache.retention = .unbounded)
    (hget : ∀ name, other.cache.get? name
      = if text = name then some ⟨plan, state.plansMade⟩ else state.cache.get? name)
    (hplans : other.plansMade = state.plansMade + 1)
    : Remembers planOf (asked ++ [text]) (made ++ [text]) other where
  retention := hretention
  found := by
    intro name
    rw [hget, List.mem_append, List.mem_singleton]
    by_cases hname : text = name
    . subst hname
      simp [hplan]
    . rw [if_neg hname, h.found name]
      simp [Ne.symm hname]
  plan := by
    intro name prepared hprepared
    rw [hget] at hprepared
    split at hprepared
    . next heq =>
      subst heq
      cases hprepared
      exact hplan
    . exact h.plan name prepared hprepared
  number := by
    intro name prepared hprepared
    rw [hget] at hprepared
    split at hprepared
    . next heq =>
      subst heq
      cases hprepared
      simp [h.plansMade]
    . have hnumber := h.number name prepared hprepared
      exact (List.getElem?_append_left (List.getElem?_eq_some_iff.mp hnumber).1).trans hnumber
  plansMade := by
    rw [hplans, h.plansMade, List.length_append, List.length_singleton]

theorem hit_or_miss {gateway : Gateway} (h : Remembers gateway.planOf asked made state)
    (text : String)
    : (∃ prepared plan, gateway.course text state.cache = .hit prepared
          ∧ state.cache.get? text = some prepared ∧ text ∈ asked
          ∧ gateway.planOf text = .ok plan)
        ∨ (gateway.course text state.cache = gateway.courseOfMiss text
            ∧ state.cache.get? text = none
            ∧ (text ∈ asked → ∀ plan, gateway.planOf text ≠ .ok plan)) := by
  have hfound := h.found text
  unfold Gateway.course
  cases hget : state.cache.get? text with
  | some prepared =>
    rw [hget] at hfound
    obtain ⟨hmem, plan, hplan⟩ := hfound.mp rfl
    exact .inl ⟨prepared, plan, rfl, rfl, hmem, hplan⟩
  | none =>
    rw [hget] at hfound
    refine .inr ⟨rfl, rfl, ?_⟩
    intro hmem plan hplan
    exact absurd (hfound.mpr ⟨hmem, plan, hplan⟩) Bool.false_ne_true

theorem prepared {gateway : Gateway} (h : Remembers gateway.planOf asked made state)
    (text : String)
    : ∃ more, Remembers gateway.planOf (asked ++ [text]) (made ++ more)
        ((gateway.course text state.cache).after gateway text state) := by
  have hretention := (Course.retention_keep gateway text (gateway.course text state.cache)
    state.plansMade).trans h.retention
  have hget := Course.get?_keep gateway text h.retention (gateway.course text state.cache)
    state.plansMade
  rcases h.hit_or_miss text with ⟨prepared, _, hcourse, _, hmem, _⟩ | ⟨hcourse, _, _⟩
  . refine ⟨[], ?_⟩
    rw [List.append_nil]
    rw [hcourse] at hretention hget ⊢
    exact (h.asks (.inl hmem)).congr hretention hget rfl
  . cases hplan : gateway.planOf text with
    | ok plan =>
      rw [Course.eq_compiled_of_planOf hplan] at hcourse
      rw [hcourse] at hretention hget ⊢
      exact ⟨[text], h.makes hplan hretention hget rfl⟩
    | error e =>
      have houtcome := gateway.outcome_courseOfMiss text
      rw [← hcourse, hplan] at houtcome
      have hfailed : ∀ plan, gateway.planOf text ≠ .ok plan := by
        intro plan heq
        rw [hplan] at heq
        cases heq
      refine ⟨[], ?_⟩
      rw [List.append_nil]
      cases hend : gateway.course text state.cache with
      | hit prepared | compiled plan =>
        rw [hend] at houtcome
        cases houtcome
      | parserPanic p | syntaxError e | compilerPanic p | compileErrors errors =>
        rw [hend] at hretention hget
        exact (h.asks (.inr hfailed)).congr hretention hget rfl

theorem step {session : Session} (hfront : session.SharesFront)
    (h : Remembers session.first.planOf asked made state) (second : Bool) (step : SessionStep)
    : ∃ more, Remembers session.first.planOf (step.askedAfter asked) (made ++ more)
        (session.step second step state).2 := by
  -- A cache without a bound drops nothing when it settles after the step.
  suffices hperformed : ∃ more, Remembers session.first.planOf (step.askedAfter asked)
      (made ++ more) (session.perform second step state).2 by
    obtain ⟨more, hperformed⟩ := hperformed
    exact ⟨more, hperformed.congr hperformed.retention
      (PlanCache.get?_settle _ hperformed.retention) rfl⟩
  have hasks {text : String} (hasked : step.asked? = some text)
      : ∃ more, Remembers session.first.planOf (asked ++ [text]) (made ++ more)
          (session.perform second step state).2 := by
    have halike := alike_perform_of_asked session second hasked state
    rw [← planOf_gateway hfront second] at h ⊢
    obtain ⟨more, hprepared⟩ := h.prepared text
    refine ⟨more, hprepared.congr ?_ ?_ halike.plansMade⟩
    . rw [halike.cache]
      exact hprepared.retention
    . intro other
      rw [halike.cache]
  cases step with
  | execute request => exact hasks rfl
  | prepare text => exact hasks rfl
  | lookup text =>
    refine ⟨[], ?_⟩
    rw [List.append_nil]
    exact h.congr ((state.cache.retention_lookup text).trans h.retention)
      (PlanCache.get?_lookup state.cache h.retention text) rfl
  | contains text =>
    refine ⟨[], ?_⟩
    rw [List.append_nil]
    exact h
  | clear =>
    refine ⟨[], ?_⟩
    rw [List.append_nil]
    exact
      { retention := h.retention
        found := by
          intro text
          exact ⟨nofun, fun h => nomatch h.1⟩
        plan := nofun
        number := nofun
        plansMade := h.plansMade }

theorem run {session : Session} (hfront : session.SharesFront)
    {asked made : List String} {state : State}
    (h : Remembers session.first.planOf asked made state) (steps : List (Bool × SessionStep))
    : ∃ more, Remembers session.first.planOf
        (steps.foldl (fun asked step => step.2.askedAfter asked) asked) (made ++ more)
        (session.run steps state).2 := by
  induction steps generalizing asked made state with
  | nil =>
    refine ⟨[], ?_⟩
    rw [List.append_nil]
    exact h
  | cons head rest ih =>
    obtain ⟨second, step⟩ := head
    obtain ⟨once, hstep⟩ := h.step hfront second step
    obtain ⟨more, hrest⟩ := ih hstep
    rw [run_cons]
    refine ⟨once ++ more, ?_⟩
    rw [← List.append_assoc]
    exact hrest

end Remembers

theorem retention_perform (session : Session) (second : Bool) (step : SessionStep) (state : State)
    : (session.perform second step state).2.cache.retention = state.cache.retention := by
  have hasks {text : String} (hasked : step.asked? = some text)
      : (session.perform second step state).2.cache.retention = state.cache.retention := by
    rw [(alike_perform_of_asked session second hasked state).cache]
    exact Course.retention_keep _ text _ _
  cases step with
  | execute request | prepare text => exact hasks rfl
  | lookup text => exact state.cache.retention_lookup text
  | contains text | clear => rfl

theorem get?_perform_of_found {state : State} (hretention : state.cache.retention = .unbounded)
    {text : String} {prepared : PreparedPlan} (h : state.cache.get? text = some prepared)
    (session : Session) (second : Bool) {step : SessionStep} (hclear : step ≠ .clear)
    : (session.perform second step state).2.cache.get? text = some prepared := by
  have hasks {other : String} (hasked : step.asked? = some other)
      : (session.perform second step state).2.cache.get? text = some prepared := by
    have hkeep := Course.get?_keep (session.gateway second) other hretention
      ((session.gateway second).course other state.cache) state.plansMade text
    rw [(alike_perform_of_asked session second hasked state).cache]
    refine hkeep.trans ?_
    split
    . next plan hcourse =>
      -- a text that is compiled was not found, so that it is another one
      have hother : other ≠ text := by
        rintro rfl
        unfold Gateway.course at hcourse
        rw [h] at hcourse
        cases hcourse
      rw [if_neg hother]
      exact h
    . exact h
  cases step with
  | execute request | prepare other => exact hasks rfl
  | lookup other => exact (state.cache.get?_lookup hretention other text).trans h
  | contains other => exact h
  | clear => exact absurd rfl hclear

theorem get?_run_of_found (session : Session) {text : String} {prepared : PreparedPlan}
    {steps : List (Bool × SessionStep)} (hsteps : ∀ next ∈ steps, next.2 ≠ .clear) {state : State}
    (hretention : state.cache.retention = .unbounded)
    (h : state.cache.get? text = some prepared)
    : (session.run steps state).2.cache.get? text = some prepared := by
  induction steps generalizing state with
  | nil => exact h
  | cons head rest ih =>
    obtain ⟨second, step⟩ := head
    have hperformed := (session.retention_perform second step state).trans hretention
    have hfound : (session.step second step state).2.cache.get? text = some prepared :=
      (PlanCache.get?_settle _ hperformed text).trans
        (get?_perform_of_found hretention h session second (hsteps _ List.mem_cons_self))
    have hretained : (session.step second step state).2.cache.retention = .unbounded := hperformed
    rw [run_cons]
    exact ih (fun next hnext => hsteps next (List.mem_cons_of_mem _ hnext)) hretained hfound

end Session
end GraphGateway

import GraphGateway.Proofs.Gateway.Course
import GraphGateway.Proofs.Gateway.Transparency

/-!
This module contains the proof that what a gateway counts and reports adds up, whatever is asked of
it and whatever becomes of that.
-/

namespace GraphGateway
namespace Gateway

def reports (executed : Nat) (courses : List Course) (executions : List Execution)
    : EventName → Nat
  | .queryReceived => executed
  | .planCacheHit => courses.countP (!·.reads)
  | .planCacheMiss => courses.countP (·.reads)
  | .syntaxRejected => courses.countP (·.isSyntaxError)
  | .compilationRejected => courses.countP (·.isCompileErrors)
  | .planCompiled => courses.countP (·.isCompiled)
  | .queryExecuted => executions.countP (!·.panicked)
  | .internalFault =>
    courses.countP (·.isParserPanic) + courses.countP (·.isCompilerPanic)
      + executions.countP (·.panicked)
  | _ => 0

def State.reported (state : State) (name : EventName) : Nat :=
  state.events.countP fun event => event.name? == some name

/--
The account of a gateway that has been asked to execute so many times, where the texts and the runs
came to the given ends. Whether the storing of a plan is reported depends on the gateway.
-/
structure Tallies (executed : Nat) (courses : List Course) (executions : List Execution)
    (state : State) : Prop where
  requests : state.counters.requests = executed
  cacheHits : state.counters.cacheHits = courses.countP (!·.reads)
  cacheMisses : state.counters.cacheMisses = courses.countP (·.reads)
  parses : state.counters.parses = courses.countP (·.reads)
  parserCalls : state.parserCalls = courses.countP (·.reads)
  compilations : state.counters.compilations = courses.countP (·.compiles)
  compilerCalls : state.compilerCalls = courses.countP (·.compiles)
  syntaxErrors : state.counters.syntaxErrors = courses.countP (·.isSyntaxError)
  compilationErrors : state.counters.compilationErrors = courses.countP (·.isCompileErrors)
  plansMade : state.plansMade = courses.countP (·.isCompiled)
  executionErrors : state.counters.executionErrors = executions.countP (·.hasErrors)
  internalFaults :
    state.counters.internalFaults
      = courses.countP (·.isParserPanic) + courses.countP (·.isCompilerPanic)
          + executions.countP (·.panicked)
  events : ∀ name, name ≠ .planStored →
    state.reported name = reports executed courses executions name

theorem reports_append (executed more : Nat) (courses others : List Course)
    (executions runs : List Execution) (name : EventName)
    : reports (executed + more) (courses ++ others) (executions ++ runs) name
        = reports executed courses executions name + reports more others runs name := by
  cases name <;> simp only [reports, List.countP_append]
  omega

theorem reports_course (gateway : Gateway) (text : String) (course : Course) (name : EventName)
    (h : name ≠ .planStored)
    : (course.events gateway text).countP (fun event => event.name? == some name)
        = reports 0 [course] [] name := by
  cases course with
  | compiled plan =>
    unfold Course.events
    cases gateway.singleFlight <;> cases name <;> first | rfl | exact absurd rfl h
  | _ => cases name <;> rfl

theorem reports_execution (execution : Execution) (name : EventName)
    : (Event.ofExecution execution).countP (fun event => event.name? == some name)
        = reports 0 [] [execution] name := by
  have hraised : (execution.journal.resolverErrors.map
      (fun raised => Event.resolverFailed raised.1 raised.2.message)).countP
      (fun event => event.name? == some name) = 0 := by
    rw [List.countP_eq_zero]
    intro event hmem
    obtain ⟨raised, _, rfl⟩ := List.mem_map.mp hmem
    exact Bool.false_ne_true
  unfold Event.ofExecution
  rw [List.countP_append, hraised]
  cases houtcome : execution.outcome <;> cases name <;>
    simp [reports, Event.name?, Execution.panicked, houtcome]

theorem tallies_initial (retention : Retention) : Tallies 0 [] [] (.initial retention) where
  requests := rfl
  cacheHits := rfl
  cacheMisses := rfl
  parses := rfl
  parserCalls := rfl
  compilations := rfl
  compilerCalls := rfl
  syntaxErrors := rfl
  compilationErrors := rfl
  plansMade := rfl
  executionErrors := rfl
  internalFaults := rfl
  events := by
    intro name _
    cases name <;> rfl

theorem countP_concat_of_eq {α : Type} {p : α → Bool} {xs : List α} {x : α} {before after : Nat}
    (hbefore : before = xs.countP p) (hafter : after = before + (p x).toNat)
    : after = (xs ++ [x]).countP p := by
  rw [hafter, hbefore, List.countP_append, List.countP_singleton]
  cases p x <;> rfl

namespace Tallies

variable {executed : Nat} {courses : List Course} {executions : List Execution} {state : State}

theorem received (h : Tallies executed courses executions state) (request : Request)
    : Tallies (executed + 1) courses executions (received request state) :=
  { h with
    requests := congrArg Nat.succ h.requests
    events := by
      intro name hname
      have happend := reports_append executed 1 courses [] executions [] name
      rw [List.append_nil, List.append_nil] at happend
      rw [happend, ← h.events name hname]
      unfold State.reported Gateway.received
      rw [List.countP_append]
      cases name <;> rfl }

theorem prepared (h : Tallies executed courses executions state) (gateway : Gateway)
    (text : String) (course : Course)
    : Tallies executed (courses ++ [course]) executions (course.after gateway text state) where
  requests := h.requests
  cacheHits := countP_concat_of_eq h.cacheHits rfl
  cacheMisses := countP_concat_of_eq h.cacheMisses rfl
  parses := countP_concat_of_eq h.parses rfl
  parserCalls := countP_concat_of_eq h.parserCalls rfl
  compilations := countP_concat_of_eq h.compilations rfl
  compilerCalls := countP_concat_of_eq h.compilerCalls rfl
  syntaxErrors := countP_concat_of_eq h.syntaxErrors rfl
  compilationErrors := countP_concat_of_eq h.compilationErrors rfl
  plansMade := countP_concat_of_eq h.plansMade rfl
  executionErrors := h.executionErrors
  internalFaults := by
    have hparser : (courses ++ [course]).countP (·.isParserPanic)
        = courses.countP (·.isParserPanic) + course.isParserPanic.toNat :=
      (countP_concat_of_eq rfl rfl).symm
    have hcompiler : (courses ++ [course]).countP (·.isCompilerPanic)
        = courses.countP (·.isCompilerPanic) + course.isCompilerPanic.toNat :=
      (countP_concat_of_eq rfl rfl).symm
    have hfaults := h.internalFaults
    have hone : (course.isParserPanic || course.isCompilerPanic).toNat
        = course.isParserPanic.toNat + course.isCompilerPanic.toNat := by
      cases course <;> rfl
    simp only [Course.after, Course.count, hone]
    omega
  events := by
    intro name hname
    have happend := reports_append executed 0 courses [course] executions [] name
    rw [List.append_nil] at happend
    unfold State.reported Course.after
    rw [List.countP_append, reports_course gateway text course name hname]
    exact (congrArg (· + _) (h.events name hname)).trans happend.symm

theorem ran (h : Tallies executed courses executions state) (execution : Execution)
    : Tallies executed courses (executions ++ [execution]) (ran execution state) :=
  { h with
    executionErrors := countP_concat_of_eq h.executionErrors rfl
    internalFaults := by
      have hpanicked : (executions ++ [execution]).countP (·.panicked)
          = executions.countP (·.panicked) + execution.panicked.toNat :=
        (countP_concat_of_eq rfl rfl).symm
      have hfaults := h.internalFaults
      simp only [Gateway.ran]
      omega
    events := by
      intro name hname
      have happend := reports_append executed 0 courses [] executions [execution] name
      rw [List.append_nil] at happend
      unfold State.reported Gateway.ran
      rw [List.countP_append, reports_execution execution name]
      exact (congrArg (· + _) (h.events name hname)).trans happend.symm }

theorem withCache (h : Tallies executed courses executions state) (cache : PlanCache PreparedPlan)
    : Tallies executed courses executions { state with cache } :=
  { h with }

end Tallies

theorem countP_eq_add {α : Type} {p q r t : α → Bool}
    (h : ∀ x, (p x).toNat = (q x).toNat + (r x).toNat + (t x).toNat) (xs : List α)
    : xs.countP p = xs.countP q + xs.countP r + xs.countP t := by
  have hone (p : α → Bool) (x : α) : (if p x then 1 else 0) = (p x).toNat := by
    cases p x <;> rfl
  induction xs with
  | nil => rfl
  | cons x rest ih =>
    have hx := h x
    simp only [List.countP_cons, hone]
    omega

theorem countP_reads (courses : List Course)
    : courses.countP (·.reads)
        = courses.countP (·.compiles) + courses.countP (·.isSyntaxError)
            + courses.countP (·.isParserPanic) := by
  apply countP_eq_add
  intro course
  cases course <;> rfl

theorem countP_compiles (courses : List Course)
    : courses.countP (·.compiles)
        = courses.countP (·.isCompiled) + courses.countP (·.isCompileErrors)
            + courses.countP (·.isCompilerPanic) := by
  apply countP_eq_add
  intro course
  cases course <;> rfl

end Gateway

namespace Session

open Gateway (State Course Tallies)

def trail (session : Session) (steps : List (Bool × SessionStep)) (state : State)
    : List (Bool × SessionStep × State) :=
  match steps with
  | [] => []
  | (second, step) :: rest =>
    (second, step, state) :: session.trail rest (session.step second step state).2

def courseOf (session : Session) : Bool × SessionStep × State → Option Course
  | (second, step, state) =>
    step.asked?.map fun text => (session.gateway second).course text state.cache

def executionOf (session : Session) : Bool × SessionStep × State → Option Execution
  | (second, .execute request, state) =>
    ((session.gateway second).course request.text state.cache).outcome.toOption.map request.run
  | _ => none

/-- What the counters, the calls and the events have to do with the steps and with each other. -/
structure Conserves (steps : List (Bool × SessionStep)) (courses : List Course)
    (executions : List Execution) (state : State) : Prop where
  requests : state.counters.requests = steps.countP fun step => step.2.isExecute
  lookups :
    state.counters.cacheHits + state.counters.cacheMisses
      = steps.countP fun step => step.2.asked?.isSome
  misses : state.counters.cacheMisses = state.counters.parses
  parserCalls : state.counters.parses = state.parserCalls
  compilerCalls : state.counters.compilations = state.compilerCalls
  parses :
    state.counters.parses
      = state.counters.compilations + state.counters.syntaxErrors
          + courses.countP (·.isParserPanic)
  compilations :
    state.counters.compilations
      = courses.countP (·.isCompiled) + state.counters.compilationErrors
          + courses.countP (·.isCompilerPanic)
  internalFaults :
    state.counters.internalFaults
      = courses.countP (·.isParserPanic) + courses.countP (·.isCompilerPanic)
          + executions.countP (·.panicked)
  executionErrors : state.counters.executionErrors = executions.countP (·.hasErrors)
  plansMade : state.plansMade = courses.countP (·.isCompiled)
  queryReceived : state.counters.requests = state.reported .queryReceived
  planCacheHit : state.counters.cacheHits = state.reported .planCacheHit
  planCacheMiss : state.counters.cacheMisses = state.reported .planCacheMiss
  syntaxRejected : state.counters.syntaxErrors = state.reported .syntaxRejected
  compilationRejected : state.counters.compilationErrors = state.reported .compilationRejected
  planCompiled : state.plansMade = state.reported .planCompiled
  queryExecuted : executions.countP (!·.panicked) = state.reported .queryExecuted
  internalFault : state.counters.internalFaults = state.reported .internalFault

theorem tallies_step {executed : Nat} {courses : List Course} {executions : List Execution}
    {state : State} (h : Tallies executed courses executions state) (session : Session)
    (second : Bool) (step : SessionStep)
    : Tallies (executed + step.isExecute.toNat)
        (courses ++ (session.courseOf (second, step, state)).toList)
        (executions ++ (session.executionOf (second, step, state)).toList)
        (session.step second step state).2 := by
  suffices hperformed : Tallies (executed + step.isExecute.toNat)
      (courses ++ (session.courseOf (second, step, state)).toList)
      (executions ++ (session.executionOf (second, step, state)).toList)
      (session.perform second step state).2 from hperformed.withCache _
  cases step with
  | execute request =>
    have hprepared := (h.received request).prepared (session.gateway second) request.text
      ((session.gateway second).course request.text state.cache)
    have hexecution : session.executionOf (second, .execute request, state)
        = ((session.gateway second).course request.text state.cache).outcome.toOption.map
            request.run := rfl
    rw [hexecution, perform_execute]
    cases houtcome : ((session.gateway second).course request.text state.cache).outcome with
    | error e =>
      rw [Gateway.answerBy_of_error _ _ _ _ houtcome]
      rw [← List.append_nil executions] at hprepared
      exact hprepared
    | ok plan =>
      rw [Gateway.answerBy_of_plan _ _ _ _ houtcome]
      exact hprepared.ran (request.run plan)
  | prepare text =>
    rw [← List.append_nil executions] at h
    rw [perform_prepare]
    exact h.prepared _ text _
  | lookup text | clear =>
    rw [← List.append_nil courses, ← List.append_nil executions] at h
    exact h.withCache _
  | contains text =>
    rw [← List.append_nil courses, ← List.append_nil executions] at h
    exact h

theorem tallies_run {executed : Nat} {courses : List Course} {executions : List Execution}
    {state : State} (h : Tallies executed courses executions state) (session : Session)
    (steps : List (Bool × SessionStep))
    : Tallies (executed + steps.countP fun step => step.2.isExecute)
        (courses ++ (session.trail steps state).filterMap session.courseOf)
        (executions ++ (session.trail steps state).filterMap session.executionOf)
        (session.run steps state).2 := by
  induction steps generalizing executed courses executions state with
  | nil =>
    rw [← List.append_nil courses, ← List.append_nil executions] at h
    exact h
  | cons head rest ih =>
    obtain ⟨second, step⟩ := head
    have hrest := ih (tallies_step h session second step)
    rw [List.append_assoc, List.append_assoc, Nat.add_assoc] at hrest
    have hexecuted : ((second, step) :: rest).countP (fun step => step.2.isExecute)
        = step.isExecute.toNat + rest.countP (fun step => step.2.isExecute) := by
      rw [List.countP_cons, Nat.add_comm]
      cases step.isExecute <;> rfl
    rw [run_cons, hexecuted]
    unfold trail
    rw [List.filterMap_cons, List.filterMap_cons]
    cases hcourse : session.courseOf (second, step, state) <;>
      cases hexecution : session.executionOf (second, step, state) <;>
      rw [hcourse, hexecution] at hrest <;> exact hrest

theorem length_courses (session : Session) (steps : List (Bool × SessionStep)) (state : State)
    : ((session.trail steps state).filterMap session.courseOf).length
        = steps.countP fun step => step.2.asked?.isSome := by
  induction steps generalizing state with
  | nil => rfl
  | cons head rest ih =>
    obtain ⟨second, step⟩ := head
    unfold trail
    rw [List.countP_cons, ← ih (session.step second step state).2]
    cases step <;> rfl

theorem conserves_run (session : Session) (retention : Retention)
    (steps : List (Bool × SessionStep))
    : Conserves steps
        ((session.trail steps (.initial retention)).filterMap session.courseOf)
        ((session.trail steps (.initial retention)).filterMap session.executionOf)
        (session.run steps (.initial retention)).2 := by
  have h := tallies_run (Gateway.tallies_initial retention) session steps
  rw [Nat.zero_add, List.nil_append, List.nil_append] at h
  have hlength := session.length_courses steps (.initial retention)
  -- What is left is arithmetic of the ends that the texts and the runs came to.
  generalize (session.trail steps (.initial retention)).filterMap session.courseOf = courses at *
  generalize (session.trail steps (.initial retention)).filterMap session.executionOf
    = executions at *
  have hasked : courses.countP (!·.reads) + courses.countP (·.reads) = courses.length := by
    have hlength :=
      List.length_eq_countP_add_countP (fun course : Course => course.reads) (l := courses)
    simp only [Bool.not_eq_true, Bool.decide_eq_false] at hlength
    omega
  have hreads := Gateway.countP_reads courses
  have hcompiles := Gateway.countP_compiles courses
  exact
    { requests := h.requests
      lookups := by
        rw [h.cacheHits, h.cacheMisses, hasked, hlength]
      misses := h.cacheMisses.trans h.parses.symm
      parserCalls := h.parses.trans h.parserCalls.symm
      compilerCalls := h.compilations.trans h.compilerCalls.symm
      parses := by
        rw [h.parses, h.compilations, h.syntaxErrors, hreads]
      compilations := by
        rw [h.compilations, h.compilationErrors, hcompiles]
      internalFaults := h.internalFaults
      executionErrors := h.executionErrors
      plansMade := h.plansMade
      queryReceived := h.requests.trans (h.events .queryReceived (by decide)).symm
      planCacheHit := h.cacheHits.trans (h.events .planCacheHit (by decide)).symm
      planCacheMiss := h.cacheMisses.trans (h.events .planCacheMiss (by decide)).symm
      syntaxRejected := h.syntaxErrors.trans (h.events .syntaxRejected (by decide)).symm
      compilationRejected :=
        h.compilationErrors.trans (h.events .compilationRejected (by decide)).symm
      planCompiled := h.plansMade.trans (h.events .planCompiled (by decide)).symm
      queryExecuted := (h.events .queryExecuted (by decide)).symm
      internalFault := h.internalFaults.trans (h.events .internalFault (by decide)).symm }

end Session
end GraphGateway

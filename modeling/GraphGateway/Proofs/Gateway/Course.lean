import GraphGateway.Gateway.Session
import GraphGateway.Proofs.Gateway.Preparation

/-!
This module contains the courses that the preparation of a text can take, and that each of them says
everything that a gateway does: what it answers, what it counts, what it reports and what it keeps.
-/

namespace GraphGateway

namespace Execution

def panicked (execution : Execution) : Bool :=
  match execution.outcome with
  | .ok _ => false
  | .error _ => true

def hasErrors (execution : Execution) : Bool :=
  match execution.outcome with
  | .ok response => !response.isOk
  | .error _ => false

end Execution

namespace Gateway

inductive Course where
  | hit (prepared : PreparedPlan)
  | parserPanic (p : Panic)
  | syntaxError (e : SyntaxError)
  | compilerPanic (p : Panic)
  | compileErrors (errors : List CompileError)
  | compiled (plan : Plan)

namespace Course

def result (number : Nat) : Course → Except PrepareError PreparedPlan
  | hit prepared => .ok prepared
  | parserPanic p | compilerPanic p => .error (.panic p)
  | syntaxError e => .error (.syntaxError e)
  | compileErrors errors => .error (.compileErrors errors)
  | compiled plan => .ok ⟨plan, number⟩

def outcome : Course → Except PrepareError Plan
  | hit prepared => .ok prepared.plan
  | parserPanic p | compilerPanic p => .error (.panic p)
  | syntaxError e => .error (.syntaxError e)
  | compileErrors errors => .error (.compileErrors errors)
  | compiled plan => .ok plan

theorem result_eq_error_iff {course : Course} {e : PrepareError} (number : Nat)
    : course.result number = .error e ↔ course.outcome = .error e := by
  cases course with
  | hit prepared | compiled plan => exact ⟨nofun, nofun⟩
  | parserPanic p | compilerPanic p | syntaxError e | compileErrors errors =>
    simp [result, outcome]

theorem exists_result_of_plan {course : Course} {plan : Plan} (h : course.outcome = .ok plan)
    (number : Nat)
    : ∃ own, course.result number = .ok ⟨plan, own⟩ := by
  cases course with
  | parserPanic p | compilerPanic p | syntaxError e | compileErrors errors => cases h
  | hit prepared =>
    cases h
    exact ⟨prepared.number, rfl⟩
  | compiled plan =>
    cases h
    exact ⟨number, rfl⟩

def reads : Course → Bool
  | hit _ => false
  | _ => true

def compiles : Course → Bool
  | compilerPanic _ | compileErrors _ | compiled _ => true
  | _ => false

def isParserPanic : Course → Bool
  | parserPanic _ => true
  | _ => false

def isSyntaxError : Course → Bool
  | syntaxError _ => true
  | _ => false

def isCompilerPanic : Course → Bool
  | compilerPanic _ => true
  | _ => false

def isCompileErrors : Course → Bool
  | compileErrors _ => true
  | _ => false

def isCompiled : Course → Bool
  | compiled _ => true
  | _ => false

def count (course : Course) (counters : Counters) : Counters :=
  { counters with
    cacheHits := counters.cacheHits + (!course.reads).toNat
    cacheMisses := counters.cacheMisses + course.reads.toNat
    parses := counters.parses + course.reads.toNat
    compilations := counters.compilations + course.compiles.toNat
    syntaxErrors := counters.syntaxErrors + course.isSyntaxError.toNat
    compilationErrors := counters.compilationErrors + course.isCompileErrors.toNat
    internalFaults :=
      counters.internalFaults + (course.isParserPanic || course.isCompilerPanic).toNat }

def events (gateway : Gateway) (text : String) : Course → List Event
  | hit _ => [.planCacheHit]
  | parserPanic p | compilerPanic p => [.planCacheMiss, .internalFault .compilation p.message]
  | syntaxError e => [.planCacheMiss, .syntaxRejected e.display e.code]
  | compileErrors errors =>
    [.planCacheMiss, .compilationRejected (CompileError.display errors) errors.length]
  | compiled plan =>
    [.planCacheMiss, .planCompiled plan.kind.name plan.fieldCount]
      ++ if gateway.singleFlight then [] else [.storingPlan text.utf8ByteSize, .planStored]

/-- A text that is not found is looked up once more if the gateway has single flight. -/
def look (gateway : Gateway) (text : String) (course : Course) (cache : PlanCache PreparedPlan)
    : PlanCache PreparedPlan :=
  let looked := (cache.lookup text).2
  if course.reads && gateway.singleFlight then (looked.lookup text).2 else looked

/-- Only a plan that is compiled is stored. -/
def keep (gateway : Gateway) (text : String) (course : Course) (number : Nat)
    (cache : PlanCache PreparedPlan)
    : PlanCache PreparedPlan :=
  match course with
  | compiled plan => (course.look gateway text cache).store text ⟨plan, number⟩
  | _ => course.look gateway text cache

def after (gateway : Gateway) (text : String) (course : Course) (state : State) : State where
  cache := course.keep gateway text state.plansMade state.cache
  counters := course.count state.counters
  parserCalls := state.parserCalls + course.reads.toNat
  compilerCalls := state.compilerCalls + course.compiles.toNat
  plansMade := state.plansMade + course.isCompiled.toNat
  events := state.events ++ course.events gateway text

end Course

def courseOfMiss (gateway : Gateway) (text : String) : Course :=
  match gateway.parse text with
  | .error p => .parserPanic p
  | .ok (.error e) => .syntaxError e
  | .ok (.ok document) =>
    match gateway.compile gateway.schema document with
    | .error p => .compilerPanic p
    | .ok (.error errors) => .compileErrors errors
    | .ok (.ok plan) => .compiled plan

def course (gateway : Gateway) (text : String) (cache : PlanCache PreparedPlan) : Course :=
  match cache.get? text with
  | some prepared => .hit prepared
  | none => gateway.courseOfMiss text

theorem outcome_courseOfMiss (gateway : Gateway) (text : String)
    : (gateway.courseOfMiss text).outcome = gateway.planOf text := by
  unfold courseOfMiss planOf documentOf
  rcases gateway.parse text with p | e | document
  . rfl
  . rfl
  . unfold planOfDocument
    rcases hcompile : gateway.compile gateway.schema document with p | errors | plan
    all_goals
      dsimp [Except.mapError, bind, Except.bind]
      rw [hcompile]
      rfl

section Steps

variable (gateway : Gateway) (text : String) (state : State)

theorem get_apply : (get : GatewayM State) state = (state, state) := rfl

theorem modify_apply (f : State → State) : (modify f : GatewayM PUnit) state = ((), f state) := rfl

theorem count_apply (update : Counters → Counters)
    : count update state = ((), { state with counters := update state.counters }) := rfl

theorem lookup_apply
    : lookup text state
        = (state.cache.get? text, { state with cache := (state.cache.lookup text).2 }) := rfl

theorem store_apply (prepared : PreparedPlan)
    : gateway.store text prepared state
        =
      ((), { state with
        cache := state.cache.store text prepared
        events := state.events ++ if gateway.singleFlight then []
          else [.storingPlan text.utf8ByteSize, .planStored] }) := by
  unfold store
  cases gateway.singleFlight with
  | false =>
    simp only [Bool.not_false, if_true, bind_apply, modify_apply, emit_apply, List.append_assoc]
    rfl
  | true =>
    simp only [if_true, List.append_nil]
    rfl

theorem miss_apply
    : gateway.miss text state
        =
      ((), { state with
        cache := if gateway.singleFlight then (state.cache.lookup text).2 else state.cache
        counters.cacheMisses := state.counters.cacheMisses + 1
        events := state.events ++ [.planCacheMiss] }) := by
  unfold miss
  cases gateway.singleFlight <;> rfl

theorem prepare_of_get?_eq_none (h : state.cache.get? text = none)
    : gateway.prepare text state
        =
      ((gateway.courseOfMiss text).result state.plansMade,
        (gateway.courseOfMiss text).after gateway text state) := by
  rw [prepare_of_miss gateway h, bind_apply, lookup_apply, miss_apply]
  unfold compileAndStore compileText parseText compileDocument courseOfMiss catchPanic
  rcases gateway.parse text with p | e | document
  . simp only [bind_apply, pure_apply, modify_apply, count_apply, emit_apply, List.append_assoc]
    rfl
  . simp only [bind_apply, pure_apply, modify_apply, count_apply, emit_apply, List.append_assoc]
    rfl
  . rcases hcompile : gateway.compile gateway.schema document with p | errors | plan
    all_goals
      simp only [hcompile, bind_apply, pure_apply, get_apply, modify_apply, count_apply, emit_apply,
        store_apply, List.append_assoc]
      rfl

theorem prepare_apply
    : gateway.prepare text state
        =
      ((gateway.course text state.cache).result state.plansMade,
        (gateway.course text state.cache).after gateway text state) := by
  unfold course
  cases hfound : state.cache.get? text with
  | some prepared =>
    unfold prepare
    rw [bind_apply, lookup_apply, hfound]
    rfl
  | none => exact gateway.prepare_of_get?_eq_none text state hfound

end Steps

def Answer.ofExecution (execution : Execution) : Answer :=
  match execution.outcome with
  | .ok response => ⟨response, execution.journal⟩
  | .error panic => ⟨.ofErrors [.ofPanic panic], execution.journal⟩

def Event.ofExecution (execution : Execution) : List Event :=
  execution.journal.resolverErrors.map (fun raised => .resolverFailed raised.1 raised.2.message)
    ++
  match execution.outcome with
  | .ok response => [.queryExecuted response.errors.length]
  | .error panic => [.internalFault .execution panic.message]

def ran (execution : Execution) (state : State) : State :=
  { state with
    counters.executionErrors := state.counters.executionErrors + execution.hasErrors.toNat
    counters.internalFaults := state.counters.internalFaults + execution.panicked.toNat
    events := state.events ++ Event.ofExecution execution }

def received (request : Request) (state : State) : State :=
  { state with
    counters.requests := state.counters.requests + 1
    events := state.events ++ [.queryReceived request.text.utf8ByteSize] }

def conclude (execution : Execution) : GatewayM Answer := do
  for (coordinate, e) in execution.journal.resolverErrors do
    emit (.resolverFailed coordinate e.message)
  match execution.outcome with
  | .ok response =>
    if !response.isOk then
      count fun counters => { counters with executionErrors := counters.executionErrors + 1 }
    emit (.queryExecuted response.errors.length)
    return ⟨response, execution.journal⟩
  | .error panic =>
    catchPanic .execution panic
    return ⟨.ofErrors [.ofPanic panic], execution.journal⟩

def answerBy (gateway : Gateway) (run : Plan → Execution) (request : Request)
    : GatewayM Answer := do
  modify (received request)
  match ← gateway.prepare request.text with
  | .ok prepared => conclude (run prepared.plan)
  | .error e => return ⟨e.toResponse, .empty⟩

def Request.run (request : Request) (plan : Plan) : Execution :=
  plan.answer request.bindings request.context request.root

theorem answer_eq (gateway : Gateway) (request : Request)
    : gateway.answer request = gateway.answerBy request.run request := rfl

section Runs

variable (execution : Execution) (state : State)

theorem conclude_apply
    : conclude execution state = (.ofExecution execution, ran execution state) := by
  unfold conclude Answer.ofExecution ran Event.ofExecution Execution.hasErrors Execution.panicked
  rw [bind_apply, emitAll_apply]
  cases execution.outcome with
  | error panic =>
    simp only [catchPanic, bind_apply, pure_apply, count_apply, emit_apply, List.append_assoc]
    rfl
  | ok response =>
    cases hok : response.isOk with
    | false =>
      simp only [hok, Bool.not_false, if_true, bind_apply, pure_apply, count_apply, emit_apply,
        List.append_assoc]
      rfl
    | true =>
      simp only [hok, Bool.not_true, Bool.false_eq_true, if_false, bind_apply, pure_apply,
        emit_apply, List.append_assoc]
      rfl

variable (gateway : Gateway) (run : Plan → Execution) (request : Request)

theorem answerBy_of_error {e : PrepareError}
    (h : (gateway.course request.text state.cache).outcome = .error e)
    : gateway.answerBy run request state
        =
      (⟨e.toResponse, .empty⟩,
        (gateway.course request.text state.cache).after gateway request.text
          (received request state)) := by
  have hcache : (received request state).cache = state.cache := rfl
  unfold answerBy
  rw [bind_apply, modify_apply, bind_apply, prepare_apply, hcache,
    (Course.result_eq_error_iff _).mpr h]
  rfl

theorem answerBy_of_plan {plan : Plan}
    (h : (gateway.course request.text state.cache).outcome = .ok plan)
    : gateway.answerBy run request state
        =
      (.ofExecution (run plan),
        ran (run plan)
          ((gateway.course request.text state.cache).after gateway request.text
            (received request state))) := by
  have hcache : (received request state).cache = state.cache := rfl
  obtain ⟨number, hresult⟩ := Course.exists_result_of_plan h state.plansMade
  unfold answerBy
  rw [bind_apply, modify_apply, bind_apply, prepare_apply, hcache]
  exact hresult ▸ conclude_apply (run plan) _

/-- Two states with the same cache that have come of the same work. -/
structure State.Alike (first second : State) : Prop where
  cache : first.cache = second.cache
  parserCalls : first.parserCalls = second.parserCalls
  compilerCalls : first.compilerCalls = second.compilerCalls
  plansMade : first.plansMade = second.plansMade

/-- How plans run makes no difference to the cache and to the work that is done for it. -/
theorem alike_answerBy
    : (gateway.answerBy run request state).2.Alike
        ((gateway.course request.text state.cache).after gateway request.text state) := by
  cases houtcome : (gateway.course request.text state.cache).outcome with
  | error e =>
    rw [answerBy_of_error state gateway run request houtcome]
    exact ⟨rfl, rfl, rfl, rfl⟩
  | ok plan =>
    rw [answerBy_of_plan state gateway run request houtcome]
    exact ⟨rfl, rfl, rfl, rfl⟩

end Runs

end Gateway

namespace SessionStep

def asked? : SessionStep → Option String
  | execute request => some request.text
  | prepare text => some text
  | _ => none

def isExecute : SessionStep → Bool
  | execute _ => true
  | _ => false

end SessionStep

namespace Session

open Gateway (State)

theorem perform_execute (session : Session) (second : Bool) (request : Gateway.Request)
    (state : State)
    : (session.perform second (.execute request) state).2
        = ((session.gateway second).answerBy request.run request state).2 := by
  rw [← Gateway.answer_eq]
  rfl

theorem perform_prepare (session : Session) (second : Bool) (text : String) (state : State)
    : (session.perform second (.prepare text) state).2
        = ((session.gateway second).course text state.cache).after (session.gateway second) text
            state := by
  have hperform : (session.perform second (.prepare text) state).2
      = ((session.gateway second).prepare text state).2 := rfl
  rw [hperform, Gateway.prepare_apply]

theorem alike_perform_of_asked (session : Session) (second : Bool) {step : SessionStep}
    {text : String} (h : step.asked? = some text) (state : State)
    : (session.perform second step state).2.Alike
        (((session.gateway second).course text state.cache).after (session.gateway second) text
          state) := by
  cases step with
  | execute request =>
    cases h
    rw [perform_execute]
    exact Gateway.alike_answerBy state _ request.run request
  | prepare text =>
    cases h
    rw [perform_prepare]
    exact ⟨rfl, rfl, rfl, rfl⟩
  | lookup text | contains text | clear => cases h

end Session

end GraphGateway

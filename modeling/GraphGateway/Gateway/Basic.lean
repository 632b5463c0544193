import GraphGateway.Document.Parse
import GraphGateway.Execution.Run
import GraphGateway.Gateway.Counters
import GraphGateway.Gateway.Event
import GraphGateway.Gateway.PlanCache
import GraphGateway.Plan.Compile

/-!
This module contains gateways. A gateway answers requests over a schema; it compiles a text when it
has no plan for it and keeps the plan. Panics are caught, and no failure is kept.
-/

namespace GraphGateway

/-- A plan as it is kept; the number tells plans apart that are otherwise the same. -/
structure PreparedPlan where
  plan : Plan
  number : Nat

structure Gateway where
  schema : Schema
  parse : String → Except Panic (Except SyntaxError Document)
  compile : Schema → Document → Except Panic (Except (List CompileError) Plan)
  singleFlight : Bool

namespace Gateway

def ofSchema (schema : Schema) (singleFlight : Bool) : Gateway :=
  ⟨schema, fun text => .ok (Document.ofText text),
    fun schema document => .ok (Plan.compile schema document), singleFlight⟩

structure State where
  cache : PlanCache PreparedPlan
  counters : Counters
  parserCalls : Nat
  compilerCalls : Nat
  plansMade : Nat
  events : List Event

namespace State

def initial (retention : Retention) : State :=
  ⟨.empty retention, .zero, 0, 0, 0, []⟩

end State

end Gateway

abbrev GatewayM := StateM Gateway.State

namespace Gateway

def emit (event : Event) : GatewayM Unit :=
  modify fun state => { state with events := state.events ++ [event] }

def count (update : Counters → Counters) : GatewayM Unit :=
  modify fun state => { state with counters := update state.counters }

def catchPanic (stage : Stage) (panic : Panic) : GatewayM Unit := do
  count fun counters => { counters with internalFaults := counters.internalFaults + 1 }
  emit (.internalFault stage panic.message)

inductive PrepareError where
  | syntaxError (e : SyntaxError)
  | compileErrors (errors : List CompileError)
  | panic (p : Panic)

namespace PrepareError

def display : PrepareError → String
  | syntaxError e => e.display
  | compileErrors errors => CompileError.display errors
  | panic p => "internal fault: " ++ p.message

def isInternal : PrepareError → Bool
  | panic _ => true
  | _ => false

def toResponse : PrepareError → Response
  | syntaxError e => .ofErrors [.ofSyntaxError e]
  | compileErrors errors => .ofErrors (errors.map .ofCompileError)
  | panic p => .ofErrors [.ofPanic p]

end PrepareError

def parseText (gateway : Gateway) (text : String) : GatewayM (Except PrepareError Document) := do
  count fun counters => { counters with parses := counters.parses + 1 }
  modify fun state => { state with parserCalls := state.parserCalls + 1 }
  match gateway.parse text with
  | .ok (.ok document) => return .ok document
  | .ok (.error e) =>
    count fun counters => { counters with syntaxErrors := counters.syntaxErrors + 1 }
    emit (.syntaxRejected e.display e.code)
    return .error (.syntaxError e)
  | .error panic =>
    catchPanic .compilation panic
    return .error (.panic panic)

def compileDocument (gateway : Gateway) (document : Document)
    : GatewayM (Except PrepareError PreparedPlan) := do
  count fun counters => { counters with compilations := counters.compilations + 1 }
  modify fun state => { state with compilerCalls := state.compilerCalls + 1 }
  match gateway.compile gateway.schema document with
  | .ok (.ok plan) =>
    emit (.planCompiled plan.kind.name plan.fieldCount)
    let number := (← get).plansMade
    modify fun state => { state with plansMade := number + 1 }
    return .ok ⟨plan, number⟩
  | .ok (.error errors) =>
    count fun counters =>
      { counters with compilationErrors := counters.compilationErrors + 1 }
    emit (.compilationRejected (CompileError.display errors) errors.length)
    return .error (.compileErrors errors)
  | .error panic =>
    catchPanic .compilation panic
    return .error (.panic panic)

def compileText (gateway : Gateway) (text : String)
    : GatewayM (Except PrepareError PreparedPlan) := do
  match ← gateway.parseText text with
  | .ok document => gateway.compileDocument document
  | .error e => return .error e

def lookup (text : String) : GatewayM (Option PreparedPlan) := do
  let state ← get
  let (found, cache) := state.cache.lookup text
  set { state with cache }
  return found

/-- Keeps a plan. A cache with single flight says nothing of it. -/
def store (gateway : Gateway) (text : String) (plan : PreparedPlan) : GatewayM Unit := do
  if !gateway.singleFlight then emit (.storingPlan text.utf8ByteSize)
  modify fun state => { state with cache := state.cache.store text plan }
  if !gateway.singleFlight then emit .planStored

/--
The plan of a text, from the cache or else compiled and stored. With single flight the cache is
looked at once more before that, in case that another request has stored the plan.
-/
def prepare (gateway : Gateway) (text : String) : GatewayM (Except PrepareError PreparedPlan) := do
  match ← lookup text with
  | some plan =>
    count fun counters => { counters with cacheHits := counters.cacheHits + 1 }
    emit .planCacheHit
    return .ok plan
  | none =>
    count fun counters => { counters with cacheMisses := counters.cacheMisses + 1 }
    emit .planCacheMiss
    if gateway.singleFlight then discard (lookup text)
    match ← gateway.compileText text with
    | .ok plan =>
      gateway.store text plan
      return .ok plan
    | .error e => return .error e

structure Request where
  text : String
  bindings : Json.Members
  root : Json
  context : Json

structure Answer where
  response : Response
  journal : Journal

def runPlan (plan : Plan) (request : Request) : GatewayM Answer := do
  let execution := plan.answer request.bindings request.context request.root
  for (coordinate, e) in execution.journal.resolverErrors do
    emit (.resolverFailed coordinate e.message)
  match execution.outcome with
  | .ok response =>
    if !response.isOk then
      count fun counters => { counters with executionErrors := counters.executionErrors + 1 }
    emit (.queryExecuted response.errors.length)
    return ⟨response, execution.journal⟩
  | .error panic =>
    catchPanic .execution panic
    return ⟨.ofErrors [.ofPanic panic], execution.journal⟩

def answer (gateway : Gateway) (request : Request) : GatewayM Answer := do
  count fun counters => { counters with requests := counters.requests + 1 }
  emit (.queryReceived request.text.utf8ByteSize)
  match ← gateway.prepare request.text with
  | .ok prepared => runPlan prepared.plan request
  | .error e => return ⟨e.toResponse, .empty⟩

end Gateway

end GraphGateway

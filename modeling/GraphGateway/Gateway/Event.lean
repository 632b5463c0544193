import GraphGateway.Schema.Resolver

/-!
This module contains the events that a gateway reports: their level, their name and what they say.
-/

namespace GraphGateway

inductive Level where
  | error
  | warn
  | info
  | debug
  | trace
deriving DecidableEq, Repr

namespace Level

def name : Level → String
  | error => "ERROR"
  | warn => "WARN"
  | info => "INFO"
  | debug => "DEBUG"
  | trace => "TRACE"

/-- Higher ranks are reported less often. -/
def rank : Level → Nat
  | error => 1
  | warn => 2
  | info => 3
  | debug => 4
  | trace => 5

end Level

inductive EventName where
  | configLoaded
  | serverStart
  | serverStop
  | queryReceived
  | planCacheHit
  | planCacheMiss
  | syntaxRejected
  | compilationRejected
  | planCompiled
  | planStored
  | queryExecuted
  | internalFault
deriving DecidableEq, Repr

namespace EventName

def all : List EventName :=
  [ configLoaded, serverStart, serverStop, queryReceived, planCacheHit, planCacheMiss,
    syntaxRejected, compilationRejected, planCompiled, planStored, queryExecuted, internalFault
  ]

def text : EventName → String
  | configLoaded => "CONFIG_LOADED"
  | serverStart => "SERVER_START"
  | serverStop => "SERVER_STOP"
  | queryReceived => "QUERY_RECEIVED"
  | planCacheHit => "PLAN_CACHE_HIT"
  | planCacheMiss => "PLAN_CACHE_MISS"
  | syntaxRejected => "QUERY_SYNTAX_ERROR"
  | compilationRejected => "QUERY_COMPILATION_ERROR"
  | planCompiled => "PLAN_COMPILED"
  | planStored => "PLAN_STORED"
  | queryExecuted => "QUERY_COMPLETE"
  | internalFault => "INTERNAL_FAULT"

def isFault (name : EventName) : Bool :=
  name = internalFault

theorem mem_all (name : EventName) : name ∈ all := by
  cases name <;> simp [all]

end EventName

inductive Stage where
  | compilation
  | execution
deriving DecidableEq, Repr

def Stage.name : Stage → String
  | compilation => "compilation"
  | execution => "execution"

inductive Event where
  | configLoaded
  | queryReceived (length : Nat)
  | planCacheHit
  | planCacheMiss
  | syntaxRejected (message code : String)
  | compilationRejected (message : String) (count : Nat)
  | planCompiled (operation : String) (fields : Nat)
  | storingPlan (length : Nat)
  | planStored
  | resolverFailed (coordinate message : String)
  | queryExecuted (errors : Nat)
  | internalFault (stage : Stage) (message : String)
deriving DecidableEq, Repr

namespace Event

def level : Event → Level
  | configLoaded | planCompiled _ _ => .info
  | syntaxRejected _ _ | compilationRejected _ _ => .warn
  | internalFault _ _ => .error
  | _ => .debug

/-- Some events are details without a name. -/
def name? : Event → Option EventName
  | configLoaded => some .configLoaded
  | queryReceived _ => some .queryReceived
  | planCacheHit => some .planCacheHit
  | planCacheMiss => some .planCacheMiss
  | syntaxRejected _ _ => some .syntaxRejected
  | compilationRejected _ _ => some .compilationRejected
  | planCompiled _ _ => some .planCompiled
  | planStored => some .planStored
  | queryExecuted _ => some .queryExecuted
  | internalFault _ _ => some .internalFault
  | storingPlan _ | resolverFailed _ _ => none

def details : Event → List String × List String
  | queryReceived length => ([], [s!"text_len={length}"])
  | syntaxRejected message code => ([s!"message={message}"], [s!"code={code}"])
  | compilationRejected message count => ([s!"message={message}"], [s!"count={count}"])
  | planCompiled operation fields => ([], [s!"operation={operation}", s!"fields={fields}"])
  | storingPlan length => (["message=Storing plan"], [s!"text_len={length}"])
  | resolverFailed coordinate message =>
    (["message=Resolver failed"], [s!"field={coordinate}", s!"error={message}"])
  | queryExecuted errors => ([], [s!"errors={errors}"])
  | internalFault stage message => ([], [s!"stage={stage.name}", s!"message={message}"])
  | configLoaded | planCacheHit | planCacheMiss | planStored => ([], [])

def line (event : Event) : String :=
  let (before, after) := event.details
  String.intercalate " "
    (event.level.name :: (before ++ (event.name?.map EventName.text).toList ++ after))

end Event

end GraphGateway

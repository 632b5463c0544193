import GraphGateway.Document.SyntaxError
import GraphGateway.Execution.Failure
import GraphGateway.Json.Reader
import GraphGateway.Plan.CompileError
import GraphGateway.Plan.Variables

/-!
This module contains responses. Data is absent if a request did not come to be executed, and null if
a failure reached the root. Every error carries the code of its class.
-/

namespace GraphGateway

inductive ErrorClass where
  | syntaxError
  | compilationError
  | executionError
  | internalFault
  | badRequest
deriving DecidableEq, Repr

def ErrorClass.code : ErrorClass → String
  | syntaxError => "SYNTAX_ERROR"
  | compilationError => "COMPILATION_ERROR"
  | executionError => "EXECUTION_ERROR"
  | internalFault => "INTERNAL_FAULT"
  | badRequest => "BAD_REQUEST"

structure ResponseError where
  message : String
  locations : List Position
  path : Option Path
  extensions : Json.Members

structure Response where
  data : Option Json
  errors : List ResponseError

namespace ResponseError

def ofMessage (cls : ErrorClass) (message : String) : ResponseError :=
  ⟨message, [], none, [("code", .string cls.code)]⟩

def withExtension (e : ResponseError) (name : String) (value : Json) : ResponseError :=
  { e with extensions := Ordered.insert e.extensions name value }

def code? (e : ResponseError) : Option String :=
  (Ordered.get? e.extensions "code").bind Json.string?

def ofSyntaxError (e : SyntaxError) : ResponseError :=
  ⟨e.display, [e.position], none,
    [("code", .string ErrorClass.syntaxError.code), ("reason", .string e.code)]⟩

def ofCompileError (e : CompileError) : ResponseError :=
  let about := e.field?.toList.map fun name => ("field", Json.string name)
  ⟨e.message, e.positions, none,
    [("code", .string ErrorClass.compilationError.code), ("reason", .string e.code)] ++ about⟩

def ofVariableFault (fault : VariableFault) : ResponseError :=
  ⟨fault.message, [fault.spec.position], none,
    [("code", .string ErrorClass.executionError.code), ("reason", .string "INVALID_VARIABLE")]⟩

/-- A resolver can add to the extensions of its error, but cannot change the code. -/
def ofFailure (failure : Failure) : ResponseError :=
  let own := failure.extensions.filter fun (name, _) => name != "code"
  ⟨failure.message, failure.site.positions, some failure.site.path,
    own.foldl (fun extensions (name, v) => Ordered.insert extensions name v)
      [("code", .string ErrorClass.executionError.code)]⟩

def ofPanic (panic : Panic) : ResponseError :=
  ofMessage .internalFault ("Internal fault: " ++ panic.message)

end ResponseError

namespace Response

def ofErrors (errors : List ResponseError) : Response :=
  ⟨none, errors⟩

def isOk (response : Response) : Bool :=
  response.errors.isEmpty

def codes (response : Response) : List String :=
  response.errors.filterMap ResponseError.code?

end Response

namespace PathSegment

def toJson : PathSegment → Json
  | key name => .string name
  | index i => .int i

def ofJson? : Json → Option PathSegment
  | .string name => some (key name)
  | .number (.integer n) => if 0 ≤ n then some (index n.toNat) else none
  | _ => none

end PathSegment

def Position.toJson (position : Position) : Json :=
  .object [("line", .int position.line), ("column", .int position.column)]

namespace ResponseError

/-- Empty parts are left out. -/
def toJson (e : ResponseError) : Json :=
  .object <|
    [("message", .string e.message)]
      ++ (if e.locations.isEmpty then []
        else [("locations", .array (e.locations.map Position.toJson))])
      ++ (e.path.map fun path => ("path", .array (path.map PathSegment.toJson))).toList
      ++ (if e.extensions.isEmpty then [] else [("extensions", .object e.extensions)])

end ResponseError

namespace Response

/-- Absent parts are left out. -/
def toJson (response : Response) : Json :=
  .object <|
    (response.data.map fun data => ("data", data)).toList
      ++ (if response.errors.isEmpty then []
        else [("errors", .array (response.errors.map ResponseError.toJson))])

def line (response : Response) : String :=
  response.toJson.render ++ "\n"

end Response

end GraphGateway

import GraphGateway.Document.Position
import GraphGateway.Schema.Coercion

/-!
This module contains the reasons for which a document does not fit a schema, and the
wording of their messages.
-/

namespace GraphGateway

namespace CompileError

inductive Owner where
  | field (coordinate : String)
  | directive (name : String)
deriving DecidableEq, Repr

def Owner.describe : Owner → String
  | .field coordinate => s!"field \"{coordinate}\""
  | .directive name => s!"directive \"@{name}\""

def Owner.describeFirst : Owner → String
  | .field coordinate => s!"Field \"{coordinate}\""
  | .directive name => s!"Directive \"@{name}\""

inductive Conflict where
  | differentFields (first second : String)
  | differentArguments
deriving DecidableEq, Repr

def Conflict.message : Conflict → String
  | .differentFields first second => s!"\"{first}\" and \"{second}\" are different fields"
  | .differentArguments => "they have differing arguments"

inductive Cause where
  | operationNotFound
  | ambiguousOperation
  | noMutations
  | noSubscriptions
  | unknownField (name type : String)
  | unknownArgument (name : String) (owner : Owner)
  | missingArgument (name : String) (owner : Owner) (type : TypeRef)
  | invalidArgument (name : String) (fault : Coercion.LiteralFault)
  | selectionRequired (name : String) (type : String)
  | selectionForbidden (name : String) (type : String)
  | unknownFragment (name : String)
  | fragmentCycle (name : String)
  | unknownType (name : String)
  | fragmentTypeMismatch (fragment : Option String) (parent condition : String)
  | undefinedVariable (name : String)
  | duplicateVariable (name : String)
  | variableNotInputType (name : String) (type : TypeRef)
  | variableTypeMismatch (name : String) (type expected : TypeRef)
  | invalidVariableDefault (name : String) (fault : Coercion.LiteralFault)
  | fieldConflict (key : String) (conflict : Conflict)
  | unknownDirective (name : String)
  | misplacedDirective (name location : String)
  | tooDeep (limit : Nat)
deriving DecidableEq, Repr

def Cause.message : Cause → String
  | .operationNotFound => "Must provide an operation."
  | .ambiguousOperation =>
    "Must provide operation name if query contains multiple operations."
  | .noMutations => "Schema is not configured for mutations."
  | .noSubscriptions => "Subscriptions are not supported."
  | .unknownField name type => s!"Cannot query field \"{name}\" on type \"{type}\"."
  | .unknownArgument name owner => s!"Unknown argument \"{name}\" on {owner.describe}."
  | .missingArgument name owner type =>
    s!"{owner.describeFirst} argument \"{name}\" of type \"{type.render}\" is required, "
      ++ "but it was not provided."
  | .invalidArgument name fault =>
    s!"Argument \"{name}\" has invalid value: {fault.message}."
  | .selectionRequired name type =>
    s!"Field \"{name}\" of type \"{type}\" must have a selection of subfields. "
      ++ s!"Did you mean \"{name} \x7b ... \x7d\"?"
  | .selectionForbidden name type =>
    s!"Field \"{name}\" must not have a selection since type \"{type}\" has no subfields."
  | .unknownFragment name => s!"Unknown fragment \"{name}\"."
  | .fragmentCycle name => s!"Cannot spread fragment \"{name}\" within itself."
  | .unknownType name => s!"Unknown type \"{name}\"."
  | .fragmentTypeMismatch fragment parent condition =>
    let subject :=
      match fragment with
      | some name => s!"Fragment \"{name}\""
      | none => "Fragment"
    s!"{subject} cannot be spread here as objects of type \"{parent}\" can never be of type "
      ++ s!"\"{condition}\"."
  | .undefinedVariable name => s!"Variable \"${name}\" is not defined."
  | .duplicateVariable name => s!"There can be only one variable named \"${name}\"."
  | .variableNotInputType name type =>
    s!"Variable \"${name}\" cannot be non-input type \"{type.render}\"."
  | .variableTypeMismatch name type expected =>
    s!"Variable \"${name}\" of type \"{type.render}\" used in position expecting type "
      ++ s!"\"{expected.render}\"."
  | .invalidVariableDefault name fault =>
    s!"Variable \"${name}\" has invalid default value: {fault.message}."
  | .fieldConflict key conflict =>
    s!"Fields \"{key}\" conflict because {conflict.message}. "
      ++ "Use different aliases on the fields to fetch both if this was intended."
  | .unknownDirective name => s!"Unknown directive \"@{name}\"."
  | .misplacedDirective name location =>
    s!"Directive \"@{name}\" may not be used on {location}."
  | .tooDeep limit => s!"Selections exceed maximum nesting depth of {limit}."

def Cause.code : Cause → String
  | .operationNotFound => "OPERATION_NOT_FOUND"
  | .ambiguousOperation => "AMBIGUOUS_OPERATION"
  | .noMutations | .noSubscriptions => "UNSUPPORTED_OPERATION"
  | .unknownField _ _ => "UNKNOWN_FIELD"
  | .unknownArgument _ _ => "UNKNOWN_ARGUMENT"
  | .missingArgument _ _ _ => "MISSING_ARGUMENT"
  | .invalidArgument _ _ => "INVALID_ARGUMENT"
  | .selectionRequired _ _ => "SELECTION_REQUIRED"
  | .selectionForbidden _ _ => "SELECTION_FORBIDDEN"
  | .unknownFragment _ => "UNKNOWN_FRAGMENT"
  | .fragmentCycle _ => "FRAGMENT_CYCLE"
  | .unknownType _ => "UNKNOWN_TYPE"
  | .fragmentTypeMismatch _ _ _ => "FRAGMENT_TYPE_MISMATCH"
  | .undefinedVariable _ => "UNDEFINED_VARIABLE"
  | .duplicateVariable _ => "DUPLICATE_VARIABLE"
  | .variableNotInputType _ _ => "VARIABLE_NOT_INPUT_TYPE"
  | .variableTypeMismatch _ _ _ | .invalidVariableDefault _ _ => "VARIABLE_TYPE_MISMATCH"
  | .fieldConflict _ _ => "FIELD_CONFLICT"
  | .unknownDirective _ | .misplacedDirective _ _ => "UNKNOWN_DIRECTIVE"
  | .tooDeep _ => "MAX_DEPTH_EXCEEDED"

def Cause.field? : Cause → Option String
  | .unknownField name _ | .unknownArgument name _ | .missingArgument name _ _
  | .invalidArgument name _ | .selectionRequired name _ | .selectionForbidden name _
  | .fieldConflict name _ => some name
  | _ => none

end CompileError

structure CompileError where
  cause : CompileError.Cause
  positions : List Position
deriving DecidableEq, Repr

namespace CompileError

def message (e : CompileError) : String :=
  e.cause.message

def code (e : CompileError) : String :=
  e.cause.code

def field? (e : CompileError) : Option String :=
  e.cause.field?

def display (errors : List CompileError) : String :=
  String.intercalate "; " (errors.map message)

end CompileError

end GraphGateway

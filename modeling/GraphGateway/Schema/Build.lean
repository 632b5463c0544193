import GraphGateway.Document.Lexeme
import GraphGateway.Schema.Basic

/-!
This module contains the building of a schema from a blueprint, which is checked first: names of
objects, then fields and arguments, then the roots. The first fault found is reported.
-/

namespace GraphGateway

inductive SchemaError where
  | invalidName (name : String)
  | emptyObject (name : String)
  | duplicateType (name : String)
  | unknownType (coordinate name : String)
  | invalidArgumentType (coordinate : String) (type : TypeRef)
  | invalidRoot (name : String)
deriving DecidableEq, Repr

namespace SchemaError

def code : SchemaError → String
  | invalidName _ => "SCHEMA_INVALID_NAME"
  | emptyObject _ => "SCHEMA_EMPTY_OBJECT"
  | duplicateType _ => "SCHEMA_DUPLICATE_TYPE"
  | unknownType _ _ => "SCHEMA_UNKNOWN_TYPE"
  | invalidArgumentType _ _ => "SCHEMA_INVALID_ARGUMENT_TYPE"
  | invalidRoot _ => "SCHEMA_INVALID_ROOT_TYPE"

def message : SchemaError → String
  | invalidName name => s!"Name '{name}' is not a valid identifier"
  | emptyObject name => s!"Object type '{name}' must declare at least one field"
  | duplicateType name => s!"Type '{name}' is defined more than once"
  | unknownType coordinate name => s!"'{coordinate}' references unknown type '{name}'"
  | invalidArgumentType coordinate type =>
    s!"Argument '{coordinate}' has type '{type.render}', which is not an input type"
  | invalidRoot name => s!"Root type '{name}' must be a defined object type"

def display (e : SchemaError) : String :=
  e.code ++ ": " ++ e.message

end SchemaError

/-- What a schema is built from; nothing in it is checked yet. -/
structure Blueprint where
  query : String
  mutation : Option String
  objects : List ObjectType

namespace Blueprint

/-- A name has the form of a name in a document and does not begin with two underscores. -/
def isValidName (name : String) : Bool :=
  match name.toList with
  | [] => false
  | c :: rest =>
    Lexeme.isNameStart c && rest.all Lexeme.isNameContinue
      && !(c = '_' && rest.head? = some '_')

def checkName (name : String) : Except SchemaError Unit :=
  if isValidName name then .ok () else .error (.invalidName name)

def checkObject (earlier : List ObjectType) (object : ObjectType) : Except SchemaError Unit := do
  checkName object.name
  if object.fields.isEmpty then throw (.emptyObject object.name)
  if (Schema.findType? earlier object.name).isSome then throw (.duplicateType object.name)

def checkObjects (earlier : List ObjectType) : List ObjectType → Except SchemaError Unit
  | [] => .ok ()
  | object :: rest => do
    checkObject earlier object
    checkObjects (earlier ++ [object]) rest

def checkArgument (objects : List ObjectType) (coordinate name : String) (argument : ArgumentDef)
    : Except SchemaError Unit := do
  checkName name
  let coordinate := s!"{coordinate}({name}:)"
  match Schema.findType? objects argument.type.innermost with
  | none => throw (.unknownType coordinate argument.type.innermost)
  | some type =>
    if !type.isInput then throw (.invalidArgumentType coordinate argument.type)

def checkField (objects : List ObjectType) (object : ObjectType) (name : String) (field : FieldDef)
    : Except SchemaError Unit := do
  checkName name
  let coordinate := object.name ++ "." ++ name
  if (Schema.findType? objects field.type.innermost).isNone then
    throw (.unknownType coordinate field.type.innermost)
  for (argumentName, argument) in field.arguments do
    checkArgument objects coordinate argumentName argument

def checkFields (objects : List ObjectType) : Except SchemaError Unit := do
  for object in objects do
    for (name, field) in object.fields do
      checkField objects object name field

def root (objects : List ObjectType) (name : String) : Except SchemaError ObjectType :=
  match Schema.findType? objects name with
  | some (.object object) => .ok object
  | _ => .error (.invalidRoot name)

def build (blueprint : Blueprint) : Except SchemaError Schema := do
  checkObjects [] blueprint.objects
  checkFields blueprint.objects
  let query ← root blueprint.objects blueprint.query
  let mutation ← blueprint.mutation.mapM (root blueprint.objects)
  return ⟨blueprint.objects, query, mutation⟩

end Blueprint

end GraphGateway

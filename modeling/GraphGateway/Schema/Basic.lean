import GraphGateway.Schema.Resolver
import GraphGateway.Schema.Scalar
import GraphGateway.TypeRef

/-!
This module contains schemas: object types, a query root and perhaps a mutation root. The only other
types are the built-in scalars, and these are the only input types.
-/

namespace GraphGateway

structure ArgumentDef where
  type : TypeRef
  default : Option Json

/-- An argument must be given if it may not be null and has no default. -/
def ArgumentDef.isRequired (argument : ArgumentDef) : Bool :=
  argument.type.isNonNull && argument.default.isNone

/-- A field without a resolver is read off the parent. -/
structure FieldDef where
  type : TypeRef
  arguments : Ordered ArgumentDef
  resolver : Option Resolver

structure ObjectType where
  name : String
  fields : Ordered FieldDef

namespace ObjectType

def empty (name : String) : ObjectType :=
  ⟨name, []⟩

/-- Adds a field, or replaces the one of that name in its place. -/
def withField (object : ObjectType) (name : String) (field : FieldDef) : ObjectType :=
  { object with fields := object.fields.insert name field }

def field? (object : ObjectType) (name : String) : Option FieldDef :=
  object.fields.get? name

end ObjectType

inductive NamedType where
  | scalar (s : Scalar)
  | object (o : ObjectType)

namespace NamedType

def name : NamedType → String
  | scalar s => s.name
  | object o => o.name

def isLeaf : NamedType → Bool
  | scalar _ => true
  | object _ => false

def isInput : NamedType → Bool
  | scalar _ => true
  | object _ => false

end NamedType

structure Schema where
  objects : List ObjectType
  query : ObjectType
  mutation : Option ObjectType

namespace Schema

def findObject? (objects : List ObjectType) (name : String) : Option ObjectType :=
  objects.find? fun object => object.name = name

def findType? (objects : List ObjectType) (name : String) : Option NamedType :=
  match Scalar.ofName? name with
  | some scalar => some (.scalar scalar)
  | none => (findObject? objects name).map .object

def object? (schema : Schema) (name : String) : Option ObjectType :=
  match findType? schema.objects name with
  | some (.object object) => some object
  | _ => none

def type? (schema : Schema) (name : String) : Option NamedType :=
  findType? schema.objects name

def isInputType (schema : Schema) (type : TypeRef) : Bool :=
  (schema.type? type.innermost).any NamedType.isInput

/-- The number of types, built-in scalars included. -/
def typeCount (schema : Schema) : Nat :=
  schema.objects.length + Scalar.all.length

end Schema

end GraphGateway

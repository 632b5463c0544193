import GraphGateway.Schema.Scalar
import GraphGateway.TypeRef

/-!
This module contains the coercion of variable values and of literals to input types. A single value
stands for a list of one, at any depth, and null is acceptable wherever the type does not forbid it.
-/

namespace GraphGateway
namespace Coercion

inductive ValueFault where
  | null (type : TypeRef)
  | notInput (name : String)
  | scalar (fault : Scalar.Fault)

def ValueFault.message : ValueFault → String
  | .null type => s!"Expected non-nullable type \"{type.render}\" not to be null."
  | .notInput name => s!"Type \"{name}\" is not an input type."
  | .scalar fault => fault.message

inductive LiteralFault where
  | null (type : TypeRef)
  | notInput (name : String)
  | scalar (fault : Scalar.LiteralFault)
deriving DecidableEq, Repr

def LiteralFault.message : LiteralFault → String
  | .null type => s!"Expected value of type \"{type.render}\", found null"
  | .notInput name => s!"Type \"{name}\" is not an input type"
  | .scalar fault => fault.message

def coerceValue (type : TypeRef) (v : Json) : Except ValueFault Json :=
  match type with
  | .nonNull inner => if v.isNull then .error (.null type) else coerceValue inner v
  | .list inner =>
    match v with
    | .null => .ok .null
    | .array items => do return .array (← items.mapM (coerceValue inner))
    | v => do return .array [← coerceValue inner v]
  | .named name =>
    if v.isNull then .ok .null
    else
      match Scalar.ofName? name with
      | some scalar => (scalar.coerceInput v).mapError .scalar
      | none => .error (.notInput name)

def coerceLiteral (type : TypeRef) (l : Literal) : Except LiteralFault Json :=
  match type with
  | .nonNull inner => if l.isNull then .error (.null type) else coerceLiteral inner l
  | .list inner =>
    match l with
    | .null => .ok .null
    | .list items => do return .array (← items.mapM (coerceLiteral inner))
    | l => do return .array [← coerceLiteral inner l]
  | .named name =>
    if l.isNull then .ok .null
    else
      match Scalar.ofName? name with
      | some scalar => (scalar.coerceLiteral l).mapError .scalar
      | none => .error (.notInput name)

end Coercion
end GraphGateway

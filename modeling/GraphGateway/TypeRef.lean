/-!
This module contains references to types: names under any number of list and non-null wrappers.
-/

namespace GraphGateway

inductive TypeRef where
  | named (name : String)
  | list (inner : TypeRef)
  | nonNull (inner : TypeRef)
deriving DecidableEq, Repr, Inhabited

namespace TypeRef

def render : TypeRef → String
  | named name => name
  | list inner => "[" ++ inner.render ++ "]"
  | nonNull inner => inner.render ++ "!"

def innermost : TypeRef → String
  | named name => name
  | list inner | nonNull inner => inner.innermost

def isNonNull : TypeRef → Bool
  | nonNull _ => true
  | _ => false

def nullable : TypeRef → TypeRef
  | nonNull inner => inner
  | type => type

def listDepth : TypeRef → Nat
  | named _ => 0
  | list inner => inner.listDepth + 1
  | nonNull inner => inner.listDepth

theorem innermost_nullable (type : TypeRef) : type.nullable.innermost = type.innermost := by
  cases type <;> rfl

end TypeRef

end GraphGateway

import GraphGateway.Json.Basic

/-!
This module contains the values that are written in a document.
-/

namespace GraphGateway

/-- The fields of an object are kept as they are written, repeated names included. -/
inductive Literal where
  | variable (name : String)
  | int (n : Int)
  | float (d : Double)
  | string (s : String)
  | boolean (b : Bool)
  | null
  | enum (name : String)
  | list (items : List Literal)
  | object (fields : List (String × Literal))
deriving Repr, Inhabited

namespace Literal

def kind : Literal → String
  | .variable _ => "variable"
  | int _ => "Int"
  | float _ => "Float"
  | string _ => "String"
  | boolean _ => "Boolean"
  | null => "null"
  | enum _ => "enum"
  | list _ => "list"
  | object _ => "object"

def isNull : Literal → Bool
  | null => true
  | _ => false

mutual

/-- A literal as JSON, in which a variable has no value and an infinite number is none. -/
def toJson : Literal → Json
  | .variable _ | .null => .null
  | int n => .int n
  | float d => .ofDouble d
  | string s | enum s => .string s
  | boolean b => .bool b
  | list items => .array (toJsonItems items)
  | object fields => .object (Ordered.ofPairs (toJsonFields fields))

def toJsonItems : List Literal → List Json
  | [] => []
  | item :: rest => item.toJson :: toJsonItems rest

def toJsonFields : List (String × Literal) → List (String × Json)
  | [] => []
  | (name, value) :: rest => (name, value.toJson) :: toJsonFields rest

end

mutual

def variableNames : Literal → List String
  | .variable name => [name]
  | list items => variableNamesItems items
  | object fields => variableNamesFields fields
  | _ => []

def variableNamesItems : List Literal → List String
  | [] => []
  | item :: rest => item.variableNames ++ variableNamesItems rest

def variableNamesFields : List (String × Literal) → List String
  | [] => []
  | (_, value) :: rest => value.variableNames ++ variableNamesFields rest

end

end Literal

end GraphGateway

import GraphGateway.Document.Literal
import GraphGateway.Document.Position
import GraphGateway.TypeRef

/-!
This module contains documents: the operations and fragments of a query text. Every node carries the
position of its first token.
-/

namespace GraphGateway

abbrev Arguments := List (String × Literal)

structure Directive where
  name : String
  arguments : Arguments
  position : Position
deriving Repr

def Directive.argument? (directive : Directive) (name : String) : Option Literal :=
  Ordered.get? directive.arguments name

structure SelectionSetOf (α : Type) where
  items : List α
  position : Position
deriving Repr

/-- A field without its selection set. -/
structure FieldNode where
  aliasName : Option String
  name : String
  arguments : Arguments
  directives : List Directive
  position : Position
deriving Repr

def FieldNode.responseKey (node : FieldNode) : String :=
  node.aliasName.getD node.name

inductive Selection where
  | field (node : FieldNode) (set : Option (SelectionSetOf Selection))
  | spread (fragment : String) (directives : List Directive) (position : Position)
  | inline (condition : Option String) (directives : List Directive)
      (set : SelectionSetOf Selection) (position : Position)
deriving Repr

abbrev SelectionSet := SelectionSetOf Selection

inductive OperationKind where
  | query
  | mutation
  | subscription
deriving DecidableEq, Repr

def OperationKind.name : OperationKind → String
  | query => "query"
  | mutation => "mutation"
  | subscription => "subscription"

structure VariableDefinition where
  name : String
  type : TypeRef
  default : Option Literal
  directives : List Directive
  position : Position
deriving Repr

structure Operation where
  kind : OperationKind
  name : Option String
  variableDefinitions : List VariableDefinition
  directives : List Directive
  set : SelectionSet
  position : Position
deriving Repr

structure Fragment where
  name : String
  condition : String
  directives : List Directive
  set : SelectionSet
  position : Position
deriving Repr

inductive Definition where
  | operation (op : Operation)
  | fragment (f : Fragment)
deriving Repr

structure Document where
  definitions : List Definition
deriving Repr

namespace Document

def operations (document : Document) : List Operation :=
  document.definitions.filterMap fun
    | .operation op => some op
    | .fragment _ => none

def fragments (document : Document) : List Fragment :=
  document.definitions.filterMap fun
    | .operation _ => none
    | .fragment f => some f

def fragment? (document : Document) (name : String) : Option Fragment :=
  document.fragments.find? fun f => f.name = name

end Document

end GraphGateway

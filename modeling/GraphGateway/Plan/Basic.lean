import GraphGateway.Document.Basic
import GraphGateway.Schema.Basic

/-!
This module contains plans: operations in which everything is settled that depends only on
the document and the schema. What is left for a run are the variables, conditions on
variables and the resolvers.
-/

namespace GraphGateway

inductive Condition where
  | skipIf (name : String)
  | includeIf (name : String)
deriving DecidableEq, Repr

namespace Condition

def variableName : Condition → String
  | skipIf name | includeIf name => name

/-- Whether a selection is admitted; a variable that is no boolean counts as false. -/
def admits (condition : Condition) (bindings : Json.Members) : Bool :=
  let flag :=
    match bindings.get? condition.variableName with
    | some (.bool b) => b
    | _ => false
  match condition with
  | skipIf _ => !flag
  | includeIf _ => flag

end Condition

inductive Template where
  | const (v : Json)
  | variable (name : String)
  | list (items : List Template)

namespace Template

mutual

/-- Fills in the variables; one without a value is null. -/
def evaluate (bindings : Json.Members) : Template → Json
  | const v => v
  | .variable name => (bindings.get? name).getD .null
  | list items => .array (evaluateItems bindings items)

def evaluateItems (bindings : Json.Members) : List Template → List Json
  | [] => []
  | item :: rest => item.evaluate bindings :: evaluateItems bindings rest

end

mutual

def equal : Template → Template → Bool
  | const v, const w => v.equal w
  | .variable name, .variable other => name = other
  | list items, list others => equalItems items others
  | _, _ => false

def equalItems : List Template → List Template → Bool
  | [], [] => true
  | item :: rest, other :: others => item.equal other && equalItems rest others
  | _, _ => false

end

def const? : Template → Option Json
  | const v => some v
  | _ => none

/-- A list of constants is a constant. -/
def ofList (items : List Template) : Template :=
  match items.mapM const? with
  | some values => const (.array values)
  | none => list items

end Template

structure ArgumentPlan where
  name : String
  type : TypeRef
  template : Option Template
  default : Option Json

/-- An argument whose type is non-null came out as null or without a value. -/
structure ArgumentFault where
  name : String
  type : TypeRef

def ArgumentFault.message (fault : ArgumentFault) : String :=
  s!"Argument \"{fault.name}\" of non-null type \"{fault.type.render}\" must not be null."

namespace ArgumentPlan

/-- The default takes the place of an argument that is not written or is an absent variable. -/
def value? (argument : ArgumentPlan) (bindings : Json.Members) : Option Json :=
  match argument.template with
  | none => argument.default
  | some (.variable name) => (bindings.get? name).or argument.default
  | some template => some (template.evaluate bindings)

def evaluate (argument : ArgumentPlan) (bindings : Json.Members)
    : Except ArgumentFault (Option Json) :=
  let v := argument.value? bindings
  if argument.type.isNonNull && v.all Json.isNull then
    .error ⟨argument.name, argument.type⟩
  else
    .ok v

def equalOption {α : Type} (equal : α → α → Bool) : Option α → Option α → Bool
  | none, none => true
  | some a, some b => equal a b
  | _, _ => false

def equal (a b : ArgumentPlan) : Bool :=
  a.name = b.name && a.type = b.type && equalOption Template.equal a.template b.template
    && equalOption Json.equal a.default b.default

def equalAll : List ArgumentPlan → List ArgumentPlan → Bool
  | [], [] => true
  | a :: rest, b :: others => a.equal b && equalAll rest others
  | _, _ => false

end ArgumentPlan

inductive OutputType where
  | scalar (s : Scalar)
  | object (name : String)
  | list (inner : OutputType)
  | nonNull (inner : OutputType)
deriving DecidableEq, Repr

namespace OutputType

def render : OutputType → String
  | scalar s => s.name
  | object name => name
  | list inner => "[" ++ inner.render ++ "]"
  | nonNull inner => inner.render ++ "!"

def isNonNull : OutputType → Bool
  | nonNull _ => true
  | _ => false

def ofTypeRef : TypeRef → OutputType
  | .named name =>
    match Scalar.ofName? name with
    | some s => scalar s
    | none => object name
  | .list inner => list (ofTypeRef inner)
  | .nonNull inner => nonNull (ofTypeRef inner)

theorem render_ofTypeRef (type : TypeRef) : (ofTypeRef type).render = type.render := by
  induction type with
  | named name =>
    simp only [ofTypeRef]
    split
    . rename_i h
      simp [render, TypeRef.render, Scalar.name_of_ofName? h]
    . rfl
  | list inner ih => simp [ofTypeRef, render, TypeRef.render, ih]
  | nonNull inner ih => simp [ofTypeRef, render, TypeRef.render, ih]

end OutputType

inductive Resolution where
  | typename
  | property
  | resolver (r : Resolver)

structure FieldPlan where
  key : String
  parentType : String
  name : String
  resolution : Resolution
  arguments : List ArgumentPlan
  conditions : List Condition
  output : OutputType
  position : Position

def FieldPlan.coordinate (field : FieldPlan) : String :=
  field.parentType ++ "." ++ field.name

/--
A selection on an object type is a list of items: fields, which have sub-selections if their
innermost type is an object, and groups, which are admitted as a whole.
-/
inductive SelectionItem where
  | field (head : FieldPlan) (children : Option (List SelectionItem))
  | group (conditions : List Condition) (items : List SelectionItem)

namespace SelectionItem

mutual

def fieldCount : SelectionItem → Nat
  | field _ none => 1
  | field _ (some children) => 1 + fieldCountAll children
  | group _ items => fieldCountAll items

def fieldCountAll : List SelectionItem → Nat
  | [] => 0
  | item :: rest => item.fieldCount + fieldCountAll rest

end

mutual

def depth : SelectionItem → Nat
  | field _ none => 1
  | field _ (some children) => 1 + depthAll children
  | group _ items => depthAll items

def depthAll : List SelectionItem → Nat
  | [] => 0
  | item :: rest => max item.depth (depthAll rest)

end

end SelectionItem

/-- A variable of an operation; the default has the type of the variable. -/
structure VariableSpec where
  name : String
  type : TypeRef
  default : Option Json
  position : Position

structure Plan where
  kind : OperationKind
  name : Option String
  rootType : String
  specs : List VariableSpec
  selection : List SelectionItem

namespace Plan

/-- The root fields of a mutation run one after another. -/
def isSerial (plan : Plan) : Bool :=
  plan.kind = .mutation

def fieldCount (plan : Plan) : Nat :=
  SelectionItem.fieldCountAll plan.selection

def depth (plan : Plan) : Nat :=
  SelectionItem.depthAll plan.selection

end Plan

end GraphGateway

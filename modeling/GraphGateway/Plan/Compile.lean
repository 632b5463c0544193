import GraphGateway.Checked
import GraphGateway.Document.Parse
import GraphGateway.Plan.Conflict

/-!
This module contains the compilation of a document to a plan. Fragments are inlined and conditions
on literals are settled. All errors are collected, in the order in which the operation reaches them.
-/

namespace GraphGateway

abbrev Compile := Checked CompileError

namespace Compile

structure Env where
  schema : Schema
  document : Document
  variableDefinitions : List VariableDefinition

namespace Env

/-- The first definition of a variable counts. -/
def findVariable (env : Env) (name : String) : Option VariableDefinition :=
  env.variableDefinitions.find? fun definition => definition.name = name

end Env

def report (cause : CompileError.Cause) (position : Position) : Compile Unit :=
  Checked.report ⟨cause, [position]⟩

def refuse {α : Type} (cause : CompileError.Cause) (position : Position) : Compile (Option α) :=
  Checked.refuse ⟨cause, [position]⟩

def typeFits (type location : TypeRef) : Bool :=
  match type, location with
  | .nonNull v, .nonNull l => typeFits v l
  | .nonNull v, l => typeFits v l
  | _, .nonNull _ => false
  | .list v, .list l => typeFits v l
  | .named v, .named l => v = l
  | _, _ => false

/--
The type that a variable must have at a location. A variable that may be null can stand at a
non-null location if either of them has a default.
-/
def expectedType (definition : VariableDefinition) (location : TypeRef) (hasDefault : Bool)
    : TypeRef :=
  let defaulted := definition.default.any (!·.isNull) || hasDefault
  if location.isNonNull && !definition.type.isNonNull && defaulted then location.nullable
  else location

def checkVariableUse (env : Env) (name : String) (location : TypeRef) (hasDefault : Bool)
    (position : Position)
    : Compile Bool := do
  match env.findVariable name with
  | none =>
    report (.undefinedVariable name) position
    return false
  | some definition =>
    if typeFits definition.type (expectedType definition location hasDefault) then
      return true
    else
      report (.variableTypeMismatch name definition.type location) position
      return false

/-- The elements of a list type under at most one non-null wrapper. -/
def elementType? : TypeRef → Option TypeRef
  | .list inner | .nonNull (.list inner) => some inner
  | _ => none

def constant (type : TypeRef) (l : Literal) (argument : String) (position : Position)
    : Compile (Option Template) :=
  match Coercion.coerceLiteral type l with
  | .ok v => return some (.const v)
  | .error fault => refuse (.invalidArgument argument fault) position

/-- All results, if there are any for all of them; the errors of every one are collected. -/
def collect {α β : Type} (f : α → Compile (Option β)) : List α → Compile (Option (List β))
  | [] => return some []
  | a :: rest => do
    let first ← f a
    let others ← collect f rest
    return first.bind fun first => others.map (first :: ·)

def compileValue (env : Env) (argument : String) (position : Position) (type : TypeRef)
    (hasDefault : Bool) (l : Literal)
    : Compile (Option Template) := do
  match l with
  | .variable name =>
    if ← checkVariableUse env name type hasDefault position then return some (.variable name)
    else return none
  | .null => constant type .null argument position
  | .list items =>
    match type with
    | .list inner | .nonNull (.list inner) =>
      let templates ← collect (compileValue env argument position inner false) items
      return templates.map .ofList
    | type => constant type l argument position
  | l =>
    match type with
    | .list inner | .nonNull (.list inner) =>
      let template ← compileValue env argument position inner false l
      return template.map fun template => .ofList [template]
    | type => constant type l argument position

/-- Directives are accepted on selections only. -/
def rejectDirectives (directives : List Directive) (location : String) : Compile Unit := do
  for directive in directives do
    if directive.name = "skip" || directive.name = "include" then
      report (.misplacedDirective directive.name location) directive.position
    else
      report (.unknownDirective directive.name) directive.position

inductive Verdict where
  | admitted
  | excluded
  | conditional (condition : Condition)

def booleanType : TypeRef :=
  .nonNull (.named Scalar.boolean.name)

/-- Compiles `@skip`, or `@include` otherwise. -/
def compileCondition (env : Env) (skips : Bool) (directive : Directive) : Compile Verdict := do
  let owner : CompileError.Owner := .directive directive.name
  for (name, _) in directive.arguments do
    if name != "if" then report (.unknownArgument name owner) directive.position
  match directive.argument? "if" with
  | none =>
    report (.missingArgument "if" owner booleanType) directive.position
    return .admitted
  | some (.variable name) =>
    if ← checkVariableUse env name booleanType false directive.position then
      return .conditional (if skips then .skipIf name else .includeIf name)
    else
      return .admitted
  | some (.boolean flag) => return if flag = skips then .excluded else .admitted
  | some l =>
    report (.invalidArgument "if" (.scalar ⟨.boolean, l.kind⟩)) directive.position
    return .admitted

def compileDirective (env : Env) (directive : Directive) : Compile Verdict := do
  if directive.name = "skip" then compileCondition env true directive
  else if directive.name = "include" then compileCondition env false directive
  else
    report (.unknownDirective directive.name) directive.position
    return .admitted

def compileConditions (env : Env) : List Directive → Compile (Option (List Condition))
  | [] => return some []
  | directive :: rest => do
    let verdict ← compileDirective env directive
    let others ← compileConditions env rest
    match verdict with
    | .admitted => return others
    | .excluded => return none
    | .conditional condition => return others.map (condition :: ·)

/-- Object types only have themselves as possible types. -/
def checkTypeCondition (env : Env) (fragment : Option String) (condition : String)
    (parent : ObjectType) (position : Position)
    : Compile Bool := do
  if (env.schema.type? condition).isNone then
    report (.unknownType condition) position
    return false
  else if condition != parent.name then
    report (.fragmentTypeMismatch fragment parent.name condition) position
    return false
  else
    return true

def compileArgument (env : Env) (node : FieldNode) (coordinate name : String)
    (argument : ArgumentDef)
    : Compile ArgumentPlan := do
  match Ordered.get? node.arguments name with
  | none =>
    if argument.isRequired then
      report (.missingArgument name (.field coordinate) argument.type) node.position
    return ⟨name, argument.type, none, argument.default⟩
  | some l =>
    let template ←
      compileValue env name node.position argument.type argument.default.isSome l
    return ⟨name, argument.type, template, argument.default⟩

def compileArguments (env : Env) (node : FieldNode) (coordinate : String)
    (declared : Ordered ArgumentDef)
    : Compile (List ArgumentPlan) := do
  for (name, _) in node.arguments do
    if !declared.contains name then
      report (.unknownArgument name (.field coordinate)) node.position
  declared.mapM fun (name, argument) => compileArgument env node coordinate name argument

def typenameField : String :=
  "__typename"

def typenameOutput : OutputType :=
  .nonNull (.scalar .string)

def compileTypename (node : FieldNode) (hasSet : Bool) (parent : ObjectType)
    : Compile (FieldPlan × Option (List SelectionItem)) := do
  let coordinate := parent.name ++ "." ++ typenameField
  for (name, _) in node.arguments do
    report (.unknownArgument name (.field coordinate)) node.position
  if hasSet then
    report (.selectionForbidden typenameField typenameOutput.render) node.position
  return (⟨node.responseKey, parent.name, typenameField, .typename, [], [], typenameOutput,
    node.position⟩, none)

/-- Compiles selection sets, which nest at most one level less deep than the given one. -/
abbrev SetCompiler :=
  SelectionSet → ObjectType → Compile (List SelectionItem)

def compileChildren (env : Env) (compileSet : SetCompiler) (node : FieldNode) (type : TypeRef)
    (set : Option SelectionSet)
    : Compile (Option (List SelectionItem)) := do
  match env.schema.type? type.innermost, set with
  | some (.object object), some set => return some (← compileSet set object)
  | some (.object _), none => refuse (.selectionRequired node.name type.render) node.position
  | _, some _ => refuse (.selectionForbidden node.name type.render) node.position
  | _, none => return none

def compileField (env : Env) (compileSet : SetCompiler) (node : FieldNode)
    (set : Option SelectionSet) (parent : ObjectType)
    : Compile (Option (FieldPlan × Option (List SelectionItem))) := do
  if node.name = typenameField then
    return some (← compileTypename node set.isSome parent)
  else
    match parent.field? node.name with
    | none => refuse (.unknownField node.name parent.name) node.position
    | some field =>
      let coordinate := parent.name ++ "." ++ node.name
      let arguments ← compileArguments env node coordinate field.arguments
      let children ← compileChildren env compileSet node field.type set
      let resolution :=
        match field.resolver with
        | some resolver => .resolver resolver
        | none => .property
      return some (⟨node.responseKey, parent.name, node.name, resolution, arguments, [],
        .ofTypeRef field.type, node.position⟩, children)

/-- A selection without conditions is spliced into the one around it. -/
def groupOf (conditions : Option (List Condition)) (items : List SelectionItem)
    : List SelectionItem :=
  match conditions with
  | none => []
  | some [] => items
  | some conditions => [.group conditions items]

def compileItem (env : Env) (compileSet : SetCompiler) (node : FieldNode)
    (set : Option SelectionSet) (parent : ObjectType)
    : Compile (List SelectionItem) := do
  let conditions ← compileConditions env node.directives
  let field ← compileField env compileSet node set parent
  match conditions, field with
  | some conditions, some (head, children) =>
    return [.field { head with conditions } children]
  | _, _ => return []

def compileSpread (env : Env) (stack : List String) (compileSet : SetCompiler) (name : String)
    (directives : List Directive) (position : Position) (parent : ObjectType)
    : Compile (List SelectionItem) := do
  let conditions ← compileConditions env directives
  match env.document.fragment? name with
  | none =>
    report (.unknownFragment name) position
    return []
  | some fragment =>
    if stack.contains name then
      report (.fragmentCycle name) position
      return []
    else if ← checkTypeCondition env (some name) fragment.condition parent position then
      rejectDirectives fragment.directives "FRAGMENT_DEFINITION"
      return groupOf conditions (← compileSet fragment.set parent)
    else
      return []

/-- Without a type condition an inline fragment is on the type around it. -/
def checkInline (env : Env) (condition : Option String) (parent : ObjectType)
    (position : Position)
    : Compile Bool :=
  match condition with
  | some condition => checkTypeCondition env none condition parent position
  | none => return true

def compileInline (env : Env) (compileSet : SetCompiler) (condition : Option String)
    (directives : List Directive) (set : SelectionSet) (position : Position)
    (parent : ObjectType)
    : Compile (List SelectionItem) := do
  let conditions ← compileConditions env directives
  if ← checkInline env condition parent position then
    return groupOf conditions (← compileSet set parent)
  else
    return []

def compileSelection (env : Env) (stack : List String) (sets : List String → SetCompiler)
    (parent : ObjectType)
    : Selection → Compile (List SelectionItem)
  | .field node set => compileItem env (sets stack) node set parent
  | .spread name directives position =>
    compileSpread env stack (sets (name :: stack)) name directives position parent
  | .inline condition directives set position =>
    compileInline env (sets stack) condition directives set position parent

/--
Compiles a selection set. Selection sets nest at most 128 deep when fragments are inlined, and the
fragments that are being inlined cannot be spread again.
-/
def compileSet (env : Env) (levels : Nat) (stack : List String) (set : SelectionSet)
    (parent : ObjectType)
    : Compile (List SelectionItem) := do
  match levels with
  | 0 =>
    report (.tooDeep Parser.maxDepth) set.position
    return []
  | levels + 1 =>
    let items ← set.items.mapM (compileSelection env stack (compileSet env levels) parent)
    return items.flatten

def compileDefault (definition : VariableDefinition) : Compile (Option VariableSpec) :=
  match definition.default with
  | none => return some ⟨definition.name, definition.type, none, definition.position⟩
  | some l =>
    match Coercion.coerceLiteral definition.type l with
    | .ok v => return some ⟨definition.name, definition.type, some v, definition.position⟩
    | .error fault =>
      refuse (.invalidVariableDefault definition.name fault) definition.position

def compileVariable (schema : Schema) (earlier : List VariableDefinition)
    (definition : VariableDefinition)
    : Compile (Option VariableSpec) := do
  match earlier.find? fun first => first.name = definition.name with
  | some first =>
    Checked.refuse ⟨.duplicateVariable definition.name, [first.position, definition.position]⟩
  | none =>
    rejectDirectives definition.directives "VARIABLE_DEFINITION"
    let name := definition.type.innermost
    match schema.type? name with
    | none => refuse (.unknownType name) definition.position
    | some type =>
      if type.isInput then compileDefault definition
      else refuse (.variableNotInputType definition.name definition.type) definition.position

def compileVariables (schema : Schema) (earlier : List VariableDefinition)
    : List VariableDefinition → Compile (List VariableSpec)
  | [] => return []
  | definition :: rest => do
    let spec ← compileVariable schema earlier definition
    let others ← compileVariables schema (earlier ++ [definition]) rest
    return spec.toList ++ others

/-- A document must have exactly one operation. -/
def selectOperation (document : Document) : Except CompileError Operation :=
  match document.operations with
  | [] => .error ⟨.operationNotFound, []⟩
  | [operation] => .ok operation
  | operations => .error ⟨.ambiguousOperation, operations.map Operation.position⟩

def rootType (schema : Schema) (operation : Operation) : Except CompileError ObjectType :=
  match operation.kind with
  | .query => .ok schema.query
  | .mutation =>
    match schema.mutation with
    | some object => .ok object
    | none => .error ⟨.noMutations, [operation.position]⟩
  | .subscription => .error ⟨.noSubscriptions, [operation.position]⟩

def operationLocation : OperationKind → String
  | .query => "QUERY"
  | .mutation => "MUTATION"
  | .subscription => "SUBSCRIPTION"

def compileOperation (schema : Schema) (document : Document) (operation : Operation)
    (root : ObjectType)
    : Compile Plan := do
  let env : Env := ⟨schema, document, operation.variableDefinitions⟩
  let specs ← compileVariables schema [] operation.variableDefinitions
  rejectDirectives operation.directives (operationLocation operation.kind)
  let selection ← compileSet env Parser.maxDepth [] operation.set root
  let plan : Plan := ⟨operation.kind, operation.name, root.name, specs, selection⟩
  for conflict in Conflict.ofSelection plan.depth selection do
    Checked.report conflict
  return plan

end Compile

namespace Plan

def compile (schema : Schema) (document : Document) : Except (List CompileError) Plan := do
  let operation ← (Compile.selectOperation document).mapError ([·])
  let root ← (Compile.rootType schema operation).mapError ([·])
  let result := Compile.compileOperation schema document operation root
  match distinct result.errors with
  | [] => return result.value
  | errors => throw errors

end Plan

end GraphGateway

import GraphGateway.Proofs.Execution.DelayedPlan
import GraphGateway.Proofs.Plan.Environment
import GraphGateway.Proofs.Plan.MappedSets
import GraphGateway.Proofs.Plan.Placed

/-!
This module contains the proof that the delays of resolvers have no part in the compilation of a
document: a schema whose resolvers make it wait otherwise gives the same errors, and the same
plan with other delays.
-/

namespace GraphGateway

open SelectionItem (mapHeadsAll)

def FieldDef.withDelays (delays : Call → Nat) (field : FieldDef) : FieldDef :=
  { field with resolver := field.resolver.map fun r call => { r call with delay := delays call } }

def ObjectType.withDelays (delays : Call → Nat) (object : ObjectType) : ObjectType :=
  { object with fields := object.fields.mapValues (FieldDef.withDelays delays) }

def NamedType.withDelays (delays : Call → Nat) : NamedType → NamedType
  | scalar s => scalar s
  | object o => object (o.withDelays delays)

def Schema.withDelays (delays : Call → Nat) (schema : Schema) : Schema :=
  { objects := schema.objects.map (ObjectType.withDelays delays)
    query := schema.query.withDelays delays
    mutation := schema.mutation.map (ObjectType.withDelays delays) }

namespace Conflict

variable (delays : Call → Nat)

theorem inGroup?_withDelays (key : String) (group : FieldGroup)
    : inGroup? key (group.mapHeads (FieldPlan.withDelays delays)) = inGroup? key group := by
  unfold inGroup?
  exact List.findSome?_map

theorem ofSelection_withDelays (levels : Nat) (items : List SelectionItem)
    : ofSelection levels (mapHeadsAll (FieldPlan.withDelays delays) items)
        = ofSelection levels items := by
  induction levels generalizing items with
  | zero => rfl
  | succ levels ih =>
    unfold ofSelection
    rw [SelectionItem.allFields_mapHeadsAll, FieldGroup.ofFields_mapHeads (by intro; rfl)]
    unfold Ordered.mapValues
    rw [List.flatMap_map]
    congr 1
    funext entry
    obtain ⟨key, group⟩ := entry
    dsimp only
    rw [inGroup?_withDelays, FieldGroup.children_mapHeads, ih]

end Conflict

namespace Schema

variable (delays : Call → Nat)

theorem findObject?_withDelays (objects : List ObjectType) (name : String)
    : findObject? (objects.map (ObjectType.withDelays delays)) name
        = (findObject? objects name).map (ObjectType.withDelays delays) := by
  unfold findObject?
  exact List.find?_map

theorem type?_withDelays (schema : Schema) (name : String)
    : (schema.withDelays delays).type? name
        = (schema.type? name).map (NamedType.withDelays delays) := by
  unfold type? findType? withDelays
  dsimp only
  cases Scalar.ofName? name with
  | some scalar => rfl
  | none =>
    dsimp only
    rw [findObject?_withDelays, Option.map_map, Option.map_map]
    rfl

end Schema

theorem ObjectType.field?_withDelays (delays : Call → Nat) (object : ObjectType) (name : String)
    : (object.withDelays delays).field? name
        = (object.field? name).map (FieldDef.withDelays delays) :=
  Ordered.get?_mapValues _ _ _

namespace Compile

variable (delays : Call → Nat) (env : Env)

def Env.withDelays : Env :=
  { env with schema := env.schema.withDelays delays }

theorem variableDefinitions_withDelays
    : (env.withDelays delays).variableDefinitions = env.variableDefinitions := rfl

theorem checkTypeCondition_withDelays (fragment : Option String) (condition : String)
    (parent : ObjectType) (position : Position)
    : checkTypeCondition (env.withDelays delays) fragment condition (parent.withDelays delays)
        position
        = checkTypeCondition env fragment condition parent position := by
  have htype : (env.withDelays delays).schema.type? condition
      = (env.schema.type? condition).map (NamedType.withDelays delays) :=
    env.schema.type?_withDelays delays condition
  unfold checkTypeCondition
  rw [htype, Option.isNone_map]
  rfl

/-- What one compiler makes of a selection set is what the other makes of it, at other delays. -/
def Delays (sets other : SetCompiler) : Prop :=
  ∀ set parent, other set (parent.withDelays delays)
    = mapHeadsAll (FieldPlan.withDelays delays) <$> sets set parent

section Sets

variable {delays} {env} {sets other : SetCompiler} (h : Delays delays sets other)

include h

theorem compileChildren_withDelays (node : FieldNode) (type : TypeRef) (set : Option SelectionSet)
    : compileChildren (env.withDelays delays) other node type set
        = Option.map (mapHeadsAll (FieldPlan.withDelays delays))
            <$> compileChildren env sets node type set := by
  have htype : (env.withDelays delays).schema.type? type.innermost
      = (env.schema.type? type.innermost).map (NamedType.withDelays delays) :=
    env.schema.type?_withDelays delays type.innermost
  unfold compileChildren
  rw [htype]
  cases set with
  | none => rcases env.schema.type? type.innermost with _ | _ | _ <;> rfl
  | some set =>
    rcases env.schema.type? type.innermost with _ | _ | object
    . rfl
    . rfl
    . simp [NamedType.withDelays, h set object]

theorem compileField_withDelays (node : FieldNode) (set : Option SelectionSet)
    (parent : ObjectType)
    : compileField (env.withDelays delays) other node set (parent.withDelays delays)
        = Option.map (mapField (FieldPlan.withDelays delays))
            <$> compileField env sets node set parent := by
  unfold compileField
  split
  . unfold compileTypename
    simp only [map_bind, map_pure, bind_assoc]
    refine bind_congr fun _ => ?_
    cases set.isSome <;> rfl
  . rw [ObjectType.field?_withDelays]
    cases parent.field? node.name with
    | none => rfl
    | some field =>
      dsimp only [Option.map_some, FieldDef.withDelays]
      rw [compileArguments_congr (variableDefinitions_withDelays delays env),
        compileChildren_withDelays h]
      simp only [map_bind, bind_map_left, map_pure]
      refine bind_congr fun arguments => bind_congr fun children => ?_
      cases field.resolver <;> rfl

end Sets

theorem compileSet_withDelays (levels : Nat) (stack : List String)
    : Delays delays (compileSet env levels stack)
        (compileSet (env.withDelays delays) levels stack) := by
  -- A fragment is put on the stack where it is spread, so that the stack is not fixed.
  induction levels generalizing stack with
  | zero =>
    intro set parent
    rfl
  | succ levels ih =>
    intro set parent
    have hcheck (position : Position) (fragment : Option String) (condition : String) :=
      checkTypeCondition_withDelays delays env fragment condition parent position
    have hconditions := compileConditions_congr (variableDefinitions_withDelays delays env)
    refine compileSet_map (List.map_id _).symm fun selection _ => ?_
    cases selection with
    | field node children =>
      exact compileItem_map (fun _ _ => rfl) (hconditions node.directives)
        (compileField_withDelays (ih stack) node children parent)
    | spread name directives position =>
      exact compileSpread_map (fun _ => ⟨rfl, rfl⟩) (hconditions directives) Option.map_id'.symm
        (hcheck position) fun fragment _ => ih (name :: stack) fragment.set parent
    | inline condition directives set position =>
      exact compileInline_map (hconditions directives) (hcheck position) (ih stack set parent)

theorem compileVariables_withDelays (schema : Schema)
    (earlier definitions : List VariableDefinition)
    : compileVariables (schema.withDelays delays) earlier definitions
        = compileVariables schema earlier definitions := by
  induction definitions generalizing earlier with
  | nil => rfl
  | cons definition rest ih =>
    have hvariable : compileVariable (schema.withDelays delays) earlier definition
        = compileVariable schema earlier definition := by
      unfold compileVariable
      dsimp only
      rw [schema.type?_withDelays]
      split
      . rfl
      . refine bind_congr fun _ => ?_
        rcases schema.type? definition.type.innermost with _ | _ | _ <;> rfl
    unfold compileVariables
    rw [hvariable, ih]

theorem compileOperation_withDelays (schema : Schema) (document : Document)
    (operation : Operation) (root : ObjectType)
    : compileOperation (schema.withDelays delays) document operation (root.withDelays delays)
        = Plan.withDelays delays <$> compileOperation schema document operation root := by
  let env : Env := ⟨schema, document, operation.variableDefinitions⟩
  have hset := compileSet_withDelays delays env Parser.maxDepth [] operation.set root
  unfold compileOperation
  simp only [map_bind]
  rw [compileVariables_withDelays]
  refine bind_congr fun specs => bind_congr fun _ => ?_
  refine (congrArg (· >>= _) hset).trans ?_
  simp only [bind_map_left]
  refine bind_congr fun selection => ?_
  rw [Conflict.ofSelection_withDelays]
  unfold Plan.depth
  rw [SelectionItem.depthAll_mapHeadsAll]
  rfl

theorem rootType_withDelays (schema : Schema) (operation : Operation)
    : Compile.rootType (schema.withDelays delays) operation
        = (Compile.rootType schema operation).map (ObjectType.withDelays delays) := by
  unfold Compile.rootType Schema.withDelays
  cases operation.kind with
  | mutation => cases schema.mutation <;> rfl
  | query => rfl
  | subscription => rfl

end Compile

theorem Plan.compile_withDelays (schema : Schema) (delays : Call → Nat) (document : Document)
    : compile (schema.withDelays delays) document
        = (compile schema document).map (withDelays delays) := by
  unfold compile
  cases Compile.selectOperation document with
  | error e => rfl
  | ok operation =>
    dsimp only [Except.mapError, bind, Except.bind]
    rw [Compile.rootType_withDelays]
    cases Compile.rootType schema operation with
    | error e => rfl
    | ok root =>
      dsimp only [Except.map]
      rw [Compile.compileOperation_withDelays, Checked.value_map, Checked.errors_map]
      split <;> rfl

/-! # Schemas without panics -/

def ObjectType.PanicFree (object : ObjectType) : Prop :=
  ∀ name field resolver, object.field? name = some field → field.resolver = some resolver →
    ∀ call, (resolver call).PanicFree

structure Schema.PanicFree (schema : Schema) : Prop where
  objects : ∀ object ∈ schema.objects, object.PanicFree
  query : schema.query.PanicFree
  mutation : ∀ object ∈ schema.mutation, object.PanicFree

theorem FieldPlan.Placed.panicFree {object : ObjectType} {head : FieldPlan}
    (hhead : head.Placed object) (h : object.PanicFree)
    : head.PanicFree := by
  intro resolver hresolver
  have hshape := hhead.shape
  unfold ObjectType.shape? at hshape
  split at hshape
  . have hresolution := congrArg FieldShape.resolution (Option.some.inj hshape)
    rw [FieldPlan.shape, hresolver] at hresolution
    cases hresolution
  . obtain ⟨field, hfield, hshape⟩ := Option.map_eq_some_iff.mp hshape
    have hresolution := congrArg FieldShape.resolution hshape
    rw [FieldPlan.shape, hresolver] at hresolution
    cases hdefined : field.resolver with
    | none =>
      simp only [hdefined] at hresolution
      cases hresolution
    | some found =>
      simp only [hdefined] at hresolution
      cases hresolution
      exact h head.name field resolver hfield hdefined

theorem Schema.PanicFree.rootType {schema : Schema} (h : schema.PanicFree) {operation : Operation}
    {root : ObjectType} (hroot : Compile.rootType schema operation = .ok root)
    : root.PanicFree := by
  unfold Compile.rootType at hroot
  split at hroot
  . cases hroot
    exact h.query
  . split at hroot
    . next object hmutation =>
      cases hroot
      exact h.mutation root hmutation
    . cases hroot
  . cases hroot

theorem Plan.panicFree_of_compile {schema : Schema} (h : schema.PanicFree) {document : Document}
    {plan : Plan} (hplan : compile schema document = .ok plan)
    : plan.PanicFree := by
  obtain ⟨operation, root, hroot, hobjects⟩ := exists_object_of_compile hplan
  intro head hhead
  obtain ⟨object, hobject, hplaced⟩ := hobjects head hhead
  rcases List.mem_cons.mp hobject with rfl | hobject
  . exact hplaced.panicFree (h.rootType hroot)
  . exact hplaced.panicFree (h.objects object hobject)

end GraphGateway

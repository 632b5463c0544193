import GraphGateway.Proofs.Plan.Templates
import GraphGateway.Proofs.Plan.ArgumentEquality

/-!
This module contains what stands in every selection that is compiled, whether or not there
are errors: the name of a field settles all of it but the values of its arguments, and these
are without objects.
-/

namespace GraphGateway

structure FieldShape where
  parentType : String
  resolution : Resolution
  output : OutputType
  arguments : Ordered ArgumentDef

namespace ObjectType

def shape? (object : ObjectType) (name : String) : Option FieldShape :=
  if name = Compile.typenameField then
    some ⟨object.name, .typename, Compile.typenameOutput, []⟩
  else
    (object.field? name).map fun field =>
      { parentType := object.name
        resolution :=
          match field.resolver with
          | some resolver => .resolver resolver
          | none => .property
        output := .ofTypeRef field.type
        arguments := field.arguments }

def inner? (schema : Schema) (object : ObjectType) (name : String) : Option ObjectType :=
  (object.field? name).bind fun field => schema.object? field.type.innermost

end ObjectType

namespace FieldPlan

def shape (head : FieldPlan) : FieldShape :=
  ⟨head.parentType, head.resolution, head.output, head.arguments.map ArgumentPlan.declaration⟩

structure Placed (object : ObjectType) (head : FieldPlan) : Prop where
  shape : object.shape? head.name = some head.shape
  plain : ∀ argument ∈ head.arguments, argument.Plain

end FieldPlan

inductive SelectionItem.Placed (schema : Schema) : ObjectType → SelectionItem → Prop where
  | leaf {object : ObjectType} {head : FieldPlan} (hhead : head.Placed object)
    : Placed schema object (.field head none)
  | nested {object inner : ObjectType} {head : FieldPlan} {children : List SelectionItem}
    (hhead : head.Placed object) (hinner : object.inner? schema head.name = some inner)
    (hchildren : ∀ item ∈ children, Placed schema inner item)
    : Placed schema object (.field head (some children))
  | group {object : ObjectType} {conditions : List Condition} {items : List SelectionItem}
    (hitems : ∀ item ∈ items, Placed schema object item)
    : Placed schema object (.group conditions items)

theorem Scalar.plain_of_hasShape {scalar : Scalar} {v : Json} (h : scalar.HasShape v)
    : v.Plain := by
  cases scalar with
  | int =>
    obtain ⟨n, rfl, _⟩ := h
    exact .number _
  | _ =>
    obtain ⟨x, rfl⟩ := h
    constructor

theorem TypeRef.Accepts.plain {strict : Prop} {type : TypeRef} {v : Json}
    (h : type.Accepts strict v)
    : v.Plain := by
  induction type generalizing v with
  | named name =>
    obtain rfl | ⟨scalar, _, hshape⟩ := h
    . exact .null
    . exact Scalar.plain_of_hasShape hshape
  | list inner ih =>
    obtain rfl | ⟨items, rfl, hitems⟩ := h
    . exact .null
    . exact .array fun item hitem => ih (hitems item hitem)
  | nonNull inner ih => exact ih h.1

theorem Template.plain_ofList {items : List Template} (h : ∀ item ∈ items, item.Plain)
    : (ofList items).Plain := by
  unfold ofList
  split
  . next values hvalues =>
    rw [Compile.mapM_const?_eq_some hvalues] at h
    refine .const (.array fun v hv => ?_)
    obtain ⟨hplain⟩ := h (.const v) (List.mem_map_of_mem hv)
    exact hplain
  . exact .list h

namespace Compile

def Plainly (x : Compile (Option Template)) : Prop :=
  ∀ template, x.value = some template → template.Plain

variable {env : Env} {argument : String} {position : Position}

theorem plainly_constant (type : TypeRef) (l : Literal)
    : Plainly (constant type l argument position) := by
  intro template h
  unfold constant at h
  split at h
  . next v hv =>
    cases h
    exact .const (Coercion.coerceLiteral_eq_ok hv False.elim).1.plain
  . cases h

theorem plain_of_collect {f : Literal → Compile (Option Template)} {items : List Literal}
    (hf : ∀ l, Plainly (f l)) {templates : List Template}
    (h : (collect f items).value = some templates)
    : ∀ template ∈ templates, template.Plain := by
  induction items generalizing templates with
  | nil =>
    cases h
    simp
  | cons item rest ih =>
    unfold collect at h
    rw [Checked.value_bind, Checked.value_bind, Checked.value_pure] at h
    obtain ⟨first, hfirst, h⟩ := Option.bind_eq_some_iff.mp h
    obtain ⟨others, hothers, rfl⟩ := Option.map_eq_some_iff.mp h
    exact List.forall_mem_cons.mpr ⟨hf item first hfirst, ih hothers⟩

theorem plainly_compileValue (type : TypeRef) (hasDefault : Bool) (l : Literal)
    : Plainly (compileValue env argument position type hasDefault l) := by
  apply compileValue_induction (P := fun _ _ _ x => Plainly x)
  case hvariable =>
    intro type hasDefault name template h
    rw [Checked.value_bind] at h
    split at h
    . cases h
      exact .variable _
    . cases h
  case hconstant => exact fun type _ l => plainly_constant type l
  case hlist =>
    intro type inner hasDefault items _ ih template h
    rw [Checked.value_bind, Checked.value_pure] at h
    obtain ⟨templates, htemplates, rfl⟩ := Option.map_eq_some_iff.mp h
    exact Template.plain_ofList (plain_of_collect ih htemplates)
  case hsingle =>
    intro type inner hasDefault l _ _ ih template h
    rw [Checked.value_bind, Checked.value_pure] at h
    obtain ⟨item, hitem, rfl⟩ := Option.map_eq_some_iff.mp h
    exact Template.plain_ofList (List.forall_mem_singleton.mpr (ih item hitem))

theorem plain_of_compileArguments (node : FieldNode) (coordinate : String)
    (declared : Ordered ArgumentDef)
    : ∀ argument ∈ (compileArguments env node coordinate declared).value, argument.Plain := by
  intro argument hargument
  rw [compileArguments_value, List.mem_map] at hargument
  obtain ⟨⟨name, definition⟩, _, rfl⟩ := hargument
  intro template htemplate
  unfold compileArgument at htemplate
  dsimp only at htemplate
  split at htemplate
  . split at htemplate <;> cases htemplate
  . rw [Checked.value_bind, Checked.value_pure] at htemplate
    exact plainly_compileValue _ _ _ template htemplate

section Fields

variable {sets : SetCompiler} (hsets : AllItems (SelectionItem.Placed env.schema) sets)
  {node : FieldNode} {set : Option SelectionSet} {parent : ObjectType}

include hsets

theorem placed_of_compileChildren {head : FieldPlan} (hhead : head.Placed parent)
    {field : FieldDef} (hfield : parent.field? head.name = some field)
    : (SelectionItem.field head (compileChildren env sets node field.type set).value).Placed
        env.schema parent := by
  unfold compileChildren
  split
  . next object nested htype =>
    apply SelectionItem.Placed.nested hhead _ (hsets nested object)
    unfold ObjectType.inner?
    rw [hfield]
    exact (Schema.object?_eq_some_iff _ _ _).mpr htype
  . exact .leaf hhead
  . exact .leaf hhead
  . exact .leaf hhead

theorem placed_of_compileField {head : FieldPlan} {children : Option (List SelectionItem)}
    (h : (compileField env sets node set parent).value = some (head, children))
    (conditions : List Condition)
    : (SelectionItem.field { head with conditions } children).Placed env.schema parent := by
  unfold compileField at h
  split at h
  . rw [Checked.value_bind, compileTypename_value] at h
    cases h
    exact .leaf ⟨rfl, by simp⟩
  . next hname =>
    split at h
    . cases h
    . next field hfield =>
      cases h
      apply placed_of_compileChildren hsets _ hfield
      constructor
      . unfold ObjectType.shape? FieldPlan.shape
        rw [if_neg hname, hfield]
        exact congrArg (fun arguments => some (FieldShape.mk _ _ _ arguments))
          (declared_of_compileArguments _ _ _).symm
      . exact plain_of_compileArguments node _ field.arguments

end Fields

theorem placed_compileSet (env : Env) (levels : Nat) (stack : List String)
    : AllItems (SelectionItem.Placed env.schema) (compileSet env levels stack) := by
  apply allItems_compileSet
  . intro sets hsets node set parent head children conditions h
    exact placed_of_compileField hsets h conditions
  . intro parent conditions items hitems
    exact .group hitems

end Compile

theorem SelectionItem.Placed.exists_object {schema : Schema} {root : ObjectType}
    {item : SelectionItem} (h : item.Placed schema root)
    : ∀ head ∈ item.heads, ∃ object ∈ root :: schema.objects, head.Placed object := by
  induction h with
  | leaf hhead =>
    intro head hmem
    cases List.mem_singleton.mp hmem
    exact ⟨_, List.mem_cons_self, hhead⟩
  | nested hhead hinner _ ih =>
    intro head hmem
    rcases List.mem_cons.mp hmem with rfl | hmem
    . exact ⟨_, List.mem_cons_self, hhead⟩
    . obtain ⟨child, hchild, hmem⟩ := exists_of_mem_headsAll hmem
      obtain ⟨object, hobject, hplaced⟩ := ih child hchild head hmem
      obtain ⟨field, _, hinner⟩ := Option.bind_eq_some_iff.mp hinner
      rcases List.mem_cons.mp hobject with rfl | hobject
      . exact ⟨_, List.mem_cons_of_mem _ (Schema.mem_of_object? hinner), hplaced⟩
      . exact ⟨_, List.mem_cons_of_mem _ hobject, hplaced⟩
  | group _ ih =>
    intro head hmem
    obtain ⟨child, hchild, hmem⟩ := exists_of_mem_headsAll hmem
    exact ih child hchild head hmem

theorem Plan.exists_object_of_compile {schema : Schema} {document : Document} {plan : Plan}
    (h : compile schema document = .ok plan)
    : ∃ operation root, Compile.rootType schema operation = .ok root
        ∧ ∀ head ∈ plan.heads, ∃ object ∈ root :: schema.objects, head.Placed object := by
  obtain ⟨operation, root, _, hroot, _, rfl⟩ := compile_eq_ok h
  refine ⟨operation, root, hroot, ?_⟩
  intro head hhead
  rw [heads, Compile.compileOperation_selection] at hhead
  obtain ⟨item, hitem, hhead⟩ := SelectionItem.exists_of_mem_headsAll hhead
  have hplaced := Compile.placed_compileSet ⟨schema, document, operation.variableDefinitions⟩
    Parser.maxDepth [] operation.set root item hitem
  exact hplaced.exists_object head hhead

end GraphGateway

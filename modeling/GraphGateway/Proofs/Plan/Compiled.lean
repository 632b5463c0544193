import GraphGateway.Plan.Compile
import GraphGateway.Proofs.Plan.Heads

/-!
This module contains where the fields of a compiled plan come from, and the induction along the
types of the values that are compiled.
-/

namespace GraphGateway

namespace Checked

variable {ε α β : Type}

@[simp]
theorem value_pure (a : α) : (Pure.pure a : Checked ε α).value = a := rfl

@[simp]
theorem value_map (f : α → β) (x : Checked ε α) : (f <$> x).value = f x.value := rfl

@[simp]
theorem value_mapM (f : α → Checked ε β) (xs : List α)
    : (xs.mapM f).value = xs.map fun x => (f x).value := by
  induction xs with
  | nil => rfl
  | cons x rest ih => simp [ih]

end Checked

namespace SelectionItem

theorem exists_of_mem_headsAll {head : FieldPlan} {items : List SelectionItem}
    (h : head ∈ headsAll items)
    : ∃ item ∈ items, head ∈ item.heads := by
  induction items with
  | nil => cases h
  | cons item rest ih =>
    rw [headsAll_cons, List.mem_append] at h
    rcases h with h | h
    . exact ⟨item, List.mem_cons_self, h⟩
    . obtain ⟨other, hother, h⟩ := ih h
      exact ⟨other, List.mem_cons_of_mem _ hother, h⟩

end SelectionItem

open SelectionItem (headsAll)

namespace Compile

/-- A field that the compilation of some node of a document gives, with any conditions. -/
def Env.Compiles (env : Env) (head : FieldPlan) : Prop :=
  ∃ sets node set parent first children conditions,
    (compileField env sets node set parent).value = some (first, children)
      ∧ head = { first with conditions }

theorem compileChildren_value (env : Env) (sets : SetCompiler) (node : FieldNode)
    (type : TypeRef) (set : Option SelectionSet)
    : (compileChildren env sets node type set).value = none
        ∨ ∃ nested object, (compileChildren env sets node type set).value
            = some (sets nested object).value := by
  unfold compileChildren
  split
  . next object nested _ => exact .inr ⟨nested, object, rfl⟩
  . exact .inl rfl
  . exact .inl rfl
  . exact .inl rfl

theorem compileTypename_value (node : FieldNode) (hasSet : Bool) (parent : ObjectType)
    : (compileTypename node hasSet parent).value
        = (⟨node.responseKey, parent.name, typenameField, .typename, [], [], typenameOutput,
            node.position⟩, none) := by
  unfold compileTypename
  cases hasSet <;> rfl

theorem compileField_children {env : Env} {sets : SetCompiler} {node : FieldNode}
    {set : Option SelectionSet} {parent : ObjectType} {head : FieldPlan}
    {children : Option (List SelectionItem)}
    (h : (compileField env sets node set parent).value = some (head, children))
    : children = none ∨ ∃ nested object, children = some (sets nested object).value := by
  unfold compileField at h
  split at h
  . rw [Checked.value_bind, compileTypename_value] at h
    cases h
    exact .inl rfl
  . split at h
    . cases h
    . cases h
      apply compileChildren_value

def AllItems (P : ObjectType → SelectionItem → Prop) (sets : SetCompiler) : Prop :=
  ∀ set parent, ∀ item ∈ (sets set parent).value, P parent item

section Items

variable {env : Env} {P : ObjectType → SelectionItem → Prop}
  (hgroup : ∀ parent conditions items, (∀ item ∈ items, P parent item) →
    P parent (.group conditions items))
  {sets : SetCompiler} (hsets : AllItems P sets) {parent : ObjectType}

include hgroup hsets

theorem forall_groupOf (conditions : Option (List Condition)) (set : SelectionSet)
    : ∀ item ∈ groupOf conditions (sets set parent).value, P parent item := by
  unfold groupOf
  split
  . simp
  . exact hsets set parent
  . intro item hitem
    cases List.mem_singleton.mp hitem
    exact hgroup parent _ _ (hsets set parent)

theorem forall_compileSpread {stack : List String} {name : String} {directives : List Directive}
    {position : Position}
    : ∀ item ∈ (compileSpread env stack sets name directives position parent).value,
        P parent item := by
  intro item hitem
  unfold compileSpread at hitem
  rw [Checked.value_bind] at hitem
  -- A fragment that is unknown, or being compiled already, leaves nothing behind.
  split at hitem
  . cases hitem
  . split at hitem
    . cases hitem
    . rw [Checked.value_bind] at hitem
      split at hitem
      . exact forall_groupOf hgroup hsets _ _ item hitem
      . cases hitem

theorem forall_compileInline {condition : Option String} {directives : List Directive}
    {set : SelectionSet} {position : Position}
    : ∀ item ∈ (compileInline env sets condition directives set position parent).value,
        P parent item := by
  intro item hitem
  unfold compileInline at hitem
  rw [Checked.value_bind, Checked.value_bind] at hitem
  split at hitem
  . exact forall_groupOf hgroup hsets _ _ item hitem
  . cases hitem

end Items

/--
Every item that is compiled has a property if the fields have it that nodes compile to, and the
groups of items that have it.
-/
theorem allItems_compileSet {env : Env} {P : ObjectType → SelectionItem → Prop}
    (hfield : ∀ sets, AllItems P sets → ∀ node set parent head children conditions,
      (compileField env sets node set parent).value = some (head, children) →
        P parent (.field { head with conditions } children))
    (hgroup : ∀ parent conditions items, (∀ item ∈ items, P parent item) →
      P parent (.group conditions items))
    (levels : Nat) (stack : List String)
    : AllItems P (compileSet env levels stack) := by
  induction levels generalizing stack with
  | zero =>
    intro set parent item hitem
    cases hitem
  | succ levels ih =>
    intro set parent item hitem
    unfold compileSet at hitem
    rw [Checked.value_bind, Checked.value_pure, Checked.value_mapM, List.mem_flatten] at hitem
    obtain ⟨items, hitems, hitem⟩ := hitem
    obtain ⟨selection, _, rfl⟩ := List.mem_map.mp hitems
    cases selection with
    | field node children =>
      unfold compileSelection compileItem at hitem
      rw [Checked.value_bind, Checked.value_bind] at hitem
      -- A field that is excluded, or does not compile, leaves nothing behind either.
      split at hitem
      . next conditions head nested _ hcompiled =>
        cases List.mem_singleton.mp hitem
        exact hfield _ (ih stack) _ _ _ _ _ conditions hcompiled
      . cases hitem
    | spread name directives position =>
      exact forall_compileSpread hgroup (ih (name :: stack)) item hitem
    | inline condition directives set position =>
      exact forall_compileInline hgroup (ih stack) item hitem

theorem compiles_compileSet (env : Env) (levels : Nat) (stack : List String) (set : SelectionSet)
    (parent : ObjectType)
    : ∀ head ∈ headsAll (compileSet env levels stack set parent).value, env.Compiles head := by
  have hall : AllItems (fun _ item => ∀ head ∈ item.heads, env.Compiles head)
      (compileSet env levels stack) := by
    apply allItems_compileSet
    . intro sets hsets node set parent first children conditions hfield head hhead
      have hcompiles : env.Compiles { first with conditions } :=
        ⟨sets, node, set, parent, first, children, conditions, hfield, rfl⟩
      rcases compileField_children hfield with rfl | ⟨nested, object, rfl⟩
      . rw [SelectionItem.heads, List.mem_singleton] at hhead
        rwa [hhead]
      . rw [SelectionItem.heads, List.mem_cons] at hhead
        rcases hhead with rfl | hhead
        . exact hcompiles
        . obtain ⟨item, hitem, hhead⟩ := SelectionItem.exists_of_mem_headsAll hhead
          exact hsets nested object item hitem head hhead
    . intro parent conditions items hitems head hhead
      obtain ⟨item, hitem, hhead⟩ := SelectionItem.exists_of_mem_headsAll hhead
      exact hitems item hitem head hhead
  intro head hhead
  obtain ⟨item, hitem, hhead⟩ := SelectionItem.exists_of_mem_headsAll hhead
  exact hall set parent item hitem head hhead

theorem compileValue_induction {env : Env} {argument : String} {position : Position}
    {P : TypeRef → Bool → Literal → Compile (Option Template) → Prop}
    (hvariable : ∀ type hasDefault name, P type hasDefault (.variable name) (do
      if ← checkVariableUse env name type hasDefault position then return some (.variable name)
      else return none))
    (hconstant : ∀ type hasDefault l, P type hasDefault l (constant type l argument position))
    (hlist : ∀ type inner hasDefault items, elementType? type = some inner →
      (∀ l, P inner false l (compileValue env argument position inner false l)) →
        P type hasDefault (.list items) (do
          return (← collect (compileValue env argument position inner false) items).map .ofList))
    (hsingle : ∀ type inner hasDefault l, elementType? type = some inner →
      (∀ items, l ≠ .list items) →
        P inner false l (compileValue env argument position inner false l) →
          P type hasDefault l (do
            return (← compileValue env argument position inner false l).map
              fun template => .ofList [template]))
    (type : TypeRef) (hasDefault : Bool) (l : Literal)
    : P type hasDefault l (compileValue env argument position type hasDefault l) := by
  have hstep : ∀ type, (∀ inner, elementType? type = some inner → ∀ l,
      P inner false l (compileValue env argument position inner false l)) →
        ∀ hasDefault l,
          P type hasDefault l (compileValue env argument position type hasDefault l) := by
    intro type helements hasDefault l
    unfold compileValue
    split
    . exact hvariable _ _ _
    . exact hconstant _ _ _
    . split
      . exact hlist _ _ _ _ rfl (helements _ rfl)
      . exact hlist _ _ _ _ rfl (helements _ rfl)
      . exact hconstant _ _ _
    . next hitems =>
      split
      . exact hsingle _ _ _ _ rfl hitems (helements _ rfl _)
      . exact hsingle _ _ _ _ rfl hitems (helements _ rfl _)
      . exact hconstant _ _ _
  refine hstep type ?_ hasDefault l
  -- The element type of a list is the same under a non-null wrapper.
  induction type with
  | named name =>
    intro inner htype
    cases htype
  | list element ih =>
    intro inner htype
    cases htype
    exact hstep element ih false
  | nonNull type ih =>
    intro inner htype
    cases type with
    | list element => exact ih inner htype
    | named name => cases htype
    | nonNull type => cases htype

theorem compileOperation_selection (schema : Schema) (document : Document)
    (operation : Operation) (root : ObjectType)
    : (compileOperation schema document operation root).value.selection
        = (compileSet ⟨schema, document, operation.variableDefinitions⟩ Parser.maxDepth []
            operation.set root).value := rfl

/-- Only a field of the name `__typename` has no value of its own, and its type is known. -/
structure TypenameSound (head : FieldPlan) : Prop where
  resolution : head.name = typenameField → head.resolution = .typename
  output : head.resolution = .typename → head.output = typenameOutput

theorem Env.Compiles.typenameSound {env : Env} {head : FieldPlan} (h : env.Compiles head)
    : TypenameSound head := by
  obtain ⟨sets, node, set, parent, first, children, conditions, hfield, rfl⟩ := h
  unfold compileField at hfield
  split at hfield
  . rw [Checked.value_bind, compileTypename_value] at hfield
    cases hfield
    constructor <;> intro <;> rfl
  . next hname =>
    split at hfield
    . cases hfield
    . next field _ =>
      cases hfield
      constructor
      . intro heq
        exact absurd heq hname
      . cases field.resolver <;> exact Resolution.noConfusion

end Compile

namespace Plan

open Compile

theorem compile_eq_ok {schema : Schema} {document : Document} {plan : Plan}
    (h : compile schema document = .ok plan)
    : ∃ operation root, selectOperation document = .ok operation
        ∧ Compile.rootType schema operation = .ok root
        ∧ (compileOperation schema document operation root).errors = []
        ∧ plan = (compileOperation schema document operation root).value := by
  unfold compile at h
  obtain ⟨operation, hoperation, h⟩ := bind_eq_ok h
  obtain ⟨root, hroot, h⟩ := bind_eq_ok h
  dsimp at h
  split at h
  . next herrors =>
    cases h
    exact ⟨operation, root, mapError_eq_ok hoperation, mapError_eq_ok hroot,
      eq_nil_of_distinct_eq_nil herrors, rfl⟩
  . cases h

theorem typenameSound_of_compile {schema : Schema} {document : Document} {plan : Plan}
    (h : compile schema document = .ok plan)
    : ∀ head ∈ plan.heads, TypenameSound head := by
  obtain ⟨operation, root, _, _, _, rfl⟩ := compile_eq_ok h
  intro head hhead
  rw [heads, compileOperation_selection] at hhead
  exact (compiles_compileSet _ _ _ _ _ head hhead).typenameSound

end Plan
end GraphGateway

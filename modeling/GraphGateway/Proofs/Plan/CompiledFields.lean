import GraphGateway.Proofs.Plan.Faultless

/-!
This module contains what a field of a document is compiled to if it is without an error.
-/

namespace GraphGateway

def FieldDef.resolution (declared : FieldDef) : Resolution :=
  match declared.resolver with
  | some resolver => .resolver resolver
  | none => .property

namespace FieldNode

def typenamePlan (node : FieldNode) (parent : ObjectType) : FieldPlan :=
  ⟨node.responseKey, parent.name, Compile.typenameField, .typename, [], [], Compile.typenameOutput,
    node.position⟩

def declaredPlan (node : FieldNode) (parent : ObjectType) (declared : FieldDef)
    (arguments : List ArgumentPlan)
    : FieldPlan :=
  ⟨node.responseKey, parent.name, node.name, declared.resolution, arguments, [],
    .ofTypeRef declared.type, node.position⟩

end FieldNode

namespace Compile

open Checked (bind_eq_pure_iff pure_eq_pure_iff report_bind_ne_pure forIn_eq_pure_iff)

variable {env : Env} {sets : SetCompiler} {node : FieldNode} {set : Option SelectionSet}
  {parent : ObjectType}

theorem compileTypename_eq_pure_iff {hasSet : Bool}
    {field : FieldPlan × Option (List SelectionItem)}
    : compileTypename node hasSet parent = pure field
        ↔ node.arguments = [] ∧ hasSet = false ∧ field = (node.typenamePlan parent, none) := by
  unfold compileTypename
  rw [bind_eq_pure_iff]
  constructor
  . rintro ⟨_, harguments, h⟩
    rw [forIn_eq_pure_iff fun _ => rfl] at harguments
    refine ⟨List.eq_nil_iff_forall_not_mem.mpr fun argument hmem => ?_, ?_⟩
    . cases harguments argument hmem
    . cases hasSet with
      | false => exact ⟨rfl, (pure_eq_pure_iff.mp h).symm⟩
      | true => exact absurd h report_bind_ne_pure
  . rintro ⟨harguments, rfl, rfl⟩
    rw [harguments]
    exact ⟨⟨⟩, rfl, rfl⟩

/-- A compiled field is the one that every type has, or one that its type declares. -/
inductive CompilesField (env : Env) (sets : SetCompiler) (node : FieldNode)
    (set : Option SelectionSet) (parent : ObjectType)
    : FieldPlan → Option (List SelectionItem) → Prop where
  | typename (hname : node.name = typenameField) (harguments : node.arguments = [])
    (hset : set = none)
    : CompilesField env sets node set parent (node.typenamePlan parent) none
  | declared {declared : FieldDef} {arguments : List ArgumentPlan}
    {children : Option (List SelectionItem)} (hname : node.name ≠ typenameField)
    (hfield : parent.field? node.name = some declared)
    (harguments : compileArguments env node (parent.name ++ "." ++ node.name) declared.arguments
      = pure arguments)
    (hchildren : compileChildren env sets node declared.type set = pure children)
    : CompilesField env sets node set parent (node.declaredPlan parent declared arguments) children

theorem compileField_eq_pure_iff {field : Option (FieldPlan × Option (List SelectionItem))}
    : compileField env sets node set parent = pure field
        ↔ ∃ head children, field = some (head, children)
            ∧ CompilesField env sets node set parent head children := by
  unfold compileField
  split
  . next hname =>
    simp only [bind_eq_pure_iff, compileTypename_eq_pure_iff, pure_eq_pure_iff]
    constructor
    . rintro ⟨_, ⟨harguments, hset, rfl⟩, rfl⟩
      exact ⟨_, _, rfl, .typename hname harguments (by simpa using hset)⟩
    . rintro ⟨_, _, rfl, hfield⟩
      cases hfield with
      | typename _ harguments hset => exact ⟨_, ⟨harguments, by simp [hset], rfl⟩, rfl⟩
      | declared hne => exact absurd hname hne
  . next hname =>
    split
    . next hnone =>
      refine iff_of_false Checked.refuse_ne_pure ?_
      rintro ⟨_, _, _, hfield⟩
      cases hfield with
      | typename heq => exact hname heq
      | declared _ hfield =>
        rw [hnone] at hfield
        cases hfield
    . next declared hdeclared =>
      simp only [bind_eq_pure_iff, pure_eq_pure_iff]
      constructor
      . rintro ⟨arguments, harguments, children, hchildren, rfl⟩
        exact ⟨_, _, rfl, .declared hname hdeclared harguments hchildren⟩
      . rintro ⟨_, _, rfl, hfield⟩
        cases hfield with
        | typename heq => exact absurd heq hname
        | declared _ hfield harguments hchildren =>
          cases hdeclared.symm.trans hfield
          exact ⟨_, harguments, _, hchildren, rfl⟩

theorem compileItem_eq_pure_iff {items : List SelectionItem}
    : compileItem env sets node set parent = pure items
        ↔ ∃ conditions head children, compileConditions env node.directives = pure conditions
            ∧ CompilesField env sets node set parent head children
            ∧ items = (conditions.map fun conditions =>
                .field { head with conditions } children).toList := by
  unfold compileItem
  simp only [bind_eq_pure_iff, compileField_eq_pure_iff]
  constructor
  . rintro ⟨conditions, hconditions, _, ⟨head, children, rfl, hfield⟩, h⟩
    refine ⟨conditions, head, children, hconditions, hfield, ?_⟩
    cases conditions <;> exact (pure_eq_pure_iff.mp h).symm
  . rintro ⟨conditions, head, children, hconditions, hfield, rfl⟩
    refine ⟨conditions, hconditions, _, ⟨head, children, rfl, hfield⟩, ?_⟩
    cases conditions <;> rfl

end Compile
end GraphGateway

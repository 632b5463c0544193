import GraphGateway.Proofs.Plan.CompiledFields
import GraphGateway.Proofs.Plan.Declarations
import GraphGateway.Proofs.Plan.Inlining
import GraphGateway.Proofs.Plan.UsedVariables

/-!
This module contains from which field of a document each field of its plan is compiled.
-/

namespace GraphGateway

open SelectionItem (headsAll)

theorem Document.Selects.of_inner {document : Document} {set inner : SelectionSet}
    {item selection : Selection} (hitem : item ∈ set.items)
    (hinner : document.inner? item = some inner) (h : document.Selects inner selection)
    : document.Selects set selection := by
  cases item with
  | spread name directives position =>
    obtain ⟨fragment, hfragment, rfl⟩ := Option.map_eq_some_iff.mp hinner
    have hspreads : SelectionSet.Spreads set name :=
      ⟨directives, position, SelectionSet.mem_selections_of_mem hitem⟩
    cases h with
    | written h => exact .fragment ⟨name, hspreads, .refl⟩ hfragment h
    | fragment hreaches hother h =>
      obtain ⟨first, hfirst, hpath⟩ := hreaches
      exact .fragment ⟨name, hspreads, .head ⟨fragment, hfragment, hfirst⟩ hpath⟩ hother h
  | _ =>
    have hsubset := SelectionSet.selections_subset hitem hinner
    cases h with
    | written h => exact .written (hsubset h)
    | fragment hreaches hother h =>
      obtain ⟨first, ⟨directives, position, hfirst⟩, hpath⟩ := hreaches
      exact .fragment ⟨first, ⟨directives, position, hsubset hfirst⟩, hpath⟩ hother h

namespace Compile

def Env.Writes (env : Env) (set : SelectionSet) (head : FieldPlan) : Prop :=
  ∃ object node inner declared arguments conditions,
    env.schema.object? object.name = some object
      ∧ env.document.Selects set (.field node inner)
      ∧ object.field? node.name = some declared
      ∧ compileArguments env node (object.name ++ "." ++ node.name) declared.arguments
        = pure arguments
      ∧ head = { node.declaredPlan object declared arguments with conditions }

theorem Env.Writes.of_inner {env : Env} {set inner : SelectionSet} {item : Selection}
    {head : FieldPlan} (hitem : item ∈ set.items) (hinner : env.document.inner? item = some inner)
    (h : env.Writes inner head)
    : env.Writes set head := by
  obtain ⟨object, node, children, declared, arguments, conditions, hobject, hselects, hrest⟩ := h
  exact ⟨object, node, children, declared, arguments, conditions, hobject,
    hselects.of_inner hitem hinner, hrest⟩

def Env.WritesAll (env : Env) (sets : SetCompiler) : Prop :=
  ∀ set object items, env.schema.object? object.name = some object →
    sets set object = pure items →
      ∀ head ∈ headsAll items, head.resolution = .typename ∨ env.Writes set head

variable {env : Env}

theorem headsAll_groupOf {conditions : Option (List Condition)} {items : List SelectionItem}
    : headsAll (groupOf conditions items) ⊆ headsAll items := by
  unfold groupOf
  split
  . apply List.nil_subset
  . apply List.Subset.refl
  . simp [headsAll, SelectionItem.heads]

theorem exists_of_compileChildren {sets : SetCompiler} {node : FieldNode} {type : TypeRef}
    {set : Option SelectionSet} {children : List SelectionItem}
    (h : compileChildren env sets node type set = pure (some children))
    : ∃ inner object, set = some inner ∧ env.schema.object? object.name = some object
        ∧ sets inner object = pure children := by
  cases set with
  | some inner =>
    obtain ⟨object, items, htype, hitems, heq⟩ := compileChildren_eq_pure_iff.mp h
    cases heq
    have hobject := (Schema.object?_eq_some_iff _ _ _).mpr htype
    rw [← Schema.name_of_object? hobject] at hobject
    exact ⟨inner, object, rfl, hobject, hitems⟩
  | none =>
    unfold compileChildren at h
    split at h
    . next heq => cases heq
    . exact absurd h Checked.refuse_ne_pure
    . exact absurd h Checked.refuse_ne_pure
    . cases Checked.pure_eq_pure_iff.mp h

/-- A step: a field of a selection is written there, or in the set inside of it. -/
theorem writes_of_compileSelection {stack : List String} {sets : List String → SetCompiler}
    (hsets : ∀ stack, env.WritesAll (sets stack)) {parent : ObjectType}
    (hparent : env.schema.object? parent.name = some parent) {set : SelectionSet}
    {selection : Selection} (hselection : selection ∈ set.items) {items : List SelectionItem}
    (h : compileSelection env stack sets parent selection = pure items)
    : ∀ head ∈ headsAll items, head.resolution = .typename ∨ env.Writes set head := by
  intro head hhead
  cases selection with
  | field node inner =>
    obtain ⟨conditions, first, children, _, hfield, rfl⟩ := compileItem_eq_pure_iff.mp h
    cases conditions with
    | none => cases hhead
    | some conditions =>
      have hhead : head ∈ (SelectionItem.field { first with conditions } children).heads := by
        simpa [headsAll] using hhead
      cases hfield with
      | typename =>
        cases List.mem_singleton.mp hhead
        exact .inl rfl
      | declared _ hfield harguments hchildren =>
        have hwrites : env.Writes set { node.declaredPlan parent _ _ with conditions } :=
          ⟨parent, node, inner, _, _, conditions, hparent,
            .written (SelectionSet.mem_selections_of_mem hselection), hfield, harguments, rfl⟩
        cases children with
        | none =>
          cases List.mem_singleton.mp hhead
          exact .inr hwrites
        | some items =>
          obtain rfl | hhead := List.mem_cons.mp hhead
          . exact .inr hwrites
          . obtain ⟨nested, object, rfl, hobject, hitems⟩ := exists_of_compileChildren hchildren
            refine (hsets _ _ _ _ hobject hitems head hhead).imp_right fun hwrites => ?_
            exact hwrites.of_inner hselection rfl
  | spread name directives position =>
    obtain ⟨_, fragment, inner, _, hfragment, _, _, _, hinner, rfl⟩ :=
      compileSpread_eq_pure_iff.mp h
    refine (hsets _ _ _ _ hparent hinner head (headsAll_groupOf hhead)).imp_right fun hwrites => ?_
    exact hwrites.of_inner hselection (by rw [Document.inner?, hfragment]; rfl)
  | inline condition directives inner position =>
    obtain ⟨_, items, _, _, hinner, rfl⟩ := compileInline_eq_pure_iff.mp h
    refine (hsets _ _ _ _ hparent hinner head (headsAll_groupOf hhead)).imp_right fun hwrites => ?_
    exact hwrites.of_inner hselection rfl

/-- A run: so it is with the fields of a set, at any depth. -/
theorem writesAll (levels : Nat) (stack : List String)
    : env.WritesAll (compileSet env levels stack) := by
  induction levels generalizing stack with
  | zero =>
    intro set object items _ h
    exact absurd h (compileSet_ne_pure stack set object items)
  | succ levels ih =>
    intro set object items hobject h head hhead
    obtain ⟨parts, hparts, rfl⟩ := compileSet_eq_pure_iff.mp h
    obtain ⟨herrors, rfl⟩ := Checked.mapM_eq_pure_iff.mp hparts
    obtain ⟨item, hitem, hhead⟩ := SelectionItem.exists_of_mem_headsAll hhead
    obtain ⟨part, hpart, hitem⟩ := List.mem_flatten.mp hitem
    obtain ⟨selection, hselection, rfl⟩ := List.mem_map.mp hpart
    have hpure := Checked.eq_pure_iff.mpr ⟨herrors selection hselection, rfl⟩
    exact writes_of_compileSelection ih hobject hselection hpure head
      (SelectionItem.heads_subset_headsAll hitem hhead)

end Compile

namespace Plan

open Compile

theorem writes_of_compile {blueprint : Blueprint} {schema : Schema}
    (hbuild : blueprint.build = .ok schema) {document : Document} {plan : Plan}
    (h : compile schema document = .ok plan)
    : ∃ operation, document.operations = [operation]
        ∧ Env.Declared ⟨schema, document, operation.variableDefinitions⟩ plan.specs
        ∧ ∀ head ∈ plan.heads, head.resolution = .typename
          ∨ Env.Writes ⟨schema, document, operation.variableDefinitions⟩ operation.set head := by
  obtain ⟨operation, root, hoperations, hroot, h⟩ := compile_eq_ok_iff.mp h
  obtain ⟨_, items, hspecs, _, hitems, _, rfl⟩ := compileOperation_eq_pure_iff.mp h
  refine ⟨operation, hoperations, declared_of_compileVariables hspecs, fun head hhead => ?_⟩
  exact writesAll _ _ _ _ _ (object?_rootType hbuild hroot) hitems head hhead

end Plan
end GraphGateway

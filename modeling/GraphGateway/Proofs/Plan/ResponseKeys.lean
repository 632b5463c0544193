import GraphGateway.Proofs.Plan.Agreement
import GraphGateway.Proofs.Plan.CompiledFields
import GraphGateway.Proofs.Plan.Inlining

/-!
This module contains the response keys of selections, those inside of fragments included, and that a
compiled selection has no other ones.
-/

namespace GraphGateway

open SelectionItem (allFields)

/-- A field of a response key stands among selections, or inside of a fragment that stands there. -/
inductive Document.HasKey (document : Document) (key : String) : List Selection → Prop where
  | field {node : FieldNode} {set : Option SelectionSet} {selections : List Selection}
    (hmem : .field node set ∈ selections) (hkey : node.responseKey = key)
    : HasKey document key selections
  | spread {name : String} {directives : List Directive} {position : Position} {fragment : Fragment}
    {selections : List Selection} (hmem : .spread name directives position ∈ selections)
    (hfragment : document.fragment? name = some fragment)
    (h : HasKey document key fragment.set.items)
    : HasKey document key selections
  | inline {condition : Option String} {directives : List Directive} {set : SelectionSet}
    {position : Position} {selections : List Selection}
    (hmem : .inline condition directives set position ∈ selections)
    (h : HasKey document key set.items)
    : HasKey document key selections

theorem Document.not_hasKey_nil {document : Document} {key : String}
    : ¬ document.HasKey key [] := by
  rintro (⟨hmem, _⟩ | ⟨hmem, _, _⟩ | ⟨hmem, _⟩) <;> cases hmem

theorem Document.HasKey.of_subset {document : Document} {key : String}
    {selections others : List Selection} (h : document.HasKey key selections)
    (hsubset : selections ⊆ others)
    : document.HasKey key others := by
  cases h with
  | field hmem hkey => exact .field (hsubset hmem) hkey
  | spread hmem hfragment h => exact .spread (hsubset hmem) hfragment h
  | inline hmem h => exact .inline (hsubset hmem) h

namespace Compile

theorem allFields_groupOf {conditions : Option (List Condition)} {items : List SelectionItem}
    : allFields (groupOf conditions items) ⊆ allFields items := by
  unfold groupOf
  split
  . apply List.nil_subset
  . apply List.Subset.refl
  . simp [allFields, SelectionItem.fields]

theorem key_of_compilesField {env : Env} {sets : SetCompiler} {node : FieldNode}
    {set : Option SelectionSet} {parent : ObjectType} {head : FieldPlan}
    {children : Option (List SelectionItem)}
    (h : CompilesField env sets node set parent head children)
    : head.key = node.responseKey := by
  cases h <;> rfl

def Env.KeepsKeys (env : Env) (sets : SetCompiler) : Prop :=
  ∀ set object items, sets set object = pure items →
    ∀ field ∈ allFields items, env.document.HasKey field.head.key (SelectionSetOf.items set)

variable {env : Env} {stack : List String} {parent : ObjectType} {items : List SelectionItem}

/-- A step: the keys of a selection are its own or are inside of its fragment. -/
theorem hasKey_of_compileSelection {sets : List String → SetCompiler}
    (hsets : ∀ stack, env.KeepsKeys (sets stack)) {selection : Selection}
    (h : compileSelection env stack sets parent selection = pure items) {field : SelectedField}
    (hfield : field ∈ allFields items)
    : env.document.HasKey field.head.key [selection] := by
  cases selection with
  | field node set =>
    obtain ⟨conditions, head, children, _, hcompiles, rfl⟩ := compileItem_eq_pure_iff.mp h
    cases conditions with
    | none => cases hfield
    | some conditions =>
      cases List.mem_singleton.mp hfield
      exact .field (List.mem_singleton_self _) (key_of_compilesField hcompiles).symm
  | spread name directives position =>
    obtain ⟨_, fragment, inner, _, hfragment, _, _, _, hinner, rfl⟩ :=
      compileSpread_eq_pure_iff.mp h
    exact .spread (List.mem_singleton_self _) hfragment
      (hsets _ _ _ _ hinner field (allFields_groupOf hfield))
  | inline condition directives set position =>
    obtain ⟨_, inner, _, _, hinner, rfl⟩ := compileInline_eq_pure_iff.mp h
    exact .inline (List.mem_singleton_self _)
      (hsets _ _ _ _ hinner field (allFields_groupOf hfield))

theorem hasKey_of_gathers {sets : List String → SetCompiler}
    (hsets : ∀ stack, env.KeepsKeys (sets stack)) {selections : List Selection}
    (h : Gathers (compileSelection env stack sets parent) selections items) {field : SelectedField}
    (hfield : field ∈ allFields items)
    : env.document.HasKey field.head.key selections := by
  induction selections generalizing items with
  | nil =>
    cases gathers_nil_iff.mp h
    cases hfield
  | cons selection rest ih =>
    obtain ⟨first, others, hfirst, hothers, rfl⟩ := gathers_cons_iff.mp h
    rw [SelectionItem.allFields_append, List.mem_append] at hfield
    rcases hfield with hfield | hfield
    . exact (hasKey_of_compileSelection hsets hfirst hfield).of_subset (by simp)
    . exact (ih hothers hfield).of_subset (List.subset_cons_self _ _)

/-- A run: the fields of a compiled set have its keys, however deep fragments are nested in it. -/
theorem keepsKeys (levels : Nat) (stack : List String)
    : env.KeepsKeys (compileSet env levels stack) := by
  induction levels generalizing stack with
  | zero =>
    intro set object items h
    exact absurd h (compileSet_ne_pure stack set object items)
  | succ levels ih =>
    intro set object items h field hfield
    exact hasKey_of_gathers ih (compileSet_eq_pure_iff.mp h) hfield

end Compile
end GraphGateway

import GraphGateway.Proofs.Plan.ResponseKeys

/-!
This module contains that selections whose response keys are disjoint do not meet in any group, so
that they have the conflicts and the plans side by side that each of them has alone.
-/

namespace GraphGateway

open SelectionItem (allFields depthAll)

theorem Ordered.insert_append {α : Type} {table : Ordered α} {name : String}
    (h : table.contains name = false) (rest : Ordered α) (value : α)
    : Ordered.insert (table ++ rest) name value = table ++ Ordered.insert rest name value := by
  induction table with
  | nil => rfl
  | cons entry table ih =>
    obtain ⟨key, old⟩ := entry
    simp only [contains, get?] at h
    split at h
    . cases h
    . next hne =>
      rw [List.cons_append, insert, if_neg hne, ih h]
      rfl

def SelectedField.Disjoint (fields others : List SelectedField) : Prop :=
  ∀ field ∈ fields, ∀ other ∈ others, field.head.key ≠ other.head.key

theorem SelectedField.Disjoint.mono {fields others less fewer : List SelectedField}
    (h : SelectedField.Disjoint fields others) (hless : less ⊆ fields) (hfewer : fewer ⊆ others)
    : SelectedField.Disjoint less fewer :=
  fun field hfield other hother => h field (hless hfield) other (hfewer hother)

namespace FieldGroup

theorem insert_append {groups : Ordered FieldGroup} {field : SelectedField}
    (h : field.head.key ∉ groups.keys) (rest : Ordered FieldGroup)
    : insert (groups ++ rest) field = groups ++ insert rest field := by
  rw [← Ordered.contains_iff_mem_keys, Bool.not_eq_true] at h
  have hnone : groups.get? field.head.key = none := by simpa [Ordered.contains] using h
  unfold insert
  dsimp only
  rw [Ordered.get?_append, hnone, Option.none_or]
  cases rest.get? field.head.key <;> exact Ordered.insert_append h _ _

theorem ofFields_append {fields others : List SelectedField}
    (h : SelectedField.Disjoint fields others)
    : ofFields (fields ++ others) = ofFields fields ++ ofFields others := by
  induction others using List.reverseRecOn with
  | nil => simp [ofFields]
  | append_singleton others other ih =>
    have hothers := h.mono (List.Subset.refl _) (List.subset_append_left others [other])
    have hkey : other.head.key ∉ (ofFields fields).keys := by
      rw [keys_ofFields, List.mem_eraseDups]
      intro hmem
      obtain ⟨field, hfield, heq⟩ := List.mem_map.mp hmem
      exact h field hfield other (by simp) heq
    rw [← List.append_assoc, ofFields_concat, ih hothers, insert_append hkey, ofFields_concat]

end FieldGroup

theorem FieldGroup.depthAll_children_lt_of_mem {items : List SelectionItem} {key : String}
    {group : FieldGroup} (h : (key, group) ∈ ofFields (allFields items))
    : depthAll group.children < depthAll items :=
  depthAll_children_lt_of_fields fun _ hfield => (mem_of_ofKey? (mem_ofFields_iff.mp h) hfield).1

namespace Conflict

theorem ofSelection_levels {levels more : Nat} {items : List SelectionItem}
    (hdepth : depthAll items ≤ levels) (hmore : levels ≤ more)
    : ofSelection more items = ofSelection levels items := by
  induction levels generalizing more items with
  | zero =>
    have hnil : FieldGroup.ofFields (allFields items) = [] := by
      rw [List.eq_nil_iff_forall_not_mem]
      rintro ⟨key, group⟩ hgroup
      have := FieldGroup.depthAll_children_lt_of_mem hgroup
      omega
    cases more with
    | zero => rfl
    | succ more =>
      unfold ofSelection
      rw [hnil]
      rfl
  | succ levels ih =>
    cases more with
    | zero => omega
    | succ more =>
      unfold ofSelection
      refine List.flatMap_congr fun entry hentry => ?_
      obtain ⟨key, group⟩ := entry
      have := FieldGroup.depthAll_children_lt_of_mem hentry
      dsimp only
      rw [ih (by omega) (by omega)]

theorem ofSelection_append {levels : Nat} {items others : List SelectionItem}
    (h : SelectedField.Disjoint (allFields items) (allFields others))
    : ofSelection levels (items ++ others)
        = ofSelection levels items ++ ofSelection levels others := by
  cases levels with
  | zero => rfl
  | succ levels =>
    unfold ofSelection
    rw [SelectionItem.allFields_append, FieldGroup.ofFields_append h, List.flatMap_append]

end Conflict

/-- The document with other selections for its operation to begin with. -/
def Document.withRoot (document : Document) (items : List Selection) : Document :=
  ⟨document.definitions.map fun
    | .operation operation => .operation (operation.withItems items)
    | .fragment fragment => .fragment fragment⟩

namespace Document

theorem operations_withRoot (document : Document) (items : List Selection)
    : (document.withRoot items).operations
        = document.operations.map fun operation => operation.withItems items :=
  document.operations_map (fun _ => rfl) (fun _ => rfl)

theorem fragment?_withRoot (document : Document) (items : List Selection)
    : (document.withRoot items).fragment? = document.fragment? := by
  funext name
  have hmap : (document.withRoot items).fragment? name = (document.fragment? name).map id := by
    refine Document.fragment?_map (r := fun operation => operation.withItems items) ?_ ?_ ?_
      document name
    all_goals exact fun _ => rfl
  rwa [Option.map_id] at hmap

end Document

namespace Compile

theorem disjoint_of_gathers {env : Env} {levels : Nat} {parent : ObjectType}
    {selections others : List Selection} {items rest : List SelectionItem}
    (hitems : Gathers (compileSelection env [] (compileSet env levels) parent) selections items)
    (hrest : Gathers (compileSelection env [] (compileSet env levels) parent) others rest)
    (hkeys : ∀ key, env.document.HasKey key selections → ¬ env.document.HasKey key others)
    : SelectedField.Disjoint (allFields items) (allFields rest) := by
  intro field hfield other hother heq
  apply hkeys field.head.key (hasKey_of_gathers (keepsKeys levels) hitems hfield)
  rw [heq]
  exact hasKey_of_gathers (keepsKeys levels) hrest hother

end Compile

namespace Plan

open Compile

def extended (plan : Plan) (items : List SelectionItem) : Plan :=
  { plan with selection := plan.selection ++ items }

theorem compile_withRoot_append {schema : Schema} {document : Document}
    {selections others : List Selection} {first second : Plan}
    (hfirst : compile schema (document.withRoot selections) = .ok first)
    (hsecond : compile schema (document.withRoot others) = .ok second)
    (hkeys : ∀ key, document.HasKey key selections → ¬ document.HasKey key others)
    : compile schema (document.withRoot (selections ++ others))
        = .ok (first.extended second.selection)
        ∧ second = { first with selection := second.selection }
        ∧ SelectedField.Disjoint (allFields first.selection) (allFields second.selection) := by
  obtain ⟨operation, root, hoperations, hroot, hfirst⟩ := compile_eq_ok_iff.mp hfirst
  obtain ⟨_, _, hothers, hsame, hsecond⟩ := compile_eq_ok_iff.mp hsecond
  rw [Document.operations_withRoot, List.map_eq_singleton_iff] at hoperations hothers
  obtain ⟨operation, hoperations, rfl⟩ := hoperations
  obtain ⟨_, hothers, rfl⟩ := hothers
  cases hoperations.symm.trans hothers
  cases hroot.symm.trans hsame
  obtain ⟨specs, items, hspecs, hdirectives, hitems, hconflicts, rfl⟩ :=
    compileOperation_eq_pure_iff.mp hfirst
  obtain ⟨_, rest, hspecs', _, hrest, hconflicts', rfl⟩ := compileOperation_eq_pure_iff.mp hsecond
  cases Checked.pure_eq_pure_iff.mp (hspecs.symm.trans hspecs')
  -- All three documents have the same fragments, and are compiled as the document is
  -- that they come from.
  have halike (items : List Selection)
      : Env.Alike ⟨schema, document.withRoot items, operation.variableDefinitions⟩
          ⟨schema, document, operation.variableDefinitions⟩ :=
    ⟨rfl, rfl, document.fragment?_withRoot items⟩
  have hgathers {items : List Selection} {compiled : List SelectionItem}
      : compileSet ⟨schema, document.withRoot items, operation.variableDefinitions⟩
            Parser.maxDepth [] (operation.withItems items).set root = pure compiled
          ↔ Gathers (compileSelection ⟨schema, document, operation.variableDefinitions⟩ []
              (compileSet ⟨schema, document, operation.variableDefinitions⟩ (Parser.maxDepth - 1))
              root) items compiled := by
    rw [compileSet_congr (halike items)]
    exact compileSet_eq_pure_iff
  have hdisjoint := disjoint_of_gathers (hgathers.mp hitems) (hgathers.mp hrest) hkeys
  refine ⟨?_, rfl, hdisjoint⟩
  refine compile_eq_ok_iff.mpr ⟨operation.withItems (selections ++ others), root, ?_, hroot,
    compileOperation_eq_pure_iff.mpr ⟨specs, items ++ rest, hspecs, hdirectives, ?_, ?_, rfl⟩⟩
  . rw [Document.operations_withRoot, hoperations, List.map_singleton]
  . exact hgathers.mpr ((hgathers.mp hitems).append (hgathers.mp hrest))
  . have hdepth : depthAll items ≤ depthAll (items ++ rest)
        ∧ depthAll rest ≤ depthAll (items ++ rest) := by
      rw [SelectionItem.depthAll_append]
      omega
    unfold Plan.extended Plan.depth at *
    dsimp only at *
    rw [Conflict.ofSelection_append hdisjoint, Conflict.ofSelection_levels (Nat.le_refl _) hdepth.1,
      Conflict.ofSelection_levels (Nat.le_refl _) hdepth.2, hconflicts, hconflicts']
    rfl

end Plan
end GraphGateway

import GraphGateway.Proofs.Plan.WellFormed

/-!
This module contains what it means for a selection to be without conflicts: fields that are
merged have one name, and so have those that are merged in their sub-selections. This does not
depend on the conditions.
-/

namespace GraphGateway

open SelectionItem (allFields)

theorem Conflict.between?_eq_none_iff (first other : FieldPlan)
    : between? first other = none
        ↔ other.name = first.name
            ∧ ArgumentPlan.equalAll other.arguments first.arguments = true := by
  unfold between?
  by_cases hname : other.name = first.name
  . cases ArgumentPlan.equalAll other.arguments first.arguments <;> simp [hname]
  . simp [hname]

theorem Conflict.inGroup?_eq_none_iff (key : String) (group : FieldGroup)
    : inGroup? key group = none
        ↔ ∀ other ∈ group.others, other.head.name = group.first.head.name
            ∧ ArgumentPlan.equalAll other.head.arguments group.first.head.arguments = true := by
  unfold inGroup?
  rw [List.findSome?_eq_none_iff]
  simp only [Option.map_eq_none_iff, between?_eq_none_iff]

namespace FieldGroup

variable {key : String} {group larger : FieldGroup}

theorem exists_ofKey?_of_subset {fields others : List SelectedField} (hsubset : fields ⊆ others)
    (h : ofKey? key fields = some group)
    : ∃ larger, ofKey? key others = some larger ∧ group.fields ⊆ larger.fields := by
  have hfilter : group.fields ⊆ others.filter fun field => field.head.key = key := by
    rw [fields_of_ofKey? h]
    exact List.filter_subset _ hsubset
  have hfirst := hfilter group.first_mem_fields
  unfold ofKey?
  cases hothers : others.filter fun field => field.head.key = key with
  | nil =>
    rw [hothers] at hfirst
    cases hfirst
  | cons first rest =>
    rw [hothers] at hfilter
    exact ⟨⟨first, rest⟩, rfl, hfilter⟩

theorem children_subset (h : group.fields ⊆ larger.fields) : group.children ⊆ larger.children := by
  intro item hitem
  obtain ⟨field, hfield, hitem⟩ := List.mem_flatMap.mp hitem
  exact List.mem_flatMap.mpr ⟨field, h hfield, hitem⟩

def Agrees (group : FieldGroup) : Prop :=
  ∀ field ∈ group.fields, ∀ other ∈ group.fields, field.head.name = other.head.name

theorem agrees_of_inGroup? (h : Conflict.inGroup? key group = none) : group.Agrees := by
  have hfirst : ∀ field ∈ group.fields, field.head.name = group.first.head.name := by
    rw [FieldGroup.fields, List.forall_mem_cons]
    refine ⟨rfl, ?_⟩
    intro other hother
    exact ((Conflict.inGroup?_eq_none_iff key group).mp h other hother).1
  intro field hfield other hother
  rw [hfirst field hfield, hfirst other hother]

end FieldGroup

namespace SelectionItem

theorem allFields_eq_flatMap (items : List SelectionItem)
    : allFields items = items.flatMap SelectionItem.fields := by
  induction items with
  | nil => rfl
  | cons item rest ih => rw [allFields, ih, List.flatMap_cons]

theorem allFields_append (items others : List SelectionItem)
    : allFields (items ++ others) = allFields items ++ allFields others := by
  rw [allFields_eq_flatMap, List.flatMap_append, allFields_eq_flatMap, allFields_eq_flatMap]

theorem allFields_subset {items others : List SelectionItem} (h : items ⊆ others)
    : allFields items ⊆ allFields others := by
  rw [allFields_eq_flatMap, allFields_eq_flatMap]
  intro field hfield
  obtain ⟨item, hitem, hfield⟩ := List.mem_flatMap.mp hfield
  exact List.mem_flatMap.mpr ⟨item, h hitem, hfield⟩

end SelectionItem

namespace FieldGroup

/-- The fields that share a key agree, and so do those in their sub-selections, down to a depth. -/
def AgreeWithin : Nat → List SelectedField → Prop
  | 0, _ => True
  | levels + 1, fields => ∀ key group, ofKey? key fields = some group →
      group.Agrees ∧ AgreeWithin levels (allFields group.children)

theorem AgreeWithin.mono {levels : Nat} {fields others : List SelectedField}
    (h : AgreeWithin levels others) (hsubset : fields ⊆ others)
    : AgreeWithin levels fields := by
  induction levels generalizing fields others with
  | zero => trivial
  | succ levels ih =>
    intro key group hgroup
    obtain ⟨larger, hlarger, hfields⟩ := exists_ofKey?_of_subset hsubset hgroup
    obtain ⟨hagrees, hchildren⟩ := h key larger hlarger
    constructor
    . exact fun field hfield other hother => hagrees field (hfields hfield) other (hfields hother)
    . exact ih hchildren (SelectionItem.allFields_subset (children_subset hfields))

theorem agreeWithin_of_ofSelection {levels : Nat} {items : List SelectionItem}
    (h : Conflict.ofSelection levels items = [])
    : AgreeWithin levels (allFields items) := by
  induction levels generalizing items with
  | zero => trivial
  | succ levels ih =>
    intro key group hgroup
    unfold Conflict.ofSelection at h
    have hnone := List.flatMap_eq_nil_iff.mp h _ (mem_ofFields_iff.mpr hgroup)
    dsimp only at hnone
    split at hnone
    . cases hnone
    . next hagrees => exact ⟨agrees_of_inGroup? hagrees, ih hnone⟩

end FieldGroup

section Selections

variable {schema : Schema} {ArgumentOk : ArgumentPlan → Prop} {ConditionOk : Condition → Prop}
  {object : ObjectType}

def SelectionItem.On (schema : Schema) (ArgumentOk : ArgumentPlan → Prop)
    (ConditionOk : Condition → Prop) (name : String) (items : List SelectionItem)
    : Prop :=
  ∀ item ∈ items, ∃ object, schema.object? name = some object
    ∧ item.WellFormed schema ArgumentOk ConditionOk object

theorem SelectionItem.On.exists_object {name : String} {items : List SelectionItem}
    (h : SelectionItem.On schema ArgumentOk ConditionOk name items) {field : SelectedField}
    (hfield : field ∈ allFields items)
    : ∃ object, schema.object? name = some object
        ∧ ∀ item ∈ items, item.WellFormed schema ArgumentOk ConditionOk object := by
  rw [SelectionItem.allFields_eq_flatMap] at hfield
  obtain ⟨first, hfirst, _⟩ := List.mem_flatMap.mp hfield
  obtain ⟨object, hobject, _⟩ := h first hfirst
  refine ⟨object, hobject, ?_⟩
  intro item hitem
  obtain ⟨other, hother, hwell⟩ := h item hitem
  rw [hobject] at hother
  cases hother
  exact hwell

theorem FieldGroup.on_children {items : List SelectionItem}
    (hitems : ∀ item ∈ items, item.WellFormed schema ArgumentOk ConditionOk object)
    {group : FieldGroup} (hfields : group.fields ⊆ allFields items) (hagrees : group.Agrees)
    {field : FieldDef} (hfield : object.field? group.first.head.name = some field)
    : SelectionItem.On schema ArgumentOk ConditionOk field.type.innermost group.children := by
  intro item hitem
  obtain ⟨other, hother, hitem⟩ := List.mem_flatMap.mp hitem
  have hwell := SelectionItem.wellFormed_of_mem_allFields hitems (hfields hother)
  cases hchildren : other.children with
  | none =>
    rw [hchildren] at hitem
    cases hitem
  | some children =>
    rw [hchildren] at hitem hwell
    cases hwell with
    | nested hhead hobject hchildren =>
      -- The field has the name of the first one, and so the same definition.
      have hdefinition := hhead.field?
      rw [hagrees other hother group.first group.first_mem_fields, hfield] at hdefinition
      cases hdefinition
      exact ⟨_, hobject, hchildren item hitem⟩

end Selections

end GraphGateway

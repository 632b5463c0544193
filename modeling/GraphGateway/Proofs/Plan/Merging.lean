import GraphGateway.Proofs.Plan.Agreement
import GraphGateway.Proofs.Plan.Placed

/-!
This module contains the groups of fields that are merged in a selection and below it, and the
proof that the check for conflicts accepts a selection exactly if each of them is one field
with equal arguments.
-/

namespace GraphGateway

open SelectionItem (allFields admittedAll depthAll)

namespace FieldGroup

/--
The groups of a selection and, below them, those of the sub-selections that are merged, where the
fields of a selection are taken in a given way.
-/
inductive Merged (take : List SelectionItem → List SelectedField)
    : List SelectionItem → FieldGroup → Prop where
  | here {items : List SelectionItem} {key : String} {group : FieldGroup}
    (h : ofKey? key (take items) = some group)
    : Merged take items group
  | inside {items : List SelectionItem} {key : String} {group inner : FieldGroup}
    (h : ofKey? key (take items) = some group) (hinner : Merged take group.children inner)
    : Merged take items inner

def Coincides (group : FieldGroup) : Prop :=
  group.fields.Pairwise fun field other =>
    other.head.name = field.head.name
      ∧ ArgumentPlan.equalAll other.head.arguments field.head.arguments = true

theorem Coincides.eq_first {group : FieldGroup} (h : group.Coincides) {field : SelectedField}
    (hfield : field ∈ group.fields)
    : field.head.name = group.first.head.name
        ∧ (field = group.first
            ∨ ArgumentPlan.equalAll field.head.arguments group.first.head.arguments = true) := by
  unfold Coincides fields at h
  rw [List.pairwise_cons] at h
  rcases List.mem_cons.mp hfield with rfl | hother
  . exact ⟨rfl, .inl rfl⟩
  . obtain ⟨hname, harguments⟩ := h.1 field hother
    exact ⟨hname, .inr harguments⟩

theorem Coincides.agrees {group : FieldGroup} (h : group.Coincides) : group.Agrees := by
  intro field hfield other hother
  rw [(h.eq_first hfield).1, (h.eq_first hother).1]

end FieldGroup

section Placed

variable {schema : Schema} {object : ObjectType}

theorem FieldPlan.Placed.shape_eq {head other : FieldPlan} (h : head.Placed object)
    (hother : other.Placed object) (hname : head.name = other.name)
    : head.shape = other.shape := by
  have hshape := h.shape
  rw [hname, hother.shape] at hshape
  exact (Option.some.inj hshape).symm

namespace SelectionItem

theorem Placed.head {head : FieldPlan} {children : Option (List SelectionItem)}
    (h : (SelectionItem.field head children).Placed schema object)
    : head.Placed object := by
  cases h with
  | leaf hhead => exact hhead
  | nested hhead => exact hhead

mutual

theorem Placed.of_mem_fields {item : SelectionItem} (h : item.Placed schema object)
    {field : SelectedField} (hfield : field ∈ item.fields)
    : (SelectionItem.field field.head field.children).Placed schema object := by
  match item with
  | .field head children =>
    cases List.mem_singleton.mp hfield
    exact h
  | .group conditions items =>
    cases h with
    | group hitems => exact placed_of_mem_allFields hitems hfield

theorem placed_of_mem_allFields {items : List SelectionItem}
    (h : ∀ item ∈ items, item.Placed schema object) {field : SelectedField}
    (hfield : field ∈ allFields items)
    : (SelectionItem.field field.head field.children).Placed schema object := by
  match items with
  | [] => cases hfield
  | item :: rest =>
    obtain ⟨hitem, hrest⟩ := List.forall_mem_cons.mp h
    obtain hfield | hfield := List.mem_append.mp hfield
    . exact hitem.of_mem_fields hfield
    . exact placed_of_mem_allFields hrest hfield

end

end SelectionItem

namespace FieldGroup

section Fields

variable {group : FieldGroup}
  (hfields : ∀ field ∈ group.fields,
    (SelectionItem.field field.head field.children).Placed schema object)

include hfields

theorem exists_inner {item : SelectionItem} (hitem : item ∈ group.children)
    : ∃ field ∈ group.fields, ∃ inner, object.inner? schema field.head.name = some inner
        ∧ item.Placed schema inner := by
  obtain ⟨field, hfield, hitem⟩ := List.mem_flatMap.mp hitem
  have hplaced := hfields field hfield
  cases hchildren : field.children with
  | none =>
    rw [hchildren] at hitem
    cases hitem
  | some children =>
    rw [hchildren] at hitem hplaced
    cases hplaced with
    | nested _ hinner hchildren => exact ⟨field, hfield, _, hinner, hchildren item hitem⟩

theorem exists_placed_children (hagrees : group.Agrees)
    : ∃ inner, ∀ item ∈ group.children, item.Placed schema inner := by
  by_cases hsome : ∃ item, item ∈ group.children
  . obtain ⟨first, hfirst⟩ := hsome
    obtain ⟨field, hfield, inner, hinner, _⟩ := exists_inner hfields hfirst
    refine ⟨inner, ?_⟩
    intro item hitem
    obtain ⟨other, hother, otherInner, hotherInner, hplaced⟩ := exists_inner hfields hitem
    rw [hagrees other hother field hfield, hinner] at hotherInner
    cases hotherInner
    exact hplaced
  . refine ⟨object, ?_⟩
    intro item hitem
    exact absurd ⟨item, hitem⟩ hsome

theorem inGroup?_eq_none_iff_coincides (key : String)
    : Conflict.inGroup? key group = none ↔ group.Coincides := by
  rw [Conflict.inGroup?_eq_none_iff]
  constructor
  . intro h
    unfold Coincides
    rw [fields, List.pairwise_cons]
    refine ⟨h, List.pairwise_of_forall_mem_list ?_⟩
    -- two fields that are both equal to the first one are equal to each other
    intro field hfield other hother
    obtain ⟨hname, harguments⟩ := h field hfield
    obtain ⟨hotherName, hotherArguments⟩ := h other hother
    have hplaced := (hfields field (List.mem_cons_of_mem _ hfield)).head
    have hotherPlaced := (hfields other (List.mem_cons_of_mem _ hother)).head
    have hshape := hplaced.shape_eq (hfields group.first group.first_mem_fields).head hname
    exact ⟨hotherName.trans hname.symm, ArgumentPlan.equalAll_of_equalAll hplaced.plain
      hotherPlaced.plain (congrArg FieldShape.arguments hshape) harguments hotherArguments⟩
  . exact fun h => (List.pairwise_cons.mp h).1

end Fields

theorem placed_of_ofKey? {items : List SelectionItem}
    (hitems : ∀ item ∈ items, item.Placed schema object) {key : String} {group : FieldGroup}
    (h : ofKey? key (allFields items) = some group)
    : ∀ field ∈ group.fields,
        (SelectionItem.field field.head field.children).Placed schema object := by
  intro field hfield
  exact SelectionItem.placed_of_mem_allFields hitems (mem_of_ofKey? h hfield).1

/--
At every level, the check for conflicts finds none exactly if the fields that are merged coincide.
-/
theorem ofSelection_eq_nil_iff {levels : Nat} {items : List SelectionItem}
    (hdepth : depthAll items ≤ levels) (hitems : ∀ item ∈ items, item.Placed schema object)
    : Conflict.ofSelection levels items = []
        ↔ ∀ group, Merged allFields items group → group.Coincides := by
  induction levels generalizing items object with
  | zero =>
    have hnone {key : String} {group : FieldGroup} : ofKey? key (allFields items) ≠ some group := by
      intro h
      have := depthAll_children_lt_of_fields fun field hfield => (mem_of_ofKey? h hfield).1
      omega
    constructor
    . intro _ group hmerged
      cases hmerged with
      | here h => exact absurd h hnone
      | inside h => exact absurd h hnone
    . intro _
      rfl
  | succ levels ih =>
    -- What fields of one name select in their values is on one type, as the hypothesis asks for.
    have hgroup {key : String} {group : FieldGroup} (h : ofKey? key (allFields items) = some group)
        (hcoincides : group.Coincides)
        : Conflict.ofSelection levels group.children = []
            ↔ ∀ inner, Merged allFields group.children inner → inner.Coincides := by
      have hlt := depthAll_children_lt_of_fields fun field hfield => (mem_of_ofKey? h hfield).1
      obtain ⟨inner, hinner⟩ :=
        exists_placed_children (placed_of_ofKey? hitems h) hcoincides.agrees
      exact ih (by omega) hinner
    unfold Conflict.ofSelection
    rw [List.flatMap_eq_nil_iff]
    constructor
    . intro h group hmerged
      have hhere {key : String} {group : FieldGroup}
          (hkey : ofKey? key (allFields items) = some group)
          : group.Coincides ∧ Conflict.ofSelection levels group.children = [] := by
        have hnone := h _ (mem_ofFields_iff.mpr hkey)
        dsimp only at hnone
        split at hnone
        . cases hnone
        . next hagrees =>
          exact ⟨(inGroup?_eq_none_iff_coincides (placed_of_ofKey? hitems hkey) key).mp hagrees,
            hnone⟩
      cases hmerged with
      | here hkey => exact (hhere hkey).1
      | inside hkey hinner =>
        obtain ⟨hcoincides, hchildren⟩ := hhere hkey
        exact (hgroup hkey hcoincides).mp hchildren group hinner
    . rintro h ⟨key, group⟩ hmem
      have hkey := mem_ofFields_iff.mp hmem
      have hcoincides := h group (.here hkey)
      have hnone := (inGroup?_eq_none_iff_coincides (placed_of_ofKey? hitems hkey) key).mpr
        hcoincides
      dsimp only
      rw [hnone]
      exact (hgroup hkey hcoincides).mpr fun inner hinner => h inner (.inside hkey hinner)

theorem Merged.exists_placed {items : List SelectionItem}
    (hitems : ∀ item ∈ items, item.Placed schema object) {group : FieldGroup}
    (hcoincides : ∀ group, Merged allFields items group → group.Coincides)
    (h : Merged allFields items group)
    : ∃ object : ObjectType, ∀ field ∈ group.fields, field.head.Placed object := by
  induction h generalizing object with
  | here h => exact ⟨object, fun field hfield => (placed_of_ofKey? hitems h field hfield).head⟩
  | inside h _ ih =>
    obtain ⟨inner, hinner⟩ :=
      exists_placed_children (placed_of_ofKey? hitems h) (hcoincides _ (.here h)).agrees
    exact ih hinner fun group hgroup => hcoincides group (.inside h hgroup)

/-- Conditions leave out fields, but do not bring any together. -/
theorem Merged.exists_larger {bindings : Json.Members} {items others : List SelectionItem}
    {group : FieldGroup} (h : Merged (admittedAll bindings) items group) (hsubset : items ⊆ others)
    : ∃ larger, Merged allFields others larger ∧ group.fields ⊆ larger.fields := by
  induction h generalizing others with
  | here h =>
    obtain ⟨larger, hlarger, hfields⟩ := exists_ofKey?_of_subset
      (List.Subset.trans (SelectionItem.admittedAll_subset bindings _)
        (SelectionItem.allFields_subset hsubset)) h
    exact ⟨larger, .here hlarger, hfields⟩
  | inside h _ ih =>
    obtain ⟨larger, hlarger, hfields⟩ := exists_ofKey?_of_subset
      (List.Subset.trans (SelectionItem.admittedAll_subset bindings _)
        (SelectionItem.allFields_subset hsubset)) h
    obtain ⟨inner, hinner, hinnerFields⟩ := ih (children_subset hfields)
    exact ⟨inner, .inside hlarger hinner, hinnerFields⟩

theorem Merged.head_mem_headsAll {bindings : Json.Members} {items : List SelectionItem}
    {group : FieldGroup} (h : Merged (admittedAll bindings) items group)
    : ∀ field ∈ group.fields, field.head ∈ SelectionItem.headsAll items := by
  induction h with
  | here h =>
    intro field hfield
    exact (SelectionItem.within_of_mem_admittedAll (mem_of_ofKey? h hfield).1).head
  | inside h _ ih =>
    intro field hfield
    exact headsAll_children_subset h (ih field hfield)

end FieldGroup

/-- The same field, with arguments that are the same up to the signs of zeros. -/
structure FieldPlan.Alike (head other : FieldPlan) : Prop where
  parentType : head.parentType = other.parentType
  name : head.name = other.name
  resolution : head.resolution = other.resolution
  output : head.output = other.output
  arguments : head.arguments.map ArgumentPlan.unsigned = other.arguments.map ArgumentPlan.unsigned

def FieldGroup.Uniform (group : FieldGroup) : Prop :=
  ∀ field ∈ group.fields, ∀ other ∈ group.fields, field.head.Alike other.head

namespace FieldGroup

theorem Coincides.uniform {group : FieldGroup} (h : group.Coincides)
    (hplaced : ∀ field ∈ group.fields, field.head.Placed object)
    : group.Uniform := by
  have hfirst {field : SelectedField} (hfield : field ∈ group.fields)
      : field.head.name = group.first.head.name ∧ field.head.shape = group.first.head.shape
          ∧ field.head.arguments.map ArgumentPlan.unsigned
              = group.first.head.arguments.map ArgumentPlan.unsigned := by
    obtain ⟨hname, harguments⟩ := h.eq_first hfield
    have hshape :=
      (hplaced field hfield).shape_eq (hplaced group.first group.first_mem_fields) hname
    refine ⟨hname, hshape, ?_⟩
    rcases harguments with rfl | harguments
    . rfl
    . exact ArgumentPlan.unsigned_of_equalAll (hplaced field hfield).plain
        (congrArg FieldShape.arguments hshape) harguments
  intro field hfield other hother
  obtain ⟨hname, hshape, harguments⟩ := hfirst hfield
  obtain ⟨hotherName, hotherShape, hotherArguments⟩ := hfirst hother
  have hsame := hshape.trans hotherShape.symm
  exact
    { parentType := congrArg FieldShape.parentType hsame
      name := hname.trans hotherName.symm
      resolution := congrArg FieldShape.resolution hsame
      output := congrArg FieldShape.output hsame
      arguments := harguments.trans hotherArguments.symm }

theorem Uniform.of_subset {group larger : FieldGroup} (h : larger.Uniform)
    (hfields : group.fields ⊆ larger.fields)
    : group.Uniform := by
  intro field hfield other hother
  exact h field (hfields hfield) other (hfields hother)

/-- Without a conflict, all groups that are formed in a run are of one field each. -/
theorem Merged.uniform {bindings : Json.Members} {items : List SelectionItem} {group : FieldGroup}
    (h : Merged (admittedAll bindings) items group)
    (hitems : ∀ item ∈ items, item.Placed schema object)
    (hcoincides : ∀ group, Merged allFields items group → group.Coincides)
    : group.Uniform := by
  obtain ⟨larger, hlarger, hfields⟩ := h.exists_larger (List.Subset.refl items)
  obtain ⟨inner, hplaced⟩ := hlarger.exists_placed hitems hcoincides
  exact ((hcoincides larger hlarger).uniform hplaced).of_subset hfields

end FieldGroup

end Placed

end GraphGateway

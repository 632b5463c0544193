import GraphGateway.Proofs.Plan.Groups

/-!
This module contains the fields that stand in a selection at any depth, and that neither grouping
nor conditions bring in others.
-/

namespace GraphGateway

theorem subset_of_mem {α β : Type} {f : α → List β} {all : List α → List β}
    (hall : ∀ x rest, all (x :: rest) = f x ++ all rest) {x : α} {xs : List α} (h : x ∈ xs)
    : f x ⊆ all xs := by
  induction xs with
  | nil => cases h
  | cons first rest ih =>
    rw [hall]
    obtain rfl | h := List.mem_cons.mp h
    . exact List.subset_append_left ..
    . exact List.subset_append_of_subset_right _ (ih h)

namespace SelectionItem

mutual

def heads : SelectionItem → List FieldPlan
  | field head none => [head]
  | field head (some children) => head :: headsAll children
  | group _ items => headsAll items

def headsAll : List SelectionItem → List FieldPlan
  | [] => []
  | item :: rest => item.heads ++ headsAll rest

end

theorem headsAll_cons (item : SelectionItem) (rest : List SelectionItem)
    : headsAll (item :: rest) = item.heads ++ headsAll rest := by
  rw [headsAll]

theorem heads_subset_headsAll {item : SelectionItem} {items : List SelectionItem} (h : item ∈ items)
    : item.heads ⊆ headsAll items :=
  subset_of_mem headsAll_cons h

theorem depthAll_cons (item : SelectionItem) (rest : List SelectionItem)
    : depthAll (item :: rest) = max item.depth (depthAll rest) := by
  rw [depthAll]

theorem headsAll_append (items others : List SelectionItem)
    : headsAll (items ++ others) = headsAll items ++ headsAll others := by
  induction items with
  | nil => rfl
  | cons item rest ih =>
    rw [List.cons_append, headsAll_cons, headsAll_cons, ih, List.append_assoc]

theorem depthAll_append (items others : List SelectionItem)
    : depthAll (items ++ others) = max (depthAll items) (depthAll others) := by
  induction items with
  | nil => simp [depthAll]
  | cons item rest ih =>
    rw [List.cons_append, depthAll_cons, depthAll_cons, ih]
    omega

mutual

theorem admitted_subset (bindings : Json.Members) (item : SelectionItem)
    : item.admitted bindings ⊆ item.fields := by
  match item with
  | field head children =>
    unfold admitted fields
    split
    . exact List.Subset.refl _
    . apply List.nil_subset
  | group conditions items =>
    unfold admitted fields
    split
    . exact admittedAll_subset bindings items
    . apply List.nil_subset

theorem admittedAll_subset (bindings : Json.Members) (items : List SelectionItem)
    : admittedAll bindings items ⊆ allFields items := by
  match items with
  | [] => apply List.nil_subset
  | item :: rest =>
    unfold admittedAll allFields
    apply List.append_subset.mpr
    constructor
    . exact List.subset_append_of_subset_left _ (admitted_subset bindings item)
    . exact List.subset_append_of_subset_right _ (admittedAll_subset bindings rest)

end

end SelectionItem

open SelectionItem

structure SelectedField.Within (field : SelectedField) (heads : List FieldPlan) (depth : Nat)
    : Prop where
  head : field.head ∈ heads
  heads : headsAll (field.children.getD []) ⊆ heads
  depth : depthAll (field.children.getD []) < depth

theorem SelectedField.Within.mono {field : SelectedField} {heads others : List FieldPlan}
    {depth levels : Nat} (h : field.Within heads depth) (hheads : heads ⊆ others)
    (hdepth : depth ≤ levels)
    : field.Within others levels :=
  ⟨hheads h.head, List.Subset.trans h.heads hheads, Nat.lt_of_lt_of_le h.depth hdepth⟩

namespace SelectionItem

mutual

theorem within_of_mem_fields {item : SelectionItem} {field : SelectedField}
    (h : field ∈ item.fields)
    : field.Within item.heads item.depth := by
  match item with
  | .field head none =>
    rw [fields, List.mem_singleton] at h
    subst h
    constructor <;> simp [heads, headsAll, depth, depthAll]
  | .field head (some children) =>
    rw [fields, List.mem_singleton] at h
    subst h
    constructor <;> simp [heads, depth]
  | .group conditions items => exact within_of_mem_allFields h

theorem within_of_mem_allFields {items : List SelectionItem} {field : SelectedField}
    (h : field ∈ allFields items)
    : field.Within (headsAll items) (depthAll items) := by
  match items with
  | [] => cases h
  | item :: rest =>
    rw [headsAll_cons, depthAll_cons]
    rw [allFields, List.mem_append] at h
    rcases h with h | h
    . apply (within_of_mem_fields h).mono
      . apply List.subset_append_left
      . omega
    . apply (within_of_mem_allFields h).mono
      . apply List.subset_append_right
      . omega

end

theorem within_of_mem_admittedAll {bindings : Json.Members} {items : List SelectionItem}
    {field : SelectedField} (h : field ∈ admittedAll bindings items)
    : field.Within (headsAll items) (depthAll items) :=
  within_of_mem_allFields (admittedAll_subset bindings items h)

end SelectionItem

namespace FieldGroup

theorem mem_of_ofKey? {key : String} {fields : List SelectedField} {group : FieldGroup}
    (h : ofKey? key fields = some group) {field : SelectedField} (hfield : field ∈ group.fields)
    : field ∈ fields ∧ field.head.key = key := by
  rw [fields_of_ofKey? h, List.mem_filter] at hfield
  simpa using hfield

theorem first_mem_fields (group : FieldGroup) : group.first ∈ group.fields := by
  simp [fields]

variable {bindings : Json.Members} {items : List SelectionItem} {key : String}
  {group : FieldGroup}

theorem first_mem_headsAll (h : ofKey? key (admittedAll bindings items) = some group)
    : group.first.head ∈ headsAll items :=
  (within_of_mem_admittedAll (mem_of_ofKey? h group.first_mem_fields).1).head

theorem headsAll_children_subset_of_fields (h : group.fields ⊆ allFields items)
    : headsAll group.children ⊆ headsAll items := by
  have hwithin : ∀ field ∈ group.fields, headsAll (field.children.getD []) ⊆ headsAll items := by
    intro field hfield
    exact (within_of_mem_allFields (h hfield)).heads
  unfold children
  generalize group.fields = fields at hwithin
  induction fields with
  | nil => apply List.nil_subset
  | cons field rest ih =>
    rw [List.flatMap_cons, headsAll_append]
    rw [List.forall_mem_cons] at hwithin
    exact List.append_subset.mpr ⟨hwithin.1, ih hwithin.2⟩

theorem depthAll_children_lt_of_fields (h : group.fields ⊆ allFields items)
    : depthAll group.children < depthAll items := by
  have hwithin : ∀ field ∈ group.fields, depthAll (field.children.getD []) < depthAll items := by
    intro field hfield
    exact (within_of_mem_allFields (h hfield)).depth
  have hpos := hwithin _ group.first_mem_fields
  unfold children
  generalize group.fields = fields at hwithin
  induction fields with
  | nil =>
    rw [List.flatMap_nil, depthAll]
    omega
  | cons field rest ih =>
    rw [List.flatMap_cons, depthAll_append]
    rw [List.forall_mem_cons] at hwithin
    have := ih hwithin.2
    omega

theorem fields_subset_of_ofKey? (h : ofKey? key (admittedAll bindings items) = some group)
    : group.fields ⊆ allFields items := by
  intro field hfield
  exact admittedAll_subset bindings items (mem_of_ofKey? h hfield).1

theorem headsAll_children_subset (h : ofKey? key (admittedAll bindings items) = some group)
    : headsAll group.children ⊆ headsAll items :=
  headsAll_children_subset_of_fields (fields_subset_of_ofKey? h)

theorem forall_headsAll_children {P : FieldPlan → Prop}
    (h : ofKey? key (admittedAll bindings items) = some group)
    (hitems : ∀ head ∈ headsAll items, P head)
    : ∀ head ∈ headsAll group.children, P head := by
  intro head hhead
  exact hitems head (headsAll_children_subset h hhead)

theorem depthAll_children_lt (h : ofKey? key (admittedAll bindings items) = some group)
    : depthAll group.children < depthAll items :=
  depthAll_children_lt_of_fields (fields_subset_of_ofKey? h)

end FieldGroup

def Plan.heads (plan : Plan) : List FieldPlan :=
  headsAll plan.selection

end GraphGateway

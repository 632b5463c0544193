import GraphGateway.Proofs.Plan.Heads

/-!
This module contains changes to every field of a selection, and that a change which leaves keys and
conditions alone leaves the grouping alone.
-/

namespace GraphGateway

namespace SelectionItem

variable (f : FieldPlan → FieldPlan)

mutual

def mapHeads : SelectionItem → SelectionItem
  | field head none => field (f head) none
  | field head (some children) => field (f head) (some (mapHeadsAll children))
  | group conditions items => group conditions (mapHeadsAll items)

def mapHeadsAll : List SelectionItem → List SelectionItem
  | [] => []
  | item :: rest => item.mapHeads :: mapHeadsAll rest

end

theorem mapHeadsAll_append (items others : List SelectionItem)
    : mapHeadsAll f (items ++ others) = mapHeadsAll f items ++ mapHeadsAll f others := by
  induction items with
  | nil => rfl
  | cons item rest ih => rw [List.cons_append, mapHeadsAll, ih, mapHeadsAll, List.cons_append]

theorem mapHeadsAll_eq_map : mapHeadsAll f = List.map (mapHeads f) := by
  funext items
  induction items with
  | nil => rfl
  | cons item rest ih => rw [mapHeadsAll, ih, List.map_cons]

mutual

theorem depth_mapHeads (item : SelectionItem) : (item.mapHeads f).depth = item.depth := by
  match item with
  | field head none => rfl
  | field head (some children) => rw [mapHeads, depth, depthAll_mapHeadsAll children, depth]
  | group conditions items => rw [mapHeads, depth, depthAll_mapHeadsAll items, depth]

theorem depthAll_mapHeadsAll (items : List SelectionItem)
    : depthAll (mapHeadsAll f items) = depthAll items := by
  match items with
  | [] => rfl
  | item :: rest =>
    rw [mapHeadsAll, depthAll_cons, depth_mapHeads item, depthAll_mapHeadsAll rest, depthAll_cons]

end

end SelectionItem

open SelectionItem

namespace FieldGroup

def map (g : SelectedField → SelectedField) (group : FieldGroup) : FieldGroup :=
  ⟨g group.first, group.others.map g⟩

variable {g : SelectedField → SelectedField}

theorem fields_map (group : FieldGroup) : (group.map g).fields = group.fields.map g := rfl

theorem positions_map (h : ∀ field, (g field).head.position = field.head.position)
    (group : FieldGroup)
    : (group.map g).positions = group.positions := by
  unfold positions
  rw [fields_map, List.map_map]
  apply List.map_congr_left
  intro field _
  exact h field

theorem children_map {r : List SelectionItem → List SelectionItem} (hnil : r [] = [])
    (happend : ∀ items others, r (items ++ others) = r items ++ r others)
    (h : ∀ field, (g field).children.getD [] = r (field.children.getD [])) (group : FieldGroup)
    : (group.map g).children = r group.children := by
  unfold children
  rw [fields_map]
  induction group.fields with
  | nil => exact hnil.symm
  | cons field rest ih =>
    rw [List.map_cons, List.flatMap_cons, List.flatMap_cons, happend, ih, h]

end FieldGroup

def SelectedField.mapHeads (f : FieldPlan → FieldPlan) (field : SelectedField) : SelectedField :=
  ⟨f field.head, field.children.map (mapHeadsAll f)⟩

theorem SelectedField.children_mapHeads (f : FieldPlan → FieldPlan) (field : SelectedField)
    : (field.mapHeads f).children.getD [] = mapHeadsAll f (field.children.getD []) := by
  unfold mapHeads
  cases field.children <;> rfl

def FieldGroup.mapHeads (f : FieldPlan → FieldPlan) (group : FieldGroup) : FieldGroup :=
  ⟨group.first.mapHeads f, group.others.map (SelectedField.mapHeads f)⟩

theorem FieldGroup.children_mapHeads (f : FieldPlan → FieldPlan) (group : FieldGroup)
    : (group.mapHeads f).children = mapHeadsAll f group.children :=
  children_map rfl (mapHeadsAll_append f) (SelectedField.children_mapHeads f) group

theorem FieldGroup.positions_mapHeads {f : FieldPlan → FieldPlan}
    (h : ∀ head, (f head).position = head.position) (group : FieldGroup)
    : (group.mapHeads f).positions = group.positions := by
  apply positions_map
  intro field
  exact h field.head

namespace SelectionItem

variable {f : FieldPlan → FieldPlan} (bindings : Json.Members)

mutual

theorem admitted_mapHeads (h : ∀ head, (f head).conditions = head.conditions)
    (item : SelectionItem)
    : (item.mapHeads f).admitted bindings
        = (item.admitted bindings).map (SelectedField.mapHeads f) := by
  match item with
  | field head none =>
    rw [mapHeads, admitted, admitted, h]
    split <;> rfl
  | field head (some children) =>
    rw [mapHeads, admitted, admitted, h]
    split <;> rfl
  | group conditions items =>
    rw [mapHeads, admitted, admitted]
    split
    . exact admittedAll_mapHeadsAll h items
    . rfl

theorem admittedAll_mapHeadsAll (h : ∀ head, (f head).conditions = head.conditions)
    (items : List SelectionItem)
    : admittedAll bindings (mapHeadsAll f items)
        = (admittedAll bindings items).map (SelectedField.mapHeads f) := by
  match items with
  | [] => rfl
  | item :: rest =>
    rw [mapHeadsAll, admittedAll, admitted_mapHeads h item, admittedAll_mapHeadsAll h rest,
      admittedAll, List.map_append]

end

mutual

theorem fields_mapHeads (f : FieldPlan → FieldPlan) (item : SelectionItem)
    : (item.mapHeads f).fields = item.fields.map (SelectedField.mapHeads f) := by
  match item with
  | field head none => rfl
  | field head (some children) => rfl
  | group conditions items => exact allFields_mapHeadsAll f items

theorem allFields_mapHeadsAll (f : FieldPlan → FieldPlan) (items : List SelectionItem)
    : allFields (mapHeadsAll f items) = (allFields items).map (SelectedField.mapHeads f) := by
  match items with
  | [] => rfl
  | item :: rest =>
    rw [mapHeadsAll, allFields, fields_mapHeads f item, allFields_mapHeadsAll f rest, allFields,
      List.map_append]

end

end SelectionItem

namespace Ordered

variable {α β : Type}

def mapValues (g : α → β) (table : Ordered α) : Ordered β :=
  table.map fun (name, value) => (name, g value)

theorem get?_mapValues (g : α → β) (table : Ordered α) (name : String)
    : (table.mapValues g).get? name = (table.get? name).map g := by
  induction table with
  | nil => rfl
  | cons entry rest ih =>
    obtain ⟨key, value⟩ := entry
    simp only [mapValues, List.map_cons, get?] at ih ⊢
    split
    . rfl
    . exact ih

theorem insert_mapValues (g : α → β) (table : Ordered α) (name : String) (value : α)
    : (table.mapValues g).insert name (g value) = (table.insert name value).mapValues g := by
  induction table with
  | nil => rfl
  | cons entry rest ih =>
    obtain ⟨key, old⟩ := entry
    simp only [mapValues, List.map_cons, insert] at ih ⊢
    split
    . rfl
    . rw [ih, List.map_cons]

end Ordered

namespace FieldGroup

section Keys

variable {g : SelectedField → SelectedField} (hkey : ∀ field, (g field).head.key = field.head.key)

include hkey

theorem insert_map (groups : Ordered FieldGroup) (field : SelectedField)
    : insert (groups.mapValues (map g)) (g field) = (insert groups field).mapValues (map g) := by
  unfold insert
  dsimp
  rw [hkey, Ordered.get?_mapValues]
  cases groups.get? field.head.key with
  | none => exact Ordered.insert_mapValues (map g) groups _ ⟨field, []⟩
  | some group =>
    have hgroup : map g ⟨group.first, group.others ++ [field]⟩
        = ⟨(group.map g).first, (group.map g).others ++ [g field]⟩ := by
      simp [map]
    rw [← Ordered.insert_mapValues, hgroup]
    rfl

theorem ofFields_map (fields : List SelectedField)
    : ofFields (fields.map g) = (ofFields fields).mapValues (map g) := by
  induction fields using List.reverseRecOn with
  | nil => rfl
  | append_singleton fields field ih =>
    rw [List.map_append, List.map_singleton, ofFields_concat, ih, insert_map hkey, ofFields_concat]

end Keys

theorem ofFields_mapHeads {f : FieldPlan → FieldPlan} (hkey : ∀ head, (f head).key = head.key)
    (fields : List SelectedField)
    : ofFields (fields.map (SelectedField.mapHeads f))
        = (ofFields fields).mapValues (mapHeads f) := by
  apply ofFields_map
  intro field
  exact hkey field.head

end FieldGroup
end GraphGateway

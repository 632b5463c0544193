import GraphGateway.Proofs.Execution.Assembled
import GraphGateway.Proofs.Execution.Unfolded
import GraphGateway.Proofs.Plan.MapHeads

/-!
This module contains what the conditions in a selection leave of it in a run, and the proof that
this is all that a run depends on: selections with different conditions come to the same if the
same is left of them.
-/

namespace GraphGateway

namespace SelectionItem

variable (bindings : Json.Members)

mutual

/--
What is left of a selection once its conditions are settled: fields at every depth, without groups.
-/
def reduced : SelectionItem → List SelectionItem
  | field head none =>
    if head.conditions.all (·.admits bindings) then
      [field { head with conditions := [] } none]
    else []
  | field head (some children) =>
    if head.conditions.all (·.admits bindings) then
      [field { head with conditions := [] } (some (reducedAll children))]
    else []
  | group conditions items => if conditions.all (·.admits bindings) then reducedAll items else []

def reducedAll : List SelectionItem → List SelectionItem
  | [] => []
  | item :: rest => item.reduced ++ reducedAll rest

end

theorem reducedAll_append (items others : List SelectionItem)
    : reducedAll bindings (items ++ others)
        = reducedAll bindings items ++ reducedAll bindings others := by
  induction items with
  | nil => rfl
  | cons item rest ih =>
    rw [List.cons_append, reducedAll, ih, reducedAll, List.append_assoc]

theorem reducedAll_singleton (item : SelectionItem)
    : reducedAll bindings [item] = item.reduced bindings := by
  rw [reducedAll, reducedAll, List.append_nil]

theorem reduced_field (head : FieldPlan) (children : Option (List SelectionItem))
    : (field head children).reduced bindings
        = if head.conditions.all (·.admits bindings) then
            [field { head with conditions := [] } (children.map (reducedAll bindings))]
          else [] := by
  cases children <;> rfl

theorem admittedAll_append (items others : List SelectionItem)
    : admittedAll bindings (items ++ others)
        = admittedAll bindings items ++ admittedAll bindings others := by
  induction items with
  | nil => rfl
  | cons item rest ih =>
    rw [List.cons_append, admittedAll, ih, admittedAll, List.append_assoc]

mutual

theorem depthAll_reduced_le (item : SelectionItem)
    : depthAll (item.reduced bindings) ≤ item.depth := by
  match item with
  | field head none =>
    rw [reduced]
    split <;> simp [depthAll, depth]
  | field head (some children) =>
    have hchildren := depthAll_reducedAll_le children
    rw [reduced]
    split
    . simp [depthAll, depth, hchildren]
    . simp [depthAll]
  | group conditions items =>
    rw [reduced]
    split
    . exact depthAll_reducedAll_le items
    . exact Nat.zero_le _

theorem depthAll_reducedAll_le (items : List SelectionItem)
    : depthAll (reducedAll bindings items) ≤ depthAll items := by
  match items with
  | [] => exact Nat.le_refl _
  | item :: rest =>
    have hitem := depthAll_reduced_le item
    have hrest := depthAll_reducedAll_le rest
    rw [reducedAll, depthAll_append, depthAll_cons]
    omega

end

end SelectionItem

open SelectionItem (depthAll admittedAll reducedAll)

def SelectedField.reduced (bindings : Json.Members) (field : SelectedField) : SelectedField :=
  ⟨{ field.head with conditions := [] }, field.children.map (reducedAll bindings)⟩

namespace SelectionItem

variable (bindings : Json.Members)

mutual

theorem admittedAll_reduced (item : SelectionItem)
    : admittedAll bindings (item.reduced bindings)
        = (item.admitted bindings).map (SelectedField.reduced bindings) := by
  match item with
  | field head children =>
    rw [reduced_field, admitted]
    split
    . rfl
    . rfl
  | group conditions items =>
    rw [reduced, admitted]
    split
    . exact admittedAll_reducedAll items
    . rfl

theorem admittedAll_reducedAll (items : List SelectionItem)
    : admittedAll bindings (reducedAll bindings items)
        = (admittedAll bindings items).map (SelectedField.reduced bindings) := by
  match items with
  | [] => rfl
  | item :: rest =>
    rw [reducedAll, admittedAll_append, admittedAll_reduced item, admittedAll_reducedAll rest,
      admittedAll, List.map_append]

end

end SelectionItem

theorem SelectedField.children_reduced (bindings : Json.Members) (field : SelectedField)
    : (field.reduced bindings).children.getD [] = reducedAll bindings (field.children.getD []) := by
  unfold reduced
  cases field.children <;> rfl

namespace Task

variable {setting : Setting} {object other : ObjectTasks}

/--
A change of selections that changes fields one by one, and not what the arguments of a field come
to.
-/
structure KeepsFields (setting : Setting) (change : List SelectionItem → List SelectionItem)
    (g : SelectedField → SelectedField)
    : Prop where
  admitted : ∀ items, admittedAll setting.bindings (change items)
    = (admittedAll setting.bindings items).map g
  nil : change [] = []
  append : ∀ items others, change (items ++ others) = change items ++ change others
  children : ∀ field, (g field).children.getD [] = change (field.children.getD [])
  head : ∀ field, ∃ arguments conditions, (g field).head = { field.head with arguments, conditions }
    ∧ ArgumentPlan.evaluateAll arguments setting.bindings
      = ArgumentPlan.evaluateAll field.head.arguments setting.bindings

section KeepsFields

variable {change : List SelectionItem → List SelectionItem} {g : SelectedField → SelectedField}
  (hkeeps : KeepsFields setting change g)

include hkeeps

theorem ofGroup_of_keepsFields {group : FieldGroup}
    (h : ∀ type v path, other type (change group.children) v path
      = object type group.children v path)
    (type : String) (parent : Json) (path : Path) (key : String)
    : ofGroup setting other type parent path key (group.map g)
        = ofGroup setting object type parent path key group := by
  have hchildren : (group.map g).children = change group.children :=
    FieldGroup.children_map hkeeps.nil hkeeps.append hkeeps.children group
  have hpositions : (group.map g).positions = group.positions := by
    apply FieldGroup.positions_map
    intro field
    obtain ⟨_, _, hhead, _⟩ := hkeeps.head field
    rw [hhead]
  have hfirst : (group.map g).first.head = (g group.first).head := rfl
  obtain ⟨arguments, conditions, hhead, hevaluate⟩ := hkeeps.head group.first
  unfold ofGroup resolve
  rw [hchildren, hpositions, hfirst, hhead]
  simp only [complete_congr h, hevaluate]
  rfl

theorem ofSelection_of_keepsFields (levels : Nat) (type : String) (items : List SelectionItem)
    (parent : Json) (path : Path)
    : ofSelection setting levels type (change items) parent path
        = ofSelection setting levels type items parent path := by
  have hkey : ∀ field, (g field).head.key = field.head.key := by
    intro field
    obtain ⟨_, _, hhead, _⟩ := hkeeps.head field
    rw [hhead]
  induction levels generalizing type items parent path with
  | zero => rfl
  | succ levels ih =>
    unfold ofSelection
    rw [hkeeps.admitted, FieldGroup.ofFields_map hkey]
    unfold Ordered.mapValues
    rw [List.map_map]
    apply List.map_congr_left
    rintro ⟨key, group⟩ _
    refine congrArg (Prod.mk key) (ofGroup_of_keepsFields hkeeps ?_ type parent path key)
    intro type v path
    dsimp only
    rw [ih]

end KeepsFields

theorem keepsFields_reducedAll (setting : Setting)
    : KeepsFields setting (reducedAll setting.bindings)
        (SelectedField.reduced setting.bindings) where
  admitted := SelectionItem.admittedAll_reducedAll setting.bindings
  nil := rfl
  append := SelectionItem.reducedAll_append setting.bindings
  children := SelectedField.children_reduced setting.bindings
  head := fun field => ⟨field.head.arguments, [], rfl, rfl⟩

theorem ofSelection_reducedAll (levels : Nat) (type : String) (items : List SelectionItem)
    (parent : Json) (path : Path)
    : ofSelection setting levels type (reducedAll setting.bindings items) parent path
        = ofSelection setting levels type items parent path :=
  ofSelection_of_keepsFields (keepsFields_reducedAll setting) levels type items parent path

theorem ofSelection_levels {levels more : Nat} {items : List SelectionItem}
    (hdepth : depthAll items ≤ levels) (hmore : levels ≤ more) (type : String) (parent : Json)
    (path : Path)
    : ofSelection setting more type items parent path
        = ofSelection setting levels type items parent path := by
  induction levels using Nat.strongRecOn generalizing more type items parent path with
  | ind levels ih =>
    rw [ofSelection_eq setting (Nat.le_trans hdepth hmore), ofSelection_eq setting hdepth]
    apply List.map_congr_left
    rintro ⟨key, group⟩ hgroup
    have hchildren := FieldGroup.depthAll_children_lt (FieldGroup.mem_ofFields_iff.mp hgroup)
    have hobject (type : String) (v : Json) (path : Path)
        : ofObject setting (more - 1) type group.children v path
            = ofObject setting (levels - 1) type group.children v path := by
      unfold ofObject
      dsimp only
      rw [ih (levels - 1) (by omega) (by omega) (by omega)]
    unfold ofGroup resolve
    simp only [complete_congr hobject]

theorem ofPlan_eq_of_reducedAll {plan second : Plan} (hkind : second.kind = plan.kind)
    (htype : second.rootType = plan.rootType)
    (h : reducedAll setting.bindings second.selection = reducedAll setting.bindings plan.selection)
    (root : Json)
    : ofPlan second setting root = ofPlan plan setting root := by
  -- Either selection may be deeper than what is left of both of them.
  have htasks (plan : Plan)
      : ofSelection setting plan.depth plan.rootType plan.selection root []
          = ofSelection setting (depthAll (reducedAll setting.bindings plan.selection))
              plan.rootType (reducedAll setting.bindings plan.selection) root [] := by
    rw [← ofSelection_reducedAll plan.depth]
    apply ofSelection_levels (Nat.le_refl _)
    apply SelectionItem.depthAll_reducedAll_le
  have hserial : second.isSerial = plan.isSerial := by
    unfold Plan.isSerial
    rw [hkind]
  unfold ofPlan
  dsimp only
  rw [htasks second, htasks plan, h, htype, hserial]

end Task

namespace Plan

theorem answer_eq_of_reducedAll {plan second : Plan} (hkind : second.kind = plan.kind)
    (htype : second.rootType = plan.rootType) (hspecs : second.specs = plan.specs)
    {provided : Json.Members}
    (h : ∀ bindings, VariableSpec.coerceAll plan.specs provided = .ok bindings →
      reducedAll bindings second.selection = reducedAll bindings plan.selection)
    (context root : Json)
    : second.answer provided context root = plan.answer provided context root := by
  unfold answer
  rw [hspecs]
  cases hcoerce : VariableSpec.coerceAll plan.specs provided with
  | error faults => rfl
  | ok bindings =>
    dsimp only
    unfold execute
    rw [Task.ofPlan_eq_of_reducedAll hkind htype (h bindings hcoerce)]

end Plan
end GraphGateway

import GraphGateway.Proofs.Execution.Assembled
import GraphGateway.Proofs.Execution.Unfolded

/-!
This module contains which objects there are in the data of a response, and the proof that each of
them is what a selection comes to: its members are the values of the fields that are selected on it,
all from one parent.
-/

namespace GraphGateway

open SelectionItem (admittedAll headsAll depthAll)

/--
An object stands in a value of some type that a selection gives. It is known by the items that are
selected on it and by its members.
-/
inductive ObjectIn (bindings : Json.Members)
    : OutputType → List SelectionItem → Json → List SelectionItem → Json.Members → Prop where
  | here {name : String} {children : List SelectionItem} {members : Json.Members}
    : ObjectIn bindings (.object name) children (.object members) children members
  | nonNull {inner : OutputType} {children items : List SelectionItem} {v : Json}
    {members : Json.Members} (h : ObjectIn bindings inner children v items members)
    : ObjectIn bindings (.nonNull inner) children v items members
  | element {inner : OutputType} {children items : List SelectionItem} {elements : List Json}
    {v : Json} {members : Json.Members} (hv : v ∈ elements)
    (h : ObjectIn bindings inner children v items members)
    : ObjectIn bindings (.list inner) children (.array elements) items members
  | member {name key : String} {children items : List SelectionItem} {v : Json} {group : FieldGroup}
    {fields members : Json.Members} (hv : (key, v) ∈ fields)
    (hgroup : FieldGroup.ofKey? key (admittedAll bindings children) = some group)
    (h : ObjectIn bindings group.first.head.output group.children v items members)
    : ObjectIn bindings (.object name) children (.object fields) items members

theorem ObjectIn.container {bindings members : Json.Members} {type : OutputType}
    {children items : List SelectionItem} {v : Json}
    (h : ObjectIn bindings type children v items members)
    : (∃ fields, v = .object fields) ∨ ∃ elements, v = .array elements := by
  induction h with
  | here => exact .inl ⟨_, rfl⟩
  | nonNull _ ih => exact ih
  | element _ _ _ => exact .inr ⟨_, rfl⟩
  | member _ _ _ _ => exact .inl ⟨_, rfl⟩

theorem ObjectIn.ne_null {bindings members : Json.Members} {type : OutputType}
    {children items : List SelectionItem} {v : Json}
    (h : ObjectIn bindings type children v items members)
    : v ≠ .null := by
  obtain ⟨fields, rfl⟩ | ⟨elements, rfl⟩ := h.container <;> exact Json.noConfusion

namespace Task

/-- An object with some members comes from fields of a plan that were selected on some parent. -/
structure MadeOf (setting : Setting) (heads : List FieldPlan) (items : List SelectionItem)
    (members : Json.Members) : Prop where
  heads : headsAll items ⊆ heads
  made : ∃ levels type parent path, depthAll items ≤ levels
    ∧ (ofObject setting levels type items parent path).value = .ok (.object members)

section Made

variable {setting : Setting} {heads : List FieldPlan} {items : List SelectionItem}
  {members : Json.Members} {object : ObjectTasks} {children : List SelectionItem}
  (hobject : ∀ name v path w, (object name children v path).value = .ok w →
    ObjectIn setting.bindings (.object name) children w items members →
    MadeOf setting heads items members)

include hobject

theorem madeOf_complete (type : OutputType) (site : Site) (v : Json) {w : Json}
    (h : (complete object children type site v).value = .ok w)
    (hin : ObjectIn setting.bindings type children w items members)
    : MadeOf setting heads items members := by
  induction type generalizing site v w with
  | scalar s => cases hin
  | object name =>
    unfold complete at h
    split at h
    . cases h
      exact absurd rfl hin.ne_null
    . exact hobject name v site.path w h hin
  | list inner ih =>
    unfold complete at h
    split at h
    . cases h
      exact absurd rfl hin.ne_null
    . rw [value_join] at h
      obtain ⟨vs, rfl, hvs⟩ := assembled_eq_ok h
      cases hin with
      | element hv hin =>
        obtain ⟨task, htask, hvalue⟩ := exists_task_of_mem hvs hv
        obtain ⟨i, hi, rfl⟩ := List.mem_mapIdx.mp htask
        rw [value] at hvalue
        obtain ⟨rfl, _⟩ | ⟨_, hvalue⟩ := caught_eq_ok hvalue
        . exact absurd rfl hin.ne_null
        . exact ih _ _ hvalue hin
    . cases h
  | nonNull inner ih =>
    cases hin with
    | nonNull hin => exact ih site v h hin

theorem madeOf_resolve {group : FieldGroup} (hgroup : group.children = children)
    (parentType : String) (parent : Json) (site : Site) {w : Json}
    (h : (resolve setting object parentType parent group site).value = .ok w)
    (hin : ObjectIn setting.bindings group.first.head.output children w items members)
    : MadeOf setting heads items members := by
  unfold resolve at h
  rw [hgroup] at h
  dsimp only at h
  split at h
  . cases h
    obtain ⟨_, heq⟩ | ⟨_, heq⟩ := hin.container <;> cases heq
  . split at h
    . cases h
    . exact madeOf_complete hobject _ _ _ h hin
  . split at h
    . cases h
    . rw [value] at h
      split at h
      . exact madeOf_complete hobject _ _ _ h hin
      . cases h
      . cases h
        exact absurd rfl hin.ne_null

end Made

theorem madeOf_ofObject {setting : Setting} {heads : List FieldPlan} {levels : Nat}
    {items inner : List SelectionItem} (hdepth : depthAll items ≤ levels)
    (hheads : headsAll items ⊆ heads) {type : String} {parent : Json} {path : Path} {w : Json}
    (h : (ofObject setting levels type items parent path).value = .ok w) {members : Json.Members}
    (hin : ObjectIn setting.bindings (.object type) items w inner members)
    : MadeOf setting heads inner members := by
  -- The selections below a field are nested less deep, so that one level less is enough for them.
  induction levels using Nat.strongRecOn generalizing type items parent path w with
  | ind levels ih =>
    cases hin with
    | here => exact ⟨hheads, levels, type, parent, path, hdepth, h⟩
    | member hv hgroup hin =>
      have hvalue := value_of_mem hdepth h hgroup hv
      have hlt := FieldGroup.depthAll_children_lt hgroup
      unfold ofGroup at hvalue
      rw [value] at hvalue
      obtain ⟨rfl, _⟩ | ⟨_, hvalue⟩ := caught_eq_ok hvalue
      . exact absurd rfl hin.ne_null
      . refine madeOf_resolve ?_ rfl _ _ _ hvalue hin
        intro name v path w hobject hin
        exact ih (levels - 1) (by omega) (by omega)
          (List.Subset.trans (FieldGroup.headsAll_children_subset hgroup) hheads) hobject hin

end Task

namespace Plan

theorem madeOf_answer {plan : Plan} (hfree : plan.PanicFree) (bindings : Json.Members)
    (context root : Json)
    : ∃ response, (plan.answer bindings context root).outcome = .ok response
        ∧ ∀ data, response.data = some data →
          ∃ coerced, VariableSpec.coerceAll plan.specs bindings = .ok coerced
            ∧ ∀ items members,
              ObjectIn coerced (.object plan.rootType) plan.selection data items members →
              Task.MadeOf ⟨coerced, context⟩ plan.heads items members := by
  unfold answer
  cases VariableSpec.coerceAll plan.specs bindings with
  | error faults =>
    refine ⟨_, rfl, ?_⟩
    intro data hdata
    cases hdata
  | ok coerced =>
    obtain ⟨journal, hexecute, _⟩ := execute_eq hfree ⟨coerced, context⟩ root
    dsimp only
    rw [hexecute]
    cases hvalue : (Task.ofPlan plan ⟨coerced, context⟩ root).value with
    | error failure =>
      refine ⟨_, rfl, ?_⟩
      intro data hdata
      cases hdata
      exact ⟨coerced, rfl, fun items members hin => absurd rfl hin.ne_null⟩
    | ok data =>
      refine ⟨_, rfl, ?_⟩
      intro w hw
      cases hw
      refine ⟨coerced, rfl, fun items members hin => ?_⟩
      have hin : ObjectIn (Setting.mk coerced context).bindings (.object plan.rootType)
          plan.selection data items members := hin
      rw [Task.value_ofPlan, ← Task.value_join] at hvalue
      exact Task.madeOf_ofObject (Nat.le_refl _) (List.Subset.refl _) hvalue hin

end Plan

end GraphGateway

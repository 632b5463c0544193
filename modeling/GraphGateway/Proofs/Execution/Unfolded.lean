import GraphGateway.Execution.Run
import GraphGateway.Proofs.Execution.Progress
import GraphGateway.Proofs.Plan.Heads

/-!
This module contains what the tasks of a plan have in common with its resolvers, and what a plan
without panics comes to, however its resolvers make it wait.
-/

namespace GraphGateway

open SelectionItem (headsAll admittedAll)

def FieldPlan.PanicFree (head : FieldPlan) : Prop :=
  ∀ resolver, head.resolution = .resolver resolver → ∀ call, (resolver call).PanicFree

def Plan.PanicFree (plan : Plan) : Prop :=
  ∀ head ∈ plan.heads, head.PanicFree

namespace Task

theorem complete_congr {object other : ObjectTasks} {children others : List SelectionItem}
    (h : ∀ type v path, other type others v path = object type children v path)
    (type : OutputType) (site : Site) (v : Json)
    : complete other others type site v = complete object children type site v := by
  induction type generalizing site v with
  | scalar s => rfl
  | object name =>
    unfold complete
    rw [h]
  | list inner ih =>
    unfold complete
    simp only [ih]
  | nonNull inner ih => exact ih site v

theorem panicFree_complete {object : ObjectTasks} {children : List SelectionItem}
    (h : ∀ type v path, (object type children v path).PanicFree)
    (type : OutputType) (site : Site) (v : Json)
    : (complete object children type site v).PanicFree := by
  induction type generalizing site v with
  | scalar s =>
    unfold complete
    split
    . trivial
    . split <;> trivial
  | object name =>
    unfold complete
    split
    . trivial
    . exact h name v site.path
  | list inner ih =>
    unfold complete
    split
    . trivial
    . next items =>
      apply (panicFreeAll_iff _).mpr
      intro task hmem
      obtain ⟨i, hi, rfl⟩ := List.mem_mapIdx.mp hmem
      exact ih (site.element i) items[i]
    . trivial
  | nonNull inner ih => exact ih site v

theorem serialize_of_complete {object : ObjectTasks} {children : List SelectionItem} {s : Scalar}
    {site : Site} {v w : Json} (hnull : w ≠ .null)
    (h : (complete object children (.scalar s) site v).value = .ok w)
    : s.serialize v = .ok w := by
  unfold complete at h
  split at h
  . cases h
    contradiction
  . split at h
    . next hserialize =>
      cases h
      exact hserialize
    . cases h

theorem panicFree_resolve {setting : Setting} {object : ObjectTasks} {group : FieldGroup}
    (hobject : ∀ type v path, (object type group.children v path).PanicFree)
    (hhead : group.first.head.PanicFree) (type : String) (parent : Json) (site : Site)
    : (resolve setting object type parent group site).PanicFree := by
  have hcomplete := panicFree_complete hobject group.first.head.output site
  unfold resolve
  dsimp
  cases hresolution : group.first.head.resolution with
  | typename => trivial
  | property =>
    cases ArgumentPlan.evaluateAll group.first.head.arguments setting.bindings with
    | error fault => trivial
    | ok arguments => exact hcomplete _
  | resolver resolver =>
    cases ArgumentPlan.evaluateAll group.first.head.arguments setting.bindings with
    | error fault => trivial
    | ok arguments =>
      refine ⟨hhead resolver hresolution _, ?_⟩
      split
      . exact hcomplete _
      . trivial
      . trivial

theorem panicFree_ofSelection (setting : Setting) (levels : Nat) (type : String)
    {items : List SelectionItem} (h : ∀ head ∈ headsAll items, head.PanicFree) (parent : Json)
    (path : Path)
    : PanicFreeAll ((ofSelection setting levels type items parent path).map Prod.snd) := by
  induction levels generalizing type items parent path with
  | zero => trivial
  | succ levels ih =>
    apply (panicFreeAll_iff _).mpr
    unfold ofSelection
    intro task hmem
    simp only [List.mem_map] at hmem
    obtain ⟨_, ⟨⟨key, group⟩, hgroup, rfl⟩, rfl⟩ := hmem
    have hgroup := FieldGroup.mem_ofFields_iff.mp hgroup
    refine panicFree_resolve ?_ (h _ (FieldGroup.first_mem_headsAll hgroup)) type parent _
    intro type v path
    apply ih
    exact FieldGroup.forall_headsAll_children hgroup h

theorem panicFree_ofPlan {plan : Plan} (h : plan.PanicFree) (setting : Setting) (root : Json)
    : (ofPlan plan setting root).PanicFree := by
  unfold ofPlan
  dsimp
  split <;> exact panicFree_ofSelection setting plan.depth plan.rootType h root []

end Task

namespace Plan

theorem execute_eq {plan : Plan} (h : plan.PanicFree) (setting : Setting) (root : Json)
    : ∃ journal, plan.execute setting root
        = .ofSettled (Task.ofPlan plan setting root).value journal
        ∧ journal.Perm (Task.ofPlan plan setting root).journal := by
  obtain ⟨journal, hdrive, hperm⟩ :=
    Task.drive_eq _ (Task.panicFree_ofPlan h setting root) .empty
  refine ⟨journal, ?_, ?_⟩
  . unfold execute
    rw [hdrive]
    rfl
  . rwa [Journal.empty_append] at hperm

theorem executeAtOnce_eq {plan : Plan} (h : plan.PanicFree) (setting : Setting) (root : Json)
    : plan.executeAtOnce setting root
        = .ofSettled (Task.ofPlan plan setting root).value
            (Task.ofPlan plan setting root).journal := by
  unfold executeAtOnce
  rw [Task.run_eq _ (Task.panicFree_ofPlan h setting root), Journal.empty_append]
  rfl

end Plan
end GraphGateway

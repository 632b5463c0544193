import GraphGateway.Proofs.Execution.Accounting
import GraphGateway.Proofs.Execution.InvocationSites

/-!
This module contains that no two resolvers are invoked for one position of a response: the calls of
a run all have their own paths.
-/

namespace GraphGateway

open SelectionItem (depthAll)

/--
Invocations at or below a path, or in some part of the positions there, of which no two share a
path.
-/
structure Distinct (Covered : Path → Prop) (invocations : List (Site × Call)) : Prop where
  covered : ∀ place ∈ invocations, Covered place.1.path
  nodup : (invocations.map fun place => place.1.path).Nodup

theorem Distinct.nil {Covered : Path → Prop} : Distinct Covered [] :=
  ⟨by simp, List.nodup_nil⟩

theorem Distinct.mono {Covered CoveredToo : Path → Prop} {invocations : List (Site × Call)}
    (h : Distinct Covered invocations) (hcovered : ∀ path, Covered path → CoveredToo path)
    : Distinct CoveredToo invocations :=
  ⟨fun place hplace => hcovered _ (h.covered place hplace), h.nodup⟩

theorem distinct_branches {path : Path} {branches : List (PathSegment × Task)}
    (hnodup : (branches.map Prod.fst).Nodup)
    (h : ∀ branch ∈ branches, Distinct (AtOrBelow (path ++ [branch.1])) branch.2.invocations)
    : Distinct (Below path) (Task.invocationsAll (branches.map Prod.snd)) := by
  rw [Task.invocationsAll_eq_flatMap, List.flatMap_map]
  constructor
  . intro place hplace
    obtain ⟨branch, hbranch, hplace⟩ := List.mem_flatMap.mp hplace
    exact below_of_extends ((h branch hbranch).covered place hplace)
  . rw [List.map_flatMap, List.nodup_flatMap]
    refine ⟨fun branch hbranch => (h branch hbranch).nodup, ?_⟩
    refine (List.pairwise_map.mp hnodup).imp_of_mem ?_
    intro first second hfirst hsecond hne
    apply List.disjoint_left.mpr
    intro p hp hp'
    obtain ⟨place, hplace, rfl⟩ := List.mem_map.mp hp
    obtain ⟨other, hother, heq⟩ := List.mem_map.mp hp'
    have hextends := (h second hsecond).covered other hother
    rw [heq] at hextends
    exact hne (segment_eq_of_extends ((h first hfirst).covered place hplace) hextends)

namespace Task

variable {object : ObjectTasks} {children : List SelectionItem}

theorem distinct_complete
    (h : ∀ name v path, Distinct (Below path) (object name children v path).invocations)
    (type : OutputType) (site : Site) (v : Json)
    : Distinct (Below site.path) (complete object children type site v).invocations := by
  induction type generalizing site v with
  | scalar s =>
    unfold complete
    split
    . exact .nil
    . split <;> exact .nil
  | object name =>
    unfold complete
    split
    . exact .nil
    . exact h name v site.path
  | list inner ih =>
    unfold complete
    split
    . exact .nil
    . next items =>
      rw [← map_snd_elements, invocations]
      apply distinct_branches
      . rw [map_fst_elements]
        exact List.nodup_range.map fun i j heq => by cases heq; rfl
      . rintro ⟨segment, task⟩ hbranch
        obtain ⟨i, item, _, rfl, rfl⟩ := mem_elements_iff.mp hbranch
        exact (ih (site.element i) item).mono fun _ hbelow => hbelow.1
    . exact .nil
  | nonNull inner ih => exact ih site v

variable {setting : Setting} {group : FieldGroup}

theorem distinct_resolve
    (h : ∀ name v path, Distinct (Below path) (object name group.children v path).invocations)
    (type : String) (parent : Json) (site : Site)
    : Distinct (AtOrBelow site.path)
        (resolve setting object type parent group site).invocations := by
  have hcomplete (v : Json) := distinct_complete h group.first.head.output site v
  unfold resolve
  dsimp only
  split
  . exact .nil
  . split
    . exact .nil
    . exact (hcomplete _).mono fun _ hbelow => hbelow.1
  . split
    . exact .nil
    . -- The field itself is at the path, and everything that comes of its value is below it.
      have hnext {next : Task} (hnext : Distinct (Below site.path) next.invocations) (call : Call)
          : Distinct (AtOrBelow site.path) ((site, call) :: next.invocations) := by
        constructor
        . rw [List.forall_mem_cons]
          exact ⟨List.prefix_refl _, fun place hplace => (hnext.covered place hplace).1⟩
        . rw [List.map_cons, List.nodup_cons]
          refine ⟨fun hmem => ?_, hnext.nodup⟩
          obtain ⟨place, hplace, heq⟩ := List.mem_map.mp hmem
          exact (hnext.covered place hplace).2 heq
      rw [invocations]
      apply hnext
      split
      . exact hcomplete _
      . exact .nil
      . exact .nil

theorem distinct_ofSelection (setting : Setting) {levels : Nat} {items : List SelectionItem}
    (hdepth : depthAll items ≤ levels) (type : String) (parent : Json) (path : Path)
    : Distinct (Below path)
        (invocationsAll ((ofSelection setting levels type items parent path).map Prod.snd)) := by
  induction levels using Nat.strongRecOn generalizing type items parent path with
  | ind levels ih =>
    rw [← map_snd_fields]
    apply distinct_branches
    . rw [map_fst_fields]
      exact (nodup_keys_ofSelection hdepth).map fun key other heq => by cases heq; rfl
    . rintro ⟨segment, task⟩ hbranch
      obtain ⟨⟨key, task⟩, hmem, heq⟩ := List.mem_map.mp hbranch
      cases heq
      obtain ⟨group, hgroup, rfl⟩ := (mem_ofSelection_iff setting hdepth _ _ _ _ _).mp hmem
      have hlt := FieldGroup.depthAll_children_lt hgroup
      have hobject (name : String) (v : Json) (path : Path)
          : Distinct (Below path)
              (ofObject setting (levels - 1) name group.children v path).invocations :=
        ih (levels - 1) (by omega) (by omega) name v path
      exact distinct_resolve hobject type parent
        ⟨group.first.head.coordinate, group.positions, path ++ [.key key]⟩

end Task

namespace Plan

theorem nodup_invocations (plan : Plan) (setting : Setting) (root : Json)
    : ((plan.execute setting root).journal.invocations.map fun place => place.1.path).Nodup := by
  have hdistinct := Task.distinct_ofSelection setting (Nat.le_refl plan.depth) plan.rootType root []
  have hplan
      : ((Task.ofPlan plan setting root).invocations.map fun place => place.1.path).Nodup := by
    unfold Task.ofPlan
    dsimp only
    split <;> exact hdistinct.nodup
  obtain ⟨shared, hperm, hsublist⟩ := plan.invocations_execute setting root
  exact (hperm.map _).nodup_iff.mp (hplan.sublist (hsublist.map _))

end Plan

end GraphGateway

import GraphGateway.Execution.Unfold
import GraphGateway.Proofs.Execution.Value
import GraphGateway.Proofs.Plan.Heads

/-!
This module contains what a container comes to in terms of its tasks, and which tasks the
container of a selection has.
-/

namespace GraphGateway

open SelectionItem (admittedAll depthAll)

namespace Task

theorem firstFailure_eq_ok {results : List Settled} {vs : List Json}
    (h : firstFailure results = .ok vs)
    : results = vs.map .ok := by
  induction results generalizing vs with
  | nil =>
    cases h
    rfl
  | cons result rest ih =>
    cases result with
    | error failure =>
      rw [firstFailure_error] at h
      cases h
    | ok v =>
      rw [firstFailure_ok] at h
      cases hrest : firstFailure rest with
      | error failure =>
        rw [hrest] at h
        cases h
      | ok others =>
        rw [hrest] at h
        cases h
        rw [ih hrest, List.map_cons]

theorem mem_of_firstFailure_eq_error {results : List Settled} {failure : Failure}
    (h : firstFailure results = .error failure)
    : .error failure ∈ results := by
  induction results with
  | nil => cases h
  | cons result rest ih =>
    cases result with
    | error first =>
      rw [firstFailure_error] at h
      cases h
      apply List.mem_cons_self
    | ok v =>
      rw [firstFailure_ok] at h
      cases hrest : firstFailure rest with
      | error other =>
        rw [hrest] at h
        cases h
        exact List.mem_cons_of_mem _ (ih hrest)
      | ok others =>
        rw [hrest] at h
        cases h

def assembled (container : Container) (tasks : List Task) : Settled :=
  (firstFailure (values tasks)).map container.assemble

theorem value_join (container : Container) (tasks : List Task)
    : (join container tasks).value = assembled container tasks := by
  rw [value, assembled]

theorem value_series (container : Container) (tasks : List Task)
    : (series container [] tasks).value = assembled container tasks := by
  rw [value, seriesValue, assembled]
  rfl

theorem assembled_eq_ok {container : Container} {tasks : List Task} {w : Json}
    (h : assembled container tasks = .ok w)
    : ∃ vs, w = container.assemble vs ∧ tasks.map value = vs.map .ok := by
  unfold assembled at h
  cases hvalues : firstFailure (values tasks) with
  | error failure =>
    rw [hvalues] at h
    cases h
  | ok vs =>
    rw [hvalues] at h
    cases h
    refine ⟨vs, rfl, ?_⟩
    rw [← values_eq_map, firstFailure_eq_ok hvalues]

theorem value_join_singleton {key : String} {task : Task} {w : Json}
    (h : (join (.object [key]) [task]).value = .ok w)
    : ∃ v, w = .object [(key, v)] ∧ task.value = .ok v := by
  rw [value_join] at h
  obtain ⟨vs, rfl, hvs⟩ := assembled_eq_ok h
  obtain ⟨v, rfl⟩ := List.length_eq_one_iff.mp (by simpa using (congrArg List.length hvs).symm)
  exact ⟨v, rfl, by simpa using hvs⟩

theorem assembled_ne_null {container : Container} {tasks : List Task}
    : assembled container tasks ≠ .ok .null := by
  intro h
  obtain ⟨vs, hvs, _⟩ := assembled_eq_ok h
  cases container <;> cases hvs

theorem firstFailure_of_assembled {container : Container} {tasks : List Task} {failure : Failure}
    (h : assembled container tasks = .error failure)
    : firstFailure (values tasks) = .error failure := by
  unfold assembled at h
  cases hvalues : firstFailure (values tasks) with
  | error other =>
    rw [hvalues] at h
    cases h
    rfl
  | ok vs =>
    rw [hvalues] at h
    cases h

theorem exists_task_of_firstFailure {tasks : List Task} {failure : Failure}
    (h : firstFailure (values tasks) = .error failure)
    : ∃ task ∈ tasks, task.value = .error failure := by
  have hmem := mem_of_firstFailure_eq_error h
  rw [values_eq_map] at hmem
  exact List.mem_map.mp hmem

theorem exists_task_of_mem {tasks : List Task} {vs : List Json}
    (h : tasks.map value = vs.map .ok) {v : Json} (hv : v ∈ vs)
    : ∃ task ∈ tasks, task.value = .ok v := by
  have hmem : (.ok v : Settled) ∈ vs.map .ok := List.mem_map_of_mem hv
  rw [← h] at hmem
  exact List.mem_map.mp hmem

theorem mem_zip_iff {α : Type} {tasks : List (α × Task)} {vs : List Json}
    (h : (tasks.map Prod.snd).map value = vs.map .ok) (name : α) (v : Json)
    : (name, v) ∈ (tasks.map Prod.fst).zip vs
        ↔ ∃ task, (name, task) ∈ tasks ∧ task.value = .ok v := by
  induction tasks generalizing vs with
  | nil => simp
  | cons entry rest ih =>
    obtain ⟨first, task⟩ := entry
    cases vs with
    | nil => simp at h
    | cons w others =>
      simp only [List.map_cons, List.cons.injEq] at h
      simp only [List.map_cons, List.zip_cons_cons, List.mem_cons, Prod.mk.injEq, ih h.2]
      constructor
      . rintro (⟨rfl, rfl⟩ | ⟨other, hother, hvalue⟩)
        . exact ⟨task, .inl ⟨rfl, rfl⟩, h.1⟩
        . exact ⟨other, .inr hother, hvalue⟩
      . rintro ⟨other, ⟨rfl, rfl⟩ | hother, hvalue⟩
        . rw [h.1] at hvalue
          cases hvalue
          exact .inl ⟨rfl, rfl⟩
        . exact .inr ⟨other, hother, hvalue⟩

theorem value_ofPlan (plan : Plan) (setting : Setting) (root : Json)
    : (ofPlan plan setting root).value
        = assembled
            (.object (ofSelection setting plan.depth plan.rootType plan.selection root []).keys)
            ((ofSelection setting plan.depth plan.rootType plan.selection root []).map
              Prod.snd) := by
  unfold ofPlan
  dsimp only
  split
  . apply value_series
  . apply value_join

section Fields

variable (setting : Setting)

def ofObject (levels : Nat) : ObjectTasks := fun type items parent path =>
  let tasks := ofSelection setting levels type items parent path
  join (.object tasks.keys) (tasks.map Prod.snd)

variable {levels : Nat} {items : List SelectionItem} (h : depthAll items ≤ levels)
  (type : String) (parent : Json) (path : Path)

include h

theorem ofSelection_eq
    : ofSelection setting levels type items parent path
        = (FieldGroup.ofFields (admittedAll setting.bindings items)).map fun (key, group) =>
            (key, ofGroup setting (ofObject setting (levels - 1)) type parent path key group) := by
  cases levels with
  | zero =>
    -- Without any levels left the selection has no fields at all.
    have hnil : admittedAll setting.bindings items = [] := by
      apply List.eq_nil_iff_forall_not_mem.mpr
      intro field hfield
      have := (SelectionItem.within_of_mem_admittedAll hfield).depth
      omega
    rw [hnil]
    rfl
  | succ levels => rfl

theorem keys_ofSelection
    : (ofSelection setting levels type items parent path).keys
        = ((admittedAll setting.bindings items).map (·.head.key)).eraseDups := by
  rw [ofSelection_eq setting h, ← FieldGroup.keys_ofFields]
  unfold Ordered.keys
  rw [List.map_map]
  rfl

theorem mem_ofSelection_iff (key : String) (task : Task)
    : (key, task) ∈ ofSelection setting levels type items parent path
        ↔ ∃ group, FieldGroup.ofKey? key (admittedAll setting.bindings items) = some group
            ∧ task = ofGroup setting (ofObject setting (levels - 1)) type parent path key
                group := by
  rw [ofSelection_eq setting h, List.mem_map]
  constructor
  . rintro ⟨⟨other, group⟩, hgroup, heq⟩
    cases heq
    exact ⟨group, FieldGroup.mem_ofFields_iff.mp hgroup, rfl⟩
  . rintro ⟨group, hgroup, rfl⟩
    exact ⟨(key, group), FieldGroup.mem_ofFields_iff.mpr hgroup, rfl⟩

end Fields

section Members

variable {setting : Setting} {levels : Nat} {items : List SelectionItem}
  (hdepth : depthAll items ≤ levels) {type : String} {parent : Json} {path : Path}
  {members : Json.Members}
  (h : (ofObject setting levels type items parent path).value = .ok (.object members))
  {key : String} {group : FieldGroup}
  (hgroup : FieldGroup.ofKey? key (admittedAll setting.bindings items) = some group)

include hdepth h hgroup

theorem value_of_mem {v : Json} (hv : (key, v) ∈ members)
    : (ofGroup setting (ofObject setting (levels - 1)) type parent path key group).value
        = .ok v := by
  unfold ofObject at h
  rw [value_join] at h
  obtain ⟨vs, heq, hvs⟩ := assembled_eq_ok h
  cases heq
  obtain ⟨task, htask, hvalue⟩ := (mem_zip_iff hvs key v).mp hv
  obtain ⟨other, hother, rfl⟩ := (mem_ofSelection_iff setting hdepth _ _ _ _ _).mp htask
  rw [hgroup] at hother
  cases hother
  exact hvalue

theorem get?_of_group
    : ∃ v, members.get? key = some v
        ∧ (ofGroup setting (ofObject setting (levels - 1)) type parent path key group).value
          = .ok v := by
  have hkeys : members.keys = (ofSelection setting levels type items parent path).keys := by
    have hvalue := h
    unfold ofObject at hvalue
    rw [value_join] at hvalue
    obtain ⟨vs, heq, hvs⟩ := assembled_eq_ok hvalue
    have hlength := congrArg List.length hvs
    simp only [List.length_map] at hlength
    cases heq
    unfold Ordered.keys
    rw [List.map_fst_zip]
    simp [hlength]
  have htask := (mem_ofSelection_iff setting hdepth type parent path key _).mpr ⟨group, hgroup, rfl⟩
  have hmem : key ∈ members.keys := hkeys ▸ List.mem_map_of_mem htask
  obtain ⟨v, hv⟩ := Option.isSome_iff_exists.mp ((Ordered.contains_iff_mem_keys _ _).mpr hmem)
  exact ⟨v, hv, value_of_mem hdepth h hgroup (Ordered.mem_of_get? hv)⟩

end Members

end Task
end GraphGateway

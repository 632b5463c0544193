import GraphGateway.Execution.Run
import GraphGateway.Proofs.Execution.Assembled
import GraphGateway.Proofs.Execution.Unfolded
import GraphGateway.Proofs.Library
import GraphGateway.Proofs.Plan.Compiled

/-!
This module contains the shape that a plan gives to the data of a response, and the proof that the
data of every run has it.
-/

namespace GraphGateway

open SelectionItem (admittedAll headsAll)

/-- The values that a scalar can have in a response. -/
def Scalar.HasShape : Scalar → Json → Prop
  | int, v => ∃ n, v = .int n ∧ -2147483648 ≤ n ∧ n ≤ 2147483647
  | float, v => ∃ n, v = .number n
  | string, v | id, v => ∃ s, v = .string s
  | boolean, v => ∃ b, v = .bool b

theorem Scalar.hasShape_ofRange {number : Number} {n : Option Int} {w : Json}
    (h : ofRange number n = .ok w)
    : int.HasShape w := by
  unfold ofRange at h
  split at h
  . next n =>
    split at h
    . next hrange =>
      cases h
      have hpow : Int.pow 2 31 = 2147483648 := rfl
      unfold inRange at hrange
      simp only [Bool.and_eq_true, decide_eq_true_eq, hpow] at hrange
      exact ⟨n, rfl, by omega⟩
    . cases h
  . cases h

theorem Scalar.hasShape_serialize {scalar : Scalar} {v w : Json} (h : scalar.serialize v = .ok w)
    : scalar.HasShape w := by
  unfold serialize at h
  split at h
  case h_1 b =>
    cases h
    refine ⟨_, rfl, ?_⟩
    cases b <;> decide
  case h_2 | h_3 => exact hasShape_ofRange h
  all_goals cases h
  all_goals exact ⟨_, rfl⟩

/--
The values that a position of a response may have: of its type and, in objects, with a member for
every response key of the admitted fields in the order in which the keys are first seen.
-/
inductive Conforms (bindings : Json.Members) : OutputType → List SelectionItem → Json → Prop where
  | null {type : OutputType} {children : List SelectionItem} (htype : type.isNonNull = false)
    : Conforms bindings type children .null
  | nonNull {inner : OutputType} {children : List SelectionItem} {v : Json} (hnull : v ≠ .null)
    (hinner : Conforms bindings inner children v)
    : Conforms bindings (.nonNull inner) children v
  | scalar {s : Scalar} {children : List SelectionItem} {v : Json} (hshape : s.HasShape v)
    : Conforms bindings (.scalar s) children v
  | list {inner : OutputType} {children : List SelectionItem} {items : List Json}
    (hitems : ∀ item ∈ items, Conforms bindings inner children item)
    : Conforms bindings (.list inner) children (.array items)
  | object {name : String} {children : List SelectionItem} {members : Json.Members}
    (hkeys : members.keys = ((admittedAll bindings children).map (·.head.key)).eraseDups)
    (hmembers : ∀ key v group, (key, v) ∈ members →
      FieldGroup.ofKey? key (admittedAll bindings children) = some group →
      Conforms bindings group.first.head.output group.children v)
    (htypename : ∀ key v group, (key, v) ∈ members →
      FieldGroup.ofKey? key (admittedAll bindings children) = some group →
      group.first.head.name = Compile.typenameField → v = .string name)
    : Conforms bindings (.object name) children (.object members)

/-- What a task comes to before a null is refused, if it must be. -/
def Settled.Conforms (bindings : Json.Members) (type : OutputType) (children : List SelectionItem)
    (result : Settled) : Prop :=
  ∀ w, result = .ok w → w = .null ∨ GraphGateway.Conforms bindings type children w

namespace Task

variable {bindings : Json.Members} {type : OutputType} {children : List SelectionItem}

theorem conforms_of_caught {site : Site} {result : Settled} {w : Json}
    (hresult : result.Conforms bindings type children)
    (h : caught site type.isNonNull result = .ok w)
    : Conforms bindings type children w := by
  unfold caught at h
  split at h
  . next v =>
    split at h
    . cases h
    . next hnull =>
      cases h
      rcases hresult w rfl with rfl | hconforms
      . apply Conforms.null
        simpa [Json.isNull] using hnull
      . exact hconforms
  . split at h
    . cases h
    . next htype =>
      cases h
      exact .null (Bool.eq_false_iff.mpr htype)

theorem conforms_complete {object : ObjectTasks}
    (hobject : ∀ name v path,
      (object name children v path).value.Conforms bindings (.object name) children)
    (type : OutputType) (site : Site) (v : Json)
    : (complete object children type site v).value.Conforms bindings type children := by
  induction type generalizing site v with
  | scalar s =>
    intro w h
    unfold complete at h
    split at h
    . cases h
      exact .inl rfl
    . split at h
      . next hserialize =>
        cases h
        exact .inr (.scalar (Scalar.hasShape_serialize hserialize))
      . cases h
  | object name =>
    intro w h
    unfold complete at h
    split at h
    . cases h
      exact .inl rfl
    . exact hobject name v site.path w h
  | list inner ih =>
    intro w h
    unfold complete at h
    split at h
    . cases h
      exact .inl rfl
    . next items =>
      rw [value_join] at h
      obtain ⟨vs, rfl, hvs⟩ := assembled_eq_ok h
      refine .inr (.list ?_)
      intro item hitem
      obtain ⟨task, htask, hvalue⟩ := exists_task_of_mem hvs hitem
      obtain ⟨i, hi, rfl⟩ := List.mem_mapIdx.mp htask
      rw [value] at hvalue
      exact conforms_of_caught (ih _ _) hvalue
    . cases h
  | nonNull inner ih =>
    intro w h
    -- A null that the type refuses is left to the position.
    rcases ih site v w h with hnull | hconforms
    . exact .inl hnull
    . by_cases hnull : w = .null
      . exact .inl hnull
      . exact .inr (.nonNull hnull hconforms)

theorem conforms_resolve {setting : Setting} {object : ObjectTasks} {group : FieldGroup}
    (hobject : ∀ name v path,
      (object name group.children v path).value.Conforms bindings (.object name) group.children)
    (hsound : Compile.TypenameSound group.first.head) (parentType : String) (parent : Json)
    (site : Site)
    : (resolve setting object parentType parent group site).value.Conforms bindings
        group.first.head.output group.children := by
  have hcomplete := conforms_complete hobject group.first.head.output site
  unfold resolve
  dsimp only
  split
  . next hresolution =>
    rw [hsound.output hresolution]
    intro w h
    cases h
    exact .inr (.nonNull Json.noConfusion (.scalar ⟨parentType, rfl⟩))
  . split
    . intro w h
      cases h
    . exact hcomplete _
  . split
    . intro w h
      cases h
    . rw [value]
      split
      . exact hcomplete _
      . intro w h
        cases h
      . intro w h
        cases h
        exact .inl rfl

theorem value_ofGroup_typename {setting : Setting} {object : ObjectTasks} {group : FieldGroup}
    (hsound : Compile.TypenameSound group.first.head)
    (hname : group.first.head.name = Compile.typenameField) (parentType : String)
    (parent : Json) (path : Path) (key : String)
    : (ofGroup setting object parentType parent path key group).value
        = .ok (.string parentType) := by
  unfold ofGroup resolve
  dsimp only
  rw [hsound.resolution hname, value]
  simp [value, caught, Json.isNull]

theorem conforms_ofSelection (setting : Setting) {levels : Nat} {items : List SelectionItem}
    (hdepth : SelectionItem.depthAll items ≤ levels)
    (hsound : ∀ head ∈ headsAll items, Compile.TypenameSound head) (type : String)
    (parent : Json) (path : Path)
    : (ofObject setting levels type items parent path).value.Conforms setting.bindings
        (.object type) items := by
  -- The selections below a field are nested less deep, so that one level less is enough for them.
  induction levels using Nat.strongRecOn generalizing type items parent path with
  | ind levels ih =>
    intro w h
    have hvalue := h
    unfold ofObject at h
    rw [value_join] at h
    obtain ⟨vs, rfl, hvs⟩ := assembled_eq_ok h
    have hlength := congrArg List.length hvs
    simp only [List.length_map] at hlength
    have hmember : ∀ key v group,
        (key, v) ∈ (ofSelection setting levels type items parent path).keys.zip vs →
        FieldGroup.ofKey? key (admittedAll setting.bindings items) = some group →
        (ofGroup setting (ofObject setting (levels - 1)) type parent path key group).value
          = .ok v :=
      fun key v group hmem hgroup => value_of_mem hdepth hvalue hgroup hmem
    refine .inr (.object ?_ ?_ ?_)
    . rw [← keys_ofSelection setting hdepth type parent path]
      unfold Ordered.keys
      rw [List.map_fst_zip]
      simp [hlength]
    . intro key v group hmem hgroup
      refine conforms_of_caught ?_ (hmember key v group hmem hgroup)
      apply conforms_resolve
      . intro name v path
        have hlt := FieldGroup.depthAll_children_lt hgroup
        apply ih (levels - 1) (by omega) (by omega)
        exact FieldGroup.forall_headsAll_children hgroup hsound
      . exact hsound _ (FieldGroup.first_mem_headsAll hgroup)
    . intro key v group hmem hgroup hname
      have hvalue := hmember key v group hmem hgroup
      rw [value_ofGroup_typename (hsound _ (FieldGroup.first_mem_headsAll hgroup)) hname] at hvalue
      cases hvalue
      rfl

end Task

namespace Plan

theorem execute_conforms {plan : Plan} (hfree : plan.PanicFree)
    (hsound : ∀ head ∈ plan.heads, Compile.TypenameSound head) (setting : Setting) (root : Json)
    : ∃ response data, (plan.execute setting root).outcome = .ok response
        ∧ response.data = some data
        ∧ (data = .null ∧ response.errors ≠ []
          ∨ data ≠ .null
            ∧ Conforms setting.bindings (.object plan.rootType) plan.selection data) := by
  obtain ⟨journal, hexecute, _⟩ := execute_eq hfree setting root
  rw [hexecute]
  cases hvalue : (Task.ofPlan plan setting root).value with
  | error failure =>
    refine ⟨_, .null, rfl, rfl, .inl ⟨rfl, ?_⟩⟩
    simp
  | ok data =>
    rw [Task.value_ofPlan] at hvalue
    have hnull : data ≠ .null := by
      rintro rfl
      exact Task.assembled_ne_null hvalue
    rw [← Task.value_join] at hvalue
    have hconforms := Task.conforms_ofSelection setting (Nat.le_refl _) hsound plan.rootType root []
      data hvalue
    exact ⟨_, data, rfl, rfl, .inr ⟨hnull, hconforms.resolve_left hnull⟩⟩

theorem answer_conforms {schema : Schema} {document : Document} {plan : Plan}
    (hcompile : compile schema document = .ok plan) {bindings coerced : Json.Members}
    (hcoerce : VariableSpec.coerceAll plan.specs bindings = .ok coerced)
    (hfree : plan.PanicFree) (context root : Json)
    : ∃ response data, (plan.answer bindings context root).outcome = .ok response
        ∧ response.data = some data
        ∧ (data = .null ∧ response.errors ≠ []
          ∨ data ≠ .null
            ∧ Conforms coerced (.object plan.rootType) plan.selection data) := by
  unfold answer
  rw [hcoerce]
  exact execute_conforms hfree (typenameSound_of_compile hcompile) ⟨coerced, context⟩ root

end Plan

namespace Library

theorem answer_conforms_names
    : Plan.compile (schema authors .sync) namesDocument = .ok (namesPlan authors .sync)
        ∧ (namesPlan authors .sync).PanicFree
        ∧ ∃ response data,
            ((namesPlan authors .sync).answer [] .null .null).outcome = .ok response
              ∧ response.data = some data
              ∧ (data = .null ∧ response.errors ≠ []
                ∨ data ≠ .null
                  ∧ Conforms [] (.object "Query") (namesPlan authors .sync).selection data) :=
  ⟨compile_namesDocument authors .sync, panicFree_namesPlan authors .sync,
    Plan.answer_conforms (compile_namesDocument authors .sync) rfl
      (panicFree_namesPlan authors .sync) .null .null⟩

end Library
end GraphGateway

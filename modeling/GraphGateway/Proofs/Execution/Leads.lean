import GraphGateway.Execution.Run
import GraphGateway.Proofs.Plan.Declarations
import GraphGateway.Proofs.Plan.Merging

/-!
This module contains the execution of a plan in which other fields than the first ones lead their
groups, and the proof that it makes no difference if no argument has a negative zero.
-/

namespace GraphGateway

open SelectionItem (allFields admittedAll)

namespace FieldGroup

def ledBy (group : FieldGroup) (leader : SelectedField) : FieldGroup :=
  ⟨⟨{ leader.head with position := group.first.head.position }, group.first.children⟩,
    group.others⟩

/-- All fields are the same field with the same arguments. -/
def Single (group : FieldGroup) : Prop :=
  ∀ field ∈ group.fields, ∀ other ∈ group.fields,
    field.head.Alike other.head ∧ field.head.arguments = other.head.arguments

theorem Single.first_head_ledBy {group : FieldGroup} (h : group.Single) {leader : SelectedField}
    (hleader : leader ∈ group.fields)
    : (group.ledBy leader).first.head = { group.first.head with
        key := leader.head.key, conditions := leader.head.conditions } := by
  obtain ⟨halike, harguments⟩ := h leader hleader group.first group.first_mem_fields
  dsimp only [ledBy]
  rw [← halike.parentType, ← halike.name, ← halike.resolution, ← halike.output, ← harguments]

end FieldGroup

namespace Task

def ofSelectionLed (lead : FieldGroup → SelectedField) (setting : Setting) (levels : Nat)
    (type : String) (items : List SelectionItem) (parent : Json) (path : Path)
    : Ordered Task :=
  match levels with
  | 0 => []
  | levels + 1 =>
    let object : ObjectTasks := fun type items parent path =>
      let tasks := ofSelectionLed lead setting levels type items parent path
      join (.object tasks.keys) (tasks.map Prod.snd)
    (FieldGroup.ofFields (admittedAll setting.bindings items)).map fun (key, group) =>
      (key, ofGroup setting object type parent path key (group.ledBy (lead group)))

def ofPlanLed (lead : FieldGroup → SelectedField) (plan : Plan) (setting : Setting) (root : Json)
    : Task :=
  let tasks := ofSelectionLed lead setting plan.depth plan.rootType plan.selection root []
  let container := .object tasks.keys
  if plan.isSerial then series container [] (tasks.map Prod.snd)
  else join container (tasks.map Prod.snd)

theorem ofGroup_ledBy {object other : ObjectTasks} {group : FieldGroup}
    (hobject : ∀ type v path, other type group.children v path = object type group.children v path)
    (hsingle : group.Single) {leader : SelectedField} (hleader : leader ∈ group.fields)
    (setting : Setting) (type : String) (parent : Json) (path : Path) (key : String)
    : ofGroup setting other type parent path key (group.ledBy leader)
        = ofGroup setting object type parent path key group := by
  have hchildren : (group.ledBy leader).children = group.children := rfl
  have hpositions : (group.ledBy leader).positions = group.positions := rfl
  unfold ofGroup resolve
  simp only [hsingle.first_head_ledBy hleader, hchildren, hpositions, complete_congr hobject]
  rfl

section Lead

variable {lead : FieldGroup → SelectedField} (hlead : ∀ group, lead group ∈ group.fields)
  {setting : Setting}

include hlead

theorem ofSelectionLed_eq (levels : Nat) {items : List SelectionItem}
    (hsingle : ∀ group, FieldGroup.Merged (admittedAll setting.bindings) items group → group.Single)
    (type : String) (parent : Json) (path : Path)
    : ofSelectionLed lead setting levels type items parent path
        = ofSelection setting levels type items parent path := by
  induction levels generalizing items type parent path with
  | zero => rfl
  | succ levels ih =>
    unfold ofSelectionLed ofSelection
    apply List.map_congr_left
    rintro ⟨key, group⟩ hmem
    have hkey := FieldGroup.mem_ofFields_iff.mp hmem
    refine congrArg (Prod.mk key) (ofGroup_ledBy ?_ (hsingle group (.here hkey)) (hlead group) ..)
    intro type v path
    dsimp only
    rw [ih fun inner hinner => hsingle inner (.inside hkey hinner)]

theorem ofPlanLed_eq {plan : Plan}
    (hsingle : ∀ group, FieldGroup.Merged (admittedAll setting.bindings) plan.selection group →
      group.Single)
    (root : Json)
    : ofPlanLed lead plan setting root = ofPlan plan setting root := by
  unfold ofPlanLed ofPlan
  rw [ofSelectionLed_eq hlead plan.depth hsingle]

end Lead

end Task

namespace Compile

theorem exists_errors_compileOperation (schema : Schema) (document : Document)
    (operation : Operation) (root : ObjectType)
    : ∃ earlier, (compileOperation schema document operation root).errors
        = earlier ++ Conflict.ofSelection
            (compileOperation schema document operation root).value.depth
            (compileOperation schema document operation root).value.selection :=
  ⟨_, errors_compileOperation schema document operation root⟩

theorem placed_compileOperation (schema : Schema) (document : Document) (operation : Operation)
    (root : ObjectType)
    : ∀ item ∈ (compileOperation schema document operation root).value.selection,
        item.Placed schema root := by
  rw [compileOperation_selection]
  exact placed_compileSet _ _ _ _ _

end Compile

namespace Plan

open Compile

def executeLed (lead : FieldGroup → SelectedField) (plan : Plan) (setting : Setting) (root : Json)
    : Execution :=
  .ofResult ((Task.ofPlanLed lead plan setting root).drive .empty)

def WithoutNegativeZeros (plan : Plan) : Prop :=
  ∀ head ∈ plan.heads, head.arguments.map ArgumentPlan.unsigned = head.arguments

theorem WithoutNegativeZeros.single {plan : Plan} (h : plan.WithoutNegativeZeros)
    {bindings : Json.Members} {group : FieldGroup}
    (hmerged : FieldGroup.Merged (admittedAll bindings) plan.selection group)
    (huniform : group.Uniform)
    : group.Single := by
  intro field hfield other hother
  have halike := huniform field hfield other hother
  have hsigns := halike.arguments
  rw [h _ (hmerged.head_mem_headsAll field hfield), h _ (hmerged.head_mem_headsAll other hother)]
    at hsigns
  exact ⟨halike, hsigns⟩

theorem ofSelection_compileOperation_eq_nil_iff (schema : Schema) (document : Document)
    (operation : Operation) (root : ObjectType)
    : Conflict.ofSelection (compileOperation schema document operation root).value.depth
          (compileOperation schema document operation root).value.selection = []
        ↔ ∀ group, FieldGroup.Merged allFields
            (compileOperation schema document operation root).value.selection group →
              group.Coincides :=
  FieldGroup.ofSelection_eq_nil_iff (Nat.le_refl _) (placed_compileOperation _ _ _ _)

theorem uniform_of_compile {schema : Schema} {document : Document} {plan : Plan}
    (hcompile : compile schema document = .ok plan) {bindings : Json.Members}
    {group : FieldGroup} (h : FieldGroup.Merged (admittedAll bindings) plan.selection group)
    : group.Uniform := by
  obtain ⟨operation, root, _, _, herrors, rfl⟩ := compile_eq_ok hcompile
  obtain ⟨earlier, hearlier⟩ := exists_errors_compileOperation schema document operation root
  rw [herrors] at hearlier
  have hnone := (List.nil_eq_append_iff.mp hearlier).2
  exact h.uniform (placed_compileOperation _ _ _ _)
    ((ofSelection_compileOperation_eq_nil_iff _ _ _ _).mp hnone)

/--
A selection is without conflicts exactly if the fields that are merged have one name and equal
arguments, at every level. The fields that are merged in a run are then one field, and only where
arguments have negative zeros can it make a difference which of them leads.
-/
theorem merges_soundly (schema : Schema) (document : Document)
    : (∀ operation root, ∃ earlier,
        let result := compileOperation schema document operation root
        let conflicts := Conflict.ofSelection result.value.depth result.value.selection
        result.errors = earlier ++ conflicts
          ∧ (conflicts = [] ↔ ∀ group,
              FieldGroup.Merged allFields result.value.selection group → group.Coincides))
      ∧ ∀ plan, compile schema document = .ok plan → ∀ setting : Setting,
          (∀ group, FieldGroup.Merged (admittedAll setting.bindings) plan.selection group →
            group.Uniform)
          ∧ (plan.WithoutNegativeZeros →
              (∀ group, FieldGroup.Merged (admittedAll setting.bindings) plan.selection group →
                group.Single)
              ∧ ∀ lead : FieldGroup → SelectedField, (∀ group, lead group ∈ group.fields) →
                  ∀ root, plan.executeLed lead setting root = plan.execute setting root) := by
  constructor
  . intro operation root
    obtain ⟨earlier, hearlier⟩ := exists_errors_compileOperation schema document operation root
    exact ⟨earlier, hearlier, ofSelection_compileOperation_eq_nil_iff ..⟩
  . intro plan hcompile setting
    have huniform (group : FieldGroup)
        (hmerged : FieldGroup.Merged (admittedAll setting.bindings) plan.selection group)
        : group.Uniform :=
      uniform_of_compile hcompile hmerged
    refine ⟨huniform, ?_⟩
    intro hzeros
    have hsingle (group : FieldGroup)
        (hmerged : FieldGroup.Merged (admittedAll setting.bindings) plan.selection group)
        : group.Single :=
      hzeros.single hmerged (huniform group hmerged)
    refine ⟨hsingle, ?_⟩
    intro lead hlead root
    unfold executeLed execute
    rw [Task.ofPlanLed_eq hlead hsingle]

end Plan

namespace Signs

def queryType : ObjectType :=
  ⟨"Query",
    [ ("n",
        ⟨.named "Float", [("x", ⟨.named "Float", none⟩)],
          some fun call => .ofValue ((call.arguments.get? "x").getD .null)⟩)
    ]⟩

def schema : Schema :=
  ⟨[queryType], queryType, none⟩

theorem build_blueprint : Blueprint.build ⟨"Query", none, [queryType]⟩ = .ok schema := by
  rfl

def document (first second : Double) : Document :=
  ⟨[.operation ⟨.query, none, [], [],
    ⟨[ .field ⟨none, "n", [("x", .float first)], [], ⟨1, 3⟩⟩ none,
       .field ⟨none, "n", [("x", .float second)], [], ⟨1, 13⟩⟩ none],
      ⟨1, 1⟩⟩, ⟨1, 1⟩⟩]⟩

def field (x : Double) (position : Position) : FieldPlan :=
  ⟨"n", "Query", "n", .resolver fun call => .ofValue ((call.arguments.get? "x").getD .null),
    [⟨"x", .named "Float", some (.const (.number (.double x))), none⟩], [], .scalar .float,
    position⟩

def plan (first second : Double) : Plan :=
  ⟨.query, none, "Query", [],
    [.field (field first ⟨1, 3⟩) none, .field (field second ⟨1, 13⟩) none]⟩

def half : Double :=
  ⟨0x3FE0000000000000⟩

def negativeZero : Double :=
  ⟨0x8000000000000000⟩

theorem compile_halves : Plan.compile schema (document half half) = .ok (plan half half) := by
  rfl

theorem compile_zeros
    : Plan.compile schema (document .zero negativeZero) = .ok (plan .zero negativeZero) := by
  rfl

theorem withoutNegativeZeros_halves : (plan half half).WithoutNegativeZeros := by
  intro head hhead
  cases hhead with
  | head => rfl
  | tail _ hhead =>
    cases List.mem_singleton.mp hhead
    rfl

def second (group : FieldGroup) : SelectedField :=
  group.others.headD group.first

theorem second_mem_fields (group : FieldGroup) : second group ∈ group.fields := by
  unfold second FieldGroup.fields
  cases group.others <;> simp

theorem merges_soundly_halves
    : Plan.compile schema (document half half) = .ok (plan half half)
        ∧ (plan half half).WithoutNegativeZeros ∧ (∀ group, second group ∈ group.fields)
        ∧ ∀ setting root,
            (plan half half).executeLed second setting root
              = (plan half half).execute setting root := by
  refine ⟨compile_halves, withoutNegativeZeros_halves, second_mem_fields, ?_⟩
  intro setting root
  obtain ⟨_, hplan⟩ := Plan.merges_soundly schema (document half half)
  obtain ⟨_, hsingle⟩ := hplan _ compile_halves setting
  exact (hsingle withoutNegativeZeros_halves).2 second second_mem_fields root

/-- The zeros are equal arguments, but whatever field leads, its own zero is the value. -/
theorem not_merges_soundly
    : Blueprint.build ⟨"Query", none, [queryType]⟩ = .ok schema
        ∧ Plan.compile schema (document .zero negativeZero) = .ok (plan .zero negativeZero)
        ∧ (∀ group, second group ∈ group.fields)
        ∧ (∃ group, FieldGroup.Merged (admittedAll []) (plan .zero negativeZero).selection group
            ∧ ¬ group.Single)
        ∧ (plan .zero negativeZero).executeLed second ⟨[], .null⟩ .null
            ≠ (plan .zero negativeZero).execute ⟨[], .null⟩ .null := by
  refine ⟨build_blueprint, compile_zeros, second_mem_fields, ?_, ?_⟩
  . refine ⟨⟨⟨field .zero ⟨1, 3⟩, none⟩, [⟨field negativeZero ⟨1, 13⟩, none⟩]⟩,
      .here (by rfl : FieldGroup.ofKey? "n" _ = _), ?_⟩
    intro h
    have harguments := (h _ List.mem_cons_self _ (List.mem_cons_of_mem _ List.mem_cons_self)).2
    have : Double.zero = negativeZero := by simpa [field] using harguments
    exact absurd this (by decide)
  . intro h
    have hfirst : ((plan .zero negativeZero).execute ⟨[], .null⟩ .null).outcome
        = .ok ⟨some (.object [("n", .number (.double .zero))]), []⟩ := by
      cbv
    have hsecond : ((plan .zero negativeZero).executeLed second ⟨[], .null⟩ .null).outcome
        = .ok ⟨some (.object [("n", .number (.double negativeZero))]), []⟩ := by
      cbv
    rw [h, hfirst] at hsecond
    have : Double.zero = negativeZero := by simpa using hsecond
    exact absurd this (by decide)

end Signs

end GraphGateway

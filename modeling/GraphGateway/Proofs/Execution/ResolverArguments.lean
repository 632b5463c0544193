import GraphGateway.Proofs.Execution.Invocations
import GraphGateway.Proofs.Plan.Agreement
import GraphGateway.Proofs.Plan.Evaluation

/-!
This module contains what the resolver of a field may be handed, and the proof that no resolver
is handed anything else in a run: arguments are declared, have values of their types, and are
there if they must be.
-/

namespace GraphGateway

open SelectionItem (allFields)

/--
Arguments that the resolver of a field may be handed. If they are not strict, a null may stand where
it is forbidden, but only inside of a list.
-/
structure FieldDef.Hands (strict : Prop) (field : FieldDef) (arguments : Json.Members) : Prop where
  declared : ∀ name v, (name, v) ∈ arguments → ∃ argument, (name, argument) ∈ field.arguments
    ∧ argument.type.Accepts strict v ∧ (argument.type.isNonNull = true → v ≠ .null)
  present : ∀ name argument, (name, argument) ∈ field.arguments →
    argument.type.isNonNull = true → ∃ v, (name, v) ∈ arguments

def Call.Sound (schema : Schema) (strict : Prop) (call : Call) : Prop :=
  ∃ object field, schema.object? call.typeName = some object
    ∧ object.field? call.fieldName = some field ∧ field.Hands strict call.arguments

def Schema.DefaultsConform (schema : Schema) : Prop :=
  ∀ object ∈ schema.objects, ∀ field ∈ object.fields, ∀ argument ∈ field.2.arguments,
    ∀ v ∈ argument.2.default, argument.2.type.Accepts True v

/-- An argument whose guarded variables are not given as null for a request. -/
def Compile.Env.TypesFor (env : Env) (strict : Prop) (provided : Json.Members)
    (argument : ArgumentPlan)
    : Prop :=
  env.TypesArgument strict argument
    ∧ (strict → ∀ name ∈ argument.guarded, provided.get? name ≠ some .null)

namespace FieldPlan

open Compile

variable {env : Env} {strict : Prop} {provided bindings : Json.Members} {object : ObjectType}
  {field : FieldDef} {head : FieldPlan} {ConditionOk : Condition → Prop}

theorem Declared.mem_arguments {ArgumentOk : ArgumentPlan → Prop}
    (h : head.Declared ArgumentOk ConditionOk object field) {argument : ArgumentPlan}
    (hmem : argument ∈ head.arguments)
    : (argument.name, ⟨argument.type, argument.default⟩) ∈ field.arguments := by
  rw [← h.arguments]
  exact List.mem_map_of_mem hmem

theorem Declared.hands (h : head.Declared (env.TypesFor strict provided) ConditionOk object field)
    (hbinds : env.Binds strict provided bindings)
    (hdefaults : ∀ argument ∈ field.arguments, ∀ v ∈ argument.2.default,
      argument.2.type.Accepts strict v)
    {arguments : Json.Members}
    (hok : ArgumentPlan.evaluateAll head.arguments bindings = .ok arguments)
    : field.Hands strict arguments := by
  have hsound : ∀ argument ∈ head.arguments, ∀ v, argument.evaluate bindings = .ok v →
      argument.Sound strict v := by
    intro argument hargument v hv
    obtain ⟨htypes, hguarded⟩ := h.argumentOk argument hargument
    exact ArgumentPlan.sound_of_evaluate hbinds htypes hguarded
      (hdefaults _ (h.mem_arguments hargument)) hv
  constructor
  case declared =>
    intro name v hv
    obtain ⟨argument, hargument, rfl, heval⟩ := ArgumentPlan.exists_of_mem_evaluateAll hok hv
    have hargumentSound := hsound argument hargument _ heval
    refine ⟨_, h.mem_arguments hargument, hargumentSound.accepts v rfl, fun hnonNull => ?_⟩
    obtain ⟨_, heq, hne⟩ := hargumentSound.nonNull hnonNull
    cases heq
    exact hne
  case present =>
    intro name definition hdefinition hnonNull
    rw [← h.arguments] at hdefinition
    obtain ⟨argument, hargument, heq⟩ := List.mem_map.mp hdefinition
    cases heq
    obtain ⟨v, heval, hmem⟩ := ArgumentPlan.mem_evaluateAll_of_mem hok argument hargument
    obtain ⟨w, rfl, _⟩ := (hsound argument hargument v heval).nonNull hnonNull
    exact ⟨w, hmem w rfl⟩

end FieldPlan

namespace Task

theorem calls_complete {CallOk : Call → Prop} {object : ObjectTasks}
    {children : List SelectionItem} (type : TypeRef)
    (h : ∀ v path, (object type.innermost children v path).Calls CallOk) (site : Site) (v : Json)
    : (complete object children (.ofTypeRef type) site v).Calls CallOk := by
  induction type generalizing site v with
  | named name =>
    unfold OutputType.ofTypeRef
    split
    . unfold complete
      split
      . trivial
      . split <;> trivial
    . unfold complete
      split
      . trivial
      . exact h v site.path
  | list inner ih =>
    unfold OutputType.ofTypeRef complete
    split
    . trivial
    . next items =>
      apply (callsAll_iff ..).mpr
      intro task hmem
      obtain ⟨i, hi, rfl⟩ := List.mem_mapIdx.mp hmem
      exact ih h (site.element i) items[i]
    . trivial
  | nonNull inner ih => exact ih h site v

section Sound

variable {schema : Schema} {ArgumentOk : ArgumentPlan → Prop} {ConditionOk : Condition → Prop}
  {strict : Prop} {setting : Setting}
  (hhands : ∀ object field head arguments, schema.object? object.name = some object →
    FieldPlan.Declared ArgumentOk ConditionOk object field head →
    ArgumentPlan.evaluateAll head.arguments setting.bindings = .ok arguments →
    field.Hands strict arguments)

include hhands

theorem calls_resolve {tasks : ObjectTasks} {object : ObjectType}
    (hobject : schema.object? object.name = some object) {group : FieldGroup}
    (hfirst : (SelectionItem.field group.first.head group.first.children).WellFormed schema
      ArgumentOk ConditionOk object)
    (htasks : ∀ field, object.field? group.first.head.name = some field → ∀ v path,
      (tasks field.type.innermost group.children v path).Calls (Call.Sound schema strict))
    (parent : Json) (site : Site)
    : (resolve setting tasks object.name parent group site).Calls (Call.Sound schema strict) := by
  unfold resolve
  dsimp only
  obtain htypename | ⟨field, hdeclared⟩ := hfirst.head
  . rw [htypename.resolution]
    trivial
  . rw [hdeclared.output]
    have hcomplete := calls_complete field.type (htasks field hdeclared.field?) site
    split
    . trivial
    . split
      . trivial
      . exact hcomplete _
    . split
      . trivial
      . next arguments harguments =>
        refine ⟨?_, ?_⟩
        . exact ⟨object, field, hobject, hdeclared.field?,
            hhands object field _ arguments hobject hdeclared harguments⟩
        . split
          . exact hcomplete _
          . trivial
          . trivial

theorem calls_ofSelection (levels : Nat) (name : String) {items : List SelectionItem}
    (hitems : SelectionItem.On schema ArgumentOk ConditionOk name items)
    (hagree : FieldGroup.AgreeWithin levels (allFields items)) (parent : Json) (path : Path)
    : CallsAll (Call.Sound schema strict)
        ((ofSelection setting levels name items parent path).map Prod.snd) := by
  induction levels generalizing name items parent path with
  | zero => trivial
  | succ levels ih =>
    apply (callsAll_iff ..).mpr
    intro task htask
    obtain ⟨_, hentry, rfl⟩ := List.mem_map.mp htask
    obtain ⟨⟨key, group⟩, hgroup, rfl⟩ := List.mem_map.mp hentry
    have hgroup := FieldGroup.mem_ofFields_iff.mp hgroup
    -- Conditions only leave out fields, which agree as they did with the others.
    have hsubset := SelectionItem.admittedAll_subset setting.bindings items
    obtain ⟨hagrees, hchildren⟩ := hagree.mono hsubset key group hgroup
    have hfields : group.fields ⊆ allFields items := fun field hfield =>
      hsubset (FieldGroup.mem_of_ofKey? hgroup hfield).1
    obtain ⟨object, hobject, hwell⟩ := hitems.exists_object (hfields group.first_mem_fields)
    have hname : object.name = name := Schema.name_of_object? hobject
    subst hname
    have hfirst := SelectionItem.wellFormed_of_mem_allFields hwell
      (hfields group.first_mem_fields)
    refine calls_resolve hhands hobject hfirst ?_ parent _
    intro field hfield v path
    exact ih _ (FieldGroup.on_children hwell hfields hagrees hfield) hchildren v path

theorem calls_ofPlan {plan : Plan}
    (hitems : SelectionItem.On schema ArgumentOk ConditionOk plan.rootType plan.selection)
    (hagree : FieldGroup.AgreeWithin plan.depth (allFields plan.selection)) (root : Json)
    : (ofPlan plan setting root).Calls (Call.Sound schema strict) := by
  unfold ofPlan
  dsimp only
  split <;> exact calls_ofSelection hhands plan.depth plan.rootType hitems hagree root []

end Sound

end Task

namespace Plan

open Compile

/-- No variable that stands in a list where null is forbidden is given as null. -/
def KeepsNullsOut (plan : Plan) (provided : Json.Members) : Prop :=
  ∀ head ∈ plan.heads, ∀ argument ∈ head.arguments, ∀ name ∈ argument.guarded,
    provided.get? name ≠ some .null

theorem Compiled.binds {schema : Schema} {strict : Prop} {env : Env} {root : ObjectType}
    {plan : Plan} (h : plan.Compiled schema strict env root) {provided bindings : Json.Members}
    (hcoerce : VariableSpec.coerceAll plan.specs provided = .ok bindings)
    : env.Binds strict provided bindings := by
  intro name definition hfind
  obtain ⟨spec, hspec, rfl, hdeclares⟩ := h.declared.exists_spec hfind
  have hbound := (VariableSpec.get?_of_coerceAll_go hcoerce h.declared.nodup fun _ _ => rfl).1
  have hmem : definition ∈ env.variableDefinitions := List.mem_of_find?_eq_some hfind
  exact VariableSpec.bound_of_coerce hdeclares (fun hstrict => h.finite hstrict definition hmem)
    (hbound spec hspec)

theorem Compiled.on {schema : Schema} {strict : Prop} {env : Env} {root : ObjectType} {plan : Plan}
    (h : plan.Compiled schema strict env root) {provided : Json.Members}
    (hkeeps : strict → plan.KeepsNullsOut provided)
    : SelectionItem.On schema (env.TypesFor strict provided) env.IsFlag plan.rootType
        plan.selection := by
  intro item hitem
  refine ⟨root, h.rootType, (h.selection item hitem).mono ?_ fun _ hflag => hflag⟩
  intro head hhead argument hargument htypes
  refine ⟨htypes, fun hstrict => ?_⟩
  exact hkeeps hstrict head (SelectionItem.heads_subset_headsAll hitem hhead) argument hargument

/--
Whatever a resolver is handed has the type of its argument. Only an infinite number in the
document, or a null for a variable in a list, can bring a null to where it is forbidden, and
only inside of a list.
-/
theorem calls_sound {blueprint : Blueprint} {schema : Schema}
    (hbuild : blueprint.build = .ok schema) (hdefaults : schema.DefaultsConform)
    {document : Document} {plan : Plan} (hcompile : compile schema document = .ok plan)
    (provided : Json.Members) (context root : Json)
    : (plan.answer provided context root).journal.Calls
        (Call.Sound schema (document.Finite ∧ plan.KeepsNullsOut provided)) := by
  obtain ⟨env, object, h⟩ := exists_compiled hbuild hcompile
    fun hstrict : document.Finite ∧ plan.KeepsNullsOut provided => hstrict.1
  unfold answer
  split
  . next bindings hcoerce =>
    apply calls_execute
    refine Task.calls_ofPlan ?_ (h.on And.right)
      (FieldGroup.agreeWithin_of_ofSelection h.conflicts) root
    intro object field head arguments hobject hhead hok
    apply hhead.hands (h.binds hcoerce) _ hok
    intro argument hargument v hv
    exact (hdefaults object (Schema.mem_of_object? hobject) _ (Ordered.mem_of_get? hhead.field?)
      argument hargument v hv).mono fun _ => trivial
  . intro site call hcall
    cases hcall

end Plan

namespace Numbers

def queryType : ObjectType :=
  ⟨"Query",
    [ ("size",
        ⟨.named "Int", [("numbers", ⟨.list (.nonNull (.named "Int")), none⟩)],
          some fun _ => .ofValue .null⟩)
    ]⟩

def schema : Schema :=
  ⟨[queryType], queryType, none⟩

theorem build_blueprint : Blueprint.build ⟨"Query", none, [queryType]⟩ = .ok schema := by
  cbv

theorem defaultsConform : schema.DefaultsConform := by
  simp [Schema.DefaultsConform, schema, queryType]

def document : Document :=
  ⟨[.operation ⟨.query, none, [⟨"n", .named "Int", some (.int 5), [], ⟨1, 8⟩⟩], [],
    ⟨[.field ⟨none, "size", [("numbers", .list [.variable "n"])], [], ⟨1, 23⟩⟩ none],
      ⟨1, 21⟩⟩, ⟨1, 1⟩⟩]⟩

def sizeField : FieldPlan :=
  ⟨"size", "Query", "size", .resolver fun _ => .ofValue .null,
    [⟨"numbers", .list (.nonNull (.named "Int")), some (.list [.variable "n"]), none⟩], [],
    .scalar .int, ⟨1, 23⟩⟩

def plan : Plan :=
  ⟨.query, none, "Query", [⟨"n", .named "Int", some (.int 5), ⟨1, 8⟩⟩], [.field sizeField none]⟩

theorem compile_document : Plan.compile schema document = .ok plan := by
  cbv

theorem finite_document : document.Finite := by
  constructor <;> simp [document, Document.operations, Document.fragments, SelectionSet.nodes,
    Selection.nodesAll, Selection.nodes, Literal.Finite, Literal.FiniteItems, Literal.FiniteFields]

theorem keepsNullsOut_plan : plan.KeepsNullsOut [("n", .int 3)] := by
  intro head hhead argument hargument name hname
  cases List.mem_singleton.mp hhead
  cases List.mem_singleton.mp hargument
  cases List.mem_singleton.mp hname
  exact fun h => by cases h

theorem calls_sound_numbers
    : (document.Finite ∧ plan.KeepsNullsOut [("n", .int 3)])
        ∧ (plan.answer [("n", .int 3)] .null .null).journal.Calls
            (Call.Sound schema (document.Finite ∧ plan.KeepsNullsOut [("n", .int 3)])) :=
  ⟨⟨finite_document, keepsNullsOut_plan⟩,
    Plan.calls_sound build_blueprint defaultsConform compile_document _ _ _⟩

/--
The variable may be null and its default lets it stand in the list, so that it can be null there.
-/
theorem not_calls_sound
    : Blueprint.build ⟨"Query", none, [queryType]⟩ = .ok schema ∧ schema.DefaultsConform
        ∧ Plan.compile schema document = .ok plan
        ∧ ¬ (plan.answer [("n", .null)] .null .null).journal.Calls (Call.Sound schema True) := by
  refine ⟨build_blueprint, defaultsConform, compile_document, ?_⟩
  intro h
  have hentries : (plan.answer [("n", .null)] .null .null).journal.entries.head?
      = some (.invoked ⟨"Query.size", [⟨1, 23⟩], [.key "size"]⟩
          ⟨.null, [("numbers", .array [.null])], .null, "Query", "size"⟩) := by
    cbv
  obtain ⟨object, field, hobject, hfield, hhands⟩ := h _ _ (List.mem_of_head? hentries)
  have hschema : schema.object? "Query" = some queryType := by
    cbv
  cases hschema.symm.trans hobject
  cases hfield
  obtain ⟨argument, hargument, haccepts, _⟩ := hhands.declared "numbers" _ List.mem_cons_self
  cases List.mem_singleton.mp hargument
  obtain hnull | ⟨items, hitems, hnonNull⟩ := haccepts
  . cases hnull
  . cases hitems
    exact (hnonNull .null List.mem_cons_self).2 trivial rfl

end Numbers

end GraphGateway

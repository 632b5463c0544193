import GraphGateway.Proofs.Execution.ExecutedTasks
import GraphGateway.Proofs.Execution.ResolverArguments
import GraphGateway.Proofs.Plan.ArgumentOutcomes
import GraphGateway.Proofs.Plan.WrittenFields

/-!
This module contains the proof that the fields of a run are handed the arguments that are written
for them or given by the variables and the defaults, and that a field is not resolved if one of them
is null or missing although it must not be.
-/

namespace GraphGateway

open SelectionItem (allFields)

/-- The fields of a group are compiled from a field of a document first, which the type declares. -/
structure FieldGroup.WrittenAs (schema : Schema) (document : Document) (operation : Operation)
    (type : String) (group : FieldGroup) (node : FieldNode) (declared : FieldDef)
    : Prop where
  declares : ∃ object, schema.object? type = some object ∧ object.field? node.name = some declared
  selects : ∃ set, document.Selects operation.set (.field node set)
  key : group.first.head.key = node.responseKey
  name : group.first.head.name = node.name
  positions : group.positions.head? = some node.position
  resolution : group.first.head.resolution = declared.resolution

theorem Place.step?_of_error {setting : Setting} {place : Place} {cause : Failure.Cause}
    (h : place.supplied = .error cause) (segment : PathSegment)
    : place.step? setting segment = none := by
  unfold step?
  split
  . next hsupplied => cases h.symm.trans hsupplied
  . next hsupplied => cases h.symm.trans hsupplied
  . rfl

namespace Places

variable {places : Places} {path : Path}

theorem At.eq_of_error {setting : Setting} {place : Place} (h : places.At setting path place)
    {cause : Failure.Cause} (hsupplied : place.supplied = .error cause) {q : Path} (hq : path <+: q)
    {other : Failure.Cause} (hfails : places.Fails q other)
    : q = path ∧ other = cause := by
  obtain ⟨rest, rfl⟩ := hq
  obtain ⟨next, hnext, hfault⟩ := hfails
  rw [h] at hnext
  cases rest with
  | nil =>
    cases hnext
    rw [Place.fault?_of_error hsupplied] at hfault
    exact ⟨List.append_nil _, (Option.some.inj hfault).symm⟩
  | cons segment rest =>
    obtain ⟨first, hfirst, _⟩ := Option.bind_eq_some_iff.mp hnext
    rw [Place.step?_of_error hsupplied] at hfirst
    cases hfirst

end Places

namespace Plan

open Compile

variable {plan : Plan} {setting : Setting} {root : Json}

theorem mem_errors_of_execute (hfree : plan.PanicFree) (setting : Setting) (root : Json)
    : ∃ response, (plan.execute setting root).outcome = .ok response
        ∧ ∀ failure ∈ (Task.ofPlan plan setting root).journal.failures
            ++ (Task.ofPlan plan setting root).value.failures,
          .ofFailure failure ∈ response.errors := by
  obtain ⟨journal, hexecute, hperm⟩ := execute_eq hfree setting root
  rw [hexecute]
  cases (Task.ofPlan plan setting root).value with
  | ok data =>
    refine ⟨_, rfl, fun failure hmem => List.mem_map_of_mem ?_⟩
    rw [Settled.failures, List.append_nil] at hmem
    exact hperm.failures.mem_iff.mpr hmem
  | error first =>
    refine ⟨_, rfl, fun failure hmem => List.mem_map_of_mem ?_⟩
    exact (hperm.failures.append_right _).mem_iff.mpr hmem

theorem mem_invocations_of_execute (hfree : plan.PanicFree) {site : Site} {call : Call}
    (h : .invoked site call ∈ (Task.ofPlan plan setting root).journal.entries)
    : (site, call) ∈ (plan.execute setting root).journal.invocations := by
  obtain ⟨journal, hexecute, hperm⟩ := execute_eq hfree setting root
  have hmem : (site, call) ∈ journal.invocations :=
    List.mem_filterMap.mpr ⟨_, hperm.entries.mem_iff.mpr h, rfl⟩
  rw [hexecute]
  cases (Task.ofPlan plan setting root).value <;> exact hmem

structure Refuses (plan : Plan) (setting : Setting) (root : Json) (path : Path)
    (fault : ArgumentFault)
    : Prop where
  uninvoked : ∀ invocation ∈ (plan.execute setting root).journal.invocations,
    invocation.1.path ≠ path
  fails : (plan.places setting root).Fails path (.argument fault)
  reported : plan.PanicFree → plan.Reaches setting root path →
    ∃ response, (plan.execute setting root).outcome = .ok response
      ∧ (∃ home failure, (plan.places setting root).Home home path
        ∧ (plan.places setting root).Home home failure.site.path
        ∧ .ofFailure failure ∈ response.errors)
      ∧ ((plan.places setting root).Nullable path →
        ∃ e ∈ response.errors, e.path = some path ∧ e.message = fault.message)

structure Hands (plan : Plan) (setting : Setting) (root : Json) (path : Path) (type : String)
    (parent : Json) (group : FieldGroup) (arguments : Json.Members)
    : Prop where
  handed : ∀ invocation ∈ (plan.execute setting root).journal.invocations,
    invocation.1.path = path →
      invocation.2 = ⟨parent, arguments, setting.context, type, group.first.head.name⟩
  invoked : (∃ r, group.first.head.resolution = .resolver r) → plan.PanicFree →
    plan.Reaches setting root path →
      ∃ site, site.path = path
        ∧ (site, ⟨parent, arguments, setting.context, type, group.first.head.name⟩)
          ∈ (plan.execute setting root).journal.invocations

variable {path : Path} {type : String} {parent : Json} {group : FieldGroup}

theorem FieldAt.hands (h : plan.FieldAt setting root path type parent group)
    (hsound : ∀ head ∈ plan.heads, TypenameSound head) {arguments : Json.Members}
    (harguments : ArgumentPlan.evaluateAll group.first.head.arguments setting.bindings
      = .ok arguments)
    : plan.Hands setting root path type parent group arguments where
  handed := by
    rintro ⟨site, call⟩ hmem rfl
    obtain ⟨other, hother, _, hname, hcontext, hok⟩ := plan.invokedAt_execute setting root _ hmem
    obtain ⟨rfl, rfl, rfl⟩ := h.unique hother
    cases harguments.symm.trans hok
    rw [← hname, ← hcontext]
  invoked := by
    rintro ⟨r, hresolution⟩ hfree hreaches
    obtain ⟨levels, above, key, rfl, hdone⟩ := h.doneIn hsound hreaches
    refine ⟨⟨group.first.head.coordinate, group.positions, above ++ [.key key]⟩, rfl, ?_⟩
    apply mem_invocations_of_execute hfree
    apply hdone.within.entries
    unfold Task.ofGroup Task.resolve
    dsimp only
    rw [hresolution, harguments]
    exact List.mem_append_left _ List.mem_cons_self

theorem supply_of_fault (htypename : group.first.head.resolution ≠ .typename)
    {fault : ArgumentFault}
    (harguments : ArgumentPlan.evaluateAll group.first.head.arguments setting.bindings
      = .error fault)
    : group.first.head.supply setting type parent = .error (.argument fault) := by
  unfold FieldPlan.supply
  rw [harguments]
  cases hresolution : group.first.head.resolution with
  | typename => exact absurd hresolution htypename
  | property => rfl
  | resolver r => rfl

theorem Works.reported {site : Site} {task : Task} {place : Place}
    (h : plan.Works setting root path place site task)
    (hat : (plan.places setting root).At setting path place) {cause : Failure.Cause}
    (hsupplied : place.supplied = .error cause)
    : plan.Reports setting root path
        ∧ ((plan.places setting root).Nullable path →
          ∃ failure ∈ (Task.ofPlan plan setting root).journal.failures,
            failure.site.path = path ∧ failure.cause = cause) := by
  obtain ⟨hstands, hreports⟩ := h
  have hsettles := hstands.settles
  have hfault := hsettles.fault cause (Place.fault?_of_error hsupplied)
  cases htype : place.type.isNonNull with
  | true =>
    have hvalue
        : ∃ failure, (Task.position site place.type.isNonNull task).value = .error failure := by
      cases hvalue : task.value with
      | ok w =>
        cases (hfault w hvalue).1
        exact ⟨⟨site, .nullValue⟩, by rw [Task.value, hvalue, htype]; rfl⟩
      | error failure => exact ⟨failure, by rw [Task.value, hvalue, htype]; rfl⟩
    obtain ⟨failure, hfailure⟩ := hvalue
    refine ⟨hreports failure hfailure, fun hnullable => ?_⟩
    exact absurd ⟨place, hat.eq_some, htype⟩ hnullable.not_nonNull
  | false =>
    cases hvalue : task.value with
    | ok w =>
      have hnonNull := (hfault w hvalue).2
      rw [htype] at hnonNull
      cases hnonNull
    | error failure =>
      obtain ⟨hhome, hmem⟩ := hstands.home hvalue hat htype
      have hself : (plan.places setting root).Nullable path := ⟨place, hat.eq_some, htype⟩
      refine ⟨⟨path, Places.Nullable.home hself, failure, List.mem_append_left _ hmem, hhome⟩,
        fun _ => ⟨failure, hmem, ?_⟩⟩
      obtain ⟨hbelow, hfails⟩ := hsettles.below.genuine failure (by simp [hvalue, Settled.failures])
      exact hat.eq_of_error hsupplied hbelow hfails

theorem FieldAt.refuses (h : plan.FieldAt setting root path type parent group)
    (hsound : ∀ head ∈ plan.heads, TypenameSound head)
    (htypename : group.first.head.resolution ≠ .typename) {fault : ArgumentFault}
    (harguments : ArgumentPlan.evaluateAll group.first.head.arguments setting.bindings
      = .error fault)
    : plan.Refuses setting root path fault where
  uninvoked := by
    rintro ⟨site, call⟩ hmem rfl
    obtain ⟨other, hother, _, _, _, hok⟩ := plan.invokedAt_execute setting root _ hmem
    obtain ⟨rfl, rfl, rfl⟩ := h.unique hother
    cases harguments.symm.trans hok
  fails := ⟨_, h.at.eq_some, Place.fault?_of_error (supply_of_fault htypename harguments)⟩
  reported := by
    intro hfree hreaches
    have hsupply : (Place.ofGroup setting type parent group).supplied = .error (.argument fault) :=
      supply_of_fault htypename harguments
    have hne : path ≠ [] := by
      obtain ⟨above, key, _, rfl, _⟩ := h
      simp
    obtain ⟨response, houtcome, herrors⟩ := mem_errors_of_execute hfree setting root
    obtain ⟨site, task, hworks⟩ := works_of_places hsound hne h.at.eq_some hreaches
    obtain ⟨⟨home, hhome, failure, hmem, hfailure⟩, hnullable⟩ := hworks.reported h.at hsupply
    refine ⟨response, houtcome, ⟨home, failure, hhome, hfailure, herrors _ hmem⟩, fun hnull => ?_⟩
    obtain ⟨own, hown, hpath, hcause⟩ := hnullable hnull
    refine ⟨.ofFailure own, herrors _ (List.mem_append_left _ hown), ?_, ?_⟩
    . rw [ResponseError.ofFailure, hpath]
    . rw [ResponseError.ofFailure, Failure.message, hcause]

theorem exists_written {blueprint : Blueprint} {schema : Schema}
    (hbuild : blueprint.build = .ok schema) {document : Document}
    (hcompile : compile schema document = .ok plan) {operation : Operation}
    (hwrites : ∀ head ∈ plan.heads, head.resolution = .typename
      ∨ Env.Writes ⟨schema, document, operation.variableDefinitions⟩ operation.set head)
    (h : plan.FieldAt setting root path type parent group)
    (htypename : group.first.head.resolution ≠ .typename)
    : ∃ node declared, group.WrittenAs schema document operation type node declared
        ∧ ArgumentPlan.evaluateAll group.first.head.arguments setting.bindings
          = ArgumentDef.outcome setting.bindings.get? declared.arguments node.arguments
        ∧ ArgumentDef.Coerces setting.bindings.get? declared.arguments node.arguments := by
  obtain ⟨env, _, hcompiled⟩ := exists_compiled hbuild hcompile (fun hfalse : False => hfalse.elim)
  obtain ⟨hhead, object, hobject, hwell⟩ := h.wellFormed
    (hcompiled.on fun hfalse => (hfalse.elim : plan.KeepsNullsOut []))
    (FieldGroup.agreeWithin_of_ofSelection hcompiled.conflicts)
  obtain ⟨other, node, inner, declared, arguments, conditions, hother, hselects, hfield, harguments,
    heq⟩ := (hwrites _ hhead).resolve_left htypename
  -- The type that the field is compiled on is the one of the object that it is a field of.
  have hparent : group.first.head.parentType = object.name := by
    obtain hhead | ⟨_, hhead⟩ := hwell.head
    . exact hhead.parentType
    . exact hhead.parentType
  have hname : other.name = type := by
    rw [← Schema.name_of_object? hobject, ← hparent, heq]
    rfl
  rw [hname] at hother
  obtain ⟨houtcome, hcoerces⟩ := outcome_of_compileArguments setting.bindings harguments
  refine ⟨node, declared, ⟨⟨other, hother, hfield⟩, ⟨inner, hselects⟩, ?_, ?_, ?_, ?_⟩, ?_,
    hcoerces⟩
  . rw [heq]
    rfl
  . rw [heq]
    rfl
  . rw [FieldGroup.positions, FieldGroup.fields, List.map_cons, heq]
    rfl
  . rw [heq]
    rfl
  . rw [← houtcome, heq]
    rfl

/--
The fields of a run have the arguments that are written for them, the values of the variables or the
defaults. Resolvers are invoked for the fields of the run with these, and not at all if one of them
is null or missing although it must not be: then the field fails.
-/
theorem arguments_defaulted {blueprint : Blueprint} {schema : Schema}
    (hbuild : blueprint.build = .ok schema) {document : Document}
    (hcompile : compile schema document = .ok plan) {provided bindings : Json.Members}
    (hcoerce : VariableSpec.coerceAll plan.specs provided = .ok bindings) (context root : Json)
    : plan.answer provided context root = plan.execute ⟨bindings, context⟩ root
        ∧ (∀ invocation ∈ (plan.execute ⟨bindings, context⟩ root).journal.invocations,
          plan.InvokedAt ⟨bindings, context⟩ root invocation)
        ∧ ∃ operation, document.operations = [operation]
          ∧ ∀ path type parent group, plan.FieldAt ⟨bindings, context⟩ root path type parent group →
            group.first.head.resolution ≠ .typename →
              ∃ node declared, group.WrittenAs schema document operation type node declared
                ∧ ArgumentDef.Coerces (operation.value? provided) declared.arguments node.arguments
                ∧ match ArgumentDef.outcome (operation.value? provided) declared.arguments
                    node.arguments with
                  | .ok arguments =>
                    plan.Hands ⟨bindings, context⟩ root path type parent group arguments
                  | .error fault => plan.Refuses ⟨bindings, context⟩ root path fault := by
  obtain ⟨operation, hoperation, hdeclared, hwrites⟩ := writes_of_compile hbuild hcompile
  have hvalues := value?_of_coerceAll hdeclared hcoerce
  have hsound := typenameSound_of_compile hcompile
  have hanswer : plan.answer provided context root = plan.execute ⟨bindings, context⟩ root := by
    unfold answer
    rw [hcoerce]
  refine ⟨hanswer, plan.invokedAt_execute _ root, operation, hoperation, ?_⟩
  intro path type parent group hfield htypename
  obtain ⟨node, declared, hwritten, harguments, hcoerces⟩ :=
    exists_written hbuild hcompile hwrites hfield htypename
  rw [← hvalues]
  refine ⟨node, declared, hwritten, hcoerces, ?_⟩
  dsimp only at harguments
  cases houtcome : ArgumentDef.outcome bindings.get? declared.arguments node.arguments with
  | ok arguments => exact hfield.hands hsound (harguments.trans houtcome)
  | error fault => exact hfield.refuses hsound htypename (harguments.trans houtcome)

end Plan

namespace Numbers

/--
Without a value for its variable the list of one number is the list of the default of the variable.
-/
theorem arguments_defaulted_size
    : plan.Hands ⟨[("n", .int 5)], .null⟩ .null [.key "size"] "Query" .null ⟨⟨sizeField, none⟩, []⟩
        [("numbers", .array [.int 5])] := by
  have hcoerce : VariableSpec.coerceAll plan.specs [] = .ok [("n", .int 5)] := by
    cbv
  obtain ⟨_, _, operation, hoperation, hfields⟩ :=
    Plan.arguments_defaulted build_blueprint compile_document hcoerce .null .null
  cases hoperation
  have hfield : plan.FieldAt ⟨[("n", .int 5)], .null⟩ .null [.key "size"] "Query" .null
      ⟨⟨sizeField, none⟩, []⟩ :=
    ⟨[], "size", _, rfl, rfl, ⟨rfl, rfl, fun hne => absurd rfl hne⟩, rfl⟩
  obtain ⟨node, declared, hwritten, _, houtcome⟩ := hfields _ _ _ _ hfield (by simp [sizeField])
  obtain ⟨object, hobject, hdeclared⟩ := hwritten.declares
  obtain ⟨set, hselects⟩ := hwritten.selects
  cases hobject
  cases hselects with
  | fragment _ hfragment => cases hfragment
  | written hwritten =>
    cases List.mem_singleton.mp hwritten
    cases hdeclared
    exact houtcome

end Numbers
end GraphGateway

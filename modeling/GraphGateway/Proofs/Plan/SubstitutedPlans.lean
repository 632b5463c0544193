import GraphGateway.Proofs.Plan.Agreement
import GraphGateway.Proofs.Plan.DroppedVariables
import GraphGateway.Proofs.Plan.RequestVariables
import GraphGateway.Proofs.Plan.Substitution

/-!
This module contains that a document with a literal in the place of a variable compiles if the
document does. The converse fails only where the field is merged with one on which the
variable is not written.
-/

namespace GraphGateway

open SelectionItem (mapHeadsAll allFields)

section Equality

variable {name : String} {v : Json}

theorem Template.equal_withConst (hv : v.equal v = true) {template other : Template}
    (h : template.equal other = true)
    : (template.withConst name v).equal (other.withConst name v) = true := by
  cases template with
  | «variable» used =>
    cases other with
    | «variable» second =>
      have heq : used = second := of_decide_eq_true h
      subst heq
      by_cases hname : used = name
      . have hconst : withConst name v (.variable used) = .const v := if_pos hname
        rw [hconst]
        exact hv
      . have hself : withConst name v (.variable used) = .variable used := if_neg hname
        rw [hself]
        exact h
    | _ => cases h
  | const w =>
    cases other with
    | const _ => exact h
    | _ => cases h
  | list items =>
    cases other with
    | list _ => exact h
    | _ => cases h

theorem ArgumentPlan.equal_withConst (hv : v.equal v = true) {argument other : ArgumentPlan}
    (h : argument.equal other = true)
    : (argument.withConst name v).equal (other.withConst name v) = true := by
  unfold equal withConst at *
  simp only [Bool.and_eq_true] at h ⊢
  obtain ⟨⟨hdeclaration, htemplate⟩, hdefault⟩ := h
  refine ⟨⟨hdeclaration, ?_⟩, hdefault⟩
  cases hfirst : argument.template with
  | none =>
    rw [hfirst] at htemplate
    cases hsecond : other.template with
    | none => rfl
    | some _ =>
      rw [hsecond] at htemplate
      cases htemplate
  | some template =>
    rw [hfirst] at htemplate
    cases hsecond : other.template with
    | none =>
      rw [hsecond] at htemplate
      cases htemplate
    | some second =>
      rw [hsecond] at htemplate
      exact Template.equal_withConst hv htemplate

theorem ArgumentPlan.equalAll_withConst (hv : v.equal v = true)
    {arguments others : List ArgumentPlan} (h : equalAll arguments others = true)
    : equalAll (arguments.map (withConst name v)) (others.map (withConst name v)) = true := by
  induction arguments generalizing others with
  | nil =>
    cases others with
    | nil => rfl
    | cons other rest => cases h
  | cons argument rest ih =>
    cases others with
    | nil => cases h
    | cons other others =>
      simp only [equalAll, List.map_cons, Bool.and_eq_true] at h ⊢
      exact ⟨equal_withConst hv h.1, ih h.2⟩

end Equality

namespace Conflict

variable {name : String} {v : Json} {key : String} {group : FieldGroup}

theorem inGroup?_withConst (hv : v.equal v = true) (h : inGroup? key group = none)
    : inGroup? key (group.mapHeads (FieldPlan.withConst name v)) = none := by
  rw [inGroup?_eq_none_iff] at h ⊢
  intro other hother
  obtain ⟨field, hfield, rfl⟩ := List.mem_map.mp hother
  obtain ⟨hname, harguments⟩ := h field hfield
  exact ⟨hname, ArgumentPlan.equalAll_withConst hv harguments⟩

theorem differentArguments_of_inGroup? {e : CompileError}
    (hnone : inGroup? key (group.mapHeads (FieldPlan.withConst name v)) = none)
    (h : inGroup? key group = some e)
    : e.cause = .fieldConflict key .differentArguments := by
  obtain ⟨other, hother, he⟩ := List.exists_of_findSome?_eq_some h
  obtain ⟨conflict, hconflict, rfl⟩ := Option.map_eq_some_iff.mp he
  have hname : other.head.name = group.first.head.name :=
    ((inGroup?_eq_none_iff key _).mp hnone (other.mapHeads _) (List.mem_map_of_mem hother)).1
  unfold between? at hconflict
  rw [hname, if_neg (by simp)] at hconflict
  split at hconflict
  . cases hconflict
    rfl
  . cases hconflict

variable {levels : Nat} {items : List SelectionItem}

theorem ofSelection_succ_eq_nil_iff
    : ofSelection (levels + 1) items = []
        ↔ ∀ key group, (key, group) ∈ FieldGroup.ofFields (allFields items) →
          inGroup? key group = none ∧ ofSelection levels group.children = [] := by
  rw [ofSelection, List.flatMap_eq_nil_iff, Prod.forall]
  refine forall_congr' fun key => forall_congr' fun group => forall_congr' fun _ => ?_
  dsimp only
  cases inGroup? key group with
  | some conflict => simp
  | none => simp

theorem ofSelection_withConst_eq_nil_iff
    : ofSelection (levels + 1) (mapHeadsAll (FieldPlan.withConst name v) items) = []
        ↔ ∀ key group, (key, group) ∈ FieldGroup.ofFields (allFields items) →
          inGroup? key (group.mapHeads (FieldPlan.withConst name v)) = none
            ∧ ofSelection levels (mapHeadsAll (FieldPlan.withConst name v) group.children)
                = [] := by
  rw [ofSelection_succ_eq_nil_iff, SelectionItem.allFields_mapHeadsAll,
    FieldGroup.ofFields_mapHeads (by intro; rfl)]
  constructor
  . intro h key group hgroup
    rw [← FieldGroup.children_mapHeads]
    exact h key _ (List.mem_map_of_mem hgroup)
  . intro h key group hgroup
    obtain ⟨entry, hentry, heq⟩ := List.mem_map.mp hgroup
    cases heq
    rw [FieldGroup.children_mapHeads]
    exact h _ _ hentry

theorem ofSelection_withConst (hv : v.equal v = true) (h : ofSelection levels items = [])
    : ofSelection levels (mapHeadsAll (FieldPlan.withConst name v) items) = [] := by
  induction levels generalizing items with
  | zero => rfl
  | succ levels ih =>
    rw [ofSelection_withConst_eq_nil_iff]
    intro key group hgroup
    obtain ⟨hagrees, hchildren⟩ := ofSelection_succ_eq_nil_iff.mp h key group hgroup
    exact ⟨inGroup?_withConst hv hagrees, ih hchildren⟩

theorem differentArguments_of_withConst
    (h : ofSelection levels (mapHeadsAll (FieldPlan.withConst name v) items) = [])
    : ∀ e ∈ ofSelection levels items, ∃ key, e.cause = .fieldConflict key .differentArguments := by
  induction levels generalizing items with
  | zero => simp [ofSelection]
  | succ levels ih =>
    intro e he
    rw [ofSelection] at he
    obtain ⟨⟨key, group⟩, hgroup, he⟩ := List.mem_flatMap.mp he
    obtain ⟨hagrees, hchildren⟩ := ofSelection_withConst_eq_nil_iff.mp h key group hgroup
    dsimp only at he
    split at he
    . next conflict hconflict =>
      cases List.mem_singleton.mp he
      exact ⟨key, differentArguments_of_inGroup? hagrees hconflict⟩
    . exact ih hchildren e he

end Conflict

namespace Compile

section Places

variable {env : Env} {name : String} {l : Literal} {place next : SelectionSet × ObjectType}

def Env.CompilesAt (env : Env) (place : SelectionSet × ObjectType) : Prop :=
  ∃ levels stack items, compileSet env levels stack place.1 place.2 = pure items

theorem Env.CompilesAt.selection (h : env.CompilesAt place) {selection : Selection}
    (hmem : selection ∈ place.1.items)
    : ∃ levels stack items,
        compileSelection env stack (compileSet env levels) place.2 selection = pure items := by
  obtain ⟨levels, stack, items, h⟩ := h
  cases levels with
  | zero => exact absurd h (compileSet_ne_pure stack place.1 place.2 items)
  | succ levels =>
    obtain ⟨parts, hparts, _⟩ := compileSet_eq_pure_iff.mp h
    have herrors := (Checked.mapM_eq_pure_iff.mp hparts).1 selection hmem
    exact ⟨levels, stack, _, Checked.eq_pure_iff.mpr ⟨herrors, rfl⟩⟩

/-- A step: with a set the sets that it opens compile. -/
theorem Env.CompilesAt.opens (h : env.CompilesAt place) (hopens : env.Opens place next)
    : env.CompilesAt next := by
  cases hopens with
  | field hmem hfield hchild =>
    obtain ⟨levels, stack, items, hitem⟩ := h.selection hmem
    obtain ⟨_, _, _, _, hcompiled, _⟩ := compileItem_eq_pure_iff.mp hitem
    cases hcompiled with
    | typename _ _ hset => cases hset
    | declared _ hdeclared _ hchildren =>
      cases hfield.symm.trans hdeclared
      obtain ⟨object, items, htype, hitems, _⟩ := compileChildren_eq_pure_iff.mp hchildren
      cases hchild.symm.trans htype
      exact ⟨levels, stack, items, hitems⟩
  | spread hmem hfragment =>
    obtain ⟨levels, stack, items, hitem⟩ := h.selection hmem
    obtain ⟨_, _, items, _, hfound, _, _, _, hitems, _⟩ := compileSpread_eq_pure_iff.mp hitem
    cases hfragment.symm.trans hfound
    exact ⟨levels, _, items, hitems⟩
  | inline hmem =>
    obtain ⟨levels, stack, items, hitem⟩ := h.selection hmem
    obtain ⟨_, items, _, _, hitems, _⟩ := compileInline_eq_pure_iff.mp hitem
    exact ⟨levels, stack, items, hitems⟩

theorem mem_withLiteral {set : SelectionSet} {selection : Selection} (h : selection ∈ set.items)
    : selection.withLiteral name l ∈ (SelectionSet.withLiteral name l set).items := by
  unfold SelectionSet.withLiteral
  rw [Selection.withLiteralAll_eq_map]
  exact List.mem_map_of_mem h

def placeWithLiteral (name : String) (l : Literal) (place : SelectionSet × ObjectType)
    : SelectionSet × ObjectType :=
  (SelectionSet.withLiteral name l place.1, place.2)

theorem Env.Opens.withLiteral (h : env.Opens place next)
    : (env.withLiteral name l).Opens (placeWithLiteral name l place)
        (placeWithLiteral name l next) := by
  cases h with
  | @field _ inner _ _ node _ hmem hfield hchild =>
    have hmem := @mem_withLiteral name l _ _ hmem
    rw [withLiteral_field, Option.map_some] at hmem
    exact .field hmem hfield hchild
  | @spread _ _ fragment _ _ found hmem hfragment =>
    have hfound : (env.withLiteral name l).document.fragment? fragment
        = some (found.withLiteral name l) := by
      rw [Env.withLiteral, fragment?_withLiteral, hfragment, Option.map_some]
    exact .spread (mem_withLiteral hmem) hfound
  | inline hmem => exact .inline (mem_withLiteral hmem)

/-- A run of steps: whatever is opened in the course of a set compiles with it. -/
theorem Env.CompilesAt.reaches
    (h : (env.withLiteral name l).CompilesAt (placeWithLiteral name l place))
    (hreaches : Relation.ReflTransGen env.Opens place next)
    : (env.withLiteral name l).CompilesAt (placeWithLiteral name l next) := by
  induction hreaches with
  | refl => exact h
  | tail _ hopens ih => exact ih.opens hopens.withLiteral

end Places

end Compile

theorem Plan.mem_errors_of_rootType {schema : Schema} {document : Document} {operation : Operation}
    {root : ObjectType} (hoperations : document.operations = [operation])
    (hroot : Compile.rootType schema operation = .ok root) {errors : List CompileError}
    (h : compile schema document = .error errors) {e : CompileError} (he : e ∈ errors)
    : e ∈ (Compile.compileOperation schema document operation root).errors := by
  unfold compile at h
  rw [selectOperation_eq_ok_iff.mpr hoperations] at h
  dsimp only [Except.mapError, bind, Except.bind] at h
  rw [hroot] at h
  dsimp only at h
  split at h
  . cases h
  . cases h
    exact mem_distinct.mp he

/--
The operation of a document has a variable without a default, which it takes for
arguments of its type only.
-/
structure Document.Takes (document : Document) (schema : Schema) (operation : Operation)
    (name : String) (type : TypeRef)
    : Prop where
  operations : document.operations = [operation]
  declared : ∃ position,
    operation.variableDefinitions.filter (fun definition => definition.name = name)
      = [⟨name, type, none, [], position⟩]
  input : (Scalar.ofName? type.innermost).isSome = true
  takes : ∀ root, Compile.rootType schema operation = .ok root →
    Compile.Env.TakesIn ⟨schema, document, operation.variableDefinitions⟩ name type
      operation.set root

def Document.Hands (document : Document) (schema : Schema) (operation : Operation) (name : String)
    : Prop :=
  ∃ root place node set field argument declared, Compile.rootType schema operation = .ok root
    ∧ Relation.ReflTransGen (Compile.Env.Opens ⟨schema, document, operation.variableDefinitions⟩)
      (operation.set, root) place
    ∧ .field node set ∈ place.1.items ∧ node.name ≠ Compile.typenameField
    ∧ place.2.field? node.name = some field ∧ (argument, declared) ∈ field.arguments
    ∧ Ordered.get? node.arguments argument = some (.variable name)

namespace Document.Takes

open Compile

variable {schema : Schema} {document : Document} {operation : Operation} {name : String}
  {type : TypeRef} {l : Literal}

theorem findVariable (h : document.Takes schema operation name type)
    : ∃ definition, Env.findVariable ⟨schema, document, operation.variableDefinitions⟩ name
        = some definition ∧ definition.type = type := by
  obtain ⟨position, hdeclared⟩ := h.declared
  refine ⟨⟨name, type, none, [], position⟩, ?_, rfl⟩
  unfold Env.findVariable
  rw [← List.head?_filter, hdeclared]
  rfl

theorem admits (h : document.Takes schema operation name type) {v : Json}
    (hv : Coercion.coerceLiteral type l = .ok v)
    : Env.Admits ⟨schema, document, operation.variableDefinitions⟩ name type l v :=
  ⟨h.findVariable, hv⟩

theorem exists_spec (h : document.Takes schema operation name type) {plan : Plan}
    (hcompile : Plan.compile schema document = .ok plan)
    : ∃ spec ∈ plan.specs, spec.name = name ∧ spec.type = type := by
  obtain ⟨other, _, hoperations, hspecs, _⟩ := Plan.exists_parts_of_compile hcompile
  cases h.operations.symm.trans hoperations
  obtain ⟨definition, hfind, htype⟩ := h.findVariable
  obtain ⟨spec, hspec, hname, hdeclares⟩ := hspecs.exists_spec hfind
  exact ⟨spec, hspec, hname, hdeclares.type.trans htype⟩

theorem coerces (h : document.Takes schema operation name type)
    (hhands : document.Hands schema operation name) (hl : l.variableNames = []) {plan : Plan}
    (hcompile : Plan.compile schema (document.withLiteral name l) = .ok plan)
    : ∃ v, Coercion.coerceLiteral type l = .ok v := by
  obtain ⟨root, place, node, set, field, argument, declared, hroot, hreaches, hmem, hname, hfield,
    hdeclared, hwritten⟩ := hhands
  obtain ⟨other, object, hoperations, hobject, hplan⟩ := Plan.compile_eq_ok_iff.mp hcompile
  rw [operations_withLiteral, h.operations, List.map_singleton] at hoperations
  cases hoperations
  cases hroot.symm.trans hobject
  obtain ⟨_, items, _, _, hitems, _⟩ := compileOperation_eq_pure_iff.mp hplan
  have hplace :
      (Env.withLiteral name l ⟨schema, document, operation.variableDefinitions⟩).CompilesAt
        (placeWithLiteral name l (operation.set, root)) := ⟨_, _, _, hitems⟩
  have hfieldMem := @mem_withLiteral name l _ _ hmem
  rw [withLiteral_field] at hfieldMem
  obtain ⟨_, _, _, hitem⟩ := (hplace.reaches hreaches).selection hfieldMem
  obtain ⟨_, _, _, _, hcompiled, _⟩ := compileItem_eq_pure_iff.mp hitem
  cases hcompiled with
  | typename heq => exact absurd heq hname
  | declared _ hfound harguments _ =>
    cases hfield.symm.trans hfound
    have hget : Ordered.get? (node.withLiteral name l).arguments argument = some l := by
      rw [FieldNode.withLiteral, Ordered.get?_mapValues, hwritten]
      exact congrArg some (if_pos rfl)
    obtain ⟨v, hv⟩ :=
      (outcome_of_compileArguments [] harguments).2 argument declared hdeclared l hget
    have htype : declared.type = type :=
      ((h.takes root hroot place hreaches _ hmem).field node set rfl).typed field hfield argument
        declared hdeclared hwritten
    rw [htype, Coercion.fill_eq_coerceLiteral hl] at hv
    exact ⟨v, hv⟩

theorem refuses (h : document.Takes schema operation name type) (hl : l.Sendable)
    (herror : ∀ v, Coercion.coerceLiteral type l ≠ .ok v) {plan : Plan}
    (hcompile : Plan.compile schema document = .ok plan) {provided : Json.Members}
    (hprovided : provided.get? name = some l.toJson)
    : ∃ faults, VariableSpec.coerceAll plan.specs provided = .error faults
        ∧ ∃ fault ∈ faults, fault.spec.name = name := by
  obtain ⟨spec, hspec, rfl, rfl⟩ := h.exists_spec hcompile
  have hrefused : spec.admits (provided.get? spec.name) ≠ true := by
    rw [hprovided, ← VariableSpec.isOk_coerce]
    intro hok
    obtain ⟨given, hok⟩ := isOk_iff.mp hok
    obtain ⟨v, _, hv⟩ := VariableSpec.coerce_some_eq_ok_iff.mp hok
    exact herror v ((eq_ok_iff_of_toOption (Coercion.coerceValue_toJson spec.type hl) v).mp hv)
  cases hcoerce : VariableSpec.coerceAll plan.specs provided with
  | ok bindings =>
    exact absurd ((VariableSpec.exists_coerceAll_iff _ _).mp ⟨bindings, hcoerce⟩ spec hspec)
      hrefused
  | error faults =>
    have hmem : spec ∈ faults.map (·.spec) := by
      rw [VariableSpec.specs_of_coerceAll hcoerce]
      exact List.mem_filter.mpr ⟨hspec, by simpa using hrefused⟩
    obtain ⟨fault, hfault, rfl⟩ := List.mem_map.mp hmem
    exact ⟨faults, rfl, fault, hfault, rfl⟩

theorem exists_specs (h : document.Takes schema operation name type)
    : ∃ first second position,
        (compileVariables schema [] operation.variableDefinitions).value
            = first ++ ⟨name, type, none, position⟩ :: second
          ∧ (compileVariables schema [] (operation.withLiteral name l).variableDefinitions).value
            = first ++ second
          ∧ (compileVariables schema [] operation.variableDefinitions).errors
            = (compileVariables schema []
                (operation.withLiteral name l).variableDefinitions).errors := by
  obtain ⟨position, hdeclared⟩ := h.declared
  obtain ⟨before, after, hsplit, hbefore, _, hafter⟩ := List.filter_eq_cons_iff.mp hdeclared
  have hbefore : ∀ definition ∈ before, definition.name ≠ name := by
    simpa using hbefore
  have hafter : ∀ definition ∈ after, definition.name ≠ name := by
    simpa using hafter
  have hleft : (operation.withLiteral name l).variableDefinitions = before ++ after := by
    unfold Operation.withLiteral
    dsimp only
    rw [hsplit, List.filter_append, List.filter_cons_of_neg (by simp),
      List.filter_eq_self.mpr (by simpa using hbefore),
      List.filter_eq_self.mpr (by simpa using hafter)]
  obtain ⟨first, second, hvalue, hother, herrors⟩ :=
    @compileVariables_without schema before after [] name type position h.input hbefore hafter
      (by simp)
  rw [hleft, hsplit]
  exact ⟨first, second, position, hvalue, hother, herrors⟩

/-- The plan of the document gives the one with the literal, which has no conflicts either. -/
theorem compile_withLiteral (h : document.Takes schema operation name type) (hl : l.Sendable)
    {v : Json} (hv : Coercion.coerceLiteral type l = .ok v) {plan : Plan}
    (hcompile : Plan.compile schema document = .ok plan)
    : ∃ first second position, plan.specs = first ++ ⟨name, type, none, position⟩ :: second
        ∧ Plan.compile schema (document.withLiteral name l) = .ok
          { plan with
            specs := first ++ second
            selection := mapHeadsAll (FieldPlan.withConst name v) plan.selection } := by
  obtain ⟨other, root, hoperations, hroot, hplan⟩ := Plan.compile_eq_ok_iff.mp hcompile
  cases h.operations.symm.trans hoperations
  obtain ⟨specs, items, hspecs, hdirectives, hitems, hconflicts, rfl⟩ :=
    compileOperation_eq_pure_iff.mp hplan
  obtain ⟨first, second, position, hvalue, hother, herrors⟩ := @exists_specs _ _ _ _ _ l h
  rw [Checked.eq_pure_iff] at hspecs
  refine ⟨first, second, position, hspecs.2.symm.trans hvalue, ?_⟩
  have hset := compileSet_withLiteral (h.admits hv) Parser.maxDepth [] (h.takes root hroot)
  refine Plan.compile_eq_ok_iff.mpr ⟨operation.withLiteral name l, root, ?_, hroot, ?_⟩
  . rw [operations_withLiteral, h.operations, List.map_singleton]
  . refine compileOperation_eq_pure_iff.mpr ⟨first ++ second,
      mapHeadsAll (FieldPlan.withConst name v) items, ?_, hdirectives, ?_, ?_, rfl⟩
    . exact Checked.eq_pure_iff.mpr ⟨herrors.symm.trans hspecs.1, hother⟩
    . refine hset.trans ?_
      rw [hitems, map_pure]
    . unfold Plan.depth
      dsimp only
      rw [SelectionItem.depthAll_mapHeadsAll]
      exact Conflict.ofSelection_withConst (Coercion.equal_self_of_coerceLiteral hl hv) hconflicts

/--
Where only the document with the literal compiles, fields differ in the arguments of the document.
-/
theorem conflicts_of_compile_withLiteral (h : document.Takes schema operation name type) {v : Json}
    (hv : Coercion.coerceLiteral type l = .ok v) {plan : Plan}
    (hcompile : Plan.compile schema (document.withLiteral name l) = .ok plan)
    {errors : List CompileError} (herrors : Plan.compile schema document = .error errors)
    : ∀ e ∈ errors, ∃ key, e.cause = .fieldConflict key .differentArguments := by
  obtain ⟨other, root, hoperations, hroot, hplan⟩ := Plan.compile_eq_ok_iff.mp hcompile
  rw [operations_withLiteral, h.operations, List.map_singleton] at hoperations
  cases hoperations
  obtain ⟨specs, items, hspecs, hdirectives, hitems, hconflicts, rfl⟩ :=
    compileOperation_eq_pure_iff.mp hplan
  obtain ⟨_, _, _, _, _, heq⟩ := @exists_specs _ _ _ _ _ l h
  rw [Checked.eq_pure_iff] at hspecs
  have hset := compileSet_withLiteral (h.admits hv) Parser.maxDepth [] (h.takes root hroot)
  obtain ⟨hclean, hvalue⟩ := Checked.eq_pure_iff.mp (hset.symm.trans hitems)
  rw [Checked.errors_map] at hclean
  rw [Checked.value_map] at hvalue
  subst hvalue
  unfold Plan.depth at hconflicts
  dsimp only at hconflicts
  rw [SelectionItem.depthAll_mapHeadsAll] at hconflicts
  intro e he
  have hmem := Plan.mem_errors_of_rootType h.operations hroot herrors he
  unfold compileOperation at hmem
  simp only [Checked.errors_bind, List.mem_append, Checked.errors_forIn_report] at hmem
  obtain hmem | hmem | hmem | hmem | hmem := hmem
  . rw [heq, hspecs.1] at hmem
    cases hmem
  . have hnone : operation.directives = [] := hdirectives
    rw [hnone] at hmem
    cases hmem
  . rw [hclean] at hmem
    cases hmem
  . exact Conflict.differentArguments_of_withConst hconflicts e hmem
  . cases hmem

end Document.Takes
end GraphGateway

import GraphGateway.Proofs.Plan.CompiledFields
import GraphGateway.Proofs.Plan.Evaluation
import GraphGateway.Proofs.Plan.UsedVariables

/-!
This module contains what the arguments of a field come to in a request: what is written for them,
the values of the variables in it, and the defaults of the variables and of the arguments. A field
that is compiled comes to these arguments in a run.
-/

namespace GraphGateway

/-- Coerces a literal in which variables have values. One without a value is null. -/
def Coercion.fill (values : String → Option Json) (type : TypeRef) (l : Literal)
    : Except LiteralFault Json :=
  match l with
  | .variable name => .ok ((values name).getD .null)
  | .null => coerceLiteral type .null
  | .list items =>
    match type with
    | .list inner | .nonNull (.list inner) => do
      return .array (← items.mapM (fill values inner))
    | type => coerceLiteral type l
  | l =>
    match type with
    | .list inner | .nonNull (.list inner) => do return .array [← fill values inner l]
    | type => coerceLiteral type l

def VariableDefinition.value? (definition : VariableDefinition) : Option Json → Option Json
  | some v => (Coercion.coerceValue definition.type v).toOption
  | none => definition.default.bind fun l => (Coercion.coerceLiteral definition.type l).toOption

def Operation.value? (operation : Operation) (provided : Json.Members) (name : String)
    : Option Json :=
  (operation.variableDefinitions.find? fun definition => definition.name = name).bind
    fun definition => definition.value? (provided.get? name)

def ArgumentDef.value? (values : String → Option Json) (argument : ArgumentDef)
    : Option Literal → Option Json
  | none => argument.default
  | some (.variable name) => (values name).or argument.default
  | some l => (Coercion.fill values argument.type l).toOption

/-- Whether an argument comes to null or to nothing although its type is non-null. -/
def ArgumentDef.refuses (values : String → Option Json) (argument : ArgumentDef)
    (written : Option Literal)
    : Bool :=
  argument.type.isNonNull && (argument.value? values written).all Json.isNull

/--
The arguments that a field is handed for those that are written, or the first that is refused.
-/
def ArgumentDef.outcome (values : String → Option Json) (declared : Ordered ArgumentDef)
    (written : Arguments)
    : Except ArgumentFault Json.Members :=
  let refused := declared.find? fun (name, argument) =>
    argument.refuses values (Ordered.get? written name)
  match refused with
  | some (name, argument) => .error ⟨name, argument.type⟩
  | none => .ok <| declared.filterMap fun (name, argument) =>
    (argument.value? values (Ordered.get? written name)).map (name, ·)

def ArgumentDef.Coerces (values : String → Option Json) (declared : Ordered ArgumentDef)
    (written : Arguments)
    : Prop :=
  ∀ name argument, (name, argument) ∈ declared → ∀ l ∈ Ordered.get? written name,
    ∃ v, Coercion.fill values argument.type l = .ok v

theorem TypeRef.element_induction {P : TypeRef → Prop}
    (h : ∀ type, (∀ inner, Compile.elementType? type = some inner → P inner) → P type)
    (type : TypeRef)
    : P type := by
  apply h
  -- The element type of a list is the same under a non-null wrapper.
  induction type with
  | named name =>
    intro inner htype
    cases htype
  | list element ih =>
    intro inner htype
    cases htype
    exact h element ih
  | nonNull type ih =>
    intro inner htype
    cases type with
    | list element => exact ih inner htype
    | named name => cases htype
    | nonNull type => cases htype

theorem mapM_congr {m : Type → Type} [Monad m] [LawfulMonad m] {α β : Type} {f g : α → m β}
    {xs : List α} (h : ∀ x ∈ xs, f x = g x)
    : xs.mapM f = xs.mapM g := by
  induction xs with
  | nil => rw [List.mapM_nil, List.mapM_nil]
  | cons x rest ih =>
    rw [List.forall_mem_cons] at h
    rw [List.mapM_cons, List.mapM_cons, h.1, ih h.2]

section Outcome

variable {values : String → Option Json} {name : String} {argument : ArgumentDef}
  {rest : Ordered ArgumentDef} {written : Arguments}

theorem ArgumentDef.outcome_cons_refused
    (h : argument.refuses values (Ordered.get? written name) = true)
    : outcome values ((name, argument) :: rest) written = .error ⟨name, argument.type⟩ := by
  unfold outcome
  rw [List.find?_cons_of_pos (by exact h)]

theorem ArgumentDef.outcome_cons
    (h : argument.refuses values (Ordered.get? written name) = false)
    : outcome values ((name, argument) :: rest) written
        = (outcome values rest written).map
            (((argument.value? values (Ordered.get? written name)).map (name, ·)).toList ++ ·) := by
  unfold outcome
  rw [List.find?_cons_of_neg (by simp [h]), List.filterMap_cons]
  dsimp only
  split
  . rfl
  . cases argument.value? values (Ordered.get? written name) <;> rfl

end Outcome

theorem ArgumentDef.value?_some {values : String → Option Json} {argument : ArgumentDef}
    {l : Literal} (h : ∀ name, l ≠ .variable name)
    : argument.value? values (some l) = (Coercion.fill values argument.type l).toOption := by
  cases l with
  | «variable» name => exact absurd rfl (h name)
  | _ => rfl

namespace Coercion

open Compile (elementType?)

variable {values : String → Option Json} {type inner : TypeRef}

theorem fill_null : fill values type .null = coerceLiteral type .null := by
  cases type <;> rfl

theorem fill_list (htype : elementType? type = some inner) (items : List Literal)
    : fill values type (.list items) = do return .array (← items.mapM (fill values inner)) := by
  cases type with
  | named name => cases htype
  | list element =>
    cases htype
    rfl
  | nonNull type =>
    cases type <;> cases htype
    rfl

theorem fill_single (htype : elementType? type = some inner) {l : Literal}
    (hvariable : ∀ name, l ≠ .variable name) (hnull : l ≠ .null) (hlist : ∀ items, l ≠ .list items)
    : fill values type l = do return .array [← fill values inner l] := by
  cases l with
  | «variable» name => exact absurd rfl (hvariable name)
  | null => exact absurd rfl hnull
  | list items => exact absurd rfl (hlist items)
  | _ =>
    cases type with
    | named name => cases htype
    | list element =>
      cases htype
      rfl
    | nonNull type =>
      cases type <;> cases htype
      rfl

theorem fill_constant (htype : elementType? type = none) {l : Literal}
    (hvariable : ∀ name, l ≠ .variable name)
    : fill values type l = coerceLiteral type l := by
  cases l with
  | «variable» name => exact absurd rfl (hvariable name)
  | _ =>
    cases type with
    | named name => rfl
    | list element => cases htype
    | nonNull type =>
      cases type with
      | list element => cases htype
      | _ => rfl

theorem coerceLiteral_list (htype : elementType? type = some inner) (items : List Literal)
    : coerceLiteral type (.list items) = do
        return .array (← items.mapM (coerceLiteral inner)) := by
  cases type with
  | named name => cases htype
  | list element =>
    cases htype
    rfl
  | nonNull type =>
    cases type <;> cases htype
    rfl

theorem coerceLiteral_single (htype : elementType? type = some inner) {l : Literal}
    (hnull : l ≠ .null) (hlist : ∀ items, l ≠ .list items)
    : coerceLiteral type l = do return .array [← coerceLiteral inner l] := by
  cases l with
  | null => exact absurd rfl hnull
  | list items => exact absurd rfl (hlist items)
  | _ =>
    cases type with
    | named name => cases htype
    | list element =>
      cases htype
      rfl
    | nonNull type =>
      cases type <;> cases htype
      rfl

theorem fill_eq_coerceLiteral {l : Literal} (h : l.variableNames = [])
    : fill values type l = coerceLiteral type l := by
  induction type using TypeRef.element_induction generalizing l with
  | h type ih =>
    have hvariable (name : String) : l ≠ .variable name := by
      rintro rfl
      cases h
    cases htype : elementType? type with
    | none => exact fill_constant htype hvariable
    | some inner =>
      by_cases hnull : l = .null
      . subst hnull
        exact fill_null
      . cases l with
        | list items =>
          rw [fill_list htype, coerceLiteral_list htype]
          have hitems : ∀ item ∈ items, fill values inner item = coerceLiteral inner item :=
            fun item hitem => ih inner htype (Literal.variableNames_list_eq_nil_iff.mp h item hitem)
          rw [mapM_congr hitems]
        | _ =>
          rw [fill_single htype hvariable hnull (by simp),
            coerceLiteral_single htype hnull (by simp), ih inner htype h]

end Coercion

/-- A template for what is written, which comes in a run to what is filled in. -/
structure Template.Fills (bindings : Json.Members) (type : TypeRef) (l : Literal)
    (template : Template)
    : Prop where
  value : Coercion.fill bindings.get? type l = .ok (template.evaluate bindings)
  hole : ∀ name, template = .variable name ↔ l = .variable name

theorem Template.evaluate_ofList (bindings : Json.Members) (items : List Template)
    : (ofList items).evaluate bindings = .array (items.map (·.evaluate bindings)) := by
  unfold ofList
  split
  . next values hvalues =>
    rw [Compile.mapM_const?_eq_some hvalues, List.map_map]
    exact congrArg Json.array (List.map_id values).symm
  . rw [evaluate, Compile.evaluateItems_eq_map]

theorem Template.ofList_ne_variable (items : List Template) (name : String)
    : ofList items ≠ .variable name := by
  unfold ofList
  split <;> exact Template.noConfusion

namespace Compile

open Checked (bind_eq_pure_iff pure_eq_pure_iff)

section Values

variable {env : Env} {argument : String} {position : Position} {type inner : TypeRef}
  {hasDefault : Bool} {bindings : Json.Members}

theorem compileValue_null
    : compileValue env argument position type hasDefault .null
        = constant type .null argument position := by
  cases type <;> rfl

theorem compileValue_list (htype : elementType? type = some inner) (items : List Literal)
    : compileValue env argument position type hasDefault (.list items) = do
        return (← collect (compileValue env argument position inner false) items).map .ofList := by
  cases type with
  | named name => cases htype
  | list element =>
    cases htype
    rfl
  | nonNull type =>
    cases type <;> cases htype
    rfl

theorem compileValue_single (htype : elementType? type = some inner) {l : Literal}
    (hvariable : ∀ name, l ≠ .variable name) (hnull : l ≠ .null) (hlist : ∀ items, l ≠ .list items)
    : compileValue env argument position type hasDefault l = do
        return (← compileValue env argument position inner false l).map
          fun template => .ofList [template] := by
  cases l with
  | «variable» name => exact absurd rfl (hvariable name)
  | null => exact absurd rfl hnull
  | list items => exact absurd rfl (hlist items)
  | _ =>
    cases type with
    | named name => cases htype
    | list element =>
      cases htype
      rfl
    | nonNull type =>
      cases type <;> cases htype
      rfl

theorem compileValue_constant (htype : elementType? type = none) {l : Literal}
    (hvariable : ∀ name, l ≠ .variable name)
    : compileValue env argument position type hasDefault l = constant type l argument position := by
  cases l with
  | «variable» name => exact absurd rfl (hvariable name)
  | _ =>
    cases type with
    | named name => rfl
    | list element => cases htype
    | nonNull type =>
      cases type with
      | list element => cases htype
      | _ => rfl

theorem fills_constant {l : Literal} (hvariable : ∀ name, l ≠ .variable name)
    (h : Coercion.fill bindings.get? type l = Coercion.coerceLiteral type l)
    : Checked.Gives (Template.Fills bindings type l) (constant type l argument position) := by
  intro herrors
  unfold constant at herrors ⊢
  split at herrors
  . next v hv => exact ⟨.const v, rfl, h.trans hv, fun name => iff_of_false nofun (hvariable name)⟩
  . cases herrors

theorem fills_ofList (htype : elementType? type = some inner) {items : List Literal}
    {templates : List Template} (h : List.Forall₂ (Template.Fills bindings inner) items templates)
    : Template.Fills bindings type (.list items) (.ofList templates) := by
  refine ⟨?_, fun name => iff_of_false (Template.ofList_ne_variable _ _) nofun⟩
  have hitems : items.mapM (Coercion.fill bindings.get? inner)
      = .ok (templates.map (·.evaluate bindings)) := by
    induction h with
    | nil => rfl
    | cons hfirst _ ih =>
      rw [List.mapM_cons, hfirst.value, ih]
      rfl
  rw [Coercion.fill_list htype, hitems, Template.evaluate_ofList]
  rfl

theorem fills_compileValue (bindings : Json.Members) (type : TypeRef) (hasDefault : Bool)
    (l : Literal)
    : Checked.Gives (Template.Fills bindings type l)
        (compileValue env argument position type hasDefault l) := by
  induction type using TypeRef.element_induction generalizing hasDefault l with
  | h type ih =>
    by_cases hvariable : ∃ name, l = .variable name
    . obtain ⟨name, rfl⟩ := hvariable
      intro herrors
      unfold compileValue at herrors ⊢
      rw [Checked.errors_bind_eq_nil_iff] at herrors
      rw [Checked.value_bind, if_pos (checkVariableUse_errors herrors.1)]
      refine ⟨.variable name, rfl, ?_, fun other => by simp⟩
      cases type <;> rfl
    . rw [not_exists] at hvariable
      cases htype : elementType? type with
      | none =>
        rw [compileValue_constant htype hvariable]
        exact fills_constant hvariable (Coercion.fill_constant htype hvariable)
      | some inner =>
        by_cases hnull : l = .null
        . subst hnull
          rw [compileValue_null]
          exact fills_constant hvariable Coercion.fill_null
        . by_cases hlist : ∃ items, l = .list items
          . obtain ⟨items, rfl⟩ := hlist
            rw [compileValue_list htype]
            exact (gives_collect_forall₂ fun item _ => ih inner htype false item).map
              fun templates => fills_ofList htype
          . rw [not_exists] at hlist
            rw [compileValue_single htype hvariable hnull hlist]
            refine (ih inner htype false l).map fun template h => ?_
            refine ⟨?_, fun name => iff_of_false (Template.ofList_ne_variable _ _) (hvariable name)⟩
            rw [Coercion.fill_single htype hvariable hnull hlist, h.value, Template.evaluate_ofList]
            rfl

end Values

structure ArgumentComes (bindings : Json.Members) (argument : ArgumentDef)
    (written : Option Literal) (planned : ArgumentPlan)
    : Prop where
  type : planned.type = argument.type
  value : planned.value? bindings = argument.value? bindings.get? written
  coerces : ∀ l ∈ written, ∃ v, Coercion.fill bindings.get? argument.type l = .ok v

theorem comes_of_fills {bindings : Json.Members} {argument : ArgumentDef} {l : Literal}
    {template : Template} (h : Template.Fills bindings argument.type l template) (name : String)
    : ArgumentComes bindings argument (some l)
        ⟨name, argument.type, some template, argument.default⟩ := by
  refine ⟨rfl, ?_, ?_⟩
  . cases template with
    | «variable» name =>
      cases (h.hole name).mp rfl
      rfl
    | _ =>
      have hvariable (name : String) : l ≠ .variable name := by simp [← h.hole]
      rw [ArgumentDef.value?_some hvariable, h.value]
      rfl
  . rintro _ ⟨⟩
    exact ⟨_, h.value⟩

theorem comes_of_compileArgument {env : Env} {node : FieldNode} {coordinate name : String}
    {argument : ArgumentDef} {planned : ArgumentPlan} (bindings : Json.Members)
    (h : compileArgument env node coordinate name argument = pure planned)
    : planned.name = name
        ∧ ArgumentComes bindings argument (Ordered.get? node.arguments name) planned := by
  unfold compileArgument at h
  split at h
  . next hnone =>
    obtain ⟨herrors, hvalue⟩ := Checked.eq_pure_iff.mp h
    rw [hnone]
    split at herrors
    . cases herrors
    . next hrequired =>
      rw [if_neg hrequired] at hvalue
      cases hvalue
      exact ⟨rfl, rfl, rfl, nofun⟩
  . next l hl =>
    obtain ⟨template, htemplate, h⟩ := bind_eq_pure_iff.mp h
    cases pure_eq_pure_iff.mp h
    obtain ⟨herrors, hvalue⟩ := Checked.eq_pure_iff.mp htemplate
    obtain ⟨_, hwritten, hfills⟩ := fills_compileValue bindings _ _ l herrors
    cases hvalue.symm.trans hwritten
    rw [hl]
    exact ⟨rfl, comes_of_fills hfills name⟩

end Compile

namespace ArgumentPlan

variable {argument : ArgumentPlan} {rest : List ArgumentPlan} {bindings : Json.Members}

theorem evaluateAll_cons_error {fault : ArgumentFault}
    (h : argument.evaluate bindings = .error fault)
    : evaluateAll (argument :: rest) bindings = .error fault := by
  unfold evaluateAll
  rw [List.mapM_cons, h]
  rfl

theorem evaluateAll_cons_ok {v : Option Json} (h : argument.evaluate bindings = .ok v)
    : evaluateAll (argument :: rest) bindings
        = (evaluateAll rest bindings).map ((v.map (argument.name, ·)).toList ++ ·) := by
  unfold evaluateAll
  rw [List.mapM_cons, h]
  cases rest.mapM fun argument => do return (argument.name, ← argument.evaluate bindings) with
  | error fault => rfl
  | ok values =>
    cases v with
    | none => rfl
    | some v => rfl

end ArgumentPlan

namespace Compile

theorem evaluateAll_map {bindings : Json.Members} {written : Arguments}
    {planned : String × ArgumentDef → ArgumentPlan} {declared : Ordered ArgumentDef}
    (h : ∀ entry ∈ declared, (planned entry).name = entry.1
      ∧ ArgumentComes bindings entry.2 (Ordered.get? written entry.1) (planned entry))
    : ArgumentPlan.evaluateAll (declared.map planned) bindings
        = ArgumentDef.outcome bindings.get? declared written := by
  induction declared with
  | nil => rfl
  | cons entry rest ih =>
    obtain ⟨name, argument⟩ := entry
    obtain ⟨⟨hname, hcomes⟩, hrest⟩ := List.forall_mem_cons.mp h
    have hevaluate : (planned (name, argument)).evaluate bindings
        = if argument.refuses bindings.get? (Ordered.get? written name) then
            .error ⟨name, argument.type⟩
          else .ok (argument.value? bindings.get? (Ordered.get? written name)) := by
      rw [ArgumentPlan.evaluate, hcomes.type, hcomes.value, hname]
      rfl
    rw [List.map_cons]
    cases hrefuses : argument.refuses bindings.get? (Ordered.get? written name) with
    | true =>
      rw [hrefuses, if_pos rfl] at hevaluate
      rw [ArgumentPlan.evaluateAll_cons_error hevaluate, ArgumentDef.outcome_cons_refused hrefuses]
    | false =>
      rw [hrefuses, if_neg Bool.false_ne_true] at hevaluate
      rw [ArgumentPlan.evaluateAll_cons_ok hevaluate, ArgumentDef.outcome_cons hrefuses,
        ih hrest, hname]

theorem outcome_of_compileArguments {env : Env} {node : FieldNode} {coordinate : String}
    {declared : Ordered ArgumentDef} {arguments : List ArgumentPlan} (bindings : Json.Members)
    (h : compileArguments env node coordinate declared = pure arguments)
    : ArgumentPlan.evaluateAll arguments bindings
          = ArgumentDef.outcome bindings.get? declared node.arguments
        ∧ ArgumentDef.Coerces bindings.get? declared node.arguments := by
  unfold compileArguments at h
  obtain ⟨_, _, h⟩ := Checked.bind_eq_pure_iff.mp h
  obtain ⟨herrors, rfl⟩ := Checked.mapM_eq_pure_iff.mp h
  have hcomes := fun entry hentry => comes_of_compileArgument bindings
    (Checked.eq_pure_iff.mpr ⟨herrors entry hentry, rfl⟩)
  constructor
  . exact evaluateAll_map hcomes
  . exact fun name argument hmem => (hcomes (name, argument) hmem).2.coerces

theorem value?_of_coerce {definition : VariableDefinition} {spec : VariableSpec}
    (hdeclares : spec.Declares definition) {given v : Option Json} (h : spec.coerce given = .ok v)
    : v = definition.value? given := by
  have hrel := hdeclares.default
  unfold VariableSpec.coerce at h
  rw [hdeclares.type] at h
  split at h
  . unfold VariableDefinition.value?
    generalize definition.default = written at hrel
    generalize spec.default = default at hrel h
    cases hrel with
    | none =>
      dsimp only at h
      split at h <;> cases h
      rfl
    | some hok =>
      cases h
      rw [Option.bind_some, hok]
      rfl
  . next given =>
    split at h
    . cases h
    . split at h
      . next w hw =>
        cases h
        rw [VariableDefinition.value?, hw]
        rfl
      . cases h

theorem value?_of_coerceAll {schema : Schema} {document : Document} {operation : Operation}
    {specs : List VariableSpec}
    (hdeclared : Env.Declared ⟨schema, document, operation.variableDefinitions⟩ specs)
    {provided bindings : Json.Members}
    (hcoerce : VariableSpec.coerceAll specs provided = .ok bindings)
    : bindings.get? = operation.value? provided := by
  funext name
  obtain ⟨hvalues, hothers⟩ :=
    VariableSpec.get?_of_coerceAll_go hcoerce hdeclared.nodup fun _ _ => rfl
  unfold Operation.value?
  cases hfind : operation.variableDefinitions.find? fun definition => definition.name = name with
  | none =>
    apply hothers
    intro hmem
    obtain ⟨spec, hspec, hname⟩ := List.mem_map.mp hmem
    obtain ⟨definition, hdefinition, hdeclares⟩ :=
      exists_mem_of_forall₂ hdeclared.declares.flip hspec
    have hne := List.find?_eq_none.mp hfind definition hdefinition
    exact hne (by simp [← hdeclares.name, hname])
  | some definition =>
    obtain ⟨spec, hspec, rfl, hdeclares⟩ := hdeclared.exists_spec hfind
    exact value?_of_coerce hdeclares (hvalues spec hspec)

end Compile
end GraphGateway

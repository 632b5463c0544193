import GraphGateway.Proofs.Plan.Evaluation

/-!
This module contains the conditions that stand in a plan, and what the variables are bound to
that they read: to booleans, unless a request gives null for a variable that may be null
because it has a default.
-/

namespace GraphGateway

namespace SelectionItem

mutual

def allConditions : SelectionItem → List Condition
  | field head none => head.conditions
  | field head (some children) => head.conditions ++ allConditionsIn children
  | group conditions items => conditions ++ allConditionsIn items

def allConditionsIn : List SelectionItem → List Condition
  | [] => []
  | item :: rest => item.allConditions ++ allConditionsIn rest

end

theorem exists_of_mem_allConditionsIn {condition : Condition} {items : List SelectionItem}
    (h : condition ∈ allConditionsIn items)
    : ∃ item ∈ items, condition ∈ item.allConditions := by
  induction items with
  | nil => cases h
  | cons item rest ih =>
    rw [allConditionsIn, List.mem_append] at h
    obtain h | h := h
    . exact ⟨item, List.mem_cons_self, h⟩
    . obtain ⟨other, hother, h⟩ := ih h
      exact ⟨other, List.mem_cons_of_mem _ hother, h⟩

theorem WellFormed.conditionOk {schema : Schema} {ArgumentOk : ArgumentPlan → Prop}
    {ConditionOk : Condition → Prop} {object : ObjectType} {item : SelectionItem}
    (h : item.WellFormed schema ArgumentOk ConditionOk object)
    : ∀ condition ∈ item.allConditions, ConditionOk condition := by
  have hall {items : List SelectionItem}
      (hitems : ∀ item ∈ items, ∀ condition ∈ item.allConditions, ConditionOk condition)
      (condition : Condition) (hmem : condition ∈ allConditionsIn items)
      : ConditionOk condition := by
    obtain ⟨item, hitem, hmem⟩ := exists_of_mem_allConditionsIn hmem
    exact hitems item hitem condition hmem
  induction h with
  | typename hhead => exact hhead.conditionOk
  | leaf hhead => exact hhead.conditionOk
  | nested hhead _ _ ih => exact List.forall_mem_append.mpr ⟨hhead.conditionOk, hall ih⟩
  | group hconditions _ ih => exact List.forall_mem_append.mpr ⟨hconditions, hall ih⟩

end SelectionItem

def Plan.conditions (plan : Plan) : List Condition :=
  SelectionItem.allConditionsIn plan.selection

namespace Coercion

theorem coerceValue_boolean {type : TypeRef} (htype : type.IsBoolean) {v w : Json}
    (h : coerceValue type v = .ok w)
    : w = v ∧ (v = .null ∨ ∃ b, v = .bool b) := by
  induction type with
  | named name =>
    cases htype
    unfold coerceValue at h
    rw [Scalar.ofName?_name] at h
    split at h
    . next hnull =>
      cases h
      rw [Json.isNull_iff] at hnull
      exact ⟨hnull.symm, .inl hnull⟩
    . have h := mapError_eq_ok h
      cases v with
      | bool b =>
        cases h
        exact ⟨rfl, .inr ⟨b, rfl⟩⟩
      | _ => cases h
  | list inner => cases htype
  | nonNull inner ih =>
    unfold coerceValue at h
    split at h
    . cases h
    . exact ih htype h

theorem coerceLiteral_boolean {type : TypeRef} (htype : type.IsBoolean) {l : Literal} {w : Json}
    (h : coerceLiteral type l = .ok w)
    : (∃ b, w = .bool b) ∨ l.isNull = true ∧ type.isNonNull = false := by
  induction type with
  | named name =>
    cases htype
    unfold coerceLiteral at h
    rw [Scalar.ofName?_name] at h
    split at h
    . next hnull => exact .inr ⟨hnull, rfl⟩
    . have h := mapError_eq_ok h
      cases l with
      | boolean b =>
        cases h
        exact .inl ⟨b, rfl⟩
      | _ => cases h
  | list inner => cases htype
  | nonNull inner ih =>
    unfold coerceLiteral at h
    split at h
    . cases h
    . next hnull =>
      obtain hbool | ⟨hl, _⟩ := ih htype h
      . exact .inl hbool
      . exact absurd hl hnull

end Coercion

namespace Compile

theorem defaults_of_nullable {definition : VariableDefinition}
    (hfits : typeFits definition.type (expectedType definition booleanType false) = true)
    (hnullable : definition.type.isNonNull = false)
    : definition.type = .named Scalar.boolean.name
        ∧ definition.default.any (!·.isNull) = true := by
  have hboolean := isBoolean_of_typeFits hfits (isBoolean_expectedType definition)
  constructor
  . cases htype : definition.type with
    | named name =>
      rw [htype] at hboolean
      exact congrArg TypeRef.named hboolean
    | list inner =>
      rw [htype] at hboolean
      cases hboolean
    | nonNull inner =>
      rw [htype] at hnullable
      cases hnullable
  . have hlocation := isNonNull_of_typeFits hfits hnullable
    unfold expectedType at hlocation
    dsimp only at hlocation
    split at hlocation
    . next hrelaxed =>
      simp only [Bool.and_eq_true, Bool.or_false] at hrelaxed
      exact hrelaxed.2
    . cases hlocation

end Compile

namespace VariableSpec

section Flag

variable {definition : VariableDefinition} {spec : VariableSpec}
  (hdeclares : spec.Declares definition)
  (hfits : Compile.typeFits definition.type
    (Compile.expectedType definition Compile.booleanType false) = true)

include hdeclares hfits

theorem boolean_of_default {d : Json} (hd : spec.default = some d) : ∃ b, d = .bool b := by
  have hboolean := Compile.isBoolean_of_typeFits hfits (Compile.isBoolean_expectedType definition)
  have hrel := hdeclares.default
  rw [hd] at hrel
  cases hl : definition.default with
  | none =>
    rw [hl] at hrel
    cases hrel
  | some l =>
    rw [hl] at hrel
    obtain ⟨hrel⟩ := hrel
    obtain hbool | ⟨hnull, htype⟩ := Coercion.coerceLiteral_boolean hboolean hrel
    . exact hbool
    . have hany := (Compile.defaults_of_nullable hfits htype).2
      rw [hl] at hany
      simp [hnull] at hany

theorem exists_boolean_default (hnullable : definition.type.isNonNull = false)
    : ∃ b, spec.default = some (.bool b) := by
  have hrel := hdeclares.default
  have hany := (Compile.defaults_of_nullable hfits hnullable).2
  cases hd : spec.default with
  | none =>
    rw [hd] at hrel
    cases hl : definition.default with
    | none =>
      rw [hl] at hany
      cases hany
    | some l =>
      rw [hl] at hrel
      cases hrel
  | some d =>
    obtain ⟨b, rfl⟩ := boolean_of_default hdeclares hfits hd
    exact ⟨b, rfl⟩

theorem boolean_of_coerce {given v : Option Json} (h : spec.coerce given = .ok v)
    : (given ≠ some .null → ∃ b, v = some (.bool b))
        ∧ (given = some .null → v = some .null ∧ spec.type = .named Scalar.boolean.name
          ∧ ∃ b, spec.default = some (.bool b)) := by
  unfold coerce at h
  rw [hdeclares.type] at h ⊢
  split at h
  . refine ⟨fun _ => ?_, fun hgiven => by cases hgiven⟩
    split at h
    . next d hd =>
      cases h
      obtain ⟨b, rfl⟩ := boolean_of_default hdeclares hfits hd
      exact ⟨b, rfl⟩
    . next hd =>
      split at h
      . cases h
      . next htype =>
        obtain ⟨b, hb⟩ := exists_boolean_default hdeclares hfits (Bool.eq_false_iff.mpr htype)
        cases hd.symm.trans hb
  . next given =>
    split at h
    . cases h
    . next hrefused =>
      split at h
      . next w hw =>
        cases h
        have hboolean :=
          Compile.isBoolean_of_typeFits hfits (Compile.isBoolean_expectedType definition)
        obtain ⟨rfl, hvalue⟩ := Coercion.coerceValue_boolean hboolean hw
        constructor
        . intro hgiven
          obtain rfl | ⟨b, rfl⟩ := hvalue
          . exact absurd rfl hgiven
          . exact ⟨b, rfl⟩
        . rintro ⟨⟩
          have hnullable : definition.type.isNonNull = false := by
            simpa [Json.isNull] using hrefused
          exact ⟨rfl, (Compile.defaults_of_nullable hfits hnullable).1,
            exists_boolean_default hdeclares hfits hnullable⟩
      . cases h

end Flag

end VariableSpec

namespace Plan

open Compile

theorem exists_declared_of_compile {schema : Schema} {document : Document} {plan : Plan}
    (h : compile schema document = .ok plan)
    : ∃ env : Env, env.Declared plan.specs
        ∧ ∀ condition ∈ plan.conditions, env.IsFlag condition := by
  obtain ⟨operation, root, _, hdeclared, hselection⟩ := exists_parts_of_compile h
  refine ⟨⟨schema, document, operation.variableDefinitions⟩, hdeclared, ?_⟩
  obtain ⟨herrors, hvalue⟩ := Checked.eq_pure_iff.mp hselection
  intro condition hcondition
  obtain ⟨item, hitem, hcondition⟩ := SelectionItem.exists_of_mem_allConditionsIn hcondition
  rw [← hvalue] at hitem
  -- Nothing is asked of nodes and arguments.
  have hchecks : Env.Checks ⟨schema, document, operation.variableDefinitions⟩ (fun _ => True)
      (fun _ => True) :=
    fun _ _ _ _ _ _ => trivial
  have hwell := wellFormed_compileSet hchecks (fun _ _ _ _ => trivial) _ _ _ root
    (fun _ _ => trivial) herrors
  exact (hwell item hitem).conditionOk condition hcondition

/--
A condition reads a boolean exactly if the request does not give null for the variable. It can
give null only for a variable that may be null, and that stands in a condition because its
default is a boolean.
-/
theorem reads_boolean {schema : Schema} {document : Document} {plan : Plan}
    (hcompile : compile schema document = .ok plan) {provided bindings : Json.Members}
    (hcoerce : VariableSpec.coerceAll plan.specs provided = .ok bindings)
    : ∀ condition ∈ plan.conditions,
        ((∃ b, bindings.get? condition.variableName = some (.bool b))
            ↔ provided.get? condition.variableName ≠ some .null)
          ∧ (provided.get? condition.variableName = some .null →
              bindings.get? condition.variableName = some .null
                ∧ ∃ spec ∈ plan.specs, spec.name = condition.variableName
                  ∧ spec.type = .named Scalar.boolean.name
                  ∧ ∃ b, spec.default = some (.bool b)) := by
  intro condition hcondition
  obtain ⟨env, hdeclared, hflags⟩ := exists_declared_of_compile hcompile
  obtain ⟨definition, hfind, hfits⟩ := hflags condition hcondition
  obtain ⟨spec, hspec, hname, hdeclares⟩ := hdeclared.exists_spec hfind
  have hbound := (VariableSpec.get?_of_coerceAll_go hcoerce hdeclared.nodup fun _ _ => rfl).1
    spec hspec
  rw [hname] at hbound
  obtain ⟨hboolean, hnull⟩ := VariableSpec.boolean_of_coerce hdeclares hfits hbound
  refine ⟨⟨?_, hboolean⟩, ?_⟩
  . rintro ⟨b, hb⟩ hgiven
    cases hb.symm.trans (hnull hgiven).1
  . intro hgiven
    obtain ⟨hvalue, htype, hdefault⟩ := hnull hgiven
    exact ⟨hvalue, spec, hspec, hname, htype, hdefault⟩

end Plan

namespace Library

theorem reads_boolean_authorPlan
    : Plan.compile (schema .null .sync) authorDocument = .ok (authorPlan .null .sync)
        ∧ VariableSpec.coerceAll (authorPlan .null .sync).specs
            [("id", .string "1"), ("full", .bool true)]
          = .ok [("id", .string "1"), ("full", .bool true)]
        ∧ .includeIf "full" ∈ (authorPlan .null .sync).conditions
        ∧ ((∃ b, Ordered.get? [("id", Json.string "1"), ("full", .bool true)] "full"
              = some (.bool b))
            ↔ Ordered.get? [("id", Json.string "1"), ("full", .bool true)] "full"
                ≠ some .null) := by
  have hcoerce : VariableSpec.coerceAll (authorPlan .null .sync).specs
      [("id", .string "1"), ("full", .bool true)]
        = .ok [("id", .string "1"), ("full", .bool true)] := by
    cbv
  have hmem : .includeIf "full" ∈ (authorPlan .null .sync).conditions :=
    List.mem_singleton_self _
  exact ⟨compile_authorDocument .null .sync, hcoerce, hmem,
    (Plan.reads_boolean (compile_authorDocument .null .sync) hcoerce _ hmem).1⟩

/-- The default lets the variable stand in a condition, where null counts as false in a run. -/
theorem not_reads_boolean
    : Plan.compile (schema .null .sync) authorDocument = .ok (authorPlan .null .sync)
        ∧ VariableSpec.coerceAll (authorPlan .null .sync).specs
            [("id", .string "1"), ("full", .null)]
          = .ok [("id", .string "1"), ("full", .null)]
        ∧ .includeIf "full" ∈ (authorPlan .null .sync).conditions
        ∧ ¬ ∃ b, Ordered.get? [("id", Json.string "1"), ("full", .null)] "full"
            = some (.bool b) := by
  refine ⟨compile_authorDocument .null .sync, ?_, List.mem_singleton_self _, ?_⟩
  . cbv
  . rintro ⟨b, hb⟩
    cases hb

end Library

end GraphGateway

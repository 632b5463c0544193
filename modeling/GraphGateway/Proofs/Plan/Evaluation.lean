import GraphGateway.Execution.Unfold
import GraphGateway.Plan.Variables
import GraphGateway.Proofs.Plan.Declarations

/-!
This module contains which values the arguments of a plan come to in a run, given the variables that
the plan coerces for it.
-/

namespace GraphGateway

mutual

/-- The variables of a template of a type that stand where null is forbidden. -/
def Template.guarded (type : TypeRef) : Template → List String
  | .const _ => []
  | .variable name => if type.isNonNull then [name] else []
  | .list items =>
    match Compile.elementType? type with
    | some inner => guardedAll inner items
    | none => []

def Template.guardedAll (type : TypeRef) : List Template → List String
  | [] => []
  | item :: rest => item.guarded type ++ guardedAll type rest

end

theorem Template.guarded_subset_guardedAll {type : TypeRef} {item : Template}
    {items : List Template} (h : item ∈ items)
    : item.guarded type ⊆ guardedAll type items :=
  subset_of_mem (fun _ _ => by rw [guardedAll]) h

/-- An argument that is a variable itself is refused if it is null; a list is not looked into. -/
def ArgumentPlan.guarded (argument : ArgumentPlan) : List String :=
  match argument.template with
  | none | some (.variable _) => []
  | some template => template.guarded argument.type

/-- The value of a variable in a run, or none if it is absent, for what is given for it. -/
def VariableDefinition.Bound (strict : Prop) (definition : VariableDefinition)
    (given : Option Json)
    : Option Json → Prop
  | some v => definition.type.Accepts strict v
      ∧ (strict → given ≠ some .null → definition.default.any (!·.isNull) = true → v ≠ .null)
  | none => definition.type.isNonNull = false ∧ definition.default = none

namespace Compile

variable {env : Env} {strict : Prop} {provided bindings : Json.Members}

theorem isNonNull_of_typeFits {type location : TypeRef} (hfits : typeFits type location = true)
    (h : type.isNonNull = false)
    : location.isNonNull = false := by
  fun_cases typeFits type location with
  | case1 => cases h
  | case2 => cases h
  | case3 => simp_all [typeFits]
  | case4 => rfl
  | case5 => rfl
  | case6 => simp_all [typeFits]

theorem accepts_of_use {definition : VariableDefinition} {location : TypeRef} {hasDefault : Bool}
    {v : Json}
    (hfits : typeFits definition.type (expectedType definition location hasDefault) = true)
    (h : definition.type.Accepts strict v)
    (hnull : (definition.default.any (!·.isNull) || hasDefault) = true →
      location.isNonNull = true → strict → v ≠ .null)
    : location.Accepts strict v := by
  unfold expectedType at hfits
  dsimp only at hfits
  split at hfits
  . next hrelaxed =>
    simp only [Bool.and_eq_true] at hrelaxed
    apply TypeRef.accepts_of_nullable (TypeRef.accepts_of_typeFits hfits h)
    exact fun hlocation => hnull hrelaxed.2 hlocation
  . exact TypeRef.accepts_of_typeFits hfits h

def Env.Binds (env : Env) (strict : Prop) (provided bindings : Json.Members) : Prop :=
  ∀ name definition, env.findVariable name = some definition →
    definition.Bound strict (provided.get? name) (bindings.get? name)

theorem evaluateItems_eq_map (items : List Template)
    : Template.evaluateItems bindings items = items.map (·.evaluate bindings) := by
  induction items with
  | nil => rfl
  | cons item rest ih => rw [Template.evaluateItems, ih, List.map_cons]

theorem Env.Types.accepts_evaluate (hbinds : env.Binds strict provided bindings)
    {type : TypeRef} {hasDefault : Bool} {template : Template}
    (h : env.Types strict type hasDefault template)
    (hguarded : strict → ∀ name ∈ template.guarded type, provided.get? name ≠ some .null)
    (hdefault : hasDefault = true → ∀ name, template ≠ .variable name)
    : type.Accepts strict (template.evaluate bindings) := by
  induction h with
  | const h => exact h
  | @«variable» type hasDefault name definition hfind hfits =>
    -- Only an element is left, since an argument that is a variable may be left to its default.
    have hno : hasDefault = false := Bool.eq_false_iff.mpr fun h => hdefault h name rfl
    subst hno
    have hbound := hbinds name definition hfind
    unfold Template.evaluate
    cases hget : bindings.get? name with
    | some v =>
      rw [hget] at hbound
      apply accepts_of_use hfits hbound.1
      intro hdefined hnonNull hstrict
      have hgiven := hguarded hstrict name (by simp [Template.guarded, hnonNull])
      exact hbound.2 hstrict hgiven (by simpa using hdefined)
    | none =>
      rw [hget] at hbound
      obtain ⟨hnullable, hnone⟩ := hbound
      -- Without a default the location is the expected type, and a nullable type fits only there.
      simp only [expectedType, hnone, Option.any_none, Bool.or_self, Bool.and_false] at hfits
      exact TypeRef.accepts_null (isNonNull_of_typeFits hfits hnullable)
  | list htype _ ih =>
    rw [Template.evaluate, evaluateItems_eq_map]
    apply TypeRef.accepts_array htype
    intro v hv
    obtain ⟨item, hitem, rfl⟩ := List.mem_map.mp hv
    refine ih item hitem ?_ (fun h => by cases h)
    intro hstrict name hname
    apply hguarded hstrict name
    simp only [Template.guarded, htype]
    exact Template.guarded_subset_guardedAll hitem hname

end Compile

structure ArgumentPlan.Sound (strict : Prop) (argument : ArgumentPlan) (v : Option Json)
    : Prop where
  accepts : ∀ w ∈ v, argument.type.Accepts strict w
  nonNull : argument.type.isNonNull = true → ∃ w, v = some w ∧ w ≠ .null

namespace ArgumentPlan

open Compile

variable {env : Env} {strict : Prop} {provided bindings : Json.Members}
  {argument : ArgumentPlan}

theorem nonNull_of_evaluate {v : Option Json} (h : argument.evaluate bindings = .ok v)
    : v = argument.value? bindings
        ∧ (argument.type.isNonNull = true → ∃ w, v = some w ∧ w ≠ .null) := by
  unfold evaluate at h
  dsimp only at h
  split at h
  . cases h
  . next hcheck =>
    cases h
    refine ⟨rfl, fun hnonNull => ?_⟩
    rw [hnonNull, Bool.true_and] at hcheck
    cases hvalue : argument.value? bindings with
    | none => simp [hvalue] at hcheck
    | some w =>
      refine ⟨w, rfl, ?_⟩
      rintro rfl
      simp [hvalue, Json.isNull] at hcheck

theorem sound_of_evaluate (hbinds : env.Binds strict provided bindings)
    (htypes : env.TypesArgument strict argument)
    (hguarded : strict → ∀ name ∈ argument.guarded, provided.get? name ≠ some .null)
    (hdefault : ∀ d ∈ argument.default, argument.type.Accepts strict d) {v : Option Json}
    (h : argument.evaluate bindings = .ok v)
    : argument.Sound strict v := by
  obtain ⟨hvalue, hnonNull⟩ := nonNull_of_evaluate h
  refine ⟨?_, hnonNull⟩
  intro w hw
  rw [hw] at hvalue hnonNull
  unfold value? at hvalue
  split at hvalue
  . exact hdefault w hvalue.symm
  . next name htemplate =>
    cases htypes _ htemplate with
    | @«variable» _ _ _ definition hfind hfits =>
      have hbound := hbinds name definition hfind
      cases hget : bindings.get? name with
      | some u =>
        rw [hget] at hbound hvalue
        cases hvalue
        apply accepts_of_use hfits hbound.1
        -- A null is let through to where it is forbidden only if it is refused at once.
        intro _ hforbidden _
        obtain ⟨_, heq, hne⟩ := hnonNull hforbidden
        cases heq
        exact hne
      | none =>
        rw [hget] at hvalue
        exact hdefault w hvalue.symm
  . next template hvariable htemplate =>
    cases hvalue
    refine (htypes template htemplate).accepts_evaluate hbinds ?_ fun _ name => hvariable name
    intro hstrict name hname
    apply hguarded hstrict name
    unfold guarded
    rw [htemplate]
    cases template with
    | «variable» other => exact absurd rfl (hvariable other)
    | const v => exact hname
    | list items => exact hname

theorem exists_of_mem_evaluateAll {arguments : List ArgumentPlan} {members : Json.Members}
    (h : evaluateAll arguments bindings = .ok members) {name : String} {w : Json}
    (hw : (name, w) ∈ members)
    : ∃ argument ∈ arguments, argument.name = name ∧ argument.evaluate bindings = .ok (some w) := by
  unfold evaluateAll at h
  obtain ⟨values, hvalues, h⟩ := bind_eq_ok h
  cases h
  obtain ⟨⟨_, v⟩, hmem, heq⟩ := List.mem_filterMap.mp hw
  obtain ⟨_, rfl, hpair⟩ := Option.map_eq_some_iff.mp heq
  cases hpair
  obtain ⟨argument, hargument, hok⟩ := mem_of_mapM_eq_ok hvalues _ hmem
  obtain ⟨v, hv, hok⟩ := bind_eq_ok hok
  cases hok
  exact ⟨argument, hargument, rfl, hv⟩

theorem mem_evaluateAll_of_mem {arguments : List ArgumentPlan} {members : Json.Members}
    (h : evaluateAll arguments bindings = .ok members)
    : ∀ argument ∈ arguments, ∃ v, argument.evaluate bindings = .ok v
        ∧ ∀ w ∈ v, (argument.name, w) ∈ members := by
  intro argument hargument
  unfold evaluateAll at h
  obtain ⟨values, hvalues, h⟩ := bind_eq_ok h
  cases h
  obtain ⟨_, hmem, hok⟩ := exists_mem_of_mapM_eq_ok hvalues argument hargument
  obtain ⟨v, hv, hok⟩ := bind_eq_ok hok
  cases hok
  refine ⟨v, hv, ?_⟩
  rintro w rfl
  exact List.mem_filterMap.mpr ⟨_, hmem, rfl⟩

end ArgumentPlan

namespace VariableSpec

variable {strict : Prop} {provided : Json.Members}

theorem get?_of_coerceAll_go {specs : List VariableSpec} {coerced bindings : Json.Members}
    (h : coerceAll.go provided specs coerced = .ok bindings)
    (hnodup : (specs.map (·.name)).Nodup)
    (hfresh : ∀ spec ∈ specs, coerced.get? spec.name = none)
    : (∀ spec ∈ specs, spec.coerce (provided.get? spec.name) = .ok (bindings.get? spec.name))
        ∧ ∀ name, name ∉ specs.map (·.name) → bindings.get? name = coerced.get? name := by
  -- None of the names that are left has been coerced, so that no insertion replaces a value.
  induction specs generalizing coerced with
  | nil =>
    cases h
    simp
  | cons spec rest ih =>
    rw [List.map_cons, List.nodup_cons] at hnodup
    obtain ⟨hspec, hrest⟩ := List.forall_mem_cons.mp hfresh
    unfold coerceAll.go at h
    split at h
    . next hnone =>
      obtain ⟨hall, hothers⟩ := ih h hnodup.2 hrest
      constructor
      . rw [List.forall_mem_cons, hothers spec.name hnodup.1, hspec]
        exact ⟨hnone, hall⟩
      . intro name hname
        exact hothers name fun hmem => hname (List.mem_cons_of_mem _ hmem)
    . next v hsome =>
      have hne : ∀ {other : String}, other ∈ rest.map (·.name) → spec.name ≠ other := by
        rintro _ hmem rfl
        exact hnodup.1 hmem
      have hfresh : ∀ other ∈ rest, (coerced.insert spec.name v).get? other.name = none := by
        intro other hother
        rw [Ordered.get?_insert, if_neg (hne (List.mem_map_of_mem hother))]
        exact hrest other hother
      obtain ⟨hall, hothers⟩ := ih h hnodup.2 hfresh
      constructor
      . rw [List.forall_mem_cons, hothers spec.name hnodup.1, Ordered.get?_insert, if_pos rfl]
        exact ⟨hsome, hall⟩
      . intro name hname
        rw [List.map_cons, List.mem_cons, not_or] at hname
        rw [hothers name hname.2, Ordered.get?_insert, if_neg (Ne.symm hname.1)]
    . split at h <;> cases h

theorem bound_of_coerce {definition : VariableDefinition} {spec : VariableSpec}
    (hdeclares : spec.Declares definition)
    (hfinite : strict → ∀ l ∈ definition.default, l.Finite) {given v : Option Json}
    (h : spec.coerce given = .ok v)
    : definition.Bound strict given v := by
  have hrel := hdeclares.default
  unfold coerce at h
  rw [hdeclares.type] at h
  -- Nothing is given, and there is a default or none; or the value that is given is coerced.
  split at h
  . split at h
    . next d hd =>
      cases h
      rw [hd] at hrel
      cases hl : definition.default with
      | none =>
        rw [hl] at hrel
        cases hrel
      | some l =>
        rw [hl] at hrel hfinite
        obtain ⟨hrel⟩ := hrel
        obtain ⟨haccepts, hnull⟩ := Coercion.coerceLiteral_eq_ok hrel fun hstrict =>
          hfinite hstrict l rfl
        refine ⟨haccepts, fun hstrict _ hdefined => hnull hstrict ?_⟩
        simpa [hl] using hdefined
    . next hd =>
      split at h
      . cases h
      . next hnullable =>
        cases h
        rw [hd] at hrel
        refine ⟨Bool.eq_false_iff.mpr hnullable, ?_⟩
        cases hl : definition.default with
        | none => rfl
        | some l =>
          rw [hl] at hrel
          cases hrel
  . next given =>
    split at h
    . cases h
    . split at h
      . next w hw =>
        cases h
        obtain ⟨haccepts, hnull⟩ : definition.type.Accepts strict w ∧ _ :=
          Coercion.coerceValue_eq_ok hw
        refine ⟨haccepts, fun _ hgiven _ => hnull ?_⟩
        cases given with
        | null => exact absurd rfl hgiven
        | _ => rfl
      . cases h

end VariableSpec

end GraphGateway

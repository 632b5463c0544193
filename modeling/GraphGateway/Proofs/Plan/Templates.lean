import GraphGateway.Proofs.Plan.Acceptance
import GraphGateway.Proofs.Plan.WellFormed

/-!
This module contains the types of the templates that the values of arguments compile to.
-/

namespace GraphGateway

mutual

def Template.variableNames : Template → List String
  | .const _ => []
  | .variable name => [name]
  | .list items => variableNamesAll items

def Template.variableNamesAll : List Template → List String
  | [] => []
  | item :: rest => item.variableNames ++ variableNamesAll rest

end

theorem Template.mem_variableNamesAll {name : String} {items : List Template}
    (h : name ∈ variableNamesAll items)
    : ∃ item ∈ items, name ∈ item.variableNames := by
  induction items with
  | nil => cases h
  | cons item rest ih =>
    rw [variableNamesAll, List.mem_append] at h
    obtain h | h := h
    . exact ⟨item, List.mem_cons_self, h⟩
    . obtain ⟨other, hmem, hname⟩ := ih h
      exact ⟨other, List.mem_cons_of_mem _ hmem, hname⟩

namespace Compile

variable {env : Env} {strict : Prop}

/-- Templates of a type; an argument may have a default, the elements of a list have none. -/
inductive Env.Types (env : Env) (strict : Prop) : TypeRef → Bool → Template → Prop where
  | const {type : TypeRef} {hasDefault : Bool} {v : Json} (h : type.Accepts strict v)
    : Types env strict type hasDefault (.const v)
  | variable {type : TypeRef} {hasDefault : Bool} {name : String}
    {definition : VariableDefinition} (hfind : env.findVariable name = some definition)
    (hfits : typeFits definition.type (expectedType definition type hasDefault) = true)
    : Types env strict type hasDefault (.variable name)
  | list {type inner : TypeRef} {hasDefault : Bool} {items : List Template}
    (htype : elementType? type = some inner)
    (hitems : ∀ item ∈ items, Types env strict inner false item)
    : Types env strict type hasDefault (.list items)

theorem Env.Types.findVariable {type : TypeRef} {hasDefault : Bool} {template : Template}
    (h : env.Types strict type hasDefault template)
    : ∀ name ∈ template.variableNames, ∃ definition, env.findVariable name = some definition := by
  induction h with
  | const => simp [Template.variableNames]
  | «variable» hfind _ =>
    intro name hname
    cases List.mem_singleton.mp hname
    exact ⟨_, hfind⟩
  | list _ _ ih =>
    intro name hname
    obtain ⟨item, hitem, hname⟩ := Template.mem_variableNamesAll hname
    exact ih item hitem name hname

theorem mapM_const?_eq_some {items : List Template} {values : List Json}
    (h : items.mapM Template.const? = some values)
    : items = values.map .const := by
  induction items generalizing values with
  | nil =>
    cases h
    rfl
  | cons item rest ih =>
    rw [List.mapM_cons] at h
    obtain ⟨v, hv, h⟩ := Option.bind_eq_some_iff.mp h
    obtain ⟨others, hothers, h⟩ := Option.bind_eq_some_iff.mp h
    cases h
    cases item <;> cases hv
    rw [List.map_cons, ih hothers]

theorem types_ofList {type inner : TypeRef} {hasDefault : Bool} {items : List Template}
    (htype : elementType? type = some inner)
    (hitems : ∀ item ∈ items, env.Types strict inner false item)
    : env.Types strict type hasDefault (.ofList items) := by
  unfold Template.ofList
  split
  . next values hvalues =>
    rw [mapM_const?_eq_some hvalues] at hitems
    apply Env.Types.const
    apply TypeRef.accepts_array htype
    intro v hv
    obtain ⟨h⟩ := hitems (.const v) (List.mem_map_of_mem hv)
    exact h
  . exact .list htype hitems

theorem checkVariableUse_errors {name : String} {location : TypeRef} {hasDefault : Bool}
    {position : Position}
    (h : (checkVariableUse env name location hasDefault position).errors = [])
    : (checkVariableUse env name location hasDefault position).value = true := by
  unfold checkVariableUse at h ⊢
  split at h
  . cases h
  . split at h
    . next hfits =>
      rw [if_pos hfits]
      rfl
    . cases h

theorem gives_collect_forall₂ {α β : Type} {R : α → β → Prop} {f : α → Compile (Option β)}
    {xs : List α} (h : ∀ x ∈ xs, Checked.Gives (R x) (f x))
    : Checked.Gives (List.Forall₂ R xs) (collect f xs) := by
  induction xs with
  | nil => exact fun _ => ⟨[], rfl, .nil⟩
  | cons x rest ih =>
    intro herrors
    unfold collect at herrors ⊢
    rw [Checked.errors_bind_eq_nil_iff, Checked.errors_bind_eq_nil_iff] at herrors
    obtain ⟨y, hy, hfirst⟩ := h x List.mem_cons_self herrors.1
    obtain ⟨ys, hys, hrest⟩ := ih (fun x' hx' => h x' (List.mem_cons_of_mem _ hx')) herrors.2.1
    refine ⟨y :: ys, ?_, .cons hfirst hrest⟩
    rw [Checked.value_bind, Checked.value_bind, Checked.value_pure, hy, hys]
    rfl

theorem gives_collect {α β : Type} {P : β → Prop} {f : α → Compile (Option β)} {xs : List α}
    (h : ∀ x ∈ xs, Checked.Gives P (f x))
    : Checked.Gives (fun ys => ∀ y ∈ ys, P y) (collect f xs) := by
  intro herrors
  obtain ⟨ys, hys, hall⟩ := gives_collect_forall₂ (R := fun _ => P) h herrors
  refine ⟨ys, hys, ?_⟩
  clear h herrors hys
  induction hall with
  | nil => simp
  | cons hfirst _ ih => exact List.forall_mem_cons.mpr ⟨hfirst, ih⟩

theorem gives_constant {type : TypeRef} {l : Literal} {argument : String} {position : Position}
    {hasDefault : Bool} (hfinite : strict → l.Finite)
    : Checked.Gives (env.Types strict type hasDefault) (constant type l argument position) := by
  intro herrors
  unfold constant at herrors ⊢
  split at herrors
  . next v hok => exact ⟨.const v, rfl, .const (Coercion.coerceLiteral_eq_ok hok hfinite).1⟩
  . cases herrors

section Elements

variable {argument : String} {position : Position} {type inner : TypeRef} {hasDefault : Bool}
  (htype : elementType? type = some inner)

include htype

theorem gives_list {items : List Literal}
    (hitems : ∀ l, (strict → l.Finite) → Checked.Gives (env.Types strict inner false)
      (compileValue env argument position inner false l))
    (hfinite : strict → Literal.FiniteItems items)
    : Checked.Gives (env.Types strict type hasDefault) (do
        return (← collect (compileValue env argument position inner false) items).map .ofList) := by
  apply Checked.Gives.map (gives_collect (P := env.Types strict inner false) _) fun templates =>
    types_ofList htype
  exact fun l hl => hitems l fun hstrict => (hfinite hstrict).mem l hl

theorem gives_single {l : Literal}
    (hitem : (strict → l.Finite) → Checked.Gives (env.Types strict inner false)
      (compileValue env argument position inner false l))
    (hfinite : strict → l.Finite)
    : Checked.Gives (env.Types strict type hasDefault) (do
        return (← compileValue env argument position inner false l).map
          fun template => .ofList [template]) := by
  apply Checked.Gives.map (hitem hfinite)
  intro template htemplate
  apply types_ofList htype
  rwa [List.forall_mem_singleton]

end Elements

def Env.Typing (env : Env) (strict : Prop) (argument : String) (position : Position)
    (type : TypeRef)
    : Prop :=
  ∀ hasDefault l, (strict → l.Finite) →
    Checked.Gives (env.Types strict type hasDefault)
      (compileValue env argument position type hasDefault l)

theorem typing (env : Env) (strict : Prop) (argument : String) (position : Position)
    (type : TypeRef)
    : env.Typing strict argument position type := by
  intro hasDefault l
  apply compileValue_induction (P := fun type hasDefault l x =>
    (strict → l.Finite) → Checked.Gives (env.Types strict type hasDefault) x)
  case hvariable =>
    intro type hasDefault name _ herrors
    rw [Checked.errors_bind_eq_nil_iff] at herrors
    have hcheck := checkVariableUse_errors herrors.1
    obtain ⟨definition, hfind, hfits⟩ := checkVariableUse_value hcheck
    refine ⟨.variable name, ?_, .variable hfind hfits⟩
    rw [Checked.value_bind, if_pos hcheck]
    rfl
  case hconstant => exact fun type hasDefault l => gives_constant
  case hlist => exact fun type inner hasDefault items htype ih => gives_list htype ih
  case hsingle => exact fun type inner hasDefault l htype _ ih => gives_single htype ih

def Env.TypesArgument (env : Env) (strict : Prop) (argument : ArgumentPlan) : Prop :=
  ∀ template ∈ argument.template, env.Types strict argument.type argument.default.isSome template

theorem checks_typesArgument (env : Env) (strict : Prop)
    : env.Checks (fun node => strict → Literal.FiniteFields node.arguments)
        (env.TypesArgument strict) := by
  intro node hfinite coordinate name argument h
  unfold compileArgument at h ⊢
  split at h
  . split at h
    . cases h
    . next hrequired =>
      rw [if_neg hrequired]
      rintro template ⟨⟩
  . next l hl =>
    rw [Checked.errors_bind_eq_nil_iff] at h
    have hgives := typing env strict name node.position argument.type argument.default.isSome l
      fun hstrict => (hfinite hstrict).mem _ (Ordered.mem_of_get? hl)
    obtain ⟨template, htemplate, htypes⟩ := hgives h.1
    rw [Checked.value_bind, htemplate]
    rintro _ ⟨⟩
    exact htypes

end Compile

end GraphGateway

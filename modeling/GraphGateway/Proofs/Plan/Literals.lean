import GraphGateway.Document.Parse
import GraphGateway.Proofs.Plan.Declarations

/-!
This module contains which literals come to values of their type at every depth: all of them
but those with a number that no double is close to, which is null in JSON, at a place where
the type forbids null.
-/

namespace GraphGateway

def Literal.isInfinite : Literal → Bool
  | .float d => !d.isFinite
  | _ => false

namespace TypeRef

/-- Whether a literal for a type has an infinite number where the type forbids null. -/
def overflows : TypeRef → Literal → Bool
  | named _, _ => false
  | list inner, .list items => items.any inner.overflows
  | list inner, l => inner.overflows l
  | nonNull inner, l => l.isInfinite && inner.listDepth = 0 || inner.overflows l

def AcceptsTemplate (strict : Prop) : TypeRef → Template → Prop
  | type, .const v => type.Accepts strict v
  | _, .variable _ => True
  | nonNull inner, .list items => inner.AcceptsTemplate strict (.list items)
  | list inner, .list items => ∀ item ∈ items, inner.AcceptsTemplate strict item
  | named _, .list _ => False

variable {strict : Prop} {type inner : TypeRef}

@[simp]
theorem acceptsTemplate_const {v : Json}
    : type.AcceptsTemplate strict (.const v) ↔ type.Accepts strict v := by
  cases type <;> rfl

theorem acceptsTemplate_variable {name : String}
    : type.AcceptsTemplate strict (.variable name) := by
  cases type <;> trivial

theorem overflows_variable {name : String} : type.overflows (.variable name) = false := by
  induction type with
  | named _ => rfl
  | list inner ih => exact ih
  | nonNull inner ih => exact ih

theorem overflows_null : type.overflows .null = false := by
  induction type with
  | named _ => rfl
  | list inner ih => exact ih
  | nonNull inner ih => exact ih

section Elements

variable (htype : Compile.elementType? type = some inner)

include htype

theorem overflows_list {items : List Literal}
    : type.overflows (.list items) = items.any inner.overflows := by
  unfold Compile.elementType? at htype
  split at htype <;> cases htype <;> rfl

theorem overflows_single {l : Literal} (hl : ∀ items, l ≠ .list items)
    : type.overflows l = inner.overflows l := by
  have hlist : (list inner).overflows l = inner.overflows l := by
    cases l with
    | list items => exact absurd rfl (hl items)
    | _ => rfl
  unfold Compile.elementType? at htype
  split at htype
  . cases htype
    exact hlist
  . cases htype
    rw [overflows, hlist]
    simp [listDepth]
  . cases htype

theorem accepts_array_iff {items : List Json}
    : type.Accepts strict (.array items) ↔ ∀ item ∈ items, inner.Accepts strict item := by
  refine ⟨?_, accepts_array htype⟩
  have hlist : (list inner).Accepts strict (.array items) →
      ∀ item ∈ items, inner.Accepts strict item := by
    rintro (h | ⟨_, ⟨⟩, h⟩)
    . cases h
    . exact h
  unfold Compile.elementType? at htype
  split at htype
  . cases htype
    exact hlist
  . cases htype
    exact fun h => hlist h.1
  . cases htype

theorem acceptsTemplate_list_iff {items : List Template}
    : type.AcceptsTemplate strict (.list items)
        ↔ ∀ item ∈ items, inner.AcceptsTemplate strict item := by
  unfold Compile.elementType? at htype
  split at htype <;> cases htype <;> rfl

theorem acceptsTemplate_ofList_iff {items : List Template}
    : type.AcceptsTemplate strict (.ofList items)
        ↔ ∀ item ∈ items, inner.AcceptsTemplate strict item := by
  unfold Template.ofList
  split
  . next values hvalues =>
    rw [acceptsTemplate_const, accepts_array_iff htype, Compile.mapM_const?_eq_some hvalues]
    simp
  . exact acceptsTemplate_list_iff htype

end Elements

end TypeRef

theorem Scalar.coerceLiteral_eq_null_iff {scalar : Scalar} {l : Literal} {w : Json}
    (h : scalar.coerceLiteral l = .ok w)
    : w = .null ↔ l.isInfinite = true := by
  unfold coerceLiteral at h
  split at h
  case h_1 n =>
    split at h <;> cases h
    exact iff_of_false nofun nofun
  case h_3 d =>
    cases h
    unfold Json.ofDouble Literal.isInfinite
    split
    . next hfinite => exact iff_of_false nofun (by simp [hfinite])
    . next hinfinite => exact iff_of_true rfl (by simp [hinfinite])
  all_goals cases h
  all_goals exact iff_of_false nofun nofun

namespace Coercion

/-- Null is what a null literal comes to, and an infinite number outside of every list. -/
theorem coerceLiteral_eq_null_iff {type : TypeRef} {l : Literal} {w : Json}
    (h : coerceLiteral type l = .ok w)
    : w = .null ↔ l.isNull = true ∨ l.isInfinite = true ∧ type.listDepth = 0 := by
  induction type generalizing l w with
  | named name =>
    unfold coerceLiteral at h
    split at h
    . next hnull =>
      cases h
      simp [hnull]
    . next hnull =>
      split at h
      . have h := mapError_eq_ok h
        rw [Scalar.coerceLiteral_eq_null_iff h]
        simp [hnull, TypeRef.listDepth]
      . cases h
  | list inner ih =>
    unfold coerceLiteral at h
    split at h
    . cases h
      simp [Literal.isNull]
    . obtain ⟨ws, _, h⟩ := bind_eq_ok h
      cases h
      simp [Literal.isNull, TypeRef.listDepth]
    . next hnull _ =>
      obtain ⟨item, _, h⟩ := bind_eq_ok h
      cases h
      cases l with
      | null => exact absurd rfl hnull
      | _ => simp [Literal.isNull, TypeRef.listDepth]
  | nonNull inner ih =>
    unfold coerceLiteral at h
    split at h
    . cases h
    . exact ih h

theorem accepts_iff_of_coerceLiteral {type : TypeRef} {l : Literal} {w : Json}
    (h : coerceLiteral type l = .ok w)
    : type.Accepts True w ↔ type.overflows l = false := by
  induction type generalizing l w with
  | named name =>
    refine iff_of_true ?_ rfl
    unfold coerceLiteral at h
    split at h
    . cases h
      exact .inl rfl
    . split at h
      . next scalar hscalar =>
        obtain hshape | ⟨hnull, _⟩ := Scalar.hasShape_coerceLiteral (mapError_eq_ok h)
        . exact .inr ⟨scalar, hscalar, hshape⟩
        . exact .inl hnull
      . cases h
  | list inner ih =>
    unfold coerceLiteral at h
    split at h
    . cases h
      exact iff_of_true (.inl rfl) TypeRef.overflows_null
    . next items =>
      obtain ⟨ws, hws, h⟩ := bind_eq_ok h
      cases h
      rw [TypeRef.accepts_array_iff rfl, TypeRef.overflows_list rfl, List.any_eq_false]
      constructor
      . intro haccepts item hitem
        obtain ⟨v, hv, hok⟩ := exists_mem_of_mapM_eq_ok hws item hitem
        simpa using (ih hok).mp (haccepts v hv)
      . intro hnone v hv
        obtain ⟨item, hitem, hok⟩ := mem_of_mapM_eq_ok hws v hv
        exact (ih hok).mpr (by simpa using hnone item hitem)
    . next hnull hlist =>
      -- A single literal stands for the list of it.
      obtain ⟨item, hitem, h⟩ := bind_eq_ok h
      cases h
      rw [TypeRef.accepts_array_iff rfl, TypeRef.overflows_single rfl hlist, ← ih hitem]
      simp
  | nonNull inner ih =>
    unfold coerceLiteral at h
    split at h
    . cases h
    . next hnull =>
      rw [TypeRef.Accepts, TypeRef.overflows, ih h, ne_eq, coerceLiteral_eq_null_iff h,
        Bool.or_eq_false_iff]
      exact and_comm.trans (and_congr_left' (by simp [hnull]))

end Coercion

/--
What is written for a type comes to a template for it. Only infinite numbers leave null in it where
the type forbids null.
-/
structure TypeRef.Renders (type : TypeRef) (l : Literal) (template : Template) : Prop where
  accepts : type.AcceptsTemplate False template
  strictly : type.AcceptsTemplate True template ↔ type.overflows l = false

theorem TypeRef.renders_of_coerceLiteral {type : TypeRef} {l : Literal} {v : Json}
    (h : Coercion.coerceLiteral type l = .ok v)
    : type.Renders l (.const v) := by
  constructor
  . rw [acceptsTemplate_const]
    exact (Coercion.coerceLiteral_eq_ok h False.elim).1
  . rw [acceptsTemplate_const]
    exact Coercion.accepts_iff_of_coerceLiteral h

theorem TypeRef.renders_ofList {type inner : TypeRef}
    (htype : Compile.elementType? type = some inner) {items : List Literal}
    {templates : List Template} (h : List.Forall₂ inner.Renders items templates)
    : type.Renders (.list items) (.ofList templates) := by
  constructor
  . rw [acceptsTemplate_ofList_iff htype]
    induction h with
    | nil => simp
    | cons hfirst _ ih => exact List.forall_mem_cons.mpr ⟨hfirst.accepts, ih⟩
  . rw [acceptsTemplate_ofList_iff htype, overflows_list htype]
    induction h with
    | nil => simp
    | cons hfirst _ ih =>
      rw [List.forall_mem_cons, List.any_cons, Bool.or_eq_false_iff, hfirst.strictly, ih]

theorem TypeRef.renders_single {type inner : TypeRef}
    (htype : Compile.elementType? type = some inner) {l : Literal} (hl : ∀ items, l ≠ .list items)
    {template : Template} (h : inner.Renders l template)
    : type.Renders l (.ofList [template]) := by
  constructor
  . rw [acceptsTemplate_ofList_iff htype, List.forall_mem_singleton]
    exact h.accepts
  . rw [acceptsTemplate_ofList_iff htype, List.forall_mem_singleton, overflows_single htype hl]
    exact h.strictly

namespace Compile

variable {env : Env}

theorem renders_compileValue (argument : String) (position : Position) (type : TypeRef)
    (hasDefault : Bool) (l : Literal)
    : Checked.Gives (type.Renders l) (compileValue env argument position type hasDefault l) := by
  apply compileValue_induction (P := fun type _ l x => Checked.Gives (type.Renders l) x)
  case hvariable =>
    intro type hasDefault name herrors
    rw [Checked.errors_bind_eq_nil_iff] at herrors
    rw [Checked.value_bind, if_pos (checkVariableUse_errors herrors.1)]
    refine ⟨.variable name, rfl, TypeRef.acceptsTemplate_variable, ?_⟩
    exact iff_of_true TypeRef.acceptsTemplate_variable TypeRef.overflows_variable
  case hconstant =>
    intro type hasDefault l herrors
    unfold constant at herrors ⊢
    split at herrors
    . next v hv => exact ⟨.const v, rfl, TypeRef.renders_of_coerceLiteral hv⟩
    . cases herrors
  case hlist =>
    intro type inner hasDefault items htype ih
    exact (gives_collect_forall₂ fun l _ => ih l).map fun _ => TypeRef.renders_ofList htype
  case hsingle =>
    intro type inner hasDefault l htype hl ih
    exact ih.map fun _ => TypeRef.renders_single htype hl

end Compile

def Document.nodes (document : Document) : List FieldNode :=
  document.operations.flatMap (·.set.nodes) ++ document.fragments.flatMap (·.set.nodes)

def ArgumentPlan.RendersIn (document : Document) (argument : ArgumentPlan) : Prop :=
  ∀ template ∈ argument.template, ∃ node ∈ document.nodes, ∃ l,
    Ordered.get? node.arguments argument.name = some l ∧ argument.type.Renders l template

def VariableSpec.RendersIn (document : Document) (spec : VariableSpec) : Prop :=
  ∀ v ∈ spec.default, ∃ operation ∈ document.operations,
    ∃ definition ∈ operation.variableDefinitions, ∃ l,
      spec.Declares definition ∧ definition.default = some l ∧ spec.type.Renders l (.const v)

namespace SelectionItem

theorem WellFormed.argumentOk {schema : Schema} {ArgumentOk : ArgumentPlan → Prop}
    {ConditionOk : Condition → Prop} {object : ObjectType} {item : SelectionItem}
    (h : item.WellFormed schema ArgumentOk ConditionOk object)
    : ∀ head ∈ item.heads, ∀ argument ∈ head.arguments, ArgumentOk argument := by
  have hall {items : List SelectionItem}
      (hitems : ∀ item ∈ items, ∀ head ∈ item.heads, ∀ argument ∈ head.arguments,
        ArgumentOk argument)
      (head : FieldPlan) (hhead : head ∈ headsAll items)
      : ∀ argument ∈ head.arguments, ArgumentOk argument := by
    obtain ⟨item, hitem, hhead⟩ := exists_of_mem_headsAll hhead
    exact hitems item hitem head hhead
  induction h with
  | typename hhead =>
    rw [heads, List.forall_mem_singleton, hhead.arguments]
    simp
  | leaf hhead =>
    rw [heads, List.forall_mem_singleton]
    exact hhead.argumentOk
  | nested hhead _ _ ih =>
    rw [heads, List.forall_mem_cons]
    exact ⟨hhead.argumentOk, hall ih⟩
  | group _ _ ih => exact hall ih

end SelectionItem

namespace Compile

theorem checks_rendersIn (env : Env)
    : env.Checks (· ∈ env.document.nodes) (ArgumentPlan.RendersIn env.document) := by
  intro node hnode coordinate name argument h
  unfold compileArgument at h ⊢
  split at h
  . split at h
    . cases h
    . next hrequired =>
      rw [if_neg hrequired]
      rintro template ⟨⟩
  . next l hl =>
    rw [Checked.errors_bind_eq_nil_iff] at h
    obtain ⟨template, htemplate, hrenders⟩ := renders_compileValue _ _ _ _ l h.1
    rw [Checked.value_bind, htemplate]
    rintro _ ⟨⟩
    exact ⟨node, hnode, l, hl, hrenders⟩

theorem rendersIn_of_declares {document : Document} {operation : Operation}
    (hoperation : operation ∈ document.operations) {definition : VariableDefinition}
    (hdefinition : definition ∈ operation.variableDefinitions) {spec : VariableSpec}
    (h : spec.Declares definition)
    : spec.RendersIn document := by
  intro v hv
  have hrel := h.default
  rw [hv] at hrel
  cases hl : definition.default with
  | none =>
    rw [hl] at hrel
    cases hrel
  | some l =>
    rw [hl] at hrel
    obtain ⟨hrel⟩ := hrel
    rw [← h.type] at hrel
    exact ⟨operation, hoperation, definition, hdefinition, l, h, hl,
      TypeRef.renders_of_coerceLiteral hrel⟩

end Compile

namespace Plan

open Compile

/--
A literal comes to a value of its type at every depth exactly if it does not overflow the type; an
infinite number is null also where the type forbids null. So do the defaults of the variables and
the arguments of the fields in every plan that compiles.
-/
theorem literals_conform (schema : Schema) (document : Document)
    : (∀ type l v, Coercion.coerceLiteral type l = .ok v →
          type.Accepts False v ∧ (type.Accepts True v ↔ type.overflows l = false))
        ∧ ∀ plan, compile schema document = .ok plan →
          (∀ spec ∈ plan.specs, spec.RendersIn document)
            ∧ ∀ head ∈ plan.heads, ∀ argument ∈ head.arguments, argument.RendersIn document := by
  constructor
  . intro type l v h
    exact ⟨(Coercion.coerceLiteral_eq_ok h False.elim).1, Coercion.accepts_iff_of_coerceLiteral h⟩
  . intro plan h
    obtain ⟨operation, root, hoperations, hdeclared, hselection⟩ := exists_parts_of_compile h
    have hmem : operation ∈ document.operations := by simp [hoperations]
    constructor
    . intro spec hspec
      obtain ⟨definition, hdefinition, hdeclares⟩ :=
        exists_mem_of_forall₂ hdeclared.declares.flip hspec
      exact rendersIn_of_declares hmem hdefinition hdeclares
    . obtain ⟨herrors, hvalue⟩ := Checked.eq_pure_iff.mp hselection
      intro head hhead
      obtain ⟨item, hitem, hhead⟩ := SelectionItem.exists_of_mem_headsAll hhead
      rw [← hvalue] at hitem
      have hwell := wellFormed_compileSet (checks_rendersIn _) ?_ _ _ _ root ?_ herrors item hitem
      . exact hwell.argumentOk head hhead
      . intro f hf node hnode
        exact List.mem_append_right _ (List.mem_flatMap.mpr ⟨f, hf, hnode⟩)
      . intro node hnode
        exact List.mem_append_left _ (List.mem_flatMap.mpr ⟨operation, hmem, hnode⟩)

end Plan

namespace Library

theorem literals_conform_authorPlan
    : Coercion.coerceLiteral (.list (required "Int")) (.int 5) = .ok (.array [.int 5])
        ∧ (TypeRef.list (required "Int")).Accepts True (.array [.int 5])
        ∧ Plan.compile (schema .null .sync) authorDocument = .ok (authorPlan .null .sync)
        ∧ ∀ spec ∈ (authorPlan .null .sync).specs, spec.RendersIn authorDocument := by
  have hliteral : Coercion.coerceLiteral (.list (required "Int")) (.int 5)
      = .ok (.array [.int 5]) := by
    cbv
  obtain ⟨haccepts, hplan⟩ := Plan.literals_conform (schema .null .sync) authorDocument
  have hspecs := (hplan _ (compile_authorDocument .null .sync)).1
  exact ⟨hliteral, (haccepts _ _ _ hliteral).2.mpr rfl, compile_authorDocument .null .sync, hspecs⟩

def infiniteDocument : Document :=
  ⟨[.operation ⟨.query, none,
    [⟨"x", required "Float", some (.float (.ofLiteral "1e999".toList)), [], ⟨1, 8⟩⟩], [],
    ⟨[.field ⟨none, "authors", [], [], ⟨1, 30⟩⟩
      (some ⟨[.field ⟨none, "name", [], [], ⟨1, 40⟩⟩ none], ⟨1, 38⟩⟩)], ⟨1, 28⟩⟩, ⟨1, 1⟩⟩]⟩

def infinitePlan (data : Json) (mode : ResolverMode) : Plan :=
  { namesPlan data mode with
    specs := [⟨"x", required "Float", some .null, ⟨1, 8⟩⟩]
    selection := [.field { authorsField data mode with position := ⟨1, 30⟩ }
      (some [.field { nameField with position := ⟨1, 40⟩ } none])] }

theorem compile_infiniteDocument (data : Json) (mode : ResolverMode)
    : Plan.compile (schema data mode) infiniteDocument = .ok (infinitePlan data mode) := by
  rfl

theorem not_literals_conform
    : Coercion.coerceLiteral (required "Float") (.float (.ofLiteral "1e999".toList)) = .ok .null
        ∧ Plan.compile (schema .null .sync) infiniteDocument = .ok (infinitePlan .null .sync)
        ∧ (∃ spec ∈ (infinitePlan .null .sync).specs, spec.type = required "Float"
          ∧ spec.default = some .null)
        ∧ ¬ (required "Float").Accepts True .null := by
  refine ⟨rfl, compile_infiniteDocument .null .sync, ⟨_, List.mem_singleton_self _, rfl, rfl⟩, ?_⟩
  intro h
  exact h.2 trivial rfl

end Library

end GraphGateway

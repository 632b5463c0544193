import GraphGateway.Proofs.Plan.Faultless
import GraphGateway.Proofs.Plan.Templates
import GraphGateway.Proofs.Library

/-!
This module contains what the variables of a plan are, and the proof that every plan that compiles
is well-formed: its selection is for the schema and asks only for variables that the plan has.
-/

namespace GraphGateway

/-- A variable of a plan for its definition in the document. -/
structure VariableSpec.Declares (definition : VariableDefinition) (spec : VariableSpec) : Prop where
  name : spec.name = definition.name
  type : spec.type = definition.type
  default : Option.Rel (fun l v => Coercion.coerceLiteral definition.type l = .ok v)
    definition.default spec.default

def TypeRef.IsBoolean : TypeRef → Prop
  | .named name => name = Scalar.boolean.name
  | .nonNull inner => inner.IsBoolean
  | .list _ => False

namespace Compile

theorem gives_compileDefault (definition : VariableDefinition)
    : Checked.Gives (VariableSpec.Declares definition) (compileDefault definition) := by
  intro herrors
  unfold compileDefault at herrors ⊢
  split at herrors
  . next hnone =>
    refine ⟨_, rfl, rfl, rfl, ?_⟩
    rw [hnone]
    exact .none
  . next l hl =>
    split at herrors
    . next v hv =>
      refine ⟨_, rfl, rfl, rfl, ?_⟩
      rw [hl]
      exact .some hv
    . cases herrors

section Definitions

variable {schema : Schema} {earlier : List VariableDefinition}

theorem gives_compileVariable (definition : VariableDefinition)
    : Checked.Gives
        (fun spec => spec.Declares definition ∧ ∀ first ∈ earlier, first.name ≠ definition.name)
        (compileVariable schema earlier definition) := by
  intro herrors
  unfold compileVariable at herrors ⊢
  split at herrors
  . cases herrors
  . next hfind =>
    rw [Checked.errors_bind_eq_nil_iff] at herrors
    rw [Checked.value_bind]
    have herrors := herrors.2
    dsimp only at herrors ⊢
    split at herrors
    . cases herrors
    . next type _ =>
      split at herrors
      . next hinput =>
        obtain ⟨spec, hspec, hdeclares⟩ := gives_compileDefault definition herrors
        refine ⟨spec, ?_, hdeclares, ?_⟩
        . rw [if_pos hinput, hspec]
        . simpa using hfind
      . cases herrors

theorem declares_compileVariables {definitions : List VariableDefinition}
    (h : (compileVariables schema earlier definitions).errors = [])
    : List.Forall₂ VariableSpec.Declares definitions
          (compileVariables schema earlier definitions).value
        ∧ (∀ definition ∈ definitions, ∀ first ∈ earlier, first.name ≠ definition.name)
        ∧ (definitions.map (·.name)).Nodup := by
  induction definitions generalizing earlier with
  | nil => simp [compileVariables]
  | cons definition rest ih =>
    unfold compileVariables at h ⊢
    rw [Checked.errors_bind_eq_nil_iff, Checked.errors_bind_eq_nil_iff] at h
    obtain ⟨spec, hspec, hdeclares, hfresh⟩ := gives_compileVariable definition h.1
    obtain ⟨hrest, hothers, hnodup⟩ := ih h.2.1
    rw [Checked.value_bind, Checked.value_bind, Checked.value_pure, hspec]
    -- The rest has been checked against the earlier definitions and this one.
    refine ⟨.cons hdeclares hrest, List.forall_mem_cons.mpr ⟨hfresh, ?_⟩, ?_⟩
    . exact fun other hother first hfirst =>
        hothers other hother first (List.mem_append_left _ hfirst)
    . rw [List.map_cons, List.nodup_cons]
      refine ⟨?_, hnodup⟩
      intro hmem
      obtain ⟨other, hother, heq⟩ := List.mem_map.mp hmem
      exact hothers other hother definition (by simp) heq.symm

end Definitions

theorem exists_mem_of_forall₂ {α β : Type} {R : α → β → Prop} {xs : List α} {ys : List β}
    (h : List.Forall₂ R xs ys) {x : α} (hx : x ∈ xs)
    : ∃ y ∈ ys, R x y := by
  induction h with
  | nil => cases hx
  | @cons first y rest others hfirst hrest ih =>
    obtain rfl | hx := List.mem_cons.mp hx
    . exact ⟨y, List.mem_cons_self, hfirst⟩
    . obtain ⟨z, hz, hxz⟩ := ih hx
      exact ⟨z, List.mem_cons_of_mem _ hz, hxz⟩

structure Env.Declared (env : Env) (specs : List VariableSpec) : Prop where
  declares : List.Forall₂ VariableSpec.Declares env.variableDefinitions specs
  nodup : (specs.map (·.name)).Nodup

theorem declared_compileVariables {env : Env}
    (h : (compileVariables env.schema [] env.variableDefinitions).errors = [])
    : env.Declared (compileVariables env.schema [] env.variableDefinitions).value := by
  obtain ⟨hdeclares, _, hnodup⟩ := declares_compileVariables h
  refine ⟨hdeclares, ?_⟩
  have hnames : ∀ {definitions : List VariableDefinition} {specs : List VariableSpec},
      List.Forall₂ VariableSpec.Declares definitions specs →
        specs.map (·.name) = definitions.map (·.name) := by
    intro definitions specs h
    induction h with
    | nil => rfl
    | cons hfirst _ ih => rw [List.map_cons, List.map_cons, hfirst.name, ih]
  rwa [hnames hdeclares]

theorem declared_of_compileVariables {env : Env} {specs : List VariableSpec}
    (h : compileVariables env.schema [] env.variableDefinitions = pure specs)
    : env.Declared specs := by
  obtain ⟨herrors, rfl⟩ := Checked.eq_pure_iff.mp h
  exact declared_compileVariables herrors

theorem Env.Declared.exists_spec {env : Env} {specs : List VariableSpec}
    (h : env.Declared specs) {name : String} {definition : VariableDefinition}
    (hfind : env.findVariable name = some definition)
    : ∃ spec ∈ specs, spec.name = name ∧ spec.Declares definition := by
  have hname : definition.name = name := by simpa using List.find?_some hfind
  have hmem : definition ∈ env.variableDefinitions := List.mem_of_find?_eq_some hfind
  obtain ⟨spec, hspec, hdeclares⟩ := exists_mem_of_forall₂ h.declares hmem
  exact ⟨spec, hspec, hdeclares.name.trans hname, hdeclares⟩

theorem isBoolean_of_typeFits {type location : TypeRef} (hfits : typeFits type location = true)
    (h : location.IsBoolean)
    : type.IsBoolean := by
  fun_induction typeFits type location with
  | case1 v l ih => exact ih hfits h
  | case2 v l _ ih => exact ih hfits h
  | case3 => cases hfits
  | case4 => cases h
  | case5 v l =>
    cases of_decide_eq_true hfits
    exact h
  | case6 => cases hfits

theorem isBoolean_expectedType (definition : VariableDefinition)
    : (expectedType definition booleanType false).IsBoolean := by
  unfold expectedType
  dsimp only
  split
  . rfl
  . rfl

end Compile

namespace Plan

def Declares (plan : Plan) (name : String) : Prop :=
  (plan.specs.map (·.name)).count name = 1

/-- A variable that a plan has exactly once and that can only be a boolean or perhaps null. -/
def DeclaresFlag (plan : Plan) (condition : Condition) : Prop :=
  plan.Declares condition.variableName
    ∧ ∀ spec ∈ plan.specs, spec.name = condition.variableName → spec.type.IsBoolean

def Binds (plan : Plan) (argument : ArgumentPlan) : Prop :=
  ∀ template ∈ argument.template, ∀ name ∈ template.variableNames, plan.Declares name

def WellFormed (schema : Schema) (plan : Plan) : Prop :=
  ∃ root, schema.object? plan.rootType = some root
    ∧ ∀ item ∈ plan.selection, item.WellFormed schema plan.Binds plan.DeclaresFlag root

end Plan

namespace Schema

theorem findType?_of_root {objects : List ObjectType} {name : String} {object : ObjectType}
    (h : Blueprint.root objects name = .ok object)
    : findType? objects object.name = some (.object object) := by
  unfold Blueprint.root at h
  split at h
  . next hfind =>
    cases h
    unfold findType? at hfind ⊢
    split at hfind
    . cases hfind
    . next hscalar =>
      obtain ⟨_, hobject, heq⟩ := Option.map_eq_some_iff.mp hfind
      cases heq
      have hname : object.name = name := by simpa using List.find?_some hobject
      rw [hname, hscalar, hobject]
      rfl
  . cases h

theorem object?_query {blueprint : Blueprint} {schema : Schema} (h : blueprint.build = .ok schema)
    : schema.object? schema.query.name = some schema.query := by
  unfold Blueprint.build at h
  obtain ⟨_, _, h⟩ := bind_eq_ok h
  obtain ⟨_, _, h⟩ := bind_eq_ok h
  obtain ⟨query, hquery, h⟩ := bind_eq_ok h
  obtain ⟨_, _, h⟩ := bind_eq_ok h
  cases h
  exact (object?_eq_some_iff _ _ _).mpr (findType?_of_root hquery)

theorem object?_mutation {blueprint : Blueprint} {schema : Schema}
    (h : blueprint.build = .ok schema)
    : ∀ object ∈ schema.mutation, schema.object? object.name = some object := by
  unfold Blueprint.build at h
  obtain ⟨_, _, h⟩ := bind_eq_ok h
  obtain ⟨_, _, h⟩ := bind_eq_ok h
  obtain ⟨_, _, h⟩ := bind_eq_ok h
  obtain ⟨mutation, hmutation, h⟩ := bind_eq_ok h
  cases h
  rintro object ⟨⟩
  apply (object?_eq_some_iff _ _ _).mpr
  cases hname : blueprint.mutation with
  | none =>
    rw [hname] at hmutation
    cases hmutation
  | some name =>
    rw [hname] at hmutation
    obtain ⟨_, hroot, heq⟩ := bind_eq_ok hmutation
    cases heq
    exact findType?_of_root hroot

end Schema

namespace Compile

theorem object?_rootType {blueprint : Blueprint} {schema : Schema}
    (hbuild : blueprint.build = .ok schema) {operation : Operation} {root : ObjectType}
    (h : rootType schema operation = .ok root)
    : schema.object? root.name = some root := by
  unfold rootType at h
  split at h
  . cases h
    exact Schema.object?_query hbuild
  . split at h
    . next object hmutation =>
      cases h
      exact Schema.object?_mutation hbuild root hmutation
    . cases h
  . cases h

theorem mem_of_selectOperation {document : Document} {operation : Operation}
    (h : selectOperation document = .ok operation)
    : operation ∈ document.operations := by
  unfold selectOperation at h
  split at h
  . cases h
  . next hoperations =>
    cases h
    rw [hoperations]
    exact List.mem_singleton_self _
  . cases h

end Compile

structure Document.Finite (document : Document) : Prop where
  defaults : ∀ operation ∈ document.operations, ∀ definition ∈ operation.variableDefinitions,
    ∀ l ∈ definition.default, l.Finite
  operations : ∀ operation ∈ document.operations, ∀ node ∈ operation.set.nodes,
    Literal.FiniteFields node.arguments
  fragments : ∀ f ∈ document.fragments, ∀ node ∈ SelectionSet.nodes f.set,
    Literal.FiniteFields node.arguments

namespace Plan

open Compile

structure Compiled (schema : Schema) (strict : Prop) (env : Env) (root : ObjectType) (plan : Plan)
    : Prop where
  rootType : schema.object? plan.rootType = some root
  declared : env.Declared plan.specs
  finite : strict → ∀ definition ∈ env.variableDefinitions, ∀ l ∈ definition.default, l.Finite
  selection : ∀ item ∈ plan.selection,
    item.WellFormed schema (env.TypesArgument strict) env.IsFlag root
  conflicts : Conflict.ofSelection plan.depth plan.selection = []

theorem exists_compiled {blueprint : Blueprint} {schema : Schema}
    (hbuild : blueprint.build = .ok schema) {document : Document} {plan : Plan}
    (hcompile : compile schema document = .ok plan) {strict : Prop}
    (hfinite : strict → document.Finite)
    : ∃ env root, plan.Compiled schema strict env root := by
  obtain ⟨operation, root, hoperation, hroot, herrors, hplan⟩ := compile_eq_ok hcompile
  have hmem : operation ∈ document.operations := mem_of_selectOperation hoperation
  refine ⟨⟨schema, document, operation.variableDefinitions⟩, root, ?_⟩
  subst hplan
  unfold compileOperation at herrors ⊢
  rw [Checked.errors_bind_eq_nil_iff, Checked.errors_bind_eq_nil_iff,
    Checked.errors_bind_eq_nil_iff, Checked.errors_bind_eq_nil_iff] at herrors
  obtain ⟨hspecs, _, hselection, hconflicts, _⟩ := herrors
  constructor
  case rootType => exact object?_rootType hbuild hroot
  case declared => exact declared_compileVariables hspecs
  case finite => exact fun hstrict => (hfinite hstrict).defaults operation hmem
  case selection =>
    apply wellFormed_compileSet (checks_typesArgument _ strict) _ _ _ _ _ _ hselection
    . exact fun f hf node hnode hstrict => (hfinite hstrict).fragments f hf node hnode
    . exact fun node hnode hstrict => (hfinite hstrict).operations operation hmem node hnode
  case conflicts => rwa [Checked.errors_forIn_report] at hconflicts

theorem exists_parts_of_compile {schema : Schema} {document : Document} {plan : Plan}
    (h : compile schema document = .ok plan)
    : ∃ operation root, document.operations = [operation]
        ∧ Env.Declared ⟨schema, document, operation.variableDefinitions⟩ plan.specs
        ∧ compileSet ⟨schema, document, operation.variableDefinitions⟩ Parser.maxDepth []
          operation.set root = pure plan.selection := by
  obtain ⟨operation, root, hoperations, _, h⟩ := compile_eq_ok_iff.mp h
  obtain ⟨_, items, hspecs, _, hitems, _, rfl⟩ := compileOperation_eq_pure_iff.mp h
  exact ⟨operation, root, hoperations, declared_of_compileVariables hspecs, hitems⟩

theorem declares_of_findVariable {plan : Plan} {env : Env} (h : env.Declared plan.specs)
    {name : String} {definition : VariableDefinition}
    (hfind : env.findVariable name = some definition)
    : plan.Declares name := by
  obtain ⟨spec, hspec, hname, _⟩ := h.exists_spec hfind
  exact List.count_eq_one_of_mem h.nodup (List.mem_map.mpr ⟨spec, hspec, hname⟩)

theorem declaresFlag_of_isFlag {plan : Plan} {env : Env} (h : env.Declared plan.specs)
    {condition : Condition} (hflag : env.IsFlag condition)
    : plan.DeclaresFlag condition := by
  obtain ⟨definition, hfind, hfits⟩ := hflag
  refine ⟨declares_of_findVariable h hfind, ?_⟩
  intro spec hspec hname
  obtain ⟨declared, hdeclared, hother, hdeclares⟩ := h.exists_spec hfind
  have heq : spec = declared :=
    List.inj_on_of_nodup_map h.nodup hspec hdeclared (hname.trans hother.symm)
  rw [heq, hdeclares.type]
  exact isBoolean_of_typeFits hfits (isBoolean_expectedType definition)

/-- The plan of a document that compiles is well-formed, at every depth. -/
theorem wellFormed_of_compile {blueprint : Blueprint} {schema : Schema}
    (hbuild : blueprint.build = .ok schema) {document : Document} {plan : Plan}
    (hcompile : compile schema document = .ok plan)
    : plan.WellFormed schema := by
  -- Nothing is asked of the literals, which need not be finite.
  obtain ⟨env, root, h⟩ := exists_compiled hbuild hcompile fun h : False => h.elim
  refine ⟨root, h.rootType, ?_⟩
  intro item hitem
  refine (h.selection item hitem).mono ?_ fun condition => declaresFlag_of_isFlag h.declared
  intro _ _ argument _ hargument template htemplate name hname
  obtain ⟨definition, hfind⟩ := (hargument template htemplate).findVariable name hname
  exact declares_of_findVariable h.declared hfind

end Plan

theorem Library.wellFormed_authorPlan
    : (blueprint .null .sync).build = .ok (schema .null .sync)
        ∧ Plan.compile (schema .null .sync) authorDocument = .ok (authorPlan .null .sync)
        ∧ (authorPlan .null .sync).WellFormed (schema .null .sync) :=
  ⟨build_blueprint .null .sync, compile_authorDocument .null .sync,
    Plan.wellFormed_of_compile (build_blueprint .null .sync) (compile_authorDocument .null .sync)⟩

end GraphGateway

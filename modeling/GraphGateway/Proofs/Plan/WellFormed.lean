import GraphGateway.Proofs.Plan.Compiled

/-!
This module contains what a selection of a plan must be for the schema it runs on, and the proof
that every selection set that compiles without an error comes to such a selection.
-/

namespace GraphGateway

/--
A field of a plan is a field of an object type, with all its arguments in the order of declaration.
-/
structure FieldPlan.Declared (ArgumentOk : ArgumentPlan → Prop) (ConditionOk : Condition → Prop)
    (object : ObjectType) (field : FieldDef) (head : FieldPlan)
    : Prop where
  parentType : head.parentType = object.name
  field? : object.field? head.name = some field
  output : head.output = .ofTypeRef field.type
  printed : head.output.render = field.type.render
  arguments :
    head.arguments.map (fun argument => (argument.name, ⟨argument.type, argument.default⟩))
      = field.arguments
  argumentOk : ∀ argument ∈ head.arguments, ArgumentOk argument
  conditionOk : ∀ condition ∈ head.conditions, ConditionOk condition

theorem FieldPlan.Declared.mono {ArgumentOk OtherOk : ArgumentPlan → Prop}
    {ConditionOk OtherConditionOk : Condition → Prop} {object : ObjectType} {field : FieldDef}
    {head : FieldPlan} (h : head.Declared ArgumentOk ConditionOk object field)
    (harguments : ∀ argument ∈ head.arguments, ArgumentOk argument → OtherOk argument)
    (hconditions : ∀ condition, ConditionOk condition → OtherConditionOk condition)
    : head.Declared OtherOk OtherConditionOk object field :=
  { h with
    argumentOk := fun argument hmem => harguments argument hmem (h.argumentOk argument hmem)
    conditionOk := fun condition hmem => hconditions condition (h.conditionOk condition hmem) }

structure FieldPlan.IsTypename (ConditionOk : Condition → Prop) (object : ObjectType)
    (head : FieldPlan)
    : Prop where
  parentType : head.parentType = object.name
  name : head.name = Compile.typenameField
  resolution : head.resolution = .typename
  arguments : head.arguments = []
  output : head.output = Compile.typenameOutput
  conditionOk : ∀ condition ∈ head.conditions, ConditionOk condition

/--
A selection on an object type. Sub-selections stand exactly under the fields whose innermost type is
an object, and are on that object.
-/
inductive SelectionItem.WellFormed (schema : Schema) (ArgumentOk : ArgumentPlan → Prop)
    (ConditionOk : Condition → Prop)
    : ObjectType → SelectionItem → Prop where
  | typename {object : ObjectType} {head : FieldPlan} (hhead : head.IsTypename ConditionOk object)
    : WellFormed schema ArgumentOk ConditionOk object (.field head none)
  | leaf {object : ObjectType} {field : FieldDef} {head : FieldPlan}
    (hhead : head.Declared ArgumentOk ConditionOk object field)
    (hleaf : schema.object? field.type.innermost = none)
    : WellFormed schema ArgumentOk ConditionOk object (.field head none)
  | nested {object inner : ObjectType} {field : FieldDef} {head : FieldPlan}
    {children : List SelectionItem} (hhead : head.Declared ArgumentOk ConditionOk object field)
    (hobject : schema.object? field.type.innermost = some inner)
    (hchildren : ∀ item ∈ children, WellFormed schema ArgumentOk ConditionOk inner item)
    : WellFormed schema ArgumentOk ConditionOk object (.field head (some children))
  | group {object : ObjectType} {conditions : List Condition} {items : List SelectionItem}
    (hconditions : ∀ condition ∈ conditions, ConditionOk condition)
    (hitems : ∀ item ∈ items, WellFormed schema ArgumentOk ConditionOk object item)
    : WellFormed schema ArgumentOk ConditionOk object (.group conditions items)

namespace SelectionItem

variable {schema : Schema} {ArgumentOk OtherOk : ArgumentPlan → Prop}
  {ConditionOk OtherConditionOk : Condition → Prop} {object : ObjectType}

theorem WellFormed.mono {item : SelectionItem}
    (h : item.WellFormed schema ArgumentOk ConditionOk object)
    (harguments : ∀ head ∈ item.heads, ∀ argument ∈ head.arguments,
      ArgumentOk argument → OtherOk argument)
    (hconditions : ∀ condition, ConditionOk condition → OtherConditionOk condition)
    : item.WellFormed schema OtherOk OtherConditionOk object := by
  induction h with
  | typename hhead =>
    exact .typename { hhead with
      conditionOk := fun c hc => hconditions c (hhead.conditionOk c hc) }
  | leaf hhead hleaf =>
    exact .leaf (hhead.mono (harguments _ List.mem_cons_self) hconditions) hleaf
  | nested hhead hobject _ ih =>
    refine .nested (hhead.mono (harguments _ List.mem_cons_self) hconditions) hobject ?_
    intro item hitem
    apply ih item hitem
    exact fun head hhead =>
      harguments head (List.mem_cons_of_mem _ (heads_subset_headsAll hitem hhead))
  | group hgroup _ ih =>
    refine .group (fun c hc => hconditions c (hgroup c hc)) fun item hitem => ih item hitem ?_
    exact fun head hhead => harguments head (heads_subset_headsAll hitem hhead)

theorem WellFormed.head {head : FieldPlan} {children : Option (List SelectionItem)}
    (h : (SelectionItem.field head children).WellFormed schema ArgumentOk ConditionOk object)
    : head.IsTypename ConditionOk object
        ∨ ∃ field, head.Declared ArgumentOk ConditionOk object field := by
  cases h with
  | typename hhead => exact .inl hhead
  | leaf hhead => exact .inr ⟨_, hhead⟩
  | nested hhead => exact .inr ⟨_, hhead⟩

mutual

theorem WellFormed.of_mem_fields {item : SelectionItem}
    (h : item.WellFormed schema ArgumentOk ConditionOk object) {field : SelectedField}
    (hfield : field ∈ item.fields)
    : (SelectionItem.field field.head field.children).WellFormed schema ArgumentOk ConditionOk
        object := by
  match item with
  | .field head children =>
    cases List.mem_singleton.mp hfield
    exact h
  | .group conditions items =>
    cases h with
    | group _ hitems => exact wellFormed_of_mem_allFields hitems hfield

theorem wellFormed_of_mem_allFields {items : List SelectionItem}
    (h : ∀ item ∈ items, item.WellFormed schema ArgumentOk ConditionOk object)
    {field : SelectedField} (hfield : field ∈ allFields items)
    : (SelectionItem.field field.head field.children).WellFormed schema ArgumentOk ConditionOk
        object := by
  match items with
  | [] => cases hfield
  | item :: rest =>
    obtain ⟨hitem, hrest⟩ := List.forall_mem_cons.mp h
    obtain hfield | hfield := List.mem_append.mp hfield
    . exact hitem.of_mem_fields hfield
    . exact wellFormed_of_mem_allFields hrest hfield

end

end SelectionItem

namespace Checked

variable {ε α β : Type}

@[simp]
theorem errors_pure (a : α) : (Pure.pure a : Checked ε α).errors = [] := rfl

@[simp]
theorem errors_map (f : α → β) (x : Checked ε α) : (f <$> x).errors = x.errors := by
  rw [← bind_pure_comp, errors_bind, errors_pure, List.append_nil]

@[simp]
theorem errors_mapM (f : α → Checked ε β) (xs : List α)
    : (xs.mapM f).errors = xs.flatMap fun x => (f x).errors := by
  induction xs with
  | nil => rfl
  | cons x rest ih => simp [ih]

theorem errors_bind_eq_nil_iff (x : Checked ε α) (f : α → Checked ε β)
    : (x >>= f).errors = [] ↔ x.errors = [] ∧ (f x.value).errors = [] := by
  rw [errors_bind, List.append_eq_nil_iff]

theorem errors_mapM_eq_nil_iff (f : α → Checked ε β) (xs : List α)
    : (xs.mapM f).errors = [] ↔ ∀ x ∈ xs, (f x).errors = [] := by
  rw [errors_mapM, List.flatMap_eq_nil_iff]

theorem errors_forIn_report (es : List ε)
    : (forIn es PUnit.unit fun e _ => do
        report e
        return .yield PUnit.unit : Checked ε PUnit).errors = es := by
  induction es with
  | nil => rfl
  | cons e rest ih =>
    rw [List.forIn_cons, errors_bind, errors_bind]
    exact congrArg (e :: ·) ih

def Gives (P : α → Prop) (x : Checked ε (Option α)) : Prop :=
  x.errors = [] → ∃ a, x.value = some a ∧ P a

theorem Gives.map {P : α → Prop} {Q : β → Prop} {x : Checked ε (Option α)} {f : α → β}
    (h : Gives P x) (hf : ∀ a, P a → Q (f a))
    : Gives Q (do return (← x).map f) := by
  intro herrors
  rw [errors_bind_eq_nil_iff] at herrors
  obtain ⟨a, ha, hpa⟩ := h herrors.1
  refine ⟨f a, ?_, hf a hpa⟩
  rw [value_bind, ha, Option.map_some, value_pure]

end Checked

mutual

/-- The fields in a selection, those of the fragments that it spreads not included. -/
def Selection.nodes : Selection → List FieldNode
  | .field node none => [node]
  | .field node (some ⟨items, _⟩) => node :: nodesAll items
  | .spread _ _ _ => []
  | .inline _ _ ⟨items, _⟩ _ => nodesAll items

def Selection.nodesAll : List Selection → List FieldNode
  | [] => []
  | item :: rest => item.nodes ++ nodesAll rest

end

def SelectionSet.nodes (set : SelectionSet) : List FieldNode :=
  Selection.nodesAll set.items

theorem Selection.nodes_subset_nodesAll {item : Selection} {items : List Selection}
    (h : item ∈ items)
    : item.nodes ⊆ nodesAll items :=
  subset_of_mem (fun _ _ => by rw [nodesAll]) h

theorem Schema.object?_eq_some_iff (schema : Schema) (name : String) (object : ObjectType)
    : schema.object? name = some object ↔ schema.type? name = some (.object object) := by
  unfold object? type?
  split <;> simp_all

theorem Schema.find?_of_object? {schema : Schema} {name : String} {object : ObjectType}
    (h : schema.object? name = some object)
    : findObject? schema.objects name = some object := by
  unfold object? findType? at h
  split at h
  . next hfind =>
    cases h
    split at hfind
    . cases hfind
    . obtain ⟨_, hfind, heq⟩ := Option.map_eq_some_iff.mp hfind
      cases heq
      exact hfind
  . cases h

theorem Schema.name_of_object? {schema : Schema} {name : String} {object : ObjectType}
    (h : schema.object? name = some object)
    : object.name = name := by
  simpa using List.find?_some (find?_of_object? h)

theorem Schema.mem_of_object? {schema : Schema} {name : String} {object : ObjectType}
    (h : schema.object? name = some object)
    : object ∈ schema.objects :=
  List.mem_of_find?_eq_some (find?_of_object? h)

namespace Compile

variable {env : Env}

def Env.IsFlag (env : Env) (condition : Condition) : Prop :=
  ∃ definition, env.findVariable condition.variableName = some definition
    ∧ typeFits definition.type (expectedType definition booleanType false) = true

theorem checkVariableUse_value {name : String} {location : TypeRef} {hasDefault : Bool}
    {position : Position}
    (h : (checkVariableUse env name location hasDefault position).value = true)
    : ∃ definition, env.findVariable name = some definition
        ∧ typeFits definition.type (expectedType definition location hasDefault) = true := by
  unfold checkVariableUse at h
  split at h
  . cases h
  . next definition hfind =>
    split at h
    . next hfits => exact ⟨definition, hfind, hfits⟩
    . cases h

theorem compileCondition_value {skips : Bool} {directive : Directive} {condition : Condition}
    (h : (compileCondition env skips directive).value = .conditional condition)
    : env.IsFlag condition := by
  unfold compileCondition at h
  rw [Checked.value_bind] at h
  split at h
  . cases h
  . rw [Checked.value_bind] at h
    split at h
    . next hcheck =>
      obtain ⟨definition, hdefinition⟩ := checkVariableUse_value hcheck
      cases skips <;> cases h <;> exact ⟨definition, hdefinition⟩
    . cases h
  . next flag _ =>
    rw [Checked.value_pure] at h
    split at h <;> cases h
  . cases h

theorem compileDirective_value {directive : Directive} {condition : Condition}
    (h : (compileDirective env directive).value = .conditional condition)
    : env.IsFlag condition := by
  unfold compileDirective at h
  split at h
  . exact compileCondition_value h
  . split at h
    . exact compileCondition_value h
    . cases h

theorem compileConditions_value {directives : List Directive} {conditions : List Condition}
    (h : (compileConditions env directives).value = some conditions)
    : ∀ condition ∈ conditions, env.IsFlag condition := by
  induction directives generalizing conditions with
  | nil =>
    cases h
    simp
  | cons directive rest ih =>
    unfold compileConditions at h
    rw [Checked.value_bind, Checked.value_bind] at h
    split at h
    . exact ih h
    . cases h
    . next condition hcondition =>
      rw [Checked.value_pure] at h
      obtain ⟨others, hothers, rfl⟩ := Option.map_eq_some_iff.mp h
      exact List.forall_mem_cons.mpr ⟨compileDirective_value hcondition, ih hothers⟩

theorem compileArgument_value (node : FieldNode) (coordinate name : String)
    (argument : ArgumentDef)
    : ∃ template, (compileArgument env node coordinate name argument).value
        = ⟨name, argument.type, template, argument.default⟩ := by
  unfold compileArgument
  split
  . split
    . exact ⟨none, rfl⟩
    . exact ⟨none, rfl⟩
  . exact ⟨_, rfl⟩

section Fields

variable {ArgumentOk : ArgumentPlan → Prop} {NodeOk : FieldNode → Prop}

def Env.Checks (env : Env) (NodeOk : FieldNode → Prop) (ArgumentOk : ArgumentPlan → Prop) : Prop :=
  ∀ node, NodeOk node → ∀ coordinate name argument,
    (compileArgument env node coordinate name argument).errors = [] →
      ArgumentOk (compileArgument env node coordinate name argument).value

theorem compileArguments_value (node : FieldNode) (coordinate : String)
    (declared : Ordered ArgumentDef)
    : (compileArguments env node coordinate declared).value
        = declared.map fun (name, argument) =>
            (compileArgument env node coordinate name argument).value := by
  unfold compileArguments
  rw [Checked.value_bind, Checked.value_mapM]

theorem declared_of_compileArguments (node : FieldNode) (coordinate : String)
    (declared : Ordered ArgumentDef)
    : (compileArguments env node coordinate declared).value.map
        (fun argument => (argument.name, ArgumentDef.mk argument.type argument.default))
        = declared := by
  rw [compileArguments_value, List.map_map]
  apply List.map_id''
  rintro ⟨name, argument⟩
  obtain ⟨template, htemplate⟩ := @compileArgument_value env node coordinate name argument
  simp [htemplate]

theorem argumentOk_of_compileArguments (hchecks : env.Checks NodeOk ArgumentOk)
    {node : FieldNode} (hnode : NodeOk node) {coordinate : String}
    {declared : Ordered ArgumentDef}
    (h : (compileArguments env node coordinate declared).errors = [])
    : ∀ argument ∈ (compileArguments env node coordinate declared).value, ArgumentOk argument := by
  intro argument hmem
  rw [compileArguments_value, List.mem_map] at hmem
  obtain ⟨⟨name, definition⟩, hdeclared, rfl⟩ := hmem
  unfold compileArguments at h
  rw [Checked.errors_bind_eq_nil_iff, Checked.errors_mapM_eq_nil_iff] at h
  exact hchecks node hnode coordinate name definition (h.2 _ hdeclared)

def Env.Compiling (env : Env) (NodeOk : FieldNode → Prop) (ArgumentOk : ArgumentPlan → Prop)
    (sets : SetCompiler)
    : Prop :=
  ∀ set object, (∀ node ∈ SelectionSet.nodes set, NodeOk node) → (sets set object).errors = [] →
    ∀ item ∈ (sets set object).value, item.WellFormed env.schema ArgumentOk env.IsFlag object

variable {sets : SetCompiler} {node : FieldNode} {set : Option SelectionSet} {parent : ObjectType}

theorem wellFormed_of_compileChildren (hsets : env.Compiling NodeOk ArgumentOk sets)
    (hset : ∀ nested ∈ set, ∀ node ∈ SelectionSet.nodes nested, NodeOk node) {field : FieldDef}
    {head : FieldPlan} (hhead : head.Declared ArgumentOk env.IsFlag parent field)
    (h : (compileChildren env sets node field.type set).errors = [])
    : SelectionItem.WellFormed env.schema ArgumentOk env.IsFlag parent
        (.field head (compileChildren env sets node field.type set).value) := by
  unfold compileChildren at h ⊢
  split at h
  . next object nested htype =>
    rw [Checked.errors_bind_eq_nil_iff] at h
    exact .nested hhead ((Schema.object?_eq_some_iff _ _ _).mpr htype)
      (hsets nested object (hset nested rfl) h.1)
  . cases h
  . cases h
  . next hobject =>
    apply SelectionItem.WellFormed.leaf hhead
    rw [Option.eq_none_iff_forall_ne_some]
    intro object hfound
    exact hobject object ((Schema.object?_eq_some_iff _ _ _).mp hfound)

theorem wellFormed_of_compileField (hchecks : env.Checks NodeOk ArgumentOk)
    (hsets : env.Compiling NodeOk ArgumentOk sets) (hnode : NodeOk node)
    (hset : ∀ nested ∈ set, ∀ node ∈ SelectionSet.nodes nested, NodeOk node)
    {conditions : List Condition} (hconditions : ∀ condition ∈ conditions, env.IsFlag condition)
    {head : FieldPlan} {children : Option (List SelectionItem)}
    (hvalue : (compileField env sets node set parent).value = some (head, children))
    (h : (compileField env sets node set parent).errors = [])
    : SelectionItem.WellFormed env.schema ArgumentOk env.IsFlag parent
        (.field { head with conditions } children) := by
  unfold compileField at h hvalue
  split at h
  . next hname =>
    rw [if_pos hname, Checked.value_bind, compileTypename_value] at hvalue
    cases hvalue
    exact .typename ⟨rfl, rfl, rfl, rfl, rfl, hconditions⟩
  . next hname =>
    rw [if_neg hname] at hvalue
    split at h
    . cases h
    . next field hfield =>
      simp only [hfield] at hvalue
      cases hvalue
      rw [Checked.errors_bind_eq_nil_iff, Checked.errors_bind_eq_nil_iff] at h
      exact wellFormed_of_compileChildren hsets hset
        ⟨rfl, hfield, rfl, OutputType.render_ofTypeRef _, declared_of_compileArguments _ _ _,
          argumentOk_of_compileArguments hchecks hnode h.1, hconditions⟩ h.2.1

theorem wellFormed_groupOf {conditions : Option (List Condition)}
    (hconditions : ∀ given ∈ conditions, ∀ condition ∈ given, env.IsFlag condition)
    {items : List SelectionItem}
    (hitems : ∀ item ∈ items, item.WellFormed env.schema ArgumentOk env.IsFlag parent)
    : ∀ item ∈ groupOf conditions items,
        item.WellFormed env.schema ArgumentOk env.IsFlag parent := by
  unfold groupOf
  split
  . simp
  . exact hitems
  . next given _ =>
    intro item hitem
    cases List.mem_singleton.mp hitem
    exact .group (hconditions _ rfl) hitems

theorem wellFormed_of_compileItem (hchecks : env.Checks NodeOk ArgumentOk)
    (hsets : env.Compiling NodeOk ArgumentOk sets)
    (hnodes : ∀ other ∈ (Selection.field node set).nodes, NodeOk other)
    (h : (compileItem env sets node set parent).errors = [])
    : ∀ item ∈ (compileItem env sets node set parent).value,
        item.WellFormed env.schema ArgumentOk env.IsFlag parent := by
  intro item hitem
  unfold compileItem at h hitem
  rw [Checked.errors_bind_eq_nil_iff, Checked.errors_bind_eq_nil_iff] at h
  rw [Checked.value_bind, Checked.value_bind] at hitem
  split at hitem
  . next conditions head nested hconditions hfield =>
    cases List.mem_singleton.mp hitem
    have hnode : NodeOk node := hnodes node (by cases set <;> simp [Selection.nodes])
    have hchildren : ∀ inner ∈ set, ∀ other ∈ SelectionSet.nodes inner, NodeOk other := by
      rintro inner ⟨⟩ other hother
      exact hnodes other (List.mem_cons_of_mem _ hother)
    exact wellFormed_of_compileField hchecks hsets hnode hchildren
      (compileConditions_value hconditions) hfield h.2.1
  . cases hitem

theorem wellFormed_of_compileSpread (hsets : env.Compiling NodeOk ArgumentOk sets)
    (hfragments : ∀ f ∈ env.document.fragments, ∀ node ∈ SelectionSet.nodes f.set, NodeOk node)
    {stack : List String} {name : String} {directives : List Directive} {position : Position}
    (h : (compileSpread env stack sets name directives position parent).errors = [])
    : ∀ item ∈ (compileSpread env stack sets name directives position parent).value,
        item.WellFormed env.schema ArgumentOk env.IsFlag parent := by
  intro item hitem
  unfold compileSpread at h hitem
  rw [Checked.errors_bind_eq_nil_iff] at h
  rw [Checked.value_bind] at hitem
  have h := h.2
  split at hitem
  . cases hitem
  . next fragment hfragment =>
    have hmem : fragment ∈ env.document.fragments := List.mem_of_find?_eq_some hfragment
    simp only [hfragment] at h
    split at hitem
    . cases hitem
    . next hstack =>
      rw [if_neg hstack, Checked.errors_bind_eq_nil_iff] at h
      rw [Checked.value_bind] at hitem
      split at hitem
      . next hcheck =>
        rw [if_pos hcheck, Checked.errors_bind_eq_nil_iff, Checked.errors_bind_eq_nil_iff] at h
        exact wellFormed_groupOf (fun given hgiven => compileConditions_value hgiven)
          (hsets fragment.set parent (hfragments fragment hmem) h.2.2.1) item hitem
      . cases hitem

theorem wellFormed_of_compileInline (hsets : env.Compiling NodeOk ArgumentOk sets)
    {condition : Option String} {directives : List Directive} {inner : SelectionSet}
    {position : Position} (hnodes : ∀ node ∈ SelectionSet.nodes inner, NodeOk node)
    (h : (compileInline env sets condition directives inner position parent).errors = [])
    : ∀ item ∈ (compileInline env sets condition directives inner position parent).value,
        item.WellFormed env.schema ArgumentOk env.IsFlag parent := by
  intro item hitem
  unfold compileInline at h hitem
  rw [Checked.errors_bind_eq_nil_iff, Checked.errors_bind_eq_nil_iff] at h
  rw [Checked.value_bind, Checked.value_bind] at hitem
  have h := h.2.2
  split at hitem
  . next hcheck =>
    rw [if_pos hcheck, Checked.errors_bind_eq_nil_iff] at h
    exact wellFormed_groupOf (fun given hgiven => compileConditions_value hgiven)
      (hsets inner parent hnodes h.1) item hitem
  . cases hitem

theorem wellFormed_compileSet (hchecks : env.Checks NodeOk ArgumentOk)
    (hfragments : ∀ f ∈ env.document.fragments, ∀ node ∈ SelectionSet.nodes f.set, NodeOk node)
    (levels : Nat) (stack : List String)
    : env.Compiling NodeOk ArgumentOk (compileSet env levels stack) := by
  -- The stack differs from fragment to fragment, but nothing depends on what is in it.
  induction levels generalizing stack with
  | zero =>
    intro set parent _ h
    cases h
  | succ levels ih =>
    intro set parent hnodes h item hitem
    unfold compileSet at h hitem
    rw [Checked.errors_bind_eq_nil_iff, Checked.errors_mapM_eq_nil_iff] at h
    rw [Checked.value_bind, Checked.value_pure, Checked.value_mapM, List.mem_flatten] at hitem
    obtain ⟨items, hitems, hitem⟩ := hitem
    obtain ⟨selection, hselection, rfl⟩ := List.mem_map.mp hitems
    have herrors := h.1 selection hselection
    have hinner : ∀ node ∈ selection.nodes, NodeOk node := fun node hnode =>
      hnodes node (Selection.nodes_subset_nodesAll hselection hnode)
    cases selection with
    | field node children =>
      exact wellFormed_of_compileItem hchecks (ih stack) hinner herrors item hitem
    | spread name directives position =>
      exact wellFormed_of_compileSpread (ih (name :: stack)) hfragments herrors item hitem
    | inline condition directives set position =>
      exact wellFormed_of_compileInline (ih stack) hinner herrors item hitem

end Fields

theorem errors_compileOperation (schema : Schema) (document : Document) (operation : Operation)
    (root : ObjectType)
    : (compileOperation schema document operation root).errors
        = (compileVariables schema [] operation.variableDefinitions).errors
          ++ (rejectDirectives operation.directives (operationLocation operation.kind)).errors
          ++ (compileSet ⟨schema, document, operation.variableDefinitions⟩ Parser.maxDepth []
            operation.set root).errors
          ++ Conflict.ofSelection
            (compileOperation schema document operation root).value.depth
            (compileOperation schema document operation root).value.selection := by
  unfold compileOperation
  simp only [Checked.errors_bind, Checked.value_bind, Checked.value_pure,
    Checked.errors_forIn_report, Checked.errors_pure, List.append_nil, List.append_assoc]

end Compile

end GraphGateway

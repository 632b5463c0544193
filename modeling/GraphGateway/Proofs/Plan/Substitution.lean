import GraphGateway.Proofs.Plan.MappedSets
import GraphGateway.Proofs.Plan.SentLiterals

/-!
This module contains the substitution of a literal for a variable that is handed to arguments as a
whole, and the proof that the selections of the document compile to the same, with the same errors,
but for the literal in the place of the variable.
-/

namespace GraphGateway

open SelectionItem (mapHeadsAll)

def Literal.withLiteral (name : String) (l : Literal) : Literal → Literal
  | .variable other => if other = name then l else .variable other
  | other => other

def FieldNode.withLiteral (name : String) (l : Literal) (node : FieldNode) : FieldNode :=
  { node with arguments := Ordered.mapValues (Literal.withLiteral name l) node.arguments }

mutual

def Selection.withLiteral (name : String) (l : Literal) : Selection → Selection
  | .field node none => .field (node.withLiteral name l) none
  | .field node (some ⟨items, start⟩) =>
    .field (node.withLiteral name l) (some ⟨withLiteralAll name l items, start⟩)
  | .spread fragment directives position => .spread fragment directives position
  | .inline condition directives ⟨items, start⟩ position =>
    .inline condition directives ⟨withLiteralAll name l items, start⟩ position

def Selection.withLiteralAll (name : String) (l : Literal) : List Selection → List Selection
  | [] => []
  | item :: rest => item.withLiteral name l :: withLiteralAll name l rest

end

def SelectionSet.withLiteral (name : String) (l : Literal) (set : SelectionSet) : SelectionSet :=
  ⟨Selection.withLiteralAll name l set.items, set.position⟩

/-- The operation does not declare the variable any more. -/
def Operation.withLiteral (name : String) (l : Literal) (operation : Operation) : Operation :=
  { operation with
    variableDefinitions := operation.variableDefinitions.filter fun definition =>
      definition.name ≠ name
    set := SelectionSet.withLiteral name l operation.set }

def Fragment.withLiteral (name : String) (l : Literal) (fragment : Fragment) : Fragment :=
  { fragment with set := SelectionSet.withLiteral name l fragment.set }

def Definition.withLiteral (name : String) (l : Literal) : Definition → Definition
  | .operation op => .operation (op.withLiteral name l)
  | .fragment f => .fragment (f.withLiteral name l)

def Document.withLiteral (name : String) (l : Literal) (document : Document) : Document :=
  ⟨document.definitions.map (Definition.withLiteral name l)⟩

def Selection.directives : Selection → List Directive
  | .field node _ => node.directives
  | .spread _ directives _ => directives
  | .inline _ directives _ _ => directives

/--
A field of an object type takes a variable only for whole arguments, and only for those of one type.
-/
structure FieldNode.Takes (node : FieldNode) (object : ObjectType) (name : String) (type : TypeRef)
    : Prop where
  whole : ∀ argument l, Ordered.get? node.arguments argument = some l → name ∈ l.variableNames →
    l = .variable name
  typed : ∀ field, object.field? node.name = some field →
    ∀ argument declared, (argument, declared) ∈ field.arguments →
      Ordered.get? node.arguments argument = some (.variable name) → declared.type = type

/--
A selection on an object type takes a variable for arguments of one type, and for nothing else.
-/
structure Selection.Takes (selection : Selection) (object : ObjectType) (name : String)
    (type : TypeRef)
    : Prop where
  untested : ∀ directive ∈ selection.directives, directive.argument? "if" ≠ some (.variable name)
  field : ∀ node set, selection = .field node set → node.Takes object name type

namespace Compile

/-- The selection sets that are compiled in the course of another one, on their object types. -/
inductive Env.Opens (env : Env) : SelectionSet × ObjectType → SelectionSet × ObjectType → Prop where
  | field {set inner : SelectionSet} {object child : ObjectType} {node : FieldNode}
    {field : FieldDef} (hmem : .field node (some inner) ∈ set.items)
    (hfield : object.field? node.name = some field)
    (hchild : env.schema.type? field.type.innermost = some (.object child))
    : Opens env (set, object) (inner, child)
  | spread {set : SelectionSet} {object : ObjectType} {name : String} {directives : List Directive}
    {position : Position} {fragment : Fragment}
    (hmem : .spread name directives position ∈ set.items)
    (hfragment : env.document.fragment? name = some fragment)
    : Opens env (set, object) (fragment.set, object)
  | inline {set inner : SelectionSet} {object : ObjectType} {condition : Option String}
    {directives : List Directive} {position : Position}
    (hmem : .inline condition directives inner position ∈ set.items)
    : Opens env (set, object) (inner, object)

/-- All selections that are compiled for a set take a variable for arguments of one type only. -/
def Env.TakesIn (env : Env) (name : String) (type : TypeRef) (set : SelectionSet)
    (object : ObjectType) : Prop :=
  ∀ place, Relation.ReflTransGen env.Opens (set, object) place →
    ∀ selection ∈ place.1.items, selection.Takes place.2 name type

def Env.withLiteral (name : String) (l : Literal) (env : Env) : Env where
  schema := env.schema
  document := env.document.withLiteral name l
  variableDefinitions := env.variableDefinitions.filter fun definition => definition.name ≠ name

end Compile

def Template.withConst (name : String) (v : Json) : Template → Template
  | .variable other => if other = name then .const v else .variable other
  | other => other

def ArgumentPlan.withConst (name : String) (v : Json) (argument : ArgumentPlan) : ArgumentPlan :=
  { argument with template := argument.template.map (Template.withConst name v) }

def FieldPlan.withConst (name : String) (v : Json) (field : FieldPlan) : FieldPlan :=
  { field with arguments := field.arguments.map (ArgumentPlan.withConst name v) }

theorem Template.withConst_of_ne {name : String} {v : Json} {template : Template}
    (h : template ≠ .variable name)
    : template.withConst name v = template := by
  cases template with
  | «variable» other =>
    refine if_neg ?_
    rintro rfl
    exact h rfl
  | _ => rfl

theorem ArgumentPlan.withConst_of_ne {name : String} {v : Json} {argument : ArgumentPlan}
    (h : argument.template ≠ some (.variable name))
    : argument.withConst name v = argument := by
  cases htemplate : argument.template with
  | none => rw [withConst, htemplate, Option.map_none, ← htemplate]
  | some template =>
    have hne : template ≠ .variable name := by
      rintro rfl
      exact h htemplate
    rw [withConst, htemplate, Option.map_some, Template.withConst_of_ne hne, ← htemplate]

section Documents

variable {name : String} {l : Literal}

theorem operations_withLiteral (document : Document)
    : (document.withLiteral name l).operations
        = document.operations.map (Operation.withLiteral name l) :=
  document.operations_map (fun _ => rfl) (fun _ => rfl)

theorem fragment?_withLiteral (document : Document) (fragment : String)
    : (document.withLiteral name l).fragment? fragment
        = (document.fragment? fragment).map (Fragment.withLiteral name l) :=
  document.fragment?_map (f := Definition.withLiteral name l) (r := Operation.withLiteral name l)
    (fun _ => rfl) (fun _ => rfl) (fun _ => rfl) fragment

theorem Literal.withLiteral_of_not_mem {written : Literal} (h : name ∉ written.variableNames)
    : withLiteral name l written = written := by
  cases written with
  | «variable» other =>
    refine if_neg ?_
    rintro rfl
    exact h List.mem_cons_self
  | _ => rfl

theorem Selection.withLiteralAll_eq_map (items : List Selection)
    : withLiteralAll name l items = items.map (Selection.withLiteral name l) := by
  induction items with
  | nil => rfl
  | cons item rest ih => rw [withLiteralAll, ih, List.map_cons]

end Documents

theorem Checked.bind_congr_value {ε α β : Type} {x : Checked ε α} {f g : α → Checked ε β}
    (h : f x.value = g x.value)
    : x >>= f = x >>= g :=
  congrArg (fun y : Checked ε β => Checked.mk y.value (x.errors ++ y.errors)) h

namespace Compile

variable {env : Env} {name : String} {l : Literal}

theorem findVariable_withLiteral {other : String} (h : other ≠ name)
    : (env.withLiteral name l).findVariable other = env.findVariable other := by
  unfold Env.findVariable Env.withLiteral
  rw [List.find?_filter]
  apply List.find?_congr
  intro definition _
  by_cases hname : definition.name = other
  . simp [hname, h]
  . simp [hname]

theorem checkVariableUse_withLiteral {other : String} (h : other ≠ name)
    : checkVariableUse (env.withLiteral name l) other = checkVariableUse env other := by
  funext location hasDefault position
  unfold checkVariableUse
  rw [findVariable_withLiteral h]

theorem compileCondition_withLiteral {directive : Directive}
    (h : directive.argument? "if" ≠ some (.variable name)) (skips : Bool)
    : compileCondition (env.withLiteral name l) skips directive
        = compileCondition env skips directive := by
  unfold compileCondition
  dsimp only
  split
  . rfl
  . next other hother =>
    rw [checkVariableUse_withLiteral]
    rintro rfl
    exact h hother
  . rfl
  . rfl

theorem compileConditions_withLiteral {directives : List Directive}
    (h : ∀ directive ∈ directives, directive.argument? "if" ≠ some (.variable name))
    : compileConditions (env.withLiteral name l) directives = compileConditions env directives := by
  induction directives with
  | nil => rfl
  | cons directive rest ih =>
    obtain ⟨hdirective, hrest⟩ := List.forall_mem_cons.mp h
    unfold compileConditions compileDirective
    rw [compileCondition_withLiteral hdirective, compileCondition_withLiteral hdirective, ih hrest]

section Values

variable {argument : String} {position : Position}

theorem collect_congr {α β : Type} {f g : α → Compile (Option β)} {xs : List α}
    (h : ∀ x ∈ xs, f x = g x)
    : collect f xs = collect g xs := by
  induction xs with
  | nil => rfl
  | cons x rest ih =>
    obtain ⟨hx, hrest⟩ := List.forall_mem_cons.mp h
    rw [collect, collect, hx, ih hrest]

theorem compileValue_withLiteral {type : TypeRef} {hasDefault : Bool} {written : Literal}
    (h : name ∉ written.variableNames)
    : compileValue (env.withLiteral name l) argument position type hasDefault written
        = compileValue env argument position type hasDefault written := by
  induction type using TypeRef.element_induction generalizing hasDefault written with
  | h type ih =>
    by_cases hvariable : ∃ other, written = .variable other
    . obtain ⟨other, rfl⟩ := hvariable
      have hne : other ≠ name := by
        rintro rfl
        exact h List.mem_cons_self
      unfold compileValue
      rw [checkVariableUse_withLiteral hne]
    . rw [not_exists] at hvariable
      cases htype : elementType? type with
      | none => rw [compileValue_constant htype hvariable, compileValue_constant htype hvariable]
      | some inner =>
        by_cases hnull : written = .null
        . subst hnull
          rw [compileValue_null, compileValue_null]
        . by_cases hlist : ∃ items, written = .list items
          . obtain ⟨items, rfl⟩ := hlist
            rw [compileValue_list htype, compileValue_list htype]
            refine congrArg (· >>= _) (collect_congr fun item hitem => ih inner htype ?_)
            exact fun hname => h (Literal.mem_variableNamesItems_iff.mpr ⟨item, hitem, hname⟩)
          . rw [not_exists] at hlist
            rw [compileValue_single htype hvariable hnull hlist,
              compileValue_single htype hvariable hnull hlist, ih inner htype h]

theorem compileValue_ne_variable {type : TypeRef} {hasDefault : Bool} {written : Literal}
    (h : name ∉ written.variableNames)
    : (compileValue env argument position type hasDefault written).value
        ≠ some (.variable name) := by
  revert h
  apply compileValue_induction
    (P := fun _ _ written x => name ∉ written.variableNames → x.value ≠ some (.variable name))
  case hvariable =>
    intro type hasDefault other h
    rw [Checked.value_bind]
    split
    . rintro ⟨⟩
      exact h List.mem_cons_self
    . rintro ⟨⟩
  case hconstant =>
    intro type hasDefault written _
    unfold constant
    split <;> rintro ⟨⟩
  case hlist =>
    intro type inner hasDefault items _ _ _ heq
    obtain ⟨_, _, heq⟩ := Option.map_eq_some_iff.mp heq
    exact Template.ofList_ne_variable _ _ heq
  case hsingle =>
    intro type inner hasDefault written _ _ _ _ heq
    obtain ⟨_, _, heq⟩ := Option.map_eq_some_iff.mp heq
    exact Template.ofList_ne_variable _ _ heq

theorem compileValue_variable {definition : VariableDefinition}
    (hfind : env.findVariable name = some definition) (hasDefault : Bool)
    : compileValue env argument position definition.type hasDefault (.variable name)
        = pure (some (.variable name)) := by
  have hexpected : expectedType definition definition.type hasDefault = definition.type := by
    unfold expectedType
    cases definition.type.isNonNull <;> rfl
  have huse : checkVariableUse env name definition.type hasDefault position = pure true := by
    unfold checkVariableUse
    rw [hfind]
    dsimp only
    rw [hexpected, typeFits_self]
    rfl
  unfold compileValue
  rw [huse]
  rfl

end Values

theorem forIn_withLiteral {node : FieldNode}
    {f : String × Literal → PUnit → Compile (ForInStep PUnit)}
    (hf : ∀ entry, f (entry.1, Literal.withLiteral name l entry.2) = f entry)
    : forIn (node.withLiteral name l).arguments ⟨⟩ f = forIn node.arguments ⟨⟩ f := by
  unfold FieldNode.withLiteral Ordered.mapValues
  rw [List.forIn_map]
  congr 1
  funext entry
  exact hf entry

structure Env.Admits (env : Env) (name : String) (type : TypeRef) (l : Literal) (v : Json)
    : Prop where
  declared : ∃ definition, env.findVariable name = some definition ∧ definition.type = type
  coerced : Coercion.coerceLiteral type l = .ok v

section Fields

variable {type : TypeRef} {v : Json} (hadmits : env.Admits name type l v) {node : FieldNode}
  {parent : ObjectType}

include hadmits

theorem compileArgument_withLiteral {coordinate argument : String} {declared : ArgumentDef}
    (hwhole : ∀ written, Ordered.get? node.arguments argument = some written →
      name ∈ written.variableNames → written = .variable name ∧ declared.type = type)
    : compileArgument (env.withLiteral name l) (node.withLiteral name l) coordinate argument
          declared
        = ArgumentPlan.withConst name v
            <$> compileArgument env node coordinate argument declared := by
  have hget : Ordered.get? (node.withLiteral name l).arguments argument
      = (Ordered.get? node.arguments argument).map (Literal.withLiteral name l) :=
    Ordered.get?_mapValues _ _ _
  unfold compileArgument
  rw [hget]
  cases hwritten : Ordered.get? node.arguments argument with
  | none =>
    dsimp only [Option.map_none]
    split <;> rfl
  | some written =>
    dsimp only [Option.map_some]
    rw [map_bind]
    by_cases hname : name ∈ written.variableNames
    . obtain ⟨rfl, rfl⟩ := hwhole written hwritten hname
      obtain ⟨⟨definition, hfind, htype⟩, hv⟩ := hadmits
      have hliteral : Literal.withLiteral name l (.variable name) = l := if_pos rfl
      have hconst : Template.withConst name v (.variable name) = .const v := if_pos rfl
      rw [hliteral, compileValue_of_coerceLiteral hv, ← htype, compileValue_variable hfind,
        pure_bind, pure_bind, map_pure, ArgumentPlan.withConst, Option.map_some, hconst]
    . rw [Literal.withLiteral_of_not_mem hname, compileValue_withLiteral hname]
      refine Checked.bind_congr_value ?_
      rw [map_pure, ArgumentPlan.withConst_of_ne]
      exact compileValue_ne_variable hname

theorem compileArguments_withLiteral {field : FieldDef}
    (hfield : parent.field? node.name = some field)
    (htakes : node.Takes parent name type) (coordinate : String)
    : compileArguments (env.withLiteral name l) (node.withLiteral name l) coordinate field.arguments
        = List.map (ArgumentPlan.withConst name v)
            <$> compileArguments env node coordinate field.arguments := by
  unfold compileArguments
  dsimp only
  rw [forIn_withLiteral fun _ => rfl, map_bind]
  refine bind_congr fun _ => ?_
  apply mapM_eq_map_mapM
  rintro ⟨argument, declared⟩ hdeclared
  apply compileArgument_withLiteral hadmits
  intro written hwritten hname
  cases htakes.whole argument written hwritten hname
  exact ⟨rfl, htakes.typed field hfield argument declared hdeclared hwritten⟩

end Fields

/--
One compiler makes of a set with the literal what the other makes of the set, but for the constant.
-/
def Substitutes (name : String) (l : Literal) (v : Json) (sets other : SetCompiler)
    (set : SelectionSet) (object : ObjectType)
    : Prop :=
  other (SelectionSet.withLiteral name l set) object
    = mapHeadsAll (FieldPlan.withConst name v) <$> sets set object

section Sets

variable {type : TypeRef} {v : Json} {sets other : SetCompiler} {node : FieldNode}
  {set : Option SelectionSet} {parent : ObjectType}

theorem compileChildren_withLiteral {type : TypeRef}
    (h : ∀ inner ∈ set, ∀ child, env.schema.type? type.innermost = some (.object child) →
      Substitutes name l v sets other inner child)
    : compileChildren (env.withLiteral name l) other (node.withLiteral name l) type
        (set.map (SelectionSet.withLiteral name l))
        = Option.map (mapHeadsAll (FieldPlan.withConst name v))
            <$> compileChildren env sets node type set := by
  have hschema : (env.withLiteral name l).schema = env.schema := rfl
  unfold compileChildren
  rw [hschema]
  cases set with
  | none => rcases env.schema.type? type.innermost with _ | _ | _ <;> rfl
  | some inner =>
    cases htype : env.schema.type? type.innermost with
    | none => rfl
    | some named =>
      cases named with
      | scalar s => rfl
      | object child =>
        dsimp only [Option.map_some]
        rw [h inner rfl child htype]
        simp only [map_bind, bind_map_left, map_pure, Option.map_some]

theorem compileTypename_withLiteral (v : Json) (hasSet : Bool)
    : compileTypename (node.withLiteral name l) hasSet parent
        = mapField (FieldPlan.withConst name v) <$> compileTypename node hasSet parent := by
  unfold compileTypename
  dsimp only
  rw [forIn_withLiteral fun _ => rfl, map_bind]
  refine bind_congr fun _ => ?_
  cases hasSet <;> rfl

theorem compileField_withLiteral (hadmits : env.Admits name type l v)
    (htakes : node.Takes parent name type)
    (h : ∀ inner ∈ set, ∀ field, parent.field? node.name = some field →
      ∀ child, env.schema.type? field.type.innermost = some (.object child) →
        Substitutes name l v sets other inner child)
    : compileField (env.withLiteral name l) other (node.withLiteral name l)
        (set.map (SelectionSet.withLiteral name l)) parent
        = Option.map (mapField (FieldPlan.withConst name v))
            <$> compileField env sets node set parent := by
  unfold compileField
  have hname : (node.withLiteral name l).name = node.name := rfl
  rw [hname, Option.isSome_map]
  split
  . rw [compileTypename_withLiteral v]
    simp only [map_bind, bind_map_left, map_pure, Option.map_some]
  . cases hfield : parent.field? node.name with
    | none => rfl
    | some field =>
      dsimp only
      rw [compileArguments_withLiteral hadmits hfield htakes,
        compileChildren_withLiteral fun inner hinner => h inner hinner field hfield]
      simp only [map_bind, bind_map_left, map_pure]
      refine bind_congr fun arguments => bind_congr fun children => ?_
      cases field.resolver <;> rfl

end Sets

/-- A step into a set that is compiled in the course of another one. -/
theorem Env.TakesIn.opens {type : TypeRef} {set inner : SelectionSet} {object child : ObjectType}
    (h : env.TakesIn name type set object) (hopens : env.Opens (set, object) (inner, child))
    : env.TakesIn name type inner child :=
  fun place hplace => h place (hplace.head hopens)

theorem withLiteral_field (node : FieldNode) (set : Option SelectionSet)
    : (Selection.field node set).withLiteral name l
        = .field (node.withLiteral name l) (set.map (SelectionSet.withLiteral name l)) := by
  cases set <;> rfl

theorem compileSet_withLiteral {type : TypeRef} {v : Json} (hadmits : env.Admits name type l v)
    (levels : Nat) (stack : List String) {set : SelectionSet} {object : ObjectType}
    (htakes : env.TakesIn name type set object)
    : Substitutes name l v (compileSet env levels stack)
        (compileSet (env.withLiteral name l) levels stack) set object := by
  -- A fragment is put on the stack where it is spread, so that the stack is not fixed.
  induction levels generalizing stack set object with
  | zero => rfl
  | succ levels ih =>
    refine compileSet_map (Selection.withLiteralAll_eq_map set.items) fun selection hmem => ?_
    have hself := htakes (set, object) .refl selection hmem
    have hconditions :=
      @compileConditions_withLiteral env name l selection.directives hself.untested
    cases selection with
    | field node children =>
      rw [withLiteral_field]
      refine compileItem_map (fun _ _ => rfl) hconditions ?_
      refine compileField_withLiteral hadmits (hself.field node children rfl) ?_
      rintro inner ⟨⟩ field hfield child hchild
      exact ih stack (htakes.opens (.field hmem hfield hchild))
    | spread fragment directives position =>
      have hfragment := @fragment?_withLiteral name l env.document fragment
      refine compileSpread_map ?_ hconditions hfragment (fun _ _ => rfl) fun found hfound => ?_
      . exact fun _ => ⟨rfl, rfl⟩
      . exact ih (fragment :: stack) (htakes.opens (.spread hmem hfound))
    | inline condition directives inner position =>
      exact compileInline_map hconditions (fun _ _ => rfl) (ih stack (htakes.opens (.inline hmem)))

end Compile
end GraphGateway

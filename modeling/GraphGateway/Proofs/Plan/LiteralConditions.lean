import GraphGateway.Proofs.Plan.Faults

/-!
This module contains that conditions on literals hide no errors: whatever they exclude, a document
has the same errors without them, apart from fields that cannot be merged.
-/

namespace GraphGateway

def Directive.isLiteral (directive : Directive) : Bool :=
  (directive.name = "skip" || directive.name = "include") &&
    match directive.arguments with
    | [(name, .boolean _)] => name = "if"
    | _ => false

def Directive.bare (directives : List Directive) : List Directive :=
  directives.filter (!·.isLiteral)

def FieldNode.bare (node : FieldNode) : FieldNode :=
  { node with directives := Directive.bare node.directives }

mutual

def Selection.bare : Selection → Selection
  | .field node none => .field node.bare none
  | .field node (some ⟨items, start⟩) => .field node.bare (some ⟨bareAll items, start⟩)
  | .spread name directives position => .spread name (Directive.bare directives) position
  | .inline condition directives ⟨items, start⟩ position =>
    .inline condition (Directive.bare directives) ⟨bareAll items, start⟩ position

def Selection.bareAll : List Selection → List Selection
  | [] => []
  | item :: rest => item.bare :: bareAll rest

end

def SelectionSet.bare (set : SelectionSet) : SelectionSet :=
  ⟨Selection.bareAll set.items, set.position⟩

def Operation.bare (operation : Operation) : Operation :=
  { operation with set := SelectionSet.bare operation.set }

def Fragment.bare (fragment : Fragment) : Fragment :=
  { fragment with set := SelectionSet.bare fragment.set }

def Definition.bare : Definition → Definition
  | .operation op => .operation op.bare
  | .fragment f => .fragment f.bare

def Document.bare (document : Document) : Document :=
  ⟨document.definitions.map Definition.bare⟩

theorem Selection.bareAll_eq_map (items : List Selection)
    : bareAll items = items.map bare := by
  induction items with
  | nil => rfl
  | cons item rest ih => rw [bareAll, ih, List.map_cons]

theorem Selection.bare_field (node : FieldNode) (set : Option SelectionSet)
    : (Selection.field node set).bare = .field node.bare (set.map SelectionSet.bare) := by
  cases set <;> rfl

theorem Document.operations_bare (document : Document)
    : document.bare.operations = document.operations.map Operation.bare :=
  document.operations_map (fun _ => rfl) (fun _ => rfl)

theorem Document.fragment?_bare (document : Document) (name : String)
    : document.bare.fragment? name = (document.fragment? name).map Fragment.bare :=
  document.fragment?_map (f := Definition.bare) (r := Operation.bare) (fun _ => rfl) (fun _ => rfl)
    (fun _ => rfl) name

namespace Compile

section Conditions

theorem exists_of_isLiteral {directive : Directive} (h : directive.isLiteral = true)
    : (directive.name = "skip" ∨ directive.name = "include")
        ∧ ∃ b, directive.arguments = [("if", .boolean b)] := by
  unfold Directive.isLiteral at h
  obtain ⟨hname, harguments⟩ := Bool.and_eq_true_iff.mp h
  refine ⟨by simpa using hname, ?_⟩
  split at harguments
  . next name b heq =>
    obtain rfl : name = "if" := by simpa using harguments
    exact ⟨b, heq⟩
  . cases harguments

theorem errors_compileDirective_of_isLiteral {directive : Directive}
    (h : directive.isLiteral = true) (env : Env)
    : (compileDirective env directive).errors = [] := by
  obtain ⟨hname, b, harguments⟩ := exists_of_isLiteral h
  have hcondition (skips : Bool) : (compileCondition env skips directive).errors = [] := by
    unfold compileCondition Directive.argument?
    rw [harguments]
    rfl
  unfold compileDirective
  obtain hname | hname := hname
  . rw [hname]
    exact hcondition true
  . rw [hname]
    exact hcondition false

theorem errors_compileConditions_cons (env : Env) (directive : Directive) (rest : List Directive)
    : (compileConditions env (directive :: rest)).errors
        = (compileDirective env directive).errors ++ (compileConditions env rest).errors := by
  rw [compileConditions, Checked.errors_bind, Checked.errors_bind]
  cases (compileDirective env directive).value <;> simp

theorem errors_compileConditions_bare (env : Env) (document : Document)
    (directives : List Directive)
    : (compileConditions (env.withDocument document) (Directive.bare directives)).errors
        = (compileConditions env directives).errors := by
  rw [compileConditions_congr (variableDefinitions_withDocument env document)]
  induction directives with
  | nil => rfl
  | cons directive rest ih =>
    rw [errors_compileConditions_cons, ← ih]
    unfold Directive.bare
    cases h : directive.isLiteral with
    | true =>
      rw [List.filter_cons_of_neg (by simp [h]), errors_compileDirective_of_isLiteral h]
      rfl
    | false => rw [List.filter_cons_of_pos (by simp [h]), errors_compileConditions_cons]

end Conditions

section Step

variable {env : Env} {document : Document} {sets others : SetCompiler} {parent : ObjectType}

theorem errors_compileChildren_bare {node : FieldNode} {type : TypeRef} {set : Option SelectionSet}
    (hset : ∀ written ∈ set, ∀ object,
      (others (SelectionSet.bare written) object).errors = (sets written object).errors)
    : (compileChildren (env.withDocument document) others node.bare type
          (set.map SelectionSet.bare)).errors
        = (compileChildren env sets node type set).errors := by
  unfold compileChildren
  cases set with
  | none =>
    dsimp only [Option.map_none, Env.withDocument]
    cases env.schema.type? type.innermost with
    | none => rfl
    | some found => cases found <;> rfl
  | some written =>
    dsimp only [Option.map_some, Env.withDocument]
    cases env.schema.type? type.innermost with
    | none => rfl
    | some found =>
      cases found with
      | object object =>
        dsimp only
        rw [Checked.errors_bind, Checked.errors_bind, hset written rfl object]
        rfl
      | _ => rfl

theorem compileArguments_bare (node : FieldNode) (coordinate : String)
    (declared : Ordered ArgumentDef)
    : compileArguments (env.withDocument document) node.bare coordinate declared
        = compileArguments env node coordinate declared :=
  compileArguments_congr (variableDefinitions_withDocument env document) node coordinate declared

theorem errors_compileField_bare {node : FieldNode} {set : Option SelectionSet}
    (hset : ∀ written ∈ set, ∀ object,
      (others (SelectionSet.bare written) object).errors = (sets written object).errors)
    : (compileField (env.withDocument document) others node.bare (set.map SelectionSet.bare)
          parent).errors
        = (compileField env sets node set parent).errors := by
  have hname : node.bare.name = node.name := rfl
  unfold compileField
  rw [hname, Option.isSome_map]
  split
  . rfl
  . cases parent.field? node.name with
    | none => rfl
    | some field =>
      dsimp only
      rw [compileArguments_bare]
      simp only [Checked.errors_bind, errors_compileChildren_bare hset]
      rfl

theorem errors_compileItem (env : Env) (sets : SetCompiler) (node : FieldNode)
    (set : Option SelectionSet) (parent : ObjectType)
    : (compileItem env sets node set parent).errors
        = (compileConditions env node.directives).errors
          ++ (compileField env sets node set parent).errors := by
  rw [compileItem, Checked.errors_bind, Checked.errors_bind]
  split <;> rw [Checked.errors_pure, List.append_nil]

theorem errors_compileItem_bare {node : FieldNode} {set : Option SelectionSet}
    (hset : ∀ written ∈ set, ∀ object,
      (others (SelectionSet.bare written) object).errors = (sets written object).errors)
    : (compileItem (env.withDocument document) others node.bare (set.map SelectionSet.bare)
          parent).errors
        = (compileItem env sets node set parent).errors := by
  rw [errors_compileItem, errors_compileItem, errors_compileField_bare hset]
  unfold FieldNode.bare
  rw [errors_compileConditions_bare]

theorem errors_compileInline_bare {condition : Option String} {directives : List Directive}
    {set : SelectionSet} {position : Position}
    (hset : ∀ object, (others (SelectionSet.bare set) object).errors = (sets set object).errors)
    : (compileInline (env.withDocument document) others condition (Directive.bare directives)
          (SelectionSet.bare set) position parent).errors
        = (compileInline env sets condition directives set position parent).errors := by
  have hcheck : checkInline (env.withDocument document) condition parent position
      = checkInline env condition parent position := by
    cases condition <;> rfl
  unfold compileInline
  rw [Checked.errors_bind, Checked.errors_bind, errors_compileConditions_bare, hcheck,
    Checked.errors_bind, Checked.errors_bind]
  split
  . rw [Checked.errors_bind, Checked.errors_bind, hset]
    rfl
  . rfl

theorem errors_compileSpread_bare {stack : List String} {name : String}
    {directives : List Directive} {position : Position}
    (hsets : ∀ set object, (others (SelectionSet.bare set) object).errors
      = (sets set object).errors)
    : (compileSpread (env.withDocument env.document.bare) stack others name
          (Directive.bare directives) position parent).errors
        = (compileSpread env stack sets name directives position parent).errors := by
  have hfragment : (env.withDocument env.document.bare).document.fragment? name
      = (env.document.fragment? name).map Fragment.bare :=
    env.document.fragment?_bare name
  unfold compileSpread
  rw [Checked.errors_bind, Checked.errors_bind, errors_compileConditions_bare, hfragment]
  congr 1
  cases env.document.fragment? name with
  | none => rfl
  | some fragment =>
    have hcheck :
        checkTypeCondition (env.withDocument env.document.bare) (some name) fragment.condition
            parent position
          = checkTypeCondition env (some name) fragment.condition parent position := rfl
    dsimp only [Option.map_some, Fragment.bare]
    rw [hcheck]
    split
    . rfl
    . rw [Checked.errors_bind, Checked.errors_bind]
      split
      . simp only [Checked.errors_bind, hsets]
        rfl
      . rfl

end Step

/-- A run: the levels decrease from set to set in both documents. -/
theorem errors_compileSet_bare (env : Env) (levels : Nat) (stack : List String) (set : SelectionSet)
    (parent : ObjectType)
    : (compileSet (env.withDocument env.document.bare) levels stack (SelectionSet.bare set)
          parent).errors
        = (compileSet env levels stack set parent).errors := by
  induction levels generalizing stack set parent with
  | zero => rfl
  | succ levels ih =>
    unfold compileSet SelectionSet.bare
    simp only [Checked.errors_bind, Checked.errors_mapM, Checked.errors_pure, List.append_nil,
      Selection.bareAll_eq_map, List.flatMap_map]
    refine List.flatMap_congr fun selection _ => ?_
    cases selection with
    | field node set =>
      rw [Selection.bare_field]
      exact errors_compileItem_bare fun written _ => ih stack written
    | spread name directives position =>
      exact errors_compileSpread_bare fun set => ih (name :: stack) set
    | inline condition directives set position => exact errors_compileInline_bare (ih stack set)

end Compile

namespace Plan

open Compile

theorem faults_bare (schema : Schema) (document : Document)
    : faults schema document.bare = faults schema document := by
  have hselected := selected_map schema document.operations_bare (fun _ => rfl) (fun _ => rfl)
  cases h : selected schema document with
  | error e =>
    rw [h] at hselected
    rw [faults_of_error h, faults_of_error hselected]
  | ok found =>
    obtain ⟨operation, root⟩ := found
    rw [h] at hselected
    have hset := errors_compileSet_bare ⟨schema, document, operation.variableDefinitions⟩
      Parser.maxDepth [] operation.set root
    rw [faults_of_ok h, faults_of_ok hselected, ← hset]
    rfl

/--
The errors of selections side by side, apart from fields that cannot be merged, are those of the
first selections followed by those that the others add. No error comes twice, and none depends on
conditions on literals, so that what they exclude does not hide any.
-/
theorem errors_unmasked (schema : Schema) (document : Document) (first second : List Selection)
    : faults schema (document.withRoot (first ++ second))
          = faults schema (document.withRoot first)
            ++ (faults schema (document.withRoot second)).filter
              (· ∉ faults schema (document.withRoot first))
        ∧ (errors schema document).Nodup
        ∧ faults schema document.bare = faults schema document :=
  ⟨faults_withRoot_append schema document first second, nodup_errors schema document,
    faults_bare schema document⟩

end Plan
end GraphGateway

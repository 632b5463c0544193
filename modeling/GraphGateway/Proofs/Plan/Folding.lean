import GraphGateway.Proofs.Execution.Reduced
import GraphGateway.Proofs.Plan.Flags
import GraphGateway.Proofs.Plan.Inlining

/-!
This module contains that a condition on a literal is settled at compilation as it would be in a run
if it were on a variable with that value: a document in which a boolean takes the place of a
variable in all conditions has the same answers, if the variable is given that value.
-/

namespace GraphGateway

open SelectionItem (reducedAll reducedAll_append reducedAll_singleton reduced_field)

def Literal.withFlag (flag : String) (b : Bool) : Literal → Literal
  | .variable name => if name = flag then .boolean b else .variable name
  | l => l

def Directive.withFlag (flag : String) (b : Bool) (directive : Directive) : Directive :=
  if directive.name = "skip" || directive.name = "include" then
    { directive with
      arguments := directive.arguments.map fun (name, l) =>
        (name, if name = "if" then l.withFlag flag b else l) }
  else
    directive

def FieldNode.withFlag (flag : String) (b : Bool) (node : FieldNode) : FieldNode :=
  { node with directives := node.directives.map (Directive.withFlag flag b) }

mutual

def Selection.withFlag (flag : String) (b : Bool) : Selection → Selection
  | .field node none => .field (node.withFlag flag b) none
  | .field node (some ⟨items, start⟩) =>
    .field (node.withFlag flag b) (some ⟨withFlagAll flag b items, start⟩)
  | .spread name directives position =>
    .spread name (directives.map (Directive.withFlag flag b)) position
  | .inline condition directives ⟨items, start⟩ position =>
    .inline condition (directives.map (Directive.withFlag flag b))
      ⟨withFlagAll flag b items, start⟩ position

def Selection.withFlagAll (flag : String) (b : Bool) : List Selection → List Selection
  | [] => []
  | item :: rest => item.withFlag flag b :: withFlagAll flag b rest

end

def SelectionSet.withFlag (flag : String) (b : Bool) (set : SelectionSet) : SelectionSet :=
  ⟨Selection.withFlagAll flag b set.items, set.position⟩

def VariableDefinition.withFlag (flag : String) (b : Bool) (definition : VariableDefinition)
    : VariableDefinition :=
  { definition with directives := definition.directives.map (Directive.withFlag flag b) }

def Operation.withFlag (flag : String) (b : Bool) (operation : Operation) : Operation :=
  { operation with
    variableDefinitions := operation.variableDefinitions.map (VariableDefinition.withFlag flag b)
    directives := operation.directives.map (Directive.withFlag flag b)
    set := SelectionSet.withFlag flag b operation.set }

def Fragment.withFlag (flag : String) (b : Bool) (fragment : Fragment) : Fragment :=
  { fragment with
    directives := fragment.directives.map (Directive.withFlag flag b)
    set := SelectionSet.withFlag flag b fragment.set }

def Definition.withFlag (flag : String) (b : Bool) : Definition → Definition
  | .operation op => .operation (op.withFlag flag b)
  | .fragment f => .fragment (f.withFlag flag b)

/-- The document with a boolean wherever a selection is conditional on the variable. -/
def Document.withFlag (flag : String) (b : Bool) (document : Document) : Document :=
  ⟨document.definitions.map (Definition.withFlag flag b)⟩

def Literal.flag (bindings : Json.Members) : Literal → Bool
  | .variable name => (Condition.includeIf name).admits bindings
  | .boolean b => b
  | _ => false

def Directive.admits (bindings : Json.Members) (directive : Directive) : Bool :=
  (directive.argument? "if").any fun l => l.flag bindings != decide (directive.name = "skip")

section Flag

variable {flag : String} {b : Bool} {bindings : Json.Members}

theorem Literal.flag_withFlag (hflag : bindings.get? flag = some (.bool b)) (l : Literal)
    : (l.withFlag flag b).flag bindings = l.flag bindings := by
  cases l with
  | «variable» name =>
    rw [withFlag]
    split
    . next hname =>
      rw [Literal.flag, Literal.flag, Condition.admits, Condition.variableName, hname, hflag]
    . rfl
  | _ => rfl

theorem Directive.name_withFlag (directive : Directive)
    : (directive.withFlag flag b).name = directive.name := by
  unfold withFlag
  split <;> rfl

theorem get?_mapWithFlag (arguments : Arguments)
    : Ordered.get? (arguments.map fun (name, l) =>
          (name, if name = "if" then l.withFlag flag b else l)) "if"
        = (Ordered.get? arguments "if").map (Literal.withFlag flag b) := by
  induction arguments with
  | nil => rfl
  | cons argument rest ih =>
    obtain ⟨name, l⟩ := argument
    simp only [List.map_cons, Ordered.get?]
    split
    . rfl
    . exact ih

theorem Directive.admits_withFlag (hflag : bindings.get? flag = some (.bool b))
    (directive : Directive)
    : (directive.withFlag flag b).admits bindings = directive.admits bindings := by
  unfold admits
  rw [name_withFlag]
  unfold withFlag
  split
  . unfold argument?
    rw [get?_mapWithFlag, Option.any_map]
    simp only [Literal.flag_withFlag hflag]
  . rfl

theorem Directive.all_admits_withFlag (hflag : bindings.get? flag = some (.bool b))
    (directives : List Directive)
    : (directives.map (Directive.withFlag flag b)).all (·.admits bindings)
        = directives.all (·.admits bindings) := by
  rw [List.all_map]
  simp only [Function.comp_def, admits_withFlag hflag]

end Flag

namespace Compile

open Checked (bind_eq_pure_iff pure_eq_pure_iff)

def Verdict.admits (bindings : Json.Members) : Verdict → Bool
  | admitted => true
  | excluded => false
  | conditional condition => condition.admits bindings

section Conditions

variable {env : Env} {bindings : Json.Members}

theorem admits_of_compileCondition {skips : Bool} {directive : Directive} {verdict : Verdict}
    (h : compileCondition env skips directive = pure verdict)
    : verdict.admits bindings
        = (directive.argument? "if").any fun l => l.flag bindings != skips := by
  obtain ⟨_, _, h⟩ := bind_eq_pure_iff.mp h
  split at h
  . exact absurd h Checked.report_bind_ne_pure
  . next name hargument =>
    obtain ⟨fits, hfits, h⟩ := bind_eq_pure_iff.mp h
    obtain ⟨herrors, rfl⟩ := Checked.eq_pure_iff.mp hfits
    rw [checkVariableUse_errors herrors, if_pos rfl] at h
    cases pure_eq_pure_iff.mp h
    rw [hargument]
    cases skips <;> simp [Verdict.admits, Literal.flag, Condition.admits, Condition.variableName]
  . next flag hargument =>
    cases pure_eq_pure_iff.mp h
    rw [hargument]
    cases flag <;> cases skips <;> rfl
  . exact absurd h Checked.report_bind_ne_pure

/-- Directives on literals and on variables mean the same once the variables are known. -/
theorem admits_of_compileConditions {directives : List Directive}
    {conditions : Option (List Condition)} (h : compileConditions env directives = pure conditions)
    : conditions.any (·.all (·.admits bindings)) = directives.all (·.admits bindings) := by
  induction directives generalizing conditions with
  | nil =>
    cases pure_eq_pure_iff.mp h
    rfl
  | cons directive rest ih =>
    obtain ⟨verdict, hverdict, h⟩ := bind_eq_pure_iff.mp h
    obtain ⟨others, hothers, h⟩ := bind_eq_pure_iff.mp h
    have hadmits : verdict.admits bindings = directive.admits bindings := by
      unfold compileDirective at hverdict
      unfold Directive.admits
      split at hverdict
      . next hname => rw [admits_of_compileCondition hverdict, hname]; rfl
      . next hname =>
        split at hverdict
        . next hname => rw [admits_of_compileCondition hverdict, hname]; rfl
        . exact absurd hverdict Checked.report_bind_ne_pure
    rw [List.all_cons, ← hadmits, ← ih hothers]
    cases verdict with
    | admitted =>
      cases pure_eq_pure_iff.mp h
      rfl
    | excluded =>
      cases pure_eq_pure_iff.mp h
      rfl
    | conditional condition =>
      cases pure_eq_pure_iff.mp h
      cases others <;> simp [Verdict.admits]

end Conditions

def reducedField (bindings : Json.Members) (field : FieldPlan × Option (List SelectionItem))
    : SelectionItem :=
  .field { field.1 with conditions := [] } (field.2.map (reducedAll bindings))

section Selections

variable {env : Env} (bindings : Json.Members) {sets : SetCompiler} {parent : ObjectType}
  {items : List SelectionItem}

theorem reducedAll_groupOf {directives : List Directive} {conditions : Option (List Condition)}
    (h : compileConditions env directives = pure conditions) (items : List SelectionItem)
    : reducedAll bindings (groupOf conditions items)
        = if directives.all (·.admits bindings) then reducedAll bindings items else [] := by
  rw [← admits_of_compileConditions h]
  unfold groupOf
  split
  . rfl
  . rfl
  . rw [reducedAll_singleton]
    rfl

theorem exists_of_compileItem {node : FieldNode} {set : Option SelectionSet}
    (h : compileItem env sets node set parent = pure items)
    : ∃ field, compileField env sets node set parent = pure field
        ∧ reducedAll bindings items
          = if node.directives.all (·.admits bindings) then
              (field.map (reducedField bindings)).toList
            else [] := by
  obtain ⟨conditions, hconditions, h⟩ := bind_eq_pure_iff.mp h
  obtain ⟨field, hfield, h⟩ := bind_eq_pure_iff.mp h
  refine ⟨field, hfield, ?_⟩
  rw [← admits_of_compileConditions hconditions]
  split at h
  . next conditions head children =>
    cases pure_eq_pure_iff.mp h
    rw [reducedAll_singleton, reduced_field]
    rfl
  . next hnone =>
    cases pure_eq_pure_iff.mp h
    cases conditions with
    | none => rfl
    | some conditions =>
      cases field with
      | none => simp [reducedAll]
      | some field => exact absurd rfl (hnone _ _ _ rfl)

theorem exists_of_compileSpread {stack : List String} {name : String}
    {directives : List Directive} {position : Position}
    (h : compileSpread env stack sets name directives position parent = pure items)
    : ∃ fragment inner, env.document.fragment? name = some fragment
        ∧ sets fragment.set parent = pure inner
        ∧ reducedAll bindings items
          = if directives.all (·.admits bindings) then reducedAll bindings inner else [] := by
  obtain ⟨conditions, fragment, inner, hconditions, hfragment, _, _, _, hinner, rfl⟩ :=
    compileSpread_eq_pure_iff.mp h
  exact ⟨fragment, inner, hfragment, hinner, reducedAll_groupOf bindings hconditions inner⟩

theorem exists_of_compileInline {condition : Option String} {directives : List Directive}
    {set : SelectionSet} {position : Position}
    (h : compileInline env sets condition directives set position parent = pure items)
    : ∃ inner, sets set parent = pure inner
        ∧ reducedAll bindings items
          = if directives.all (·.admits bindings) then reducedAll bindings inner else [] := by
  obtain ⟨conditions, inner, hconditions, _, hinner, rfl⟩ := compileInline_eq_pure_iff.mp h
  exact ⟨inner, hinner, reducedAll_groupOf bindings hconditions inner⟩

end Selections

/-- Where two sets compile without an error, the same is left of both. -/
def Agrees (bindings : Json.Members) (sets others : SetCompiler) (set other : SelectionSet)
    : Prop :=
  ∀ object items compiled, sets set object = pure items → others other object = pure compiled →
    reducedAll bindings compiled = reducedAll bindings items

section Step

variable {env : Env} {document : Document} {bindings : Json.Members} {sets others : SetCompiler}
  {parent : ObjectType}

theorem compileChildren_agrees {node : FieldNode} {type : TypeRef}
    {set other : Option SelectionSet} (hset : Option.Rel (Agrees bindings sets others) set other)
    {children compiled : Option (List SelectionItem)}
    (h : compileChildren env sets node type set = pure children)
    (hother : compileChildren (env.withDocument document) others node type other = pure compiled)
    : compiled.map (reducedAll bindings) = children.map (reducedAll bindings) := by
  cases hset with
  | none =>
    rw [compileChildren_none, h] at hother
    cases pure_eq_pure_iff.mp hother
    rfl
  | some hset =>
    obtain ⟨object, items, htype, hitems, rfl⟩ := compileChildren_eq_pure_iff.mp h
    obtain ⟨_, compiled, hsame, hcompiled, rfl⟩ := compileChildren_eq_pure_iff.mp hother
    cases htype.symm.trans hsame
    rw [Option.map_some, Option.map_some, hset object items compiled hitems hcompiled]

theorem compileField_agrees {node : FieldNode} {set other : Option SelectionSet}
    (hset : Option.Rel (Agrees bindings sets others) set other)
    {field compiled : Option (FieldPlan × Option (List SelectionItem))}
    (h : compileField env sets node set parent = pure field)
    (hother : compileField (env.withDocument document) others node other parent = pure compiled)
    : compiled.map (reducedField bindings) = field.map (reducedField bindings) := by
  have hsome : other.isSome = set.isSome := by cases hset <;> rfl
  unfold compileField at h hother
  rw [hsome] at hother
  split at h
  . next hname =>
    rw [if_pos hname, h] at hother
    cases pure_eq_pure_iff.mp hother
    rfl
  . next hname =>
    rw [if_neg hname] at hother
    cases hfield : parent.field? node.name with
    | none =>
      rw [hfield] at h
      exact absurd h Checked.refuse_ne_pure
    | some declared =>
      rw [hfield] at h hother
      obtain ⟨arguments, harguments, h⟩ := bind_eq_pure_iff.mp h
      obtain ⟨children, hchildren, h⟩ := bind_eq_pure_iff.mp h
      obtain ⟨_, hsame, hother⟩ := bind_eq_pure_iff.mp hother
      obtain ⟨_, hcompiled, hother⟩ := bind_eq_pure_iff.mp hother
      rw [compileArguments_congr (variableDefinitions_withDocument env document), harguments]
        at hsame
      cases pure_eq_pure_iff.mp hsame
      cases pure_eq_pure_iff.mp h
      cases pure_eq_pure_iff.mp hother
      rw [Option.map_some, Option.map_some, reducedField, reducedField]
      dsimp only
      rw [compileChildren_agrees hset hchildren hcompiled]

end Step

section Documents

variable {flag : String} {b : Bool}

theorem operations_withFlag (document : Document)
    : (document.withFlag flag b).operations = document.operations.map (Operation.withFlag flag b) :=
  document.operations_map (fun _ => rfl) (fun _ => rfl)

theorem fragment?_withFlag (document : Document) (name : String)
    : (document.withFlag flag b).fragment? name
        = (document.fragment? name).map (Fragment.withFlag flag b) :=
  document.fragment?_map (f := Definition.withFlag flag b) (r := Operation.withFlag flag b)
    (fun _ => rfl) (fun _ => rfl) (fun _ => rfl) name

end Documents

section Step

variable {env : Env} {document : Document} {flag : String} {b : Bool} {bindings : Json.Members}
  (hflag : bindings.get? flag = some (.bool b)) {sets others : SetCompiler} {parent : ObjectType}
  {items compiled : List SelectionItem}

include hflag

theorem compileItem_agrees {node : FieldNode} {set other : Option SelectionSet}
    (hset : Option.Rel (Agrees bindings sets others) set other)
    (h : compileItem env sets node set parent = pure items)
    (hother : compileItem (env.withDocument document) others (node.withFlag flag b) other parent
      = pure compiled)
    : reducedAll bindings compiled = reducedAll bindings items := by
  obtain ⟨field, hfield, hitems⟩ := exists_of_compileItem bindings h
  obtain ⟨second, hsecond, hcompiled⟩ := exists_of_compileItem bindings hother
  rw [hitems, hcompiled, compileField_agrees hset hfield hsecond]
  unfold FieldNode.withFlag
  rw [Directive.all_admits_withFlag hflag]

theorem compileSpread_agrees {stack : List String} {name : String} {directives : List Directive}
    {position : Position}
    (hsets : ∀ set, Agrees bindings sets others set (SelectionSet.withFlag flag b set))
    (h : compileSpread env stack sets name directives position parent = pure items)
    (hother : compileSpread (env.withDocument (env.document.withFlag flag b)) stack others name
      (directives.map (Directive.withFlag flag b)) position parent = pure compiled)
    : reducedAll bindings compiled = reducedAll bindings items := by
  obtain ⟨fragment, inner, hfragment, hinner, hitems⟩ := exists_of_compileSpread bindings h
  obtain ⟨_, second, hsame, hsecond, hcompiled⟩ := exists_of_compileSpread bindings hother
  have hfound : (env.withDocument (env.document.withFlag flag b)).document.fragment? name
      = some (fragment.withFlag flag b) := by
    rw [Env.withDocument, fragment?_withFlag, hfragment, Option.map_some]
  cases hfound.symm.trans hsame
  rw [hitems, hcompiled, Directive.all_admits_withFlag hflag,
    hsets fragment.set parent inner second hinner hsecond]

theorem compileInline_agrees {condition : Option String} {directives : List Directive}
    {set other : SelectionSet} {position : Position} (hset : Agrees bindings sets others set other)
    (h : compileInline env sets condition directives set position parent = pure items)
    (hother : compileInline (env.withDocument document) others condition
      (directives.map (Directive.withFlag flag b)) other position parent = pure compiled)
    : reducedAll bindings compiled = reducedAll bindings items := by
  obtain ⟨inner, hinner, hitems⟩ := exists_of_compileInline bindings h
  obtain ⟨second, hsecond, hcompiled⟩ := exists_of_compileInline bindings hother
  rw [hitems, hcompiled, Directive.all_admits_withFlag hflag,
    hset parent inner second hinner hsecond]

end Step

def Env.Folds (env : Env) (flag : String) (b : Bool) (bindings : Json.Members) (levels : Nat)
    : Prop :=
  ∀ stack set, Agrees bindings (compileSet env levels stack)
    (compileSet (env.withDocument (env.document.withFlag flag b)) levels stack) set
    (SelectionSet.withFlag flag b set)

section Folding

variable {env : Env} {flag : String} {b : Bool} {bindings : Json.Members}
  (hflag : bindings.get? flag = some (.bool b))

include hflag

/-- A step: what is left of selections depends on what is left of the sets inside of them. -/
theorem gathers_withFlag {levels : Nat} (hlevels : env.Folds flag b bindings levels)
    {stack : List String} {parent : ObjectType} {selections : List Selection}
    {items compiled : List SelectionItem}
    (h : Gathers (compileSelection env stack (compileSet env levels) parent) selections items)
    (hother : Gathers (compileSelection (env.withDocument (env.document.withFlag flag b)) stack
        (compileSet (env.withDocument (env.document.withFlag flag b)) levels) parent)
      (Selection.withFlagAll flag b selections) compiled)
    : reducedAll bindings compiled = reducedAll bindings items := by
  induction selections generalizing items compiled with
  | nil =>
    rw [Selection.withFlagAll, gathers_nil_iff] at hother
    rw [hother, gathers_nil_iff.mp h]
  | cons selection rest ih =>
    rw [Selection.withFlagAll] at hother
    obtain ⟨first, others, hfirst, hothers, rfl⟩ := gathers_cons_iff.mp h
    obtain ⟨second, compiled, hsecond, hcompiled, rfl⟩ := gathers_cons_iff.mp hother
    rw [reducedAll_append, reducedAll_append, ih hothers hcompiled]
    congr 1
    match selection with
    | .field node none => exact compileItem_agrees hflag .none hfirst hsecond
    | .field node (some set) =>
      exact compileItem_agrees hflag (.some (hlevels stack set)) hfirst hsecond
    | .spread name directives position =>
      exact compileSpread_agrees hflag (hlevels (name :: stack)) hfirst hsecond
    | .inline condition directives set position =>
      exact compileInline_agrees hflag (hlevels stack set) hfirst hsecond

/-- A run: the levels decrease from set to set in both documents. -/
theorem folds (levels : Nat) : env.Folds flag b bindings levels := by
  induction levels with
  | zero =>
    intro stack set object items _ h
    exact absurd h (compileSet_ne_pure stack set object items)
  | succ levels ih =>
    intro stack set object items compiled h hother
    exact gathers_withFlag hflag ih (compileSet_eq_pure_iff.mp h) (compileSet_eq_pure_iff.mp hother)

end Folding

theorem directives_of_compileVariables {schema : Schema}
    {earlier definitions : List VariableDefinition} {specs : List VariableSpec}
    (h : compileVariables schema earlier definitions = pure specs)
    : ∀ definition ∈ definitions, definition.directives = [] := by
  induction definitions generalizing earlier specs with
  | nil => simp
  | cons definition rest ih =>
    obtain ⟨spec, hspec, h⟩ := bind_eq_pure_iff.mp h
    obtain ⟨others, hothers, _⟩ := bind_eq_pure_iff.mp h
    refine List.forall_mem_cons.mpr ⟨?_, ih hothers⟩
    unfold compileVariable at hspec
    split at hspec
    . exact absurd hspec Checked.refuse_ne_pure
    . obtain ⟨_, hdirectives, _⟩ := bind_eq_pure_iff.mp hspec
      exact rejectDirectives_eq_pure_iff.mp hdirectives

theorem map_withFlag_of_compileVariables {schema : Schema} {definitions : List VariableDefinition}
    {specs : List VariableSpec} (h : compileVariables schema [] definitions = pure specs)
    (flag : String) (b : Bool)
    : definitions.map (VariableDefinition.withFlag flag b) = definitions := by
  have hself : ∀ definition ∈ definitions, definition.withFlag flag b = definition := by
    intro definition hmem
    have hdirectives := directives_of_compileVariables h definition hmem
    unfold VariableDefinition.withFlag
    rw [hdirectives, List.map_nil, ← hdirectives]
  rw [List.map_congr_left hself, List.map_id']

theorem get?_of_coerceAll {env : Env} {specs : List VariableSpec} (hspecs : env.Declared specs)
    {flag : String} {b : Bool}
    (hdeclared : ∃ definition ∈ env.variableDefinitions,
      definition.name = flag ∧ definition.type = booleanType)
    {provided bindings : Json.Members} (hprovided : provided.get? flag = some (.bool b))
    (h : VariableSpec.coerceAll specs provided = .ok bindings)
    : bindings.get? flag = some (.bool b) := by
  obtain ⟨definition, hdefinition, rfl, htype⟩ := hdeclared
  obtain ⟨spec, hspec, hdeclares⟩ := exists_mem_of_forall₂ hspecs.declares hdefinition
  have hvalue := (VariableSpec.get?_of_coerceAll_go h hspecs.nodup fun _ _ => rfl).1 spec hspec
  rw [hdeclares.name, hprovided] at hvalue
  unfold VariableSpec.coerce at hvalue
  rw [hdeclares.type, htype] at hvalue
  dsimp only at hvalue
  split at hvalue
  . cases hvalue
  . split at hvalue
    . next w hw =>
      have hboolean : booleanType.IsBoolean := rfl
      obtain ⟨rfl, _⟩ := Coercion.coerceValue_boolean hboolean hw
      exact (Except.ok.inj hvalue).symm
    . cases hvalue

end Compile

namespace Plan

open Compile

/--
If a boolean takes the place of a variable wherever a selection is conditional on it, the answers
stay the same for all requests that give the boolean for the variable.
-/
theorem answer_withFlag {schema : Schema} {document : Document} {flag : String} {b : Bool}
    {plan other : Plan} (h : compile schema document = .ok plan)
    (hother : compile schema (document.withFlag flag b) = .ok other)
    (hdeclared : ∃ operation ∈ document.operations, ∃ definition ∈ operation.variableDefinitions,
      definition.name = flag ∧ definition.type = booleanType)
    {provided : Json.Members} (hprovided : provided.get? flag = some (.bool b))
    (context root : Json)
    : other.answer provided context root = plan.answer provided context root := by
  obtain ⟨operation, object, hoperations, hroot, h⟩ := compile_eq_ok_iff.mp h
  obtain ⟨_, _, hothers, hsame, hother⟩ := compile_eq_ok_iff.mp hother
  rw [operations_withFlag, hoperations, List.map_singleton] at hothers
  cases hothers
  cases hroot.symm.trans hsame
  obtain ⟨specs, items, hspecs, _, hitems, _, rfl⟩ := compileOperation_eq_pure_iff.mp h
  obtain ⟨_, compiled, hvariables, _, hcompiled, _, rfl⟩ := compileOperation_eq_pure_iff.mp hother
  have hdefinitions : (operation.withFlag flag b).variableDefinitions
      = operation.variableDefinitions :=
    map_withFlag_of_compileVariables hspecs flag b
  rw [hdefinitions] at hvariables hcompiled
  cases Checked.pure_eq_pure_iff.mp (hspecs.symm.trans hvariables)
  apply answer_eq_of_reducedAll
  case hkind => rfl
  case htype => rfl
  case hspecs => rfl
  case h =>
    intro bindings hcoerce
    have henv : Env.Declared ⟨schema, document, operation.variableDefinitions⟩ specs :=
      declared_of_compileVariables hspecs
    rw [hoperations] at hdeclared
    simp only [List.mem_singleton, exists_eq_left] at hdeclared
    have hflag := get?_of_coerceAll henv hdeclared hprovided hcoerce
    exact folds hflag Parser.maxDepth [] operation.set object items compiled hitems hcompiled

end Plan

namespace Library

def briefDocument : Document :=
  ⟨[.operation ⟨.query, none, [⟨"brief", required "Boolean", none, [], ⟨1, 8⟩⟩], [],
    ⟨[.field ⟨none, "authors", [], [], ⟨1, 28⟩⟩
      (some ⟨[.field ⟨none, "id", [], [], ⟨1, 38⟩⟩ none,
        .inline none [⟨"skip", [("if", .variable "brief")], ⟨1, 45⟩⟩]
          ⟨[.field ⟨none, "name", [], [], ⟨1, 65⟩⟩ none], ⟨1, 63⟩⟩ ⟨1, 41⟩],
        ⟨1, 36⟩⟩)], ⟨1, 26⟩⟩, ⟨1, 1⟩⟩]⟩

def briefPlan (details : List SelectionItem) : Plan :=
  ⟨.query, none, "Query", [⟨"brief", required "Boolean", none, ⟨1, 8⟩⟩],
    [.field { authorsField authors .sync with position := ⟨1, 28⟩ }
      (some (.field ⟨"id", "Author", "id", .property, [], [], .nonNull (.scalar .id), ⟨1, 38⟩⟩ none
        :: details))]⟩

def nameUnlessBrief : SelectionItem :=
  .group [.skipIf "brief"] [.field { nameField with position := ⟨1, 65⟩ } none]

theorem compile_briefDocument
    : Plan.compile (schema authors .sync) briefDocument = .ok (briefPlan [nameUnlessBrief]) := by
  cbv

theorem compile_briefDocument_withFlag
    : Plan.compile (schema authors .sync) (briefDocument.withFlag "brief" true)
        = .ok (briefPlan []) := by
  cbv

def authorIds : Json :=
  .array [.object [("id", .string "1")], .object [("id", .string "2")]]

theorem answer_briefDocument_withFlag
    : Plan.compile (schema authors .sync) briefDocument = .ok (briefPlan [nameUnlessBrief])
        ∧ Plan.compile (schema authors .sync) (briefDocument.withFlag "brief" true)
          = .ok (briefPlan [])
        ∧ Ordered.get? [("brief", Json.bool true)] "brief" = some (.bool true)
        ∧ (briefPlan []).answer [("brief", .bool true)] (.object []) (.object [])
          = (briefPlan [nameUnlessBrief]).answer [("brief", .bool true)] (.object []) (.object [])
        ∧ ((briefPlan [nameUnlessBrief]).answer [("brief", .bool true)] (.object [])
              (.object [])).outcome
          = .ok ⟨some (.object [("authors", authorIds)]), []⟩ := by
  have hanswer : (briefPlan []).answer [("brief", .bool true)] (.object []) (.object [])
      = (briefPlan [nameUnlessBrief]).answer [("brief", .bool true)] (.object []) (.object []) := by
    apply Plan.answer_withFlag compile_briefDocument compile_briefDocument_withFlag
    . exact ⟨_, List.mem_singleton_self _, _, List.mem_singleton_self _, rfl, rfl⟩
    . rfl
  refine ⟨compile_briefDocument, compile_briefDocument_withFlag, rfl, hanswer, ?_⟩
  cbv

end Library

end GraphGateway

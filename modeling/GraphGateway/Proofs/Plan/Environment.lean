import GraphGateway.Plan.Compile

/-!
This module contains that conditions and arguments compile to the same, with the same errors, for
all schemas and documents in which the same variables are defined, and that selection sets do for
all documents with the same fragments.
-/

namespace GraphGateway
namespace Compile

section Variables

variable {env other : Env} (h : env.variableDefinitions = other.variableDefinitions)

include h

theorem checkVariableUse_congr : checkVariableUse env = checkVariableUse other := by
  funext name location hasDefault position
  unfold checkVariableUse Env.findVariable
  rw [h]

theorem compileConditions_congr (directives : List Directive)
    : compileConditions env directives = compileConditions other directives := by
  induction directives with
  | nil => rfl
  | cons directive rest ih =>
    unfold compileConditions compileDirective compileCondition
    rw [ih, checkVariableUse_congr h]

theorem compileValue_congr (argument : String) (position : Position) (type : TypeRef)
    : compileValue env argument position type = compileValue other argument position type := by
  funext hasDefault l
  have huse := checkVariableUse_congr h
  -- The element type of a list is the same under a non-null wrapper.
  match type with
  | .named name | .nonNull (.named name) | .nonNull (.nonNull type) =>
    unfold compileValue
    rw [huse]
  | .list inner =>
    have hinner := compileValue_congr argument position inner
    unfold compileValue
    simp only [hinner, huse]
  | .nonNull (.list inner) =>
    have hinner := compileValue_congr argument position inner
    unfold compileValue
    simp only [hinner, huse]

theorem compileArguments_congr (node : FieldNode) (coordinate : String)
    (declared : Ordered ArgumentDef)
    : compileArguments env node coordinate declared
        = compileArguments other node coordinate declared := by
  unfold compileArguments compileArgument
  simp only [compileValue_congr h]

end Variables

section Selections

variable {env other : Env} (hschema : env.schema = other.schema)
  (hvariables : env.variableDefinitions = other.variableDefinitions)

include hschema hvariables

theorem compileItem_congr (sets : SetCompiler) : compileItem env sets = compileItem other sets := by
  funext node set parent
  unfold compileItem compileField compileChildren
  simp only [hschema, compileConditions_congr hvariables, compileArguments_congr hvariables]

theorem compileSpread_congr {name : String}
    (hfragment : env.document.fragment? name = other.document.fragment? name)
    (stack : List String) (sets : SetCompiler)
    : compileSpread env stack sets name = compileSpread other stack sets name := by
  funext directives position parent
  unfold compileSpread checkTypeCondition
  simp only [hschema, hfragment, compileConditions_congr hvariables]

theorem compileInline_congr (sets : SetCompiler)
    : compileInline env sets = compileInline other sets := by
  funext condition directives set position parent
  unfold compileInline checkInline checkTypeCondition
  simp only [hschema, compileConditions_congr hvariables]

theorem compileSelection_congr {selection : Selection}
    (hfragment : ∀ name directives position, selection = .spread name directives position →
      env.document.fragment? name = other.document.fragment? name)
    (stack : List String) (sets : List String → SetCompiler) (parent : ObjectType)
    : compileSelection env stack sets parent selection
        = compileSelection other stack sets parent selection := by
  unfold compileSelection
  cases selection with
  | field node set =>
    dsimp only
    rw [compileItem_congr hschema hvariables]
  | spread name directives position =>
    dsimp only
    rw [compileSpread_congr hschema hvariables (hfragment name directives position rfl)]
  | inline condition directives set position =>
    dsimp only
    rw [compileInline_congr hschema hvariables]

end Selections

/-- Compilation looks at the schema, at the variables and, by name, at the fragments. -/
structure Env.Alike (env other : Env) : Prop where
  schema : env.schema = other.schema
  variableDefinitions : env.variableDefinitions = other.variableDefinitions
  fragment? : env.document.fragment? = other.document.fragment?

theorem compileSet_congr {env other : Env} (h : env.Alike other) (levels : Nat)
    : compileSet env levels = compileSet other levels := by
  induction levels with
  | zero => rfl
  | succ levels ih =>
    have hselection (stack : List String) (parent : ObjectType)
        : compileSelection env stack (compileSet env levels) parent
            = compileSelection other stack (compileSet other levels) parent := by
      funext selection
      rw [ih]
      exact compileSelection_congr h.schema h.variableDefinitions
        (fun name _ _ _ => congrFun h.fragment? name) stack _ parent
    funext stack set parent
    unfold compileSet
    simp only [hselection]

end Compile
end GraphGateway

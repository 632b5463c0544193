import GraphGateway.Proofs.Plan.WellFormed

/-!
This module contains what it takes for the parts of a document to compile without an error, and what
they are compiled to then.
-/

namespace GraphGateway

namespace Checked

variable {ε α β : Type}

theorem eq_pure_iff {x : Checked ε α} {a : α} : x = Pure.pure a ↔ x.errors = [] ∧ x.value = a := by
  constructor
  . rintro rfl
    exact ⟨rfl, rfl⟩
  . rintro ⟨herrors, rfl⟩
    obtain ⟨value, errors⟩ := x
    cases herrors
    rfl

theorem exists_eq_pure_iff {x : Checked ε α} : (∃ a, x = Pure.pure a) ↔ x.errors = [] := by
  simp [eq_pure_iff]

theorem pure_eq_pure_iff {a b : α} : (Pure.pure a : Checked ε α) = Pure.pure b ↔ a = b := by
  rw [eq_pure_iff, errors_pure, value_pure]
  exact and_iff_right rfl

theorem bind_eq_pure_iff {x : Checked ε α} {f : α → Checked ε β} {b : β}
    : x >>= f = Pure.pure b ↔ ∃ a, x = Pure.pure a ∧ f a = Pure.pure b := by
  simp only [eq_pure_iff, errors_bind_eq_nil_iff, value_bind]
  constructor
  . rintro ⟨⟨hx, hf⟩, rfl⟩
    exact ⟨x.value, ⟨hx, rfl⟩, hf, rfl⟩
  . rintro ⟨a, ⟨hx, rfl⟩, hf, rfl⟩
    exact ⟨⟨hx, hf⟩, rfl⟩

theorem report_bind_ne_pure {e : ε} {f : Unit → Checked ε β} {b : β}
    : report e >>= f ≠ Pure.pure b := by
  intro h
  obtain ⟨_, h, _⟩ := bind_eq_pure_iff.mp h
  cases h

theorem refuse_ne_pure {e : ε} {b : Option β} : (refuse e : Checked ε (Option β)) ≠ Pure.pure b :=
  nofun

theorem mapM_eq_pure_iff {f : α → Checked ε β} {xs : List α} {ys : List β}
    : xs.mapM f = Pure.pure ys ↔ (∀ x ∈ xs, (f x).errors = [])
        ∧ xs.map (fun x => (f x).value) = ys := by
  rw [eq_pure_iff, errors_mapM_eq_nil_iff, value_mapM]

theorem forIn_eq_pure_iff {f : α → PUnit → Checked ε (ForInStep PUnit)}
    (hvalue : ∀ x, (f x ⟨⟩).value = .yield ⟨⟩) {xs : List α} {u : PUnit}
    : forIn xs ⟨⟩ f = Pure.pure u ↔ ∀ x ∈ xs, (f x ⟨⟩).errors = [] := by
  induction xs with
  | nil => simp
  | cons x rest ih =>
    rw [List.forIn_cons, List.forall_mem_cons, ← ih, bind_eq_pure_iff]
    constructor
    . rintro ⟨step, hstep, hrest⟩
      obtain ⟨herrors, rfl⟩ := eq_pure_iff.mp hstep
      rw [hvalue] at hrest
      exact ⟨herrors, hrest⟩
    . rintro ⟨herrors, hrest⟩
      exact ⟨.yield ⟨⟩, eq_pure_iff.mpr ⟨herrors, hvalue x⟩, hrest⟩

end Checked

namespace Compile

open Checked (bind_eq_pure_iff pure_eq_pure_iff report_bind_ne_pure forIn_eq_pure_iff)

variable {env : Env}

theorem rejectDirectives_eq_pure_iff {directives : List Directive} {location : String}
    : rejectDirectives directives location = pure () ↔ directives = [] := by
  constructor
  . intro h
    obtain ⟨_, h, _⟩ := bind_eq_pure_iff.mp h
    rw [forIn_eq_pure_iff fun directive => by split <;> rfl] at h
    rw [List.eq_nil_iff_forall_not_mem]
    intro directive hmem
    have herrors := h directive hmem
    split at herrors <;> cases herrors
  . rintro rfl
    rfl

def Env.Names (env : Env) (condition : String) (parent : ObjectType) : Prop :=
  (env.schema.type? condition).isSome ∧ condition = parent.name

theorem checkTypeCondition_eq_pure_iff {fragment : Option String} {condition : String}
    {parent : ObjectType} {position : Position} {fits : Bool}
    : checkTypeCondition env fragment condition parent position = pure fits
        ↔ fits = true ∧ env.Names condition parent := by
  unfold checkTypeCondition
  split
  . next hnone =>
    refine iff_of_false report_bind_ne_pure fun ⟨_, hsome, _⟩ => ?_
    rw [Option.isNone_iff_eq_none.mp hnone] at hsome
    cases hsome
  . next hsome =>
    rw [Option.isNone_iff_eq_none, ← ne_eq, ← Option.isSome_iff_ne_none] at hsome
    split
    . next hne => exact iff_of_false report_bind_ne_pure fun h => bne_iff_ne.mp hne h.2.2
    . next heq =>
      rw [bne_iff_ne, not_not] at heq
      rw [pure_eq_pure_iff, eq_comm, and_iff_left ⟨hsome, heq⟩]

theorem checkInline_eq_pure_iff {condition : Option String} {parent : ObjectType}
    {position : Position} {fits : Bool}
    : checkInline env condition parent position = pure fits
        ↔ fits = true ∧ ∀ name ∈ condition, env.Names name parent := by
  cases condition with
  | none =>
    rw [checkInline, pure_eq_pure_iff, eq_comm]
    simp
  | some name =>
    rw [checkInline, checkTypeCondition_eq_pure_iff]
    simp

variable {sets : SetCompiler} {parent : ObjectType}

theorem compileSpread_eq_pure_iff {stack : List String} {name : String}
    {directives : List Directive} {position : Position} {items : List SelectionItem}
    : compileSpread env stack sets name directives position parent = pure items
        ↔ ∃ conditions fragment inner, compileConditions env directives = pure conditions
            ∧ env.document.fragment? name = some fragment ∧ name ∉ stack
            ∧ env.Names fragment.condition parent ∧ fragment.directives = []
            ∧ sets fragment.set parent = pure inner ∧ items = groupOf conditions inner := by
  unfold compileSpread
  rw [bind_eq_pure_iff]
  refine exists_congr fun conditions => ?_
  cases env.document.fragment? name with
  | none => exact iff_of_false (fun h => report_bind_ne_pure h.2) (by simp)
  | some fragment =>
    dsimp only
    split
    . next hstack =>
      rw [List.contains_iff_mem] at hstack
      exact iff_of_false (fun h => report_bind_ne_pure h.2) (by simp [hstack])
    . next hstack =>
      rw [List.contains_iff_mem] at hstack
      rw [bind_eq_pure_iff]
      constructor
      . rintro ⟨hconditions, fits, hfits, h⟩
        obtain ⟨rfl, hnames⟩ := checkTypeCondition_eq_pure_iff.mp hfits
        obtain ⟨_, hdirectives, h⟩ := bind_eq_pure_iff.mp h
        obtain ⟨inner, hinner, h⟩ := bind_eq_pure_iff.mp h
        exact ⟨fragment, inner, hconditions, rfl, hstack, hnames,
          rejectDirectives_eq_pure_iff.mp hdirectives, hinner, (pure_eq_pure_iff.mp h).symm⟩
      . rintro ⟨_, inner, hconditions, ⟨⟩, _, hnames, hdirectives, hinner, rfl⟩
        exact ⟨hconditions, true, checkTypeCondition_eq_pure_iff.mpr ⟨rfl, hnames⟩,
          bind_eq_pure_iff.mpr ⟨_, rejectDirectives_eq_pure_iff.mpr hdirectives,
            bind_eq_pure_iff.mpr ⟨inner, hinner, rfl⟩⟩⟩

theorem compileInline_eq_pure_iff {condition : Option String} {directives : List Directive}
    {set : SelectionSet} {position : Position} {items : List SelectionItem}
    : compileInline env sets condition directives set position parent = pure items
        ↔ ∃ conditions inner, compileConditions env directives = pure conditions
            ∧ (∀ name ∈ condition, env.Names name parent)
            ∧ sets set parent = pure inner ∧ items = groupOf conditions inner := by
  unfold compileInline
  simp only [bind_eq_pure_iff, checkInline_eq_pure_iff]
  constructor
  . rintro ⟨conditions, hconditions, _, ⟨rfl, hnames⟩, h⟩
    obtain ⟨inner, hinner, h⟩ := bind_eq_pure_iff.mp h
    exact ⟨conditions, inner, hconditions, hnames, hinner, (pure_eq_pure_iff.mp h).symm⟩
  . rintro ⟨conditions, inner, hconditions, hnames, hinner, rfl⟩
    exact ⟨conditions, hconditions, true, ⟨rfl, hnames⟩, bind_eq_pure_iff.mpr ⟨inner, hinner, rfl⟩⟩

theorem compileChildren_eq_pure_iff {node : FieldNode} {type : TypeRef} {set : SelectionSet}
    {children : Option (List SelectionItem)}
    : compileChildren env sets node type (some set) = pure children
        ↔ ∃ object items, env.schema.type? type.innermost = some (.object object)
            ∧ sets set object = pure items ∧ children = some items := by
  unfold compileChildren
  split
  . next object inner htype heq =>
    cases heq
    simp only [bind_eq_pure_iff, pure_eq_pure_iff, htype, Option.some.injEq, NamedType.object.injEq]
    constructor
    . rintro ⟨items, hitems, rfl⟩
      exact ⟨object, items, rfl, hitems, rfl⟩
    . rintro ⟨_, items, rfl, hitems, rfl⟩
      exact ⟨items, hitems, rfl⟩
  . next heq => cases heq
  . next hobject =>
    exact iff_of_false Checked.refuse_ne_pure fun ⟨object, _, htype, _⟩ => hobject object htype
  . next heq _ => cases heq

theorem exists_of_compileField {node : FieldNode} {set : Option SelectionSet}
    {field : Option (FieldPlan × Option (List SelectionItem))}
    (h : compileField env sets node set parent = pure field)
    : (node.arguments = [] ∧ set = none)
        ∨ ∃ declared arguments children, parent.field? node.name = some declared
            ∧ compileArguments env node (parent.name ++ "." ++ node.name) declared.arguments
                = pure arguments
            ∧ compileChildren env sets node declared.type set = pure children := by
  unfold compileField at h
  split at h
  . obtain ⟨_, h, _⟩ := bind_eq_pure_iff.mp h
    obtain ⟨_, harguments, h⟩ := bind_eq_pure_iff.mp h
    rw [forIn_eq_pure_iff fun _ => rfl] at harguments
    left
    constructor
    . rw [List.eq_nil_iff_forall_not_mem]
      rintro argument hmem
      cases harguments argument hmem
    . dsimp only at h
      split at h
      . exact absurd h report_bind_ne_pure
      . next hset => simpa using hset
  . split at h
    . exact absurd h Checked.refuse_ne_pure
    . next declared hfield =>
      obtain ⟨arguments, harguments, h⟩ := bind_eq_pure_iff.mp h
      obtain ⟨children, hchildren, _⟩ := bind_eq_pure_iff.mp h
      exact .inr ⟨declared, arguments, children, hfield, harguments, hchildren⟩

theorem compileSet_ne_pure (stack : List String) (set : SelectionSet) (parent : ObjectType)
    (items : List SelectionItem)
    : compileSet env 0 stack set parent ≠ pure items :=
  report_bind_ne_pure

theorem compileSet_eq_pure_iff {levels : Nat} {stack : List String} {set : SelectionSet}
    {parent : ObjectType} {items : List SelectionItem}
    : compileSet env (levels + 1) stack set parent = pure items
        ↔ ∃ parts,
            set.items.mapM (compileSelection env stack (compileSet env levels) parent) = pure parts
              ∧ items = parts.flatten := by
  rw [compileSet, bind_eq_pure_iff]
  simp only [pure_eq_pure_iff, eq_comm]

theorem compileOperation_eq_pure_iff {schema : Schema} {document : Document} {operation : Operation}
    {root : ObjectType} {plan : Plan}
    : compileOperation schema document operation root = pure plan
        ↔ ∃ specs items, compileVariables schema [] operation.variableDefinitions = pure specs
            ∧ operation.directives = []
            ∧ compileSet ⟨schema, document, operation.variableDefinitions⟩ Parser.maxDepth []
                operation.set root = pure items
            ∧ Conflict.ofSelection plan.depth plan.selection = []
            ∧ plan = ⟨operation.kind, operation.name, root.name, specs, items⟩ := by
  unfold compileOperation
  dsimp only
  simp only [bind_eq_pure_iff]
  constructor
  . rintro ⟨specs, hspecs, _, hdirectives, items, hitems, _, hconflicts, hplan⟩
    cases pure_eq_pure_iff.mp hplan
    refine ⟨specs, items, hspecs, rejectDirectives_eq_pure_iff.mp hdirectives, hitems, ?_, rfl⟩
    rw [← Checked.errors_forIn_report (Conflict.ofSelection _ _)]
    exact Checked.exists_eq_pure_iff.mp ⟨_, hconflicts⟩
  . rintro ⟨specs, items, hspecs, hdirectives, hitems, hconflicts, rfl⟩
    refine ⟨specs, hspecs, (), rejectDirectives_eq_pure_iff.mpr hdirectives, items, hitems, ⟨⟩, ?_,
      rfl⟩
    rw [hconflicts]
    rfl

end Compile

namespace Plan

theorem selectOperation_eq_ok_iff {document : Document} {operation : Operation}
    : Compile.selectOperation document = .ok operation ↔ document.operations = [operation] := by
  unfold Compile.selectOperation
  split
  . next h => simp [h]
  . next h => simp [h]
  . next hsingle => exact iff_of_false nofun (hsingle operation)

theorem compile_eq_ok_iff {schema : Schema} {document : Document} {plan : Plan}
    : compile schema document = .ok plan
        ↔ ∃ operation root, document.operations = [operation]
            ∧ Compile.rootType schema operation = .ok root
            ∧ Compile.compileOperation schema document operation root = pure plan := by
  constructor
  . intro h
    obtain ⟨operation, root, hoperation, hroot, herrors, rfl⟩ := compile_eq_ok h
    exact ⟨operation, root, selectOperation_eq_ok_iff.mp hoperation, hroot,
      Checked.eq_pure_iff.mpr ⟨herrors, rfl⟩⟩
  . rintro ⟨operation, root, hoperation, hroot, h⟩
    unfold compile
    rw [selectOperation_eq_ok_iff.mpr hoperation]
    dsimp only [Except.mapError, bind, Except.bind]
    rw [hroot]
    dsimp only
    rw [h]
    rfl

end Plan
end GraphGateway

import GraphGateway.Plan.Compile
import GraphGateway.Proofs.Plan.MapHeads

/-!
This module contains compilations that come to the same fields but for a change of them, with
the same errors: a selection does if its conditions compile to the same and what is in it comes
to the changed fields.
-/

namespace GraphGateway

open SelectionItem (mapHeadsAll)

namespace Compile

theorem mapM_eq_map_mapM {α β : Type} {x y : α → Compile β} {g : β → β} {as : List α}
    (h : ∀ a ∈ as, y a = g <$> x a)
    : as.mapM y = List.map g <$> as.mapM x := by
  induction as with
  | nil => rfl
  | cons a rest ih =>
    obtain ⟨ha, hrest⟩ := List.forall_mem_cons.mp h
    simp [ha, ih hrest]

variable {f : FieldPlan → FieldPlan}

theorem mapHeadsAll_groupOf (f : FieldPlan → FieldPlan) (conditions : Option (List Condition))
    (items : List SelectionItem)
    : groupOf conditions (mapHeadsAll f items) = mapHeadsAll f (groupOf conditions items) := by
  unfold groupOf
  split <;> rfl

theorem groupOf_map {x y : Compile (List SelectionItem)} (h : y = mapHeadsAll f <$> x)
    (conditions : Option (List Condition))
    : groupOf conditions <$> y = mapHeadsAll f <$> groupOf conditions <$> x := by
  rw [h, ← comp_map, ← comp_map]
  exact congrArg (· <$> x) (funext fun items => mapHeadsAll_groupOf f _ items)

def mapField (f : FieldPlan → FieldPlan) (field : FieldPlan × Option (List SelectionItem))
    : FieldPlan × Option (List SelectionItem) :=
  (f field.1, field.2.map (mapHeadsAll f))

section Selections

variable {env other : Env} {sets others : SetCompiler} {directives : List Directive}
  {parent child : ObjectType}

theorem compileItem_map
    (hf : ∀ head conditions, f { head with conditions } = { f head with conditions })
    {node changed : FieldNode} {set inner : Option SelectionSet}
    (hconditions : compileConditions other changed.directives
      = compileConditions env node.directives)
    (hfield : compileField other others changed inner child
      = Option.map (mapField f) <$> compileField env sets node set parent)
    : compileItem other others changed inner child
        = mapHeadsAll f <$> compileItem env sets node set parent := by
  unfold compileItem
  rw [hconditions, hfield]
  simp only [map_bind, bind_map_left]
  refine bind_congr fun conditions => bind_congr fun field => ?_
  rcases conditions with _ | conditions
  . rcases field with _ | ⟨head, _ | children⟩ <;> rfl
  . rcases field with _ | ⟨head, children⟩
    . rfl
    . simp only [Option.map_some, mapField, map_pure, ← hf]
      cases children <;> rfl

theorem compileSpread_map {stack : List String} {name : String} {position : Position}
    {g : Fragment → Fragment}
    (hg : ∀ fragment, (g fragment).condition = fragment.condition
      ∧ (g fragment).directives = fragment.directives)
    (hconditions : compileConditions other directives = compileConditions env directives)
    (hfragment : other.document.fragment? name = (env.document.fragment? name).map g)
    (hcheck : ∀ fragment condition, checkTypeCondition other fragment condition child position
      = checkTypeCondition env fragment condition parent position)
    (hsets : ∀ fragment, env.document.fragment? name = some fragment →
      others (g fragment).set child = mapHeadsAll f <$> sets fragment.set parent)
    : compileSpread other stack others name directives position child
        = mapHeadsAll f <$> compileSpread env stack sets name directives position parent := by
  unfold compileSpread
  rw [hconditions, map_bind, hfragment]
  refine bind_congr fun conditions => ?_
  cases hfound : env.document.fragment? name with
  | none => rfl
  | some fragment =>
    obtain ⟨hcondition, hdirectives⟩ := hg fragment
    dsimp only [Option.map_some]
    split
    . rfl
    . rw [map_bind, hcheck, hcondition, hdirectives]
      refine bind_congr fun fits => ?_
      cases fits with
      | false => rfl
      | true =>
        simp only [if_true, map_bind, bind_pure_comp]
        exact bind_congr fun _ => groupOf_map (hsets fragment hfound) conditions

theorem compileInline_map {condition : Option String} {position : Position}
    {set inner : SelectionSet}
    (hconditions : compileConditions other directives = compileConditions env directives)
    (hcheck : ∀ fragment condition, checkTypeCondition other fragment condition child position
      = checkTypeCondition env fragment condition parent position)
    (hsets : others inner child = mapHeadsAll f <$> sets set parent)
    : compileInline other others condition directives inner position child
        = mapHeadsAll f <$> compileInline env sets condition directives set position parent := by
  have hinline
      : checkInline other condition child position = checkInline env condition parent position := by
    cases condition with
    | none => rfl
    | some condition => exact hcheck none condition
  unfold compileInline
  rw [hconditions, hinline, map_bind]
  refine bind_congr fun conditions => ?_
  rw [map_bind]
  refine bind_congr fun fits => ?_
  cases fits with
  | false => rfl
  | true =>
    simp only [if_true, bind_pure_comp]
    exact groupOf_map hsets conditions

theorem compileSet_map {levels : Nat} {stack : List String} {set inner : SelectionSet}
    {r : Selection → Selection} (hinner : inner.items = set.items.map r)
    (h : ∀ selection ∈ set.items,
      compileSelection other stack (compileSet other levels) child (r selection)
        = mapHeadsAll f <$> compileSelection env stack (compileSet env levels) parent selection)
    : compileSet other (levels + 1) stack inner child
        = mapHeadsAll f <$> compileSet env (levels + 1) stack set parent := by
  have hitems :
      (set.items.map r).mapM (compileSelection other stack (compileSet other levels) child)
        = List.map (mapHeadsAll f)
          <$> set.items.mapM (compileSelection env stack (compileSet env levels) parent) := by
    rw [List.mapM_map]
    exact mapM_eq_map_mapM h
  unfold compileSet
  rw [hinner, hitems]
  simp only [bind_pure_comp, ← comp_map]
  congr 1
  funext items
  simp only [Function.comp_apply, SelectionItem.mapHeadsAll_eq_map, List.map_flatten]

end Selections

end Compile
end GraphGateway

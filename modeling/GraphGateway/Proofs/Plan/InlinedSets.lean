import GraphGateway.Proofs.Document.Fragments
import GraphGateway.Proofs.Plan.Faultless

/-!
This module contains which selection set the compilation of a selection goes on with: the one inside
of it once fragments are inlined. If there is no error, that set compiles without an error as well.
Only two kinds of errors depend on where a selection stands: spreads inside of their own fragment,
and sets that are nested too deep.
-/

namespace GraphGateway

section Distinct

variable {α : Type} [DecidableEq α]

theorem distinct_concat (xs : List α) (x : α)
    : distinct (xs ++ [x]) = if x ∈ distinct xs then distinct xs else distinct xs ++ [x] := by
  unfold distinct
  rw [List.foldl_append]
  rfl

theorem mem_distinct {xs : List α} {x : α} : x ∈ distinct xs ↔ x ∈ xs := by
  induction xs using List.reverseRecOn with
  | nil => rfl
  | append_singleton xs y ih =>
    rw [distinct_concat, List.mem_append, List.mem_singleton, ← ih]
    split
    . next hmem => exact ⟨.inl, fun h => h.elim id fun heq => heq ▸ hmem⟩
    . rw [List.mem_append, List.mem_singleton]

end Distinct

theorem Conflict.exists_of_mem_ofSelection {levels : Nat} {items : List SelectionItem}
    {e : CompileError} (he : e ∈ ofSelection levels items)
    : ∃ key conflict, e.cause = .fieldConflict key conflict := by
  induction levels generalizing items with
  | zero => cases he
  | succ levels ih =>
    unfold ofSelection at he
    obtain ⟨⟨key, group⟩, _, he⟩ := List.mem_flatMap.mp he
    dsimp only at he
    split at he
    . next hconflict =>
      rw [List.mem_singleton.mp he]
      obtain ⟨other, _, hother⟩ := List.exists_of_findSome?_eq_some hconflict
      obtain ⟨reason, _, rfl⟩ := Option.map_eq_some_iff.mp hother
      exact ⟨_, _, rfl⟩
    . exact ih he

/-- Errors that depend on where a selection stands once fragments are inlined. -/
def CompileError.Cause.OfInlining : CompileError.Cause → Prop
  | .fragmentCycle _ | .tooDeep _ => True
  | _ => False

namespace Checked

variable {ε α β : Type} {P : ε → Prop}

def All (P : ε → Prop) (x : Checked ε α) : Prop :=
  ∀ e ∈ x.errors, P e

theorem all_pure (a : α) : All P (Pure.pure a : Checked ε α) := by
  simp [All]

theorem all_report {e : ε} (h : P e) : All P (report e) :=
  List.forall_mem_singleton.mpr h

theorem all_refuse {e : ε} (h : P e) : All P (refuse e : Checked ε (Option α)) :=
  List.forall_mem_singleton.mpr h

theorem All.bind {x : Checked ε α} {f : α → Checked ε β} (hx : All P x) (hf : ∀ a, All P (f a))
    : All P (x >>= f) := by
  intro e he
  rw [errors_bind, List.mem_append] at he
  exact he.elim (hx e) (hf _ e)

theorem all_mapM {f : α → Checked ε β} {xs : List α} (h : ∀ x ∈ xs, All P (f x))
    : All P (xs.mapM f) := by
  intro e he
  rw [errors_mapM, List.mem_flatMap] at he
  obtain ⟨x, hx, he⟩ := he
  exact h x hx e he

theorem all_forIn {f : α → β → Checked ε (ForInStep β)} (h : ∀ a b, All P (f a b))
    (xs : List α) (b : β)
    : All P (forIn xs b f) := by
  induction xs generalizing b with
  | nil => exact all_pure b
  | cons x rest ih =>
    rw [List.forIn_cons]
    refine (h x b).bind fun step => ?_
    cases step with
    | done b => exact all_pure b
    | yield b => exact ih b

end Checked

namespace Compile

open Checked

variable {env : Env}

theorem errors_collect {α β : Type} (f : α → Compile (Option β)) (xs : List α)
    : (collect f xs).errors = xs.flatMap fun x => (f x).errors := by
  induction xs with
  | nil => rfl
  | cons x rest ih => simp [collect, ih]

def Local {α : Type} (x : Compile α) : Prop :=
  All (fun e => ¬ e.cause.OfInlining) x

section Local

theorem local_checkVariableUse (name : String) (location : TypeRef) (hasDefault : Bool)
    (position : Position)
    : Local (checkVariableUse env name location hasDefault position) := by
  unfold checkVariableUse
  split
  . exact (all_report id).bind fun _ => all_pure _
  . split
    . exact all_pure _
    . exact (all_report id).bind fun _ => all_pure _

theorem local_compileValue (argument : String) (position : Position) (type : TypeRef)
    (hasDefault : Bool) (l : Literal)
    : Local (compileValue env argument position type hasDefault l) := by
  apply compileValue_induction (P := fun _ _ _ x => Local x)
  case hvariable =>
    intro type hasDefault name
    exact (local_checkVariableUse _ _ _ _).bind fun fits => by cases fits <;> exact all_pure _
  case hconstant =>
    intro type hasDefault l
    unfold constant
    split
    . exact all_pure _
    . exact all_refuse id
  case hlist =>
    intro type inner hasDefault items _ ih
    refine All.bind ?_ fun _ => all_pure _
    intro e he
    rw [errors_collect, List.mem_flatMap] at he
    obtain ⟨item, _, he⟩ := he
    exact ih item e he
  case hsingle => exact fun type inner hasDefault l _ _ ih => ih.bind fun _ => all_pure _

theorem local_rejectDirectives (directives : List Directive) (location : String)
    : Local (rejectDirectives directives location) := by
  unfold rejectDirectives
  refine (all_forIn ?_ _ _).bind fun _ => all_pure _
  intro directive _
  split
  . exact (all_report id).bind fun _ => all_pure _
  . exact (all_report id).bind fun _ => all_pure _

theorem local_compileDirective (directive : Directive)
    : Local (compileDirective env directive) := by
  have hcondition : ∀ skips, Local (compileCondition env skips directive) := by
    intro skips
    unfold compileCondition
    refine (all_forIn ?_ _ _).bind fun _ => ?_
    . rintro ⟨name, _⟩ _
      dsimp only
      split
      . exact (all_report id).bind fun _ => all_pure _
      . exact all_pure _
    . split
      . exact (all_report id).bind fun _ => all_pure _
      . exact (local_checkVariableUse _ _ _ _).bind fun fits => by cases fits <;> exact all_pure _
      . exact all_pure _
      . exact (all_report id).bind fun _ => all_pure _
  unfold compileDirective
  split
  . exact hcondition true
  . split
    . exact hcondition false
    . exact (all_report id).bind fun _ => all_pure _

theorem local_compileConditions (directives : List Directive)
    : Local (compileConditions env directives) := by
  induction directives with
  | nil => exact all_pure _
  | cons directive rest ih =>
    refine (local_compileDirective directive).bind fun verdict => ih.bind fun others => ?_
    cases verdict <;> exact all_pure _

theorem local_checkTypeCondition (fragment : Option String) (condition : String)
    (parent : ObjectType) (position : Position)
    : Local (checkTypeCondition env fragment condition parent position) := by
  unfold checkTypeCondition
  split
  . exact (all_report id).bind fun _ => all_pure _
  . split
    . exact (all_report id).bind fun _ => all_pure _
    . exact all_pure _

theorem local_checkInline (condition : Option String) (parent : ObjectType) (position : Position)
    : Local (checkInline env condition parent position) := by
  cases condition with
  | none => exact all_pure _
  | some condition => exact local_checkTypeCondition none condition parent position

theorem local_compileArguments (node : FieldNode) (coordinate : String)
    (declared : Ordered ArgumentDef)
    : Local (compileArguments env node coordinate declared) := by
  unfold compileArguments
  refine (all_forIn ?_ _ _).bind fun _ => all_mapM ?_
  . rintro ⟨name, _⟩ _
    dsimp only
    split
    . exact (all_report id).bind fun _ => all_pure _
    . exact all_pure _
  . rintro ⟨name, argument⟩ _
    unfold compileArgument
    dsimp only
    split
    . split
      . exact (all_report id).bind fun _ => all_pure _
      . exact all_pure _
    . exact (local_compileValue _ _ _ _ _).bind fun _ => all_pure _

theorem local_compileTypename (node : FieldNode) (hasSet : Bool) (parent : ObjectType)
    : Local (compileTypename node hasSet parent) := by
  unfold compileTypename
  refine (all_forIn ?_ _ _).bind fun _ => ?_
  . rintro ⟨name, _⟩ _
    exact (all_report id).bind fun _ => all_pure _
  . split
    . exact (all_report id).bind fun _ => all_pure _
    . exact all_pure _

theorem local_compileVariable (schema : Schema) (earlier : List VariableDefinition)
    (definition : VariableDefinition)
    : Local (compileVariable schema earlier definition) := by
  unfold compileVariable
  split
  . exact all_refuse id
  . refine (local_rejectDirectives _ _).bind fun _ => ?_
    dsimp only
    split
    . exact all_refuse id
    . split
      . unfold compileDefault
        split
        . exact all_pure _
        . split
          . exact all_pure _
          . exact all_refuse id
      . exact all_refuse id

theorem local_compileVariables (schema : Schema) (earlier definitions : List VariableDefinition)
    : Local (compileVariables schema earlier definitions) := by
  induction definitions generalizing earlier with
  | nil => exact all_pure _
  | cons definition rest ih =>
    exact (local_compileVariable schema earlier definition).bind fun _ =>
      (ih _).bind fun _ => all_pure _

end Local

def stackInside (stack : List String) : Selection → List String
  | .spread name _ _ => name :: stack
  | _ => stack

section Errors

variable {P : CompileError → Prop} (hlocal : ∀ e, ¬ e.cause.OfInlining → P e)

include hlocal

theorem all_of_local {α : Type} {x : Compile α} (h : Local x) : All P x :=
  fun e he => hlocal e (h e he)

/-- A step: the errors of a selection are its own, or those of the set inside of it. -/
theorem all_compileSelection {stack : List String} {sets : List String → SetCompiler}
    {selection : Selection}
    (hinner : ∀ inner, env.document.inner? selection = some inner →
      ∀ object, All P (sets (stackInside stack selection) inner object))
    (hcycle : ∀ name directives position, selection = .spread name directives position →
      name ∈ stack → P ⟨.fragmentCycle name, [position]⟩)
    (parent : ObjectType)
    : All P (compileSelection env stack sets parent selection) := by
  have hconditions (directives : List Directive) : All P (compileConditions env directives) :=
    all_of_local hlocal (local_compileConditions directives)
  cases selection with
  | field node set =>
    refine (hconditions _).bind fun conditions => All.bind ?_ fun field => ?_
    . unfold compileField
      split
      . exact (all_of_local hlocal (local_compileTypename _ _ _)).bind fun _ => all_pure _
      . split
        . exact all_refuse (hlocal _ id)
        . refine (all_of_local hlocal (local_compileArguments _ _ _)).bind fun _ =>
            All.bind ?_ fun _ => all_pure _
          unfold compileChildren
          split
          . next object inner _ => exact (hinner inner rfl object).bind fun _ => all_pure _
          . exact all_refuse (hlocal _ id)
          . exact all_refuse (hlocal _ id)
          . exact all_pure _
    . split <;> exact all_pure _
  | spread name directives position =>
    refine (hconditions _).bind fun conditions => ?_
    split
    . exact (all_report (hlocal _ id)).bind fun _ => all_pure _
    . next fragment hfragment =>
      split
      . next hstack =>
        have hmem : name ∈ stack := List.contains_iff_mem.mp hstack
        exact (all_report (hcycle name directives position rfl hmem)).bind fun _ => all_pure _
      . refine (all_of_local hlocal (local_checkTypeCondition _ _ _ _)).bind fun fits => ?_
        have hset : env.document.inner? (.spread name directives position) = some fragment.set := by
          simp [Document.inner?, hfragment]
        cases fits with
        | false => exact all_pure _
        | true =>
          exact (all_of_local hlocal (local_rejectDirectives _ _)).bind fun _ =>
            (hinner _ hset parent).bind fun _ => all_pure _
  | inline condition directives set position =>
    refine (hconditions _).bind fun conditions =>
      (all_of_local hlocal (local_checkInline _ _ _)).bind fun fits => ?_
    cases fits with
    | false => exact all_pure _
    | true => exact (hinner set rfl parent).bind fun _ => all_pure _

/--
A run: errors are of a kind if those of the two kinds are that depend on where a selection stands,
as far as that is known of the sets that are gone on with.
-/
theorem all_compileSet (Inv : Nat → List String → SelectionSet → Prop)
    (hdeep : ∀ stack set, Inv 0 stack set → P ⟨.tooDeep Parser.maxDepth, [set.position]⟩)
    (hcycle : ∀ levels stack set, Inv (levels + 1) stack set → ∀ name directives position,
      .spread name directives position ∈ set.items → name ∈ stack →
        P ⟨.fragmentCycle name, [position]⟩)
    (hinner : ∀ levels stack set, Inv (levels + 1) stack set → ∀ item ∈ set.items,
      ∀ inner, env.document.inner? item = some inner → Inv levels (stackInside stack item) inner)
    {levels : Nat} {stack : List String} {set : SelectionSet} (h : Inv levels stack set)
    (parent : ObjectType)
    : All P (compileSet env levels stack set parent) := by
  induction levels generalizing stack set parent with
  | zero => exact (all_report (hdeep stack set h)).bind fun _ => all_pure _
  | succ levels ih =>
    refine All.bind (all_mapM fun item hitem => ?_) fun _ => all_pure _
    apply all_compileSelection hlocal
    . exact fun inner hset object => ih (hinner levels stack set h item hitem inner hset) object
    . rintro name directives position rfl hstack
      exact hcycle levels stack set h name directives position hitem hstack

end Errors

def Env.Clean (env : Env) (levels : Nat) (stack : List String) (set : SelectionSet) : Prop :=
  ∃ parent items, compileSet env levels stack set parent = Pure.pure items

def Env.CleanItem (env : Env) (levels : Nat) (stack : List String) (selection : Selection) : Prop :=
  ∃ parent items, compileSelection env stack (compileSet env levels) parent selection
    = Pure.pure items

variable {levels : Nat} {stack : List String} {set : SelectionSet} {selection : Selection}

theorem Env.Clean.items (h : env.Clean levels stack set)
    : ∃ fewer, levels = fewer + 1 ∧ ∀ item ∈ set.items, env.CleanItem fewer stack item := by
  obtain ⟨parent, items, h⟩ := h
  cases levels with
  | zero => exact absurd h (compileSet_ne_pure _ _ _ _)
  | succ levels =>
    obtain ⟨parts, hparts, _⟩ := compileSet_eq_pure_iff.mp h
    refine ⟨levels, rfl, fun item hitem => ⟨parent, ?_⟩⟩
    exact exists_eq_pure_iff.mpr ((mapM_eq_pure_iff.mp hparts).1 item hitem)

theorem Env.CleanItem.inner (h : env.CleanItem levels stack selection) {inner : SelectionSet}
    (hinner : env.document.inner? selection = some inner)
    : env.Clean levels (stackInside stack selection) inner := by
  obtain ⟨parent, items, h⟩ := h
  cases selection with
  | field node set =>
    cases hinner
    obtain ⟨conditions, _, h⟩ := bind_eq_pure_iff.mp h
    obtain ⟨field, hfield, _⟩ := bind_eq_pure_iff.mp h
    obtain ⟨_, hset⟩ | ⟨declared, _, children, _, _, hchildren⟩ := exists_of_compileField hfield
    . cases hset
    . obtain ⟨object, items, _, hitems, _⟩ := compileChildren_eq_pure_iff.mp hchildren
      exact ⟨object, items, hitems⟩
  | spread name directives position =>
    obtain ⟨_, fragment, items, _, hfragment, _, _, _, hitems, _⟩ := compileSpread_eq_pure_iff.mp h
    rw [Document.inner?, hfragment] at hinner
    cases hinner
    exact ⟨parent, items, hitems⟩
  | inline condition directives set position =>
    cases hinner
    obtain ⟨_, items, _, _, hitems, _⟩ := compileInline_eq_pure_iff.mp h
    exact ⟨parent, items, hitems⟩

theorem Env.CleanItem.spread {name : String} {directives : List Directive} {position : Position}
    (h : env.CleanItem levels stack (.spread name directives position))
    : name ∉ stack ∧ ∃ fragment, env.document.fragment? name = some fragment := by
  obtain ⟨parent, items, h⟩ := h
  obtain ⟨_, fragment, _, _, hfragment, hstack, _⟩ := compileSpread_eq_pure_iff.mp h
  exact ⟨hstack, fragment, hfragment⟩

theorem Env.Clean.selections (h : env.Clean levels stack set)
    (hselection : selection ∈ SelectionSet.selections set)
    : ∃ fewer, env.CleanItem fewer stack selection := by
  induction levels generalizing set with
  | zero =>
    obtain ⟨_, hlevels, _⟩ := h.items
    cases hlevels
  | succ levels ih =>
    obtain ⟨_, ⟨⟩, hitems⟩ := h.items
    obtain hitem | ⟨item, hitem, inner, hinner, hselection⟩ :=
      SelectionSet.exists_of_mem_selections hselection
    . exact ⟨levels, hitems selection hitem⟩
    . have hclean := (hitems item hitem).inner (Document.inner?_of_set? hinner)
      have hstack : stackInside stack item = stack := by
        cases item with
        | spread => cases hinner
        | field => rfl
        | inline => rfl
      rw [hstack] at hclean
      exact ih hclean hselection

theorem Env.Clean.spreads (h : env.Clean levels stack set) {name : String}
    (hspreads : SelectionSet.Spreads set name)
    : name ∉ stack ∧ ∃ fragment fewer, env.document.fragment? name = some fragment
        ∧ env.Clean fewer (name :: stack) fragment.set := by
  obtain ⟨directives, position, hselection⟩ := hspreads
  obtain ⟨fewer, hitem⟩ := h.selections hselection
  obtain ⟨hstack, fragment, hfragment⟩ := hitem.spread
  refine ⟨hstack, fragment, fewer, hfragment, ?_⟩
  apply hitem.inner
  rw [Document.inner?, hfragment]
  rfl

theorem Env.Clean.reaches (h : env.Clean levels stack set) {name : String}
    (hreaches : env.document.Reaches set name)
    : name ∉ stack ∧ ∃ fragment fewer inside, env.document.fragment? name = some fragment
        ∧ name ∈ inside ∧ env.Clean fewer inside fragment.set := by
  obtain ⟨first, hspreads, hpath⟩ := hreaches
  induction hpath using Relation.ReflTransGen.head_induction_on generalizing levels stack set with
  | refl =>
    obtain ⟨hstack, fragment, fewer, hfragment, hclean⟩ := h.spreads hspreads
    exact ⟨hstack, fragment, fewer, _, hfragment, List.mem_cons_self, hclean⟩
  | head hedge _ ih =>
    obtain ⟨_, fragment, fewer, hfragment, hclean⟩ := h.spreads hspreads
    obtain ⟨other, hother, hnext⟩ := hedge
    rw [hfragment] at hother
    cases hother
    obtain ⟨hstack, hrest⟩ := ih hclean hnext
    exact ⟨fun hmem => hstack (List.mem_cons_of_mem _ hmem), hrest⟩

end Compile

namespace Plan

open Compile

theorem clean_of_compile {schema : Schema} {document : Document} {plan : Plan}
    (h : compile schema document = .ok plan)
    : ∃ operation, document.operations = [operation]
        ∧ Env.Clean ⟨schema, document, operation.variableDefinitions⟩ Parser.maxDepth []
            operation.set := by
  obtain ⟨operation, root, hoperation, _, h⟩ := compile_eq_ok_iff.mp h
  obtain ⟨_, items, _, _, hitems, _⟩ := compileOperation_eq_pure_iff.mp h
  exact ⟨operation, hoperation, root, items, hitems⟩

theorem local_selectOperation {document : Document} {e : CompileError}
    (h : selectOperation document = .error e)
    : ¬ e.cause.OfInlining := by
  unfold selectOperation at h
  split at h <;> cases h <;> exact id

theorem local_rootType {schema : Schema} {operation : Operation} {e : CompileError}
    (h : Compile.rootType schema operation = .error e)
    : ¬ e.cause.OfInlining := by
  unfold Compile.rootType at h
  split at h
  . cases h
  . split at h <;> cases h
    exact id
  . cases h
    exact id

theorem mem_errors_of_compileOperation {schema : Schema} {document : Document}
    {operation : Operation} {root : ObjectType} {e : CompileError}
    (he : e ∈ (compileOperation schema document operation root).errors) (hkind : e.cause.OfInlining)
    : e ∈ (compileSet ⟨schema, document, operation.variableDefinitions⟩ Parser.maxDepth []
        operation.set root).errors := by
  rw [errors_compileOperation] at he
  simp only [List.mem_append] at he
  obtain ((hspecs | hdirectives) | hset) | hconflicts := he
  . exact absurd hkind (local_compileVariables _ _ _ e hspecs)
  . exact absurd hkind (local_rejectDirectives _ _ e hdirectives)
  . exact hset
  . obtain ⟨key, conflict, hcause⟩ := Conflict.exists_of_mem_ofSelection hconflicts
    rw [hcause] at hkind
    exact hkind.elim

theorem exists_of_mem_errors {schema : Schema} {document : Document} {errors : List CompileError}
    (h : compile schema document = .error errors) {e : CompileError} (he : e ∈ errors)
    : selectOperation document = .error e
        ∨ ∃ operation, document.operations = [operation]
          ∧ (Compile.rootType schema operation = .error e
            ∨ ∃ root, e ∈ (compileOperation schema document operation root).errors) := by
  unfold compile at h
  cases hoperation : selectOperation document with
  | error cause =>
    rw [hoperation] at h
    cases h
    exact .inl (congrArg Except.error (List.mem_singleton.mp he).symm)
  | ok operation =>
    rw [hoperation] at h
    refine .inr ⟨operation, selectOperation_eq_ok_iff.mp hoperation, ?_⟩
    dsimp only [Except.mapError, bind, Except.bind] at h
    cases hroot : Compile.rootType schema operation with
    | error cause =>
      rw [hroot] at h
      cases h
      exact .inl (congrArg Except.error (List.mem_singleton.mp he).symm)
    | ok root =>
      rw [hroot] at h
      dsimp only at h
      split at h
      . cases h
      . cases h
        exact .inr ⟨root, mem_distinct.mp he⟩

theorem mem_errors_of_compile {schema : Schema} {document : Document} {errors : List CompileError}
    (h : compile schema document = .error errors) {e : CompileError} (he : e ∈ errors)
    (hkind : e.cause.OfInlining)
    : ∃ operation root, document.operations = [operation]
        ∧ e ∈ (compileSet ⟨schema, document, operation.variableDefinitions⟩ Parser.maxDepth []
            operation.set root).errors := by
  obtain hselect | ⟨operation, hoperation, hroot | ⟨root, hmem⟩⟩ := exists_of_mem_errors h he
  . exact absurd hkind (local_selectOperation hselect)
  . exact absurd hkind (local_rootType hroot)
  . exact ⟨operation, root, hoperation, mem_errors_of_compileOperation hmem hkind⟩

end Plan
end GraphGateway

import GraphGateway.Proofs.Plan.MergedSelections
import GraphGateway.Proofs.Plan.ResponseKeys

/-!
This module contains that a document still compiles if fields are merged in it: a field
that is selected again is taken out, and what is selected in it is appended to what is
selected in the first one.
-/

namespace GraphGateway

open SelectionItem (allFields joinChildren)

def SelectionSet.join? : Option SelectionSet → Option SelectionSet → Option SelectionSet
  | some set, some other => some ⟨set.items ++ other.items, set.position⟩
  | some set, none => some set
  | none, other => other

/--
One field is selected again under one key, both times without directives. That its arguments are the
same both times is checked when a document is compiled.
-/
structure FieldNode.Repeats (node other : FieldNode) : Prop where
  key : other.responseKey = node.responseKey
  name : other.name = node.name
  free : node.directives = []
  otherFree : other.directives = []

/--
Selections in which some fields are merged with the first ones of their keys, if nothing of the key
stands between them.
-/
inductive Document.MergesAll (document : Document) : List Selection → List Selection → Prop where
  | nil : MergesAll document [] []
  | leaf (node : FieldNode) {rest others : List Selection} (h : MergesAll document rest others)
    : MergesAll document (.field node none :: rest) (.field node none :: others)
  | field (node : FieldNode) {set : SelectionSet} {items rest others : List Selection}
    (hset : MergesAll document set.items items) (h : MergesAll document rest others)
    : MergesAll document (.field node (some set) :: rest)
        (.field node (some ⟨items, set.position⟩) :: others)
  | spread (name : String) (directives : List Directive) (position : Position)
    {rest others : List Selection} (h : MergesAll document rest others)
    : MergesAll document (.spread name directives position :: rest)
        (.spread name directives position :: others)
  | inline (condition : Option String) (directives : List Directive) (position : Position)
    {set : SelectionSet} {items rest others : List Selection}
    (hset : MergesAll document set.items items) (h : MergesAll document rest others)
    : MergesAll document (.inline condition directives set position :: rest)
        (.inline condition directives ⟨items, set.position⟩ position :: others)
  | merged {node other : FieldNode} (set otherSet : Option SelectionSet)
    {between rest others : List Selection} (hrepeats : node.Repeats other)
    (hbetween : ¬ document.HasKey node.responseKey between)
    (h : MergesAll document
      (.field node (SelectionSet.join? set otherSet) :: (between ++ rest)) others)
    : MergesAll document (.field node set :: (between ++ .field other otherSet :: rest)) others

def Document.Merges (document other : Document) : Prop :=
  List.Forall₂ (Definition.Rewrites document.MergesAll) document.definitions other.definitions

theorem Document.MergesAll.refl {document : Document} (items : List Selection)
    : document.MergesAll items items := by
  match items with
  | [] => exact .nil
  | .field node none :: rest => exact .leaf node (MergesAll.refl rest)
  | .field node (some ⟨nested, start⟩) :: rest =>
    exact .field node (MergesAll.refl nested) (MergesAll.refl rest)
  | .spread name directives position :: rest =>
    exact .spread name directives position (MergesAll.refl rest)
  | .inline condition directives ⟨nested, start⟩ position :: rest =>
    exact .inline condition directives position (MergesAll.refl nested) (MergesAll.refl rest)

namespace Compile

open SelectionItem (Merges)

theorem gathers_append_iff {f : Selection → Compile (List SelectionItem)}
    {selections others : List Selection} {items : List SelectionItem}
    : Gathers f (selections ++ others) items
        ↔ ∃ first rest, Gathers f selections first ∧ Gathers f others rest
            ∧ items = first ++ rest := by
  constructor
  . intro h
    induction selections generalizing items with
    | nil => exact ⟨[], items, gathers_nil_iff.mpr rfl, h, rfl⟩
    | cons selection selections ih =>
      obtain ⟨head, tail, hhead, htail, rfl⟩ := gathers_cons_iff.mp h
      obtain ⟨first, rest, hfirst, hrest, rfl⟩ := ih htail
      exact ⟨head ++ first, rest, gathers_cons_iff.mpr ⟨head, first, hhead, hfirst, rfl⟩, hrest,
        (List.append_assoc ..).symm⟩
  . rintro ⟨first, rest, hfirst, hrest, rfl⟩
    exact hfirst.append hrest

theorem merges_groupOf (conditions : Option (List Condition)) {items others : List SelectionItem}
    (h : Merges items others)
    : Merges (groupOf conditions items) (groupOf conditions others) := by
  unfold groupOf
  split
  . exact .refl []
  . exact h
  . exact .group _ h

/-- What one compiler makes of a set, another one makes of another set, but for merged fields. -/
def CarriesMerged (sets others : SetCompiler) (set other : SelectionSet) : Prop :=
  ∀ object items, sets set object = pure items →
    ∃ merged, others other object = pure merged ∧ Merges items merged

section Step

variable {env : Env} {document : Document} {sets others : SetCompiler} {parent : ObjectType}
  {items : List SelectionItem} {node : FieldNode} {head : FieldPlan}
  {children : Option (List SelectionItem)}

theorem compileChildren_merged (document : Document) {type : TypeRef}
    {set other : Option SelectionSet} (hset : Option.Rel (CarriesMerged sets others) set other)
    (h : compileChildren env sets node type set = pure children)
    : ∃ merged, compileChildren (env.withDocument document) others node type other = pure merged
        ∧ Option.Rel Merges children merged := by
  cases hset with
  | none =>
    refine ⟨children, by rwa [compileChildren_none], ?_⟩
    cases children with
    | none => exact .none
    | some children => exact .some (.refl children)
  | some hset =>
    obtain ⟨object, items, htype, hitems, rfl⟩ := compileChildren_eq_pure_iff.mp h
    obtain ⟨merged, hmerged, hmerges⟩ := hset _ _ hitems
    exact ⟨some merged, compileChildren_eq_pure_iff.mpr ⟨object, merged, htype, hmerged, rfl⟩,
      .some hmerges⟩

theorem compilesField_merged (document : Document) {set other : Option SelectionSet}
    (hset : Option.Rel (CarriesMerged sets others) set other)
    (h : CompilesField env sets node set parent head children)
    : ∃ merged, CompilesField (env.withDocument document) others node other parent head merged
        ∧ Option.Rel Merges children merged := by
  cases h with
  | typename hname harguments hnone =>
    subst hnone
    cases hset
    exact ⟨none, .typename hname harguments rfl, .none⟩
  | declared hname hfield harguments hchildren =>
    obtain ⟨merged, hmerged, hmerges⟩ := compileChildren_merged document hset hchildren
    rw [← compileArguments_congr (variableDefinitions_withDocument env document)] at harguments
    exact ⟨merged, .declared hname hfield harguments hmerged, hmerges⟩

theorem compileItem_merged {set other : Option SelectionSet}
    (hset : Option.Rel (CarriesMerged sets others) set other)
    (h : compileItem env sets node set parent = pure items)
    : ∃ merged, compileItem (env.withDocument document) others node other parent = pure merged
        ∧ Merges items merged := by
  obtain ⟨conditions, head, children, hconditions, hfield, rfl⟩ := compileItem_eq_pure_iff.mp h
  obtain ⟨merged, hmerged, hmerges⟩ := compilesField_merged document hset hfield
  rw [← compileConditions_inlined document] at hconditions
  refine ⟨_, compileItem_eq_pure_iff.mpr ⟨conditions, head, merged, hconditions, hmerged, rfl⟩, ?_⟩
  cases conditions with
  | none => exact .refl []
  | some conditions =>
    cases hmerges with
    | none => exact .refl _
    | some hmerges => exact .nested _ hmerges

variable {stack : List String} {name : String} {directives : List Directive} {position : Position}

theorem compileSpread_merged {fragment : Fragment}
    (hfragment : env.document.fragment? name = some fragment) {inside : List Selection}
    (hother : document.fragment? name = some (fragment.withItems inside))
    (hset : CarriesMerged sets others fragment.set (fragment.withItems inside).set)
    (h : compileSpread env stack sets name directives position parent = pure items)
    : ∃ merged,
        compileSpread (env.withDocument document) stack others name directives position parent
            = pure merged
          ∧ Merges items merged := by
  obtain ⟨conditions, _, inner, hconditions, hfound, hname, hnames, hdirectives, hinner, rfl⟩ :=
    compileSpread_eq_pure_iff.mp h
  cases hfragment.symm.trans hfound
  obtain ⟨merged, hmerged, hmerges⟩ := hset _ _ hinner
  rw [← compileConditions_inlined document] at hconditions
  exact ⟨_,
    compileSpread_eq_pure_iff.mpr ⟨conditions, _, merged, hconditions, hother, hname, hnames,
      hdirectives, hmerged, rfl⟩,
    merges_groupOf conditions hmerges⟩

theorem compileInline_merged {condition : Option String} {set other : SelectionSet}
    (hset : CarriesMerged sets others set other)
    (h : compileInline env sets condition directives set position parent = pure items)
    : ∃ merged, compileInline (env.withDocument document) others condition directives other position
          parent = pure merged
        ∧ Merges items merged := by
  obtain ⟨conditions, inner, hconditions, hnames, hinner, rfl⟩ := compileInline_eq_pure_iff.mp h
  obtain ⟨merged, hmerged, hmerges⟩ := hset _ _ hinner
  rw [← compileConditions_inlined document] at hconditions
  exact ⟨_, compileInline_eq_pure_iff.mpr ⟨conditions, merged, hconditions, hnames, hmerged, rfl⟩,
    merges_groupOf conditions hmerges⟩

end Step

section Join

variable {env : Env} {levels : Nat} {stack : List String} {parent : ObjectType}

theorem compileSet_join {set other : SelectionSet} {items rest : List SelectionItem}
    (h : compileSet env levels stack set parent = pure items)
    (hother : compileSet env levels stack other parent = pure rest)
    : compileSet env levels stack ⟨set.items ++ other.items, set.position⟩ parent
        = pure (items ++ rest) := by
  cases levels with
  | zero => exact absurd h (compileSet_ne_pure stack set parent items)
  | succ levels =>
    exact compileSet_eq_pure_iff.mpr
      (Gathers.append (compileSet_eq_pure_iff.mp h) (compileSet_eq_pure_iff.mp hother))

theorem eq_none_of_compileChildren {sets : SetCompiler} {node : FieldNode} {type : TypeRef}
    {children : Option (List SelectionItem)}
    (h : compileChildren env sets node type none = pure children)
    : children = none := by
  unfold compileChildren at h
  split at h
  . cases ‹(none : Option SelectionSet) = some _›
  . exact absurd h Checked.refuse_ne_pure
  . cases ‹(none : Option SelectionSet) = some _›
  . exact (Checked.pure_eq_pure_iff.mp h).symm

theorem compileChildren_join {node other : FieldNode} {type : TypeRef}
    {set otherSet : Option SelectionSet} {children others : Option (List SelectionItem)}
    (h : compileChildren env (compileSet env levels stack) node type set = pure children)
    (hother : compileChildren env (compileSet env levels stack) other type otherSet = pure others)
    : compileChildren env (compileSet env levels stack) node type (SelectionSet.join? set otherSet)
        = pure (joinChildren children others) := by
  match set, otherSet with
  | some set, some otherSet =>
    obtain ⟨object, items, htype, hitems, rfl⟩ := compileChildren_eq_pure_iff.mp h
    obtain ⟨_, rest, hsame, hrest, rfl⟩ := compileChildren_eq_pure_iff.mp hother
    cases htype.symm.trans hsame
    exact compileChildren_eq_pure_iff.mpr
      ⟨object, items ++ rest, htype, compileSet_join hitems hrest, rfl⟩
  | set, none =>
    cases eq_none_of_compileChildren hother
    cases set <;> cases children <;> exact h
  | none, some otherSet =>
    cases eq_none_of_compileChildren h
    exact compileChildren_eq_pure_iff.mpr (compileChildren_eq_pure_iff.mp hother)

theorem compilesField_join {node other : FieldNode} (hname : other.name = node.name)
    {set otherSet : Option SelectionSet} {head otherHead : FieldPlan}
    {children others : Option (List SelectionItem)}
    (h : CompilesField env (compileSet env levels stack) node set parent head children)
    (hother : CompilesField env (compileSet env levels stack) other otherSet parent
      otherHead others)
    : CompilesField env (compileSet env levels stack) node (SelectionSet.join? set otherSet)
        parent head (joinChildren children others) := by
  cases h with
  | typename hnode harguments hset =>
    cases hother with
    | typename _ _ hotherSet =>
      subst hset hotherSet
      exact .typename hnode harguments rfl
    | declared hne => exact absurd (hname.trans hnode) hne
  | declared hne hfield harguments hchildren =>
    cases hother with
    | typename hnode => exact absurd (hname.symm.trans hnode) hne
    | declared _ hotherField _ hotherChildren =>
      rw [hname, hfield] at hotherField
      cases hotherField
      exact .declared hne hfield harguments (compileChildren_join hchildren hotherChildren)

/--
A step: the field that is selected again is taken out where nothing of its key stands before it.
-/
theorem gathers_join {node other : FieldNode} (hrepeats : node.Repeats other)
    {set otherSet : Option SelectionSet} {between rest : List Selection}
    (hbetween : ¬ env.document.HasKey node.responseKey between) {items : List SelectionItem}
    (h : Gathers (compileSelection env stack (compileSet env levels) parent)
      (.field node set :: (between ++ .field other otherSet :: rest)) items)
    : ∃ merged, Gathers (compileSelection env stack (compileSet env levels) parent)
          (.field node (SelectionSet.join? set otherSet) :: (between ++ rest)) merged
        ∧ Merges items merged := by
  obtain ⟨_, _, hfirst, hrest, rfl⟩ := gathers_cons_iff.mp h
  obtain ⟨inner, _, hinner, hagain, rfl⟩ := gathers_append_iff.mp hrest
  obtain ⟨_, later, hsecond, hlater, rfl⟩ := gathers_cons_iff.mp hagain
  obtain ⟨conditions, head, children, hconditions, hfield, rfl⟩ := compileItem_eq_pure_iff.mp hfirst
  obtain ⟨otherConditions, otherHead, others, hotherConditions, hotherField, rfl⟩ :=
    compileItem_eq_pure_iff.mp hsecond
  rw [hrepeats.free] at hconditions
  rw [hrepeats.otherFree] at hotherConditions
  cases Checked.pure_eq_pure_iff.mp hconditions
  cases Checked.pure_eq_pure_iff.mp hotherConditions
  have hkey : otherHead.key = head.key := by
    rw [key_of_compilesField hotherField, key_of_compilesField hfield, hrepeats.key]
  have hfree (field : SelectedField) (hmem : field ∈ allFields inner)
      : field.head.key ≠ head.key := by
    intro heq
    apply hbetween
    rw [← key_of_compilesField hfield, ← heq]
    exact hasKey_of_gathers (keepsKeys levels) hinner hmem
  have hjoined := compilesField_join hrepeats.name hfield hotherField
  rw [← hrepeats.free] at hconditions
  refine ⟨_, gathers_cons_iff.mpr ⟨_, _, compileItem_eq_pure_iff.mpr
    ⟨_, head, _, hconditions, hjoined, rfl⟩, hinner.append hlater, rfl⟩, ?_⟩
  have hmerged : Merges (.field { head with conditions := [] } children
        :: (inner ++ [.field { otherHead with conditions := [] } others]))
      (.field { head with conditions := [] } (joinChildren children others) :: inner) :=
    .merged children others hkey rfl rfl hfree
  simpa using hmerged.append (.refl later)

end Join

def Env.CarriesMerged (env : Env) (document : Document) (levels : Nat) : Prop :=
  ∀ stack set items, env.document.MergesAll (SelectionSetOf.items set) items →
    Compile.CarriesMerged (compileSet env levels stack)
      (compileSet (env.withDocument document) levels stack) set ⟨items, set.position⟩

variable {env : Env} {document : Document} {levels : Nat} {stack : List String}

theorem Gathers.cons_merged {f g : Selection → Compile (List SelectionItem)}
    {selection other : Selection} {selections others : List Selection} {items : List SelectionItem}
    (h : Gathers f (selection :: selections) items)
    (hfirst : ∀ items, f selection = pure items →
      ∃ merged, g other = pure merged ∧ Merges items merged)
    (hrest : ∀ {items}, Gathers f selections items →
      ∃ merged, Gathers g others merged ∧ Merges items merged)
    : ∃ merged, Gathers g (other :: others) merged ∧ Merges items merged := by
  obtain ⟨first, rest, hselection, hselections, rfl⟩ := gathers_cons_iff.mp h
  obtain ⟨first', hfirst', hmerges⟩ := hfirst first hselection
  obtain ⟨rest', hrest', hmerges'⟩ := hrest hselections
  exact ⟨_, gathers_cons_iff.mpr ⟨first', rest', hfirst', hrest', rfl⟩, hmerges.append hmerges'⟩

theorem gathers_merged (hdocument : env.document.Merges document)
    (hlevels : env.CarriesMerged document levels) {parent : ObjectType}
    {selections others : List Selection} (hmerges : env.document.MergesAll selections others)
    {items : List SelectionItem}
    (h : Gathers (compileSelection env stack (compileSet env levels) parent) selections items)
    : ∃ merged, Gathers (compileSelection (env.withDocument document) stack
          (compileSet (env.withDocument document) levels) parent) others merged
        ∧ Merges items merged := by
  induction hmerges generalizing items with
  | nil =>
    cases gathers_nil_iff.mp h
    exact ⟨[], gathers_nil_iff.mpr rfl, .refl []⟩
  | leaf node _ ih => exact h.cons_merged (fun _ => compileItem_merged .none) ih
  | field node hset _ _ ih =>
    exact h.cons_merged (fun _ => compileItem_merged (.some (hlevels stack _ _ hset))) ih
  | spread name directives position _ ih =>
    refine h.cons_merged (fun first hfirst => ?_) ih
    -- Fields may be merged in the fragment, which is the same for all its spreads.
    obtain ⟨_, fragment, _, _, hfragment, _⟩ := compileSpread_eq_pure_iff.mp hfirst
    obtain ⟨inside, hinside, hother⟩ := Document.fragment?_of_rewrites hdocument hfragment
    exact compileSpread_merged hfragment hother
      (hlevels (name :: stack) fragment.set inside hinside) hfirst
  | inline condition directives position hset _ _ ih =>
    exact h.cons_merged (fun _ => compileInline_merged (hlevels stack _ _ hset)) ih
  | merged set otherSet hrepeats hbetween _ ih =>
    obtain ⟨joined, hjoined, hmerges⟩ := gathers_join hrepeats hbetween h
    obtain ⟨merged, hmerged, hmerges'⟩ := ih hjoined
    exact ⟨merged, hmerged, hmerges.trans hmerges'⟩

/-- A run: the levels decrease from set to set. -/
theorem carriesMerged (hdocument : env.document.Merges document) (levels : Nat)
    : env.CarriesMerged document levels := by
  induction levels with
  | zero =>
    intro stack set _ _ object items h
    exact absurd h (compileSet_ne_pure stack set object items)
  | succ levels ih =>
    intro stack set items hmerges object compiled h
    obtain ⟨merged, hmerged, hmerges⟩ :=
      gathers_merged hdocument ih hmerges (compileSet_eq_pure_iff.mp h)
    exact ⟨merged, compileSet_eq_pure_iff.mpr hmerged, hmerges⟩

end Compile

namespace Plan

open Compile

/--
If fields are merged in a document that compiles, it compiles to a plan in which
only fields are merged.
-/
theorem compile_of_merges {schema : Schema} {document other : Document} {plan : Plan}
    (hmerges : document.Merges other) (h : compile schema document = .ok plan)
    : ∃ items, compile schema other = .ok { plan with selection := items }
        ∧ SelectionItem.Merges plan.selection items := by
  obtain ⟨operation, root, hoperations, hroot, h⟩ := compile_eq_ok_iff.mp h
  obtain ⟨specs, items, hspecs, hdirectives, hset, hconflicts, rfl⟩ :=
    compileOperation_eq_pure_iff.mp h
  have hothers := Document.operations_of_rewrites hmerges
  rw [show Document.mk document.definitions = document from rfl, hoperations,
    List.forall₂_cons_left_iff] at hothers
  obtain ⟨_, rest, ⟨written, hwritten, rfl⟩, hrest, hother⟩ := hothers
  cases List.forall₂_nil_left_iff.mp hrest
  have hcarries : Env.CarriesMerged ⟨schema, document, operation.variableDefinitions⟩ other
      Parser.maxDepth := carriesMerged hmerges _
  obtain ⟨merged, hmerged, hmergesItems⟩ := hcarries [] _ _ hwritten root items hset
  refine ⟨merged, ?_, hmergesItems⟩
  refine compile_eq_ok_iff.mpr ⟨operation.withItems written, root, hother, hroot,
    compileOperation_eq_pure_iff.mpr ⟨specs, merged, hspecs, hdirectives, hmerged, ?_, rfl⟩⟩
  -- Merging leaves the depth as it is, so that the check for conflicts goes as deep as before.
  have hdepth : SelectionItem.depthAll merged = SelectionItem.depthAll items :=
    SelectionItem.depthAll_merges hmergesItems
  unfold Plan.depth at hconflicts ⊢
  dsimp only at hconflicts ⊢
  rw [hdepth]
  exact Conflict.ofSelection_merges hmergesItems hconflicts

end Plan

end GraphGateway

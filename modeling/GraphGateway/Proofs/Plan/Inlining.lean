import GraphGateway.Proofs.Document.Fragments
import GraphGateway.Proofs.Library
import GraphGateway.Proofs.Plan.Environment
import GraphGateway.Proofs.Plan.Faultless

/-!
This module contains that the plan of a document stays the same if fragments are inlined in
the document: spreads become inline fragments, and inline fragments without directives are
replaced by what is in them.
-/

namespace GraphGateway

/--
Selections of a document in which some spreads are inline fragments, and some inline fragments
without directives are gone, but not what is in them.
-/
inductive Document.InlinesAll (document : Document) : List Selection → List Selection → Prop where
  | nil : InlinesAll document [] []
  | leaf (node : FieldNode) {rest others : List Selection} (h : InlinesAll document rest others)
    : InlinesAll document (.field node none :: rest) (.field node none :: others)
  | field (node : FieldNode) {set : SelectionSet} {items rest others : List Selection}
    (hset : InlinesAll document set.items items) (h : InlinesAll document rest others)
    : InlinesAll document (.field node (some set) :: rest)
        (.field node (some ⟨items, set.position⟩) :: others)
  | spread (name : String) (directives : List Directive) (position : Position)
    {rest others : List Selection} (h : InlinesAll document rest others)
    : InlinesAll document (.spread name directives position :: rest)
        (.spread name directives position :: others)
  | inline (condition : Option String) (directives : List Directive) (position : Position)
    {set : SelectionSet} {items rest others : List Selection}
    (hset : InlinesAll document set.items items) (h : InlinesAll document rest others)
    : InlinesAll document (.inline condition directives set position :: rest)
        (.inline condition directives ⟨items, set.position⟩ position :: others)
  | replaced {name : String} (directives : List Directive) (position : Position)
    {fragment : Fragment} {items rest others : List Selection}
    (hfragment : document.fragment? name = some fragment)
    (hset : InlinesAll document fragment.set.items items) (h : InlinesAll document rest others)
    : InlinesAll document (.spread name directives position :: rest)
        (.inline (some fragment.condition) directives ⟨items, fragment.set.position⟩ position
          :: others)
  | spliced (condition : Option String) (position : Position) {set : SelectionSet}
    {items rest others : List Selection} (hset : InlinesAll document set.items items)
    (h : InlinesAll document rest others)
    : InlinesAll document (.inline condition [] set position :: rest) (items ++ others)

namespace Document

variable {document : Document}

theorem InlinesAll.refl (items : List Selection) : document.InlinesAll items items := by
  match items with
  | [] => exact .nil
  | .field node none :: rest => exact .leaf node (InlinesAll.refl rest)
  | .field node (some ⟨nested, start⟩) :: rest =>
    exact .field node (InlinesAll.refl nested) (InlinesAll.refl rest)
  | .spread name directives position :: rest =>
    exact .spread name directives position (InlinesAll.refl rest)
  | .inline condition directives ⟨nested, start⟩ position :: rest =>
    exact .inline condition directives position (InlinesAll.refl nested) (InlinesAll.refl rest)

end Document

def Operation.withItems (operation : Operation) (items : List Selection) : Operation :=
  { operation with set := ⟨items, operation.set.position⟩ }

def Fragment.withItems (fragment : Fragment) (items : List Selection) : Fragment :=
  { fragment with set := ⟨items, fragment.set.position⟩ }

inductive Definition.Rewrites (Becomes : List Selection → List Selection → Prop)
    : Definition → Definition → Prop where
  | operation (operation : Operation) {items : List Selection}
    (h : Becomes operation.set.items items)
    : Rewrites Becomes (.operation operation) (.operation (operation.withItems items))
  | fragment (fragment : Fragment) {items : List Selection} (h : Becomes fragment.set.items items)
    : Rewrites Becomes (.fragment fragment) (.fragment (fragment.withItems items))

namespace Document

theorem fragment?_cons (first : Fragment) (rest : List Definition) (name : String)
    : (mk (.fragment first :: rest)).fragment? name
        = if first.name = name then some first else (mk rest).fragment? name := by
  unfold fragment? fragments
  by_cases h : first.name = name <;> simp [h]

section Rewrites

variable {Becomes : List Selection → List Selection → Prop} {definitions others : List Definition}
  (h : List.Forall₂ (Definition.Rewrites Becomes) definitions others)

include h

theorem operations_of_rewrites
    : List.Forall₂
        (fun operation other => ∃ items, Becomes operation.set.items items
          ∧ other = operation.withItems items)
        (mk definitions).operations (mk others).operations := by
  induction h with
  | nil => exact .nil
  | cons hfirst _ ih =>
    cases hfirst with
    | operation operation hitems => exact .cons ⟨_, hitems, rfl⟩ ih
    | fragment fragment hitems => exact ih

theorem fragment?_of_rewrites {name : String} {fragment : Fragment}
    (hfragment : (mk definitions).fragment? name = some fragment)
    : ∃ items, Becomes fragment.set.items items
        ∧ (mk others).fragment? name = some (fragment.withItems items) := by
  induction h with
  | nil => cases hfragment
  | cons hfirst _ ih =>
    cases hfirst with
    | operation operation hitems => exact ih hfragment
    | fragment first hitems =>
      rw [fragment?_cons] at hfragment ⊢
      split at hfragment
      . next hname =>
        cases hfragment
        exact ⟨_, hitems, if_pos hname⟩
      . next hname =>
        obtain ⟨items, hrest, hfound⟩ := ih hfragment
        exact ⟨items, hrest, (if_neg hname).trans hfound⟩

end Rewrites

end Document

inductive Document.InlinesIn (document : Document) : Definition → Definition → Prop where
  | operation (operation : Operation) {items : List Selection}
    (h : document.InlinesAll operation.set.items items)
    : InlinesIn document (.operation operation) (.operation (operation.withItems items))
  | fragment (fragment : Fragment) {items : List Selection}
    (h : document.InlinesAll fragment.set.items items)
    : InlinesIn document (.fragment fragment) (.fragment (fragment.withItems items))

def Document.Inlines (document other : Document) : Prop :=
  List.Forall₂ document.InlinesIn document.definitions other.definitions

namespace Document

variable {document : Document} {definitions others : List Definition}

theorem InlinesIn.rewrites {definition other : Definition} (h : document.InlinesIn definition other)
    : Definition.Rewrites document.InlinesAll definition other := by
  cases h with
  | operation operation h => exact .operation operation h
  | fragment fragment h => exact .fragment fragment h

variable (h : List.Forall₂ document.InlinesIn definitions others)

include h

theorem operations_of_inlines
    : List.Forall₂
        (fun operation other => ∃ items, document.InlinesAll operation.set.items items
          ∧ other = operation.withItems items)
        (mk definitions).operations (mk others).operations :=
  operations_of_rewrites (h.imp fun _ _ => InlinesIn.rewrites)

theorem fragment?_of_inlines {name : String} {fragment : Fragment}
    (hfragment : (mk definitions).fragment? name = some fragment)
    : ∃ items, document.InlinesAll fragment.set.items items
        ∧ (mk others).fragment? name = some (fragment.withItems items) :=
  fragment?_of_rewrites (h.imp fun _ _ => InlinesIn.rewrites) hfragment

end Document

namespace Compile

open Checked (bind_eq_pure_iff pure_eq_pure_iff)

def Env.withDocument (env : Env) (document : Document) : Env :=
  { env with document }

theorem variableDefinitions_withDocument (env : Env) (document : Document)
    : (env.withDocument document).variableDefinitions = env.variableDefinitions := rfl

/-- What one compiler makes of a set without an error, another one makes of another set. -/
def Carries (sets others : SetCompiler) (set other : SelectionSet) : Prop :=
  ∀ object items, sets set object = pure items → others other object = pure items

section Step

variable {env : Env} {document : Document} {sets others : SetCompiler} {parent : ObjectType}
  {items : List SelectionItem}

theorem compileConditions_inlined (document : Document) (directives : List Directive)
    : compileConditions (env.withDocument document) directives = compileConditions env directives :=
  compileConditions_congr (variableDefinitions_withDocument env document) directives

theorem compileChildren_none (node : FieldNode) (type : TypeRef)
    : compileChildren (env.withDocument document) others node type none
        = compileChildren env sets node type none := by
  have hschema : (env.withDocument document).schema = env.schema := rfl
  unfold compileChildren
  rw [hschema]
  rcases env.schema.type? type.innermost with _ | _ | _ <;> rfl

theorem compileChildren_inlined {node : FieldNode} {type : TypeRef}
    {set other : Option SelectionSet} (hset : Option.Rel (Carries sets others) set other)
    {children : Option (List SelectionItem)}
    (h : compileChildren env sets node type set = pure children)
    : compileChildren (env.withDocument document) others node type other = pure children := by
  cases hset with
  | none => rwa [compileChildren_none]
  | some hset =>
    obtain ⟨object, items, htype, hitems, rfl⟩ := compileChildren_eq_pure_iff.mp h
    exact compileChildren_eq_pure_iff.mpr ⟨object, items, htype, hset _ _ hitems, rfl⟩

theorem compileField_inlined {node : FieldNode} {set other : Option SelectionSet}
    (hset : Option.Rel (Carries sets others) set other)
    {field : Option (FieldPlan × Option (List SelectionItem))}
    (h : compileField env sets node set parent = pure field)
    : compileField (env.withDocument document) others node other parent = pure field := by
  have hsome : other.isSome = set.isSome := by cases hset <;> rfl
  unfold compileField at h ⊢
  rw [hsome]
  split
  . next hname =>
    rw [if_pos hname] at h
    exact h
  . next hname =>
    rw [if_neg hname] at h
    cases hfield : parent.field? node.name with
    | none =>
      rw [hfield] at h
      exact h
    | some declared =>
      rw [hfield] at h
      obtain ⟨arguments, harguments, h⟩ := bind_eq_pure_iff.mp h
      obtain ⟨children, hchildren, h⟩ := bind_eq_pure_iff.mp h
      rw [← compileArguments_congr (variableDefinitions_withDocument env document)] at harguments
      exact bind_eq_pure_iff.mpr ⟨arguments, harguments,
        bind_eq_pure_iff.mpr ⟨children, compileChildren_inlined hset hchildren, h⟩⟩

theorem compileItem_inlined {node : FieldNode} {set other : Option SelectionSet}
    (hset : Option.Rel (Carries sets others) set other)
    (h : compileItem env sets node set parent = pure items)
    : compileItem (env.withDocument document) others node other parent = pure items := by
  obtain ⟨conditions, hconditions, h⟩ := bind_eq_pure_iff.mp h
  obtain ⟨field, hfield, h⟩ := bind_eq_pure_iff.mp h
  rw [← compileConditions_inlined document] at hconditions
  exact bind_eq_pure_iff.mpr ⟨conditions, hconditions,
    bind_eq_pure_iff.mpr ⟨field, compileField_inlined hset hfield, h⟩⟩

variable {stack fewer : List String} {name : String} {directives : List Directive}
  {position : Position} {fragment : Fragment} {set : SelectionSet}

theorem compileSpread_inlined (hstack : fewer ⊆ stack)
    (hfragment : env.document.fragment? name = some fragment) {inside : List Selection}
    (hother : document.fragment? name = some (fragment.withItems inside))
    (hset : Carries sets others fragment.set (fragment.withItems inside).set)
    (h : compileSpread env stack sets name directives position parent = pure items)
    : compileSpread (env.withDocument document) fewer others name directives position parent
        = pure items := by
  obtain ⟨conditions, _, inner, hconditions, hfound, hname, hnames, hdirectives, hinner, rfl⟩ :=
    compileSpread_eq_pure_iff.mp h
  cases hfragment.symm.trans hfound
  rw [← compileConditions_inlined document] at hconditions
  exact compileSpread_eq_pure_iff.mpr ⟨conditions, _, inner, hconditions, hother,
    fun hmem => hname (hstack hmem), hnames, hdirectives, hset _ _ hinner, rfl⟩

theorem compileSpread_replaced (hfragment : env.document.fragment? name = some fragment)
    (hset : Carries sets others fragment.set set)
    (h : compileSpread env stack sets name directives position parent = pure items)
    : compileInline (env.withDocument document) others (some fragment.condition) directives set
        position parent = pure items := by
  obtain ⟨conditions, _, inner, hconditions, hfound, _, hnames, _, hinner, rfl⟩ :=
    compileSpread_eq_pure_iff.mp h
  cases hfragment.symm.trans hfound
  rw [← compileConditions_inlined document] at hconditions
  refine compileInline_eq_pure_iff.mpr ⟨conditions, inner, hconditions, ?_, hset _ _ hinner, rfl⟩
  rintro _ ⟨⟩
  exact hnames

theorem compileInline_inlined {condition : Option String} {other : SelectionSet}
    (hset : Carries sets others set other)
    (h : compileInline env sets condition directives set position parent = pure items)
    : compileInline (env.withDocument document) others condition directives other position parent
        = pure items := by
  obtain ⟨conditions, inner, hconditions, hnames, hinner, rfl⟩ := compileInline_eq_pure_iff.mp h
  rw [← compileConditions_inlined document] at hconditions
  exact compileInline_eq_pure_iff.mpr
    ⟨conditions, inner, hconditions, hnames, hset _ _ hinner, rfl⟩

theorem compileInline_spliced {condition : Option String}
    (h : compileInline env sets condition [] set position parent = pure items)
    : sets set parent = pure items := by
  obtain ⟨conditions, inner, hconditions, _, hinner, rfl⟩ := compileInline_eq_pure_iff.mp h
  cases pure_eq_pure_iff.mp hconditions
  exact hinner

end Step

def Gathers (f : Selection → Compile (List SelectionItem)) (selections : List Selection)
    (items : List SelectionItem)
    : Prop :=
  ∃ parts, selections.mapM f = pure parts ∧ items = parts.flatten

section Gathers

variable {f g : Selection → Compile (List SelectionItem)} {selection other : Selection}
  {selections others : List Selection} {items : List SelectionItem}

theorem gathers_nil_iff : Gathers f [] items ↔ items = [] := by
  unfold Gathers
  simp only [List.mapM_nil, pure_eq_pure_iff]
  constructor
  . rintro ⟨_, rfl, rfl⟩
    rfl
  . rintro rfl
    exact ⟨[], rfl, rfl⟩

theorem gathers_cons_iff
    : Gathers f (selection :: selections) items
        ↔ ∃ first rest, f selection = pure first ∧ Gathers f selections rest
            ∧ items = first ++ rest := by
  unfold Gathers
  simp only [List.mapM_cons, bind_eq_pure_iff, pure_eq_pure_iff]
  constructor
  . rintro ⟨_, ⟨first, hfirst, rest, hrest, rfl⟩, rfl⟩
    exact ⟨first, rest.flatten, hfirst, ⟨rest, hrest, rfl⟩, List.flatten_cons⟩
  . rintro ⟨first, _, hfirst, ⟨rest, hrest, rfl⟩, rfl⟩
    exact ⟨first :: rest, ⟨first, hfirst, rest, hrest, rfl⟩, List.flatten_cons.symm⟩

theorem Gathers.cons (h : Gathers f (selection :: selections) items)
    (hfirst : ∀ items, f selection = pure items → g other = pure items)
    (hrest : ∀ {items}, Gathers f selections items → Gathers g others items)
    : Gathers g (other :: others) items := by
  obtain ⟨first, rest, hselection, hselections, rfl⟩ := gathers_cons_iff.mp h
  exact gathers_cons_iff.mpr ⟨first, rest, hfirst first hselection, hrest hselections, rfl⟩

theorem Gathers.append {rest : List SelectionItem} (h : Gathers f selections items)
    (hothers : Gathers f others rest)
    : Gathers f (selections ++ others) (items ++ rest) := by
  induction selections generalizing items with
  | nil =>
    cases gathers_nil_iff.mp h
    exact hothers
  | cons selection selections ih =>
    obtain ⟨first, inner, hfirst, hinner, rfl⟩ := gathers_cons_iff.mp h
    exact gathers_cons_iff.mpr ⟨first, inner ++ rest, hfirst, ih hinner, List.append_assoc _ _ _⟩

end Gathers

/--
Compilation carries over to inlined selections, also inside of fewer fragments and with more levels
left: a fragment is entered where it was inlined, but is not on the stack.
-/
def Env.CarriesOver (env : Env) (document : Document) (levels : Nat) : Prop :=
  ∀ more, levels ≤ more → ∀ stack fewer, fewer ⊆ stack →
    ∀ set items, env.document.InlinesAll (SelectionSetOf.items set) items →
      Carries (compileSet env levels stack) (compileSet (env.withDocument document) more fewer) set
        ⟨items, set.position⟩

variable {env : Env} {document : Document} {levels more : Nat} {stack fewer : List String}

/-- A step: with fewer levels compilation carries over to the sets inside of the selections. -/
theorem gathers_inlined (hdocument : env.document.Inlines document)
    (hlevels : env.CarriesOver document levels) (hmore : levels ≤ more) (hstack : fewer ⊆ stack)
    {parent : ObjectType} {selections others : List Selection}
    (hinlines : env.document.InlinesAll selections others) {items : List SelectionItem}
    (h : Gathers (compileSelection env stack (compileSet env levels) parent) selections items)
    : Gathers (compileSelection (env.withDocument document) fewer
        (compileSet (env.withDocument document) more) parent) others items := by
  induction hinlines generalizing items with
  | nil => exact gathers_nil_iff.mpr (gathers_nil_iff.mp h)
  | leaf node _ ih => exact h.cons (fun _ => compileItem_inlined .none) ih
  | field node hset _ _ ih =>
    have hcarries := hlevels more hmore stack fewer hstack _ _ hset
    exact h.cons (fun _ => compileItem_inlined (.some hcarries)) ih
  | spread name directives position _ ih =>
    refine h.cons (fun first hfirst => ?_) ih
    -- The fragment is kept, but something may be inlined in it.
    obtain ⟨_, fragment, _, _, hfragment, _⟩ := compileSpread_eq_pure_iff.mp hfirst
    obtain ⟨inside, hinside, hother⟩ := Document.fragment?_of_inlines hdocument hfragment
    have hcarries := hlevels more hmore (name :: stack) (name :: fewer)
      (List.cons_subset_cons name hstack) fragment.set inside hinside
    exact compileSpread_inlined hstack hfragment hother hcarries hfirst
  | inline condition directives position hset _ _ ih =>
    have hcarries := hlevels more hmore stack fewer hstack _ _ hset
    exact h.cons (fun _ => compileInline_inlined hcarries) ih
  | @replaced name directives position fragment _ _ _ hfragment hset _ _ ih =>
    have hcarries := hlevels more hmore (name :: stack) fewer
      (List.Subset.trans hstack (List.subset_cons_self name stack)) fragment.set _ hset
    exact h.cons (fun _ => compileSpread_replaced hfragment hcarries) ih
  | spliced condition position hset _ _ ih =>
    obtain ⟨first, rest, hfirst, hrest, rfl⟩ := gathers_cons_iff.mp h
    -- What was one level deeper stands where the inline fragment stood.
    have hcarries := hlevels (more + 1) (Nat.le_succ_of_le hmore) stack fewer hstack _ _ hset
    have hinner := hcarries _ _ (compileInline_spliced hfirst)
    exact Gathers.append (compileSet_eq_pure_iff.mp hinner) (ih hrest)

/-- A run: the levels decrease from set to set, also through fragments that stay where they are. -/
theorem carriesOver (hdocument : env.document.Inlines document) (levels : Nat)
    : env.CarriesOver document levels := by
  induction levels with
  | zero =>
    intro _ _ stack _ _ set _ _ object items h
    exact absurd h (compileSet_ne_pure stack set object items)
  | succ levels ih =>
    intro more hmore stack fewer hstack set items hinlines object compiled h
    obtain ⟨more, rfl⟩ := Nat.exists_eq_succ_of_ne_zero (Nat.ne_of_gt (Nat.zero_lt_of_lt hmore))
    exact compileSet_eq_pure_iff.mpr (gathers_inlined hdocument ih (Nat.le_of_succ_le_succ hmore)
      hstack hinlines (compileSet_eq_pure_iff.mp h))

end Compile

namespace Plan

open Compile

theorem compile_of_inlines {schema : Schema} {document other : Document} {plan : Plan}
    (hinlines : document.Inlines other) (h : compile schema document = .ok plan)
    : compile schema other = .ok plan := by
  obtain ⟨operation, root, hoperations, hroot, h⟩ := compile_eq_ok_iff.mp h
  obtain ⟨specs, items, hspecs, hdirectives, hset, hconflicts, hplan⟩ :=
    compileOperation_eq_pure_iff.mp h
  have hothers := Document.operations_of_inlines hinlines
  rw [show Document.mk document.definitions = document from rfl, hoperations,
    List.forall₂_cons_left_iff] at hothers
  obtain ⟨_, rest, ⟨inlined, hitems, rfl⟩, hrest, hother⟩ := hothers
  cases List.forall₂_nil_left_iff.mp hrest
  have hcarries : Env.CarriesOver ⟨schema, document, operation.variableDefinitions⟩ other
      Parser.maxDepth := carriesOver hinlines _
  have hinlined := hcarries _ (Nat.le_refl _) [] [] (List.Subset.refl _) _ _ hitems root items hset
  exact compile_eq_ok_iff.mpr ⟨_, root, hother, hroot, compileOperation_eq_pure_iff.mpr
    ⟨specs, items, hspecs, hdirectives, hinlined, hconflicts, hplan⟩⟩

/-- Fragments can be inlined in a document again and again, each time with the same plan. -/
theorem compile_inlined {schema : Schema} {document other : Document} {plan : Plan}
    (h : compile schema document = .ok plan)
    (hinlines : Relation.ReflTransGen Document.Inlines document other)
    : compile schema other = .ok plan := by
  induction hinlines with
  | refl => exact h
  | tail _ hstep ih => exact compile_of_inlines hstep ih

end Plan

namespace Library

def nameSelection : Selection :=
  .field ⟨none, "name", [], [], ⟨1, 56⟩⟩ none

def nameFragment : Fragment :=
  ⟨"N", "Author", [], ⟨[nameSelection], ⟨1, 54⟩⟩, ⟨1, 33⟩⟩

def idSelection : Selection :=
  .field ⟨none, "id", [], [], ⟨1, 24⟩⟩ none

def idSet : SelectionSet :=
  ⟨[idSelection], ⟨1, 22⟩⟩

def detailsDocument (details : List Selection) : Document :=
  ⟨[ .operation ⟨.query, none, [], [],
      ⟨[.field ⟨none, "authors", [], [], ⟨1, 3⟩⟩ (some ⟨details, ⟨1, 11⟩⟩)], ⟨1, 1⟩⟩, ⟨1, 1⟩⟩,
    .fragment nameFragment
  ]⟩

def spreadDetails : List Selection :=
  [.spread "N" [] ⟨1, 13⟩, .inline none [] idSet ⟨1, 18⟩]

def inlineDetails : List Selection :=
  [.inline (some "Author") [] nameFragment.set ⟨1, 13⟩, idSelection]

def detailsPlan : Plan :=
  ⟨.query, none, "Query", [],
    [.field (authorsField .null .sync)
      (some [.field { nameField with position := ⟨1, 56⟩ } none,
        .field ⟨"id", "Author", "id", .property, [], [], .nonNull (.scalar .id), ⟨1, 24⟩⟩ none])]⟩

theorem compile_spreadDetails
    : Plan.compile (schema .null .sync) (detailsDocument spreadDetails) = .ok detailsPlan := by
  cbv

theorem inlines_detailsDocument {document : Document} {details others : List Selection}
    (h : document.InlinesAll details others)
    : List.Forall₂ document.InlinesIn (detailsDocument details).definitions
        (detailsDocument others).definitions :=
  .cons (.operation _ (.field _ h .nil)) (.cons (.fragment _ (.refl _)) .nil)

theorem inlines_spreadDetails
    : (detailsDocument spreadDetails).Inlines (detailsDocument inlineDetails) := by
  have hfragment : (detailsDocument spreadDetails).fragment? "N" = some nameFragment := rfl
  apply inlines_detailsDocument
  apply Document.InlinesAll.replaced [] ⟨1, 13⟩ hfragment (.refl _)
  exact .spliced none ⟨1, 18⟩ (.refl idSet.items) .nil

theorem inlines_inlineDetails
    : (detailsDocument inlineDetails).Inlines (detailsDocument [nameSelection, idSelection]) := by
  apply inlines_detailsDocument
  exact .spliced (some "Author") ⟨1, 13⟩ (.refl nameFragment.set.items) (.refl [idSelection])

theorem compile_written
    : Plan.compile (schema .null .sync) (detailsDocument [nameSelection, idSelection])
        = .ok detailsPlan :=
  Plan.compile_inlined compile_spreadDetails
    (.tail (.single inlines_spreadDetails) inlines_inlineDetails)

end Library

end GraphGateway

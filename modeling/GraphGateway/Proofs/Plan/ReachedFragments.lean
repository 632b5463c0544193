import GraphGateway.Proofs.Plan.ArgumentOutcomes
import GraphGateway.Proofs.Plan.FragmentCycles
import GraphGateway.Proofs.Plan.Inlining

/-!
This module contains that of all fragments of a document only those matter that its operation
reaches: in whatever order the definitions come, and whatever other fragments are among them, the
document has one plan, or is refused with the same errors.
-/

namespace GraphGateway

namespace Document

theorem operations_append (definitions others : List Definition)
    : (mk (definitions ++ others)).operations
        = (mk definitions).operations ++ (mk others).operations :=
  List.filterMap_append

theorem fragments_append (definitions others : List Definition)
    : (mk (definitions ++ others)).fragments
        = (mk definitions).fragments ++ (mk others).fragments :=
  List.filterMap_append

theorem operations_map_fragment (fragments : List Fragment)
    : (mk (fragments.map .fragment)).operations = [] := by
  simp [operations]

theorem fragments_map_fragment (fragments : List Fragment)
    : (mk (fragments.map .fragment)).fragments = fragments := by
  simp [Document.fragments, List.filterMap_map]

section Definitions

variable {document : Document} {kept : List Definition} {extra : List Fragment}
  (h : document.definitions.Perm (kept ++ extra.map .fragment))

include h

theorem operations_perm : document.operations.Perm (mk kept).operations := by
  have hperm : document.operations.Perm (mk (kept ++ extra.map .fragment)).operations :=
    h.filterMap _
  rwa [operations_append, operations_map_fragment, List.append_nil] at hperm

theorem fragments_perm : document.fragments.Perm ((mk kept).fragments ++ extra) := by
  have hperm : document.fragments.Perm (mk (kept ++ extra.map .fragment)).fragments := h.filterMap _
  rwa [fragments_append, fragments_map_fragment] at hperm

theorem fragment?_of_perm (hnames : ((mk kept).fragments.map Fragment.name).Nodup) {name : String}
    (hextra : ∀ fragment ∈ extra, fragment.name ≠ name)
    : document.fragment? name = (mk kept).fragment? name := by
  have hperm : (document.fragments.filter fun f => f.name = name).Perm
      ((mk kept).fragments.filter fun f => f.name = name) := by
    have hnone : extra.filter (fun f => f.name = name) = [] := by
      simpa using hextra
    rw [← List.append_nil ((mk kept).fragments.filter _), ← hnone, ← List.filter_append]
    exact (fragments_perm h).filter _
  have heq : (document.fragments.filter fun f => f.name = name)
      = (mk kept).fragments.filter fun f => f.name = name := by
    match hfound : (mk kept).fragments.filter fun f => f.name = name with
    | [] =>
      rw [hfound] at hperm ⊢
      exact List.perm_nil.mp hperm
    | [fragment] =>
      rw [hfound] at hperm ⊢
      exact List.perm_singleton.mp hperm
    | first :: second :: rest =>
      have hboth : ∀ f ∈ first :: second :: rest, f.name = name := by
        intro f hf
        rw [← hfound] at hf
        simpa using List.of_mem_filter hf
      have hdistinct : ((first :: second :: rest).map Fragment.name).Nodup :=
        hfound ▸ (List.filter_sublist.map _).nodup hnames
      simp [hboth] at hdistinct
  unfold fragment?
  rw [← List.head?_filter, ← List.head?_filter, heq]

end Definitions

variable {document other : Document} {set : SelectionSet}

theorem Reaches.mem {names : List String}
    (hset : ∀ name, SelectionSet.Spreads set name → name ∈ names)
    (hnames : ∀ name ∈ names, ∀ other, document.Spreads name other → other ∈ names)
    {name : String} (h : document.Reaches set name)
    : name ∈ names := by
  obtain ⟨first, hspreads, hpath⟩ := h
  induction hpath with
  | refl => exact hset first hspreads
  | tail _ hedge ih => exact hnames _ ih _ hedge

/--
Two documents that have the same fragment for each name that is reached in both
reach the same names.
-/
theorem Reaches.of_agree
    (hagree : ∀ name, document.Reaches set name → other.Reaches set name →
      document.fragment? name = other.fragment? name)
    {name : String} (h : document.Reaches set name)
    : other.Reaches set name := by
  obtain ⟨first, hspreads, hpath⟩ := h
  induction hpath with
  | refl => exact ⟨first, hspreads, .refl⟩
  | tail hpath hedge ih =>
    obtain ⟨fragment, hfragment, hnext⟩ := hedge
    rw [hagree _ ⟨first, hspreads, hpath⟩ ih] at hfragment
    exact ih.trans (.single ⟨fragment, hfragment, hnext⟩)

end Document

namespace Compile

variable {env : Env} {stack : List String} {set root : SelectionSet}

theorem compileSelection_inner {sets others : List String → SetCompiler} {selection : Selection}
    (h : ∀ inner, env.document.inner? selection = some inner →
      ∀ object, others (stackInside stack selection) inner object
        = sets (stackInside stack selection) inner object)
    (parent : ObjectType)
    : compileSelection env stack others parent selection
        = compileSelection env stack sets parent selection := by
  cases selection with
  | field node set =>
    have hchildren (type : TypeRef)
        : compileChildren env (others stack) node type set
            = compileChildren env (sets stack) node type set := by
      cases set with
      | none => exact compileChildren_none node type
      | some set =>
        have hset : others stack set = sets stack set := funext (h set rfl)
        unfold compileChildren
        rcases env.schema.type? type.innermost with _ | _ | object
        . rfl
        . rfl
        . dsimp only
          rw [hset]
    simp only [compileSelection, compileItem, compileField, hchildren]
  | spread name directives position =>
    simp only [compileSelection, compileSpread]
    cases hfragment : env.document.fragment? name with
    | none => rfl
    | some fragment =>
      have hset : others (name :: stack) fragment.set parent
          = sets (name :: stack) fragment.set parent :=
        h fragment.set (by simp [Document.inner?, hfragment]) parent
      simp only [hset]
  | inline condition directives set position =>
    have hset : others stack set parent = sets stack set parent := h set rfl parent
    simp only [compileSelection, compileInline, hset]

/--
A set that is reached from another one compiles to the same in all documents that agree on what is.
-/
theorem compileSet_of_inside {other : Env} (hschema : other.schema = env.schema)
    (hvariables : other.variableDefinitions = env.variableDefinitions)
    (hagree : ∀ name, env.document.Reaches root name →
      other.document.fragment? name = env.document.fragment? name)
    (levels : Nat) (h : Inside env.document root stack set) (parent : ObjectType)
    : compileSet other levels stack set parent = compileSet env levels stack set parent := by
  induction levels generalizing stack set parent with
  | zero => rfl
  | succ levels ih =>
    have hitem : ∀ item ∈ set.items,
        compileSelection other stack (compileSet other levels) parent item
          = compileSelection env stack (compileSet env levels) parent item := by
      intro item hitem
      have hfragment : ∀ name directives position, item = .spread name directives position →
          other.document.fragment? name = env.document.fragment? name := by
        rintro name directives position rfl
        have hspreads : SelectionSet.Spreads set name :=
          ⟨directives, position, SelectionSet.mem_selections_of_mem hitem⟩
        exact hagree name (h.reaches name hspreads)
      rw [compileSelection_congr hschema hvariables hfragment]
      exact compileSelection_inner (fun inner hinner => ih (h.inner hitem hinner)) parent
    unfold compileSet
    rw [mapM_congr hitem]

end Compile

namespace Plan

open Compile

/--
What becomes of a document whose fragments have distinct names depends neither on the order of its
definitions nor on the fragments that its operation does not reach, whatever these are: they can be
left out, and others can take their place.
-/
theorem compile_of_kept (schema : Schema) {document other : Document} {operation : Operation}
    (hoperation : document.operations = [operation])
    (hnames : (document.fragments.map Fragment.name).Nodup)
    {kept : List Definition} {deleted added : List Fragment}
    (hdocument : document.definitions.Perm (kept ++ deleted.map .fragment))
    (hother : other.definitions.Perm (kept ++ added.map .fragment))
    (hdeleted : ∀ fragment ∈ deleted, ¬ document.Reaches operation.set fragment.name)
    (hadded : ∀ fragment ∈ added, ¬ other.Reaches operation.set fragment.name)
    : compile schema other = compile schema document := by
  have hkept : ((Document.mk kept).fragments.map Fragment.name).Nodup := by
    have hall := ((Document.fragments_perm hdocument).map Fragment.name).nodup hnames
    rw [List.map_append] at hall
    exact hall.of_append_left
  -- A name that is reached in both documents is that of a fragment they have in common, if any.
  have hboth : ∀ name, document.Reaches operation.set name → other.Reaches operation.set name →
      document.fragment? name = other.fragment? name := by
    intro name hreaches hreached
    rw [Document.fragment?_of_perm hdocument hkept fun f hf heq => hdeleted f hf (heq ▸ hreaches),
      Document.fragment?_of_perm hother hkept fun f hf heq => hadded f hf (heq ▸ hreached)]
  have hagree : ∀ name, document.Reaches operation.set name →
      other.fragment? name = document.fragment? name :=
    fun name hreaches => (hboth name hreaches (hreaches.of_agree hboth)).symm
  have hothers : other.operations = [operation] := by
    have hperm := (Document.operations_perm hother).trans (Document.operations_perm hdocument).symm
    rw [hoperation] at hperm
    exact List.perm_singleton.mp hperm
  have hset (root : ObjectType)
      : compileSet ⟨schema, other, operation.variableDefinitions⟩ Parser.maxDepth []
            operation.set root
          = compileSet ⟨schema, document, operation.variableDefinitions⟩ Parser.maxDepth []
              operation.set root :=
    compileSet_of_inside (by rfl) (by rfl) hagree _ (inside_root document operation.set) root
  have hcompiled (root : ObjectType)
      : compileOperation schema other operation root
          = compileOperation schema document operation root := by
    unfold compileOperation
    simp only [hset]
  unfold compile selectOperation
  rw [hoperation, hothers]
  simp only [Except.mapError, bind, Except.bind, hcompiled]

end Plan

namespace Library

def strayFragment : Fragment :=
  ⟨"Stray", "Missing", [], ⟨[.spread "N" [] ⟨2, 30⟩], ⟨2, 28⟩⟩, ⟨2, 1⟩⟩

def loopFragment : Fragment :=
  ⟨"Loop", "Author", [], ⟨[.spread "Loop" [] ⟨3, 27⟩], ⟨3, 25⟩⟩, ⟨3, 1⟩⟩

def detailsOperation : Operation :=
  ⟨.query, none, [], [],
    ⟨[.field ⟨none, "authors", [], [], ⟨1, 3⟩⟩ (some ⟨spreadDetails, ⟨1, 11⟩⟩)], ⟨1, 1⟩⟩, ⟨1, 1⟩⟩

theorem reached_detailsOperation {document : Document}
    (hfragment : document.fragment? "N" = some nameFragment) {name : String}
    (h : document.Reaches detailsOperation.set name)
    : name = "N" := by
  refine List.mem_singleton.mp (h.mem ?hset ?hnames)
  case hset =>
    rintro name ⟨directives, position, hspread⟩
    have hname : Selection.spread name directives position = .spread "N" [] ⟨1, 13⟩ := by
      simpa [SelectionSet.selections, Selection.selectionsAll, Selection.selections,
        detailsOperation, spreadDetails, idSet, idSelection] using hspread
    cases hname
    exact List.mem_singleton_self _
  case hnames =>
    rintro _ hmem other ⟨fragment, hsome, directives, position, hspread⟩
    rw [List.mem_singleton.mp hmem, hfragment] at hsome
    cases hsome
    simp [SelectionSet.selections, Selection.selectionsAll, Selection.selections, nameFragment,
      nameSelection] at hspread

/-- Neither a fragment on an unknown type nor one that spreads itself is in the way of a plan. -/
theorem compile_looseFragments
    : Plan.compile (schema .null .sync)
        ⟨[.fragment loopFragment, .fragment nameFragment, .operation detailsOperation]⟩
          = .ok detailsPlan := by
  let document : Document :=
    ⟨[.fragment strayFragment, .operation detailsOperation, .fragment nameFragment]⟩
  let other : Document :=
    ⟨[.fragment loopFragment, .fragment nameFragment, .operation detailsOperation]⟩
  let kept : List Definition := [.operation detailsOperation, .fragment nameFragment]
  have hdocument : document.definitions.Perm (kept ++ [strayFragment].map .fragment) :=
    (List.Perm.swap _ _ _).trans (.cons _ (.swap _ _ _))
  have hother : other.definitions.Perm (kept ++ [loopFragment].map .fragment) :=
    (List.reverse_perm other.definitions).symm
  have hdeleted : ∀ f ∈ [strayFragment], ¬ document.Reaches detailsOperation.set f.name := by
    intro f hf hreaches
    rw [List.mem_singleton.mp hf] at hreaches
    exact absurd (reached_detailsOperation rfl hreaches) (by decide)
  have hadded : ∀ f ∈ [loopFragment], ¬ other.Reaches detailsOperation.set f.name := by
    intro f hf hreaches
    rw [List.mem_singleton.mp hf] at hreaches
    exact absurd (reached_detailsOperation rfl hreaches) (by decide)
  have hcompiled : Plan.compile (schema .null .sync) document = .ok detailsPlan := by
    cbv
  exact (Plan.compile_of_kept _ rfl (by decide) hdocument hother hdeleted hadded).trans hcompiled

end Library

end GraphGateway

import GraphGateway.Library.Schema
import GraphGateway.Proofs.Document.Recognition
import GraphGateway.Proofs.Plan.InlinedSets

/-!
This module contains that the bounds of the parser and of compilation are the same one: at most 128
selection sets are nested in one another, as they are written and once fragments are inlined.
-/

namespace GraphGateway

namespace Document

theorem depth_le_of_ofText {text : String} {document : Document} (h : ofText text = .ok document)
    : document.depth ≤ Parser.maxDepth := by
  obtain ⟨tokens, _, h⟩ := bind_eq_ok h
  obtain ⟨⟨definitions, after⟩, hrun, h⟩ := bind_eq_ok h
  cases h
  obtain ⟨_, hphrases⟩ := Parser.definitions_go_sound hrun
  exact (Parser.phrases_within_iff.mp hphrases).2

theorem depth_operation_le {document : Document} {operation : Operation}
    (h : operation ∈ document.operations)
    : SelectionSet.depth operation.set ≤ document.depth := by
  obtain ⟨definition, hdefinition, hoperation⟩ := List.mem_filterMap.mp h
  have hdepth : definition.depth ≤ document.depth :=
    greatest_le_iff.mp (Nat.le_refl document.depth) definition hdefinition
  cases definition with
  | fragment f => cases hoperation
  | operation op =>
    cases hoperation
    rw [Definition.depth, Operation.depth, Nat.max_le, Nat.max_le] at hdepth
    exact hdepth.2.2

theorem depth_set?_le {item : Selection} {set : SelectionSet} (h : item.set? = some set)
    : SelectionSet.depth set ≤ item.depth := by
  cases item with
  | field node nested =>
    cases h
    rw [Selection.depth_field]
    simp [greatest]
  | spread name directives position => cases h
  | inline condition directives nested position =>
    cases h
    rw [Selection.depth_inline]
    exact Nat.le_max_right _ _

theorem Nests.le_depth {document : Document} {n : Nat} {set : SelectionSet}
    (h : document.Nests n set) (hspreads : ∀ name, ¬ SelectionSet.Spreads set name)
    : n ≤ SelectionSet.depth set := by
  induction h with
  | one set => exact Nat.le_add_left _ _
  | @inner n set inner item hitem hinner _ ih =>
    have hset : item.set? = some inner := by
      cases item with
      | field node nested => exact hinner
      | inline condition directives nested position => exact hinner
      | spread name directives position =>
        exact absurd ⟨directives, position, SelectionSet.mem_selections_of_mem hitem⟩
          (hspreads name)
    have hinside : n ≤ SelectionSet.depth inner := by
      apply ih
      rintro name ⟨directives, position, hspread⟩
      exact hspreads name ⟨directives, position, SelectionSet.selections_subset hitem hset hspread⟩
    have hdepth : item.depth ≤ greatest Selection.depth set.items :=
      greatest_le_iff.mp (Nat.le_refl _) item hitem
    have hnested := depth_set?_le hset
    rw [SelectionSet.depth_eq_greatest]
    omega

end Document

namespace Compile

variable {env : Env} {levels : Nat} {stack : List String} {set : SelectionSet}

/-- A set that compiles without an error is nested at most as deep as there are levels. -/
theorem Env.Clean.le_levels {n : Nat} (h : env.Clean levels stack set)
    (hnests : env.document.Nests n set)
    : n ≤ levels := by
  induction hnests generalizing levels stack with
  | one set =>
    obtain ⟨fewer, rfl, _⟩ := h.items
    exact Nat.le_add_left _ _
  | inner hitem hinner _ ih =>
    obtain ⟨fewer, rfl, hitems⟩ := h.items
    exact Nat.succ_le_succ (ih ((hitems _ hitem).inner hinner))

theorem nests_of_mem_errors {parent : ObjectType} {e : CompileError} {limit : Nat}
    (he : e ∈ (compileSet env levels stack set parent).errors) (hcause : e.cause = .tooDeep limit)
    : env.document.Nests (levels + 1) set := by
  let P (e : CompileError) : Prop :=
    ∀ limit, e.cause = .tooDeep limit → env.document.Nests (levels + 1) set
  -- What is nested in a set that is gone on with is nested so much deeper in the given one.
  let Inv (left : Nat) (_ : List String) (inner : SelectionSet) : Prop :=
    left ≤ levels ∧ ∀ n, env.document.Nests n inner → env.document.Nests (n + (levels - left)) set
  have hall : Checked.All P (compileSet env levels stack set parent) := by
    refine all_compileSet ?hlocal Inv ?hdeep ?hcycle ?hinner ?hset parent
    case hlocal =>
      intro e hkind limit hcause
      rw [hcause] at hkind
      exact absurd trivial hkind
    case hdeep =>
      rintro stack inner ⟨_, hinner⟩ limit _
      have hnests := hinner 1 (.one inner)
      rwa [Nat.sub_zero, Nat.add_comm] at hnests
    case hcycle =>
      intro left stack inner _ name directives position _ _ limit hcause
      cases hcause
    case hinner =>
      rintro left stack inner ⟨hleft, hinner⟩ item hitem nested hnested
      refine ⟨by omega, fun n hn => ?_⟩
      have hnests := hinner (n + 1) (.inner hitem hnested hn)
      rwa [show n + 1 + (levels - (left + 1)) = n + (levels - left) by omega] at hnests
    case hset => exact ⟨Nat.le_refl _, fun n hn => by rwa [Nat.sub_self]⟩
  exact hall e he limit hcause

end Compile

namespace Plan

open Compile

variable {schema : Schema} {document : Document}

theorem nesting_le_of_compile {plan : Plan} (h : compile schema document = .ok plan)
    {operation : Operation} (hoperation : operation ∈ document.operations)
    : document.nesting operation.set ≤ Parser.maxDepth := by
  obtain ⟨_, hoperations, hclean⟩ := clean_of_compile h
  rw [hoperations, List.mem_singleton] at hoperation
  subst hoperation
  exact Document.nesting_le_iff.mpr fun n hn => hclean.le_levels hn

theorem nests_of_compile {errors : List CompileError} (h : compile schema document = .error errors)
    {e : CompileError} (he : e ∈ errors) {limit : Nat} (hcause : e.cause = .tooDeep limit)
    : ∃ operation, document.operations = [operation]
        ∧ document.Nests (Parser.maxDepth + 1) operation.set := by
  have hkind : e.cause.OfInlining := hcause ▸ trivial
  obtain ⟨operation, root, hoperation, hmem⟩ := mem_errors_of_compile h he hkind
  exact ⟨operation, hoperation, nests_of_mem_errors hmem hcause⟩

/--
What is parsed and spreads no fragment is never nested too deep for compilation. In general the
operation is nested more than 128 deep if it is found to be nested too deep, and at most so deep if
there is a plan, where nesting has an end if fragments do not spread themselves.
-/
theorem nesting_bounded (schema : Schema) (document : Document)
    : (∀ text, Document.ofText text = .ok document →
        (∀ operation ∈ document.operations, ∀ name, ¬ SelectionSet.Spreads operation.set name) →
          ∀ errors, compile schema document = .error errors →
            ∀ e ∈ errors, ∀ limit, e.cause ≠ .tooDeep limit)
      ∧ (document.Acyclic → ∀ operation ∈ document.operations,
          document.nesting operation.set < ⊤)
      ∧ (∀ errors, compile schema document = .error errors →
          ∀ e ∈ errors, ∀ limit, e.cause = .tooDeep limit →
            ∃ operation, document.operations = [operation]
              ∧ 128 < document.nesting operation.set)
      ∧ ∀ plan, compile schema document = .ok plan →
          ∀ operation ∈ document.operations, document.nesting operation.set ≤ 128 := by
  refine ⟨?_, ?_, ?_, ?_⟩
  . intro text htext hspreads errors h e he limit hcause
    obtain ⟨operation, hoperations, hnests⟩ := nests_of_compile h he hcause
    have hoperation : operation ∈ document.operations :=
      hoperations ▸ List.mem_singleton_self operation
    have hwritten := hnests.le_depth (hspreads operation hoperation)
    have hdepth := Document.depth_operation_le hoperation
    have hparsed := Document.depth_le_of_ofText htext
    omega
  . exact fun hacyclic operation _ =>
      Document.nesting_lt_top_iff.mpr (hacyclic.bounded operation.set)
  . intro errors h e he limit hcause
    obtain ⟨operation, hoperations, hnests⟩ := nests_of_compile h he hcause
    refine ⟨operation, hoperations, lt_of_lt_of_le ?_ hnests.le_nesting⟩
    exact Nat.cast_lt.mpr (Nat.lt_succ_self 128)
  . exact fun plan h operation hoperation => nesting_le_of_compile h hoperation

def nestedSet : Nat → SelectionSet
  | 0 => ⟨[], ⟨1, 1⟩⟩
  | n + 1 => ⟨[.inline none [] (nestedSet n) ⟨1, 1⟩], ⟨1, 1⟩⟩

def nestedDocument (n : Nat) : Document :=
  ⟨[.operation ⟨.query, none, [], [], nestedSet n, ⟨1, 1⟩⟩]⟩

theorem acyclic_nestedDocument (n : Nat) : (nestedDocument n).Acyclic := by
  intro name hcycle
  obtain ⟨_, ⟨fragment, hfragment, _⟩, _⟩ := Relation.TransGen.head'_iff.mp hcycle
  cases hfragment

set_option maxRecDepth 20000 in
theorem compile_nestedDocument
    : compile (Library.schema .null .sync) (nestedDocument 127)
        = .ok ⟨.query, none, "Query", [], []⟩
        ∧ compile (Library.schema .null .sync) (nestedDocument 128)
            = .error [⟨.tooDeep 128, [⟨1, 1⟩]⟩] := by
  cbv

def unknownDocument : Document :=
  ⟨[.operation ⟨.query, none, [], [], ⟨[.field ⟨none, "x", [], [], ⟨1, 3⟩⟩ none], ⟨1, 1⟩⟩, ⟨1, 1⟩⟩]⟩

theorem ofText_unknownDocument : Document.ofText "\x7b x \x7d" = .ok unknownDocument := by
  cbv

theorem compile_unknownDocument
    : compile (Library.schema .null .sync) unknownDocument
        = .error [⟨.unknownField "x" "Query", [⟨1, 3⟩]⟩] := by
  cbv

/-- The bound is met by sets that are nested 128 deep, and not by one more. -/
theorem nesting_bounded_nestedDocument
    : (∀ limit, CompileError.Cause.unknownField "x" "Query" ≠ .tooDeep limit)
        ∧ (nestedDocument 128).nesting (nestedSet 128) < ⊤
        ∧ (∃ operation, (nestedDocument 128).operations = [operation]
          ∧ 128 < (nestedDocument 128).nesting operation.set)
        ∧ (nestedDocument 127).nesting (nestedSet 127) ≤ 128 := by
  obtain ⟨hparsed, _⟩ := nesting_bounded (Library.schema .null .sync) unknownDocument
  obtain ⟨_, hfinite, hdeep, _⟩ := nesting_bounded (Library.schema .null .sync) (nestedDocument 128)
  obtain ⟨_, _, _, hplan⟩ := nesting_bounded (Library.schema .null .sync) (nestedDocument 127)
  refine ⟨?_, ?_, ?_, ?_⟩
  . refine hparsed _ ofText_unknownDocument ?_ _ compile_unknownDocument _
      (List.mem_singleton_self _)
    rintro operation hoperation name ⟨directives, position, hspread⟩
    rw [List.mem_singleton.mp hoperation] at hspread
    cases List.mem_singleton.mp hspread
  . exact hfinite (acyclic_nestedDocument 128) _ (List.mem_singleton_self _)
  . exact hdeep _ compile_nestedDocument.2 _ (List.mem_singleton_self _) 128 rfl
  . exact hplan _ compile_nestedDocument.1 _ (List.mem_singleton_self _)

end Plan
end GraphGateway

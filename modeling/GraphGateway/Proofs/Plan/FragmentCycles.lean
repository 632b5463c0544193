import GraphGateway.Library.Schema
import GraphGateway.Proofs.Plan.InlinedSets
import GraphGateway.Proofs.Plan.Walk

/-!
This module contains that compilation comes to an end on every graph of fragments, and that what it
says about cycles is true: there is no plan if the operation reaches a cycle, and a spread is only
refused as part of a cycle if it stands inside of the fragment that it names.
-/

namespace GraphGateway

open Relation (ReflTransGen TransGen)

namespace Compile

/--
Where a selection set stands that is reached from another one: all fragments that it spreads are
reached as well, and it is written inside of each fragment that is being inlined.
-/
structure Inside (document : Document) (root : SelectionSet) (stack : List String)
    (set : SelectionSet) : Prop where
  reaches : ∀ name, SelectionSet.Spreads set name → document.Reaches root name
  inlined : ∀ name ∈ stack, ∃ other fragment, ReflTransGen document.Spreads name other
    ∧ document.fragment? other = some fragment
    ∧ SelectionSet.selections set ⊆ SelectionSet.selections fragment.set

theorem inside_root (document : Document) (root : SelectionSet) : Inside document root [] root where
  reaches name h := ⟨name, h, .refl⟩
  inlined := by simp

variable {document : Document} {root set nested : SelectionSet} {stack : List String}
  {item : Selection} {name : String}

theorem Inside.written (h : Inside document root stack set) (hitem : item ∈ set.items)
    (hnested : item.set? = some nested)
    : Inside document root stack nested := by
  have hsubset := SelectionSet.selections_subset hitem hnested
  constructor
  . rintro name ⟨directives, position, hspread⟩
    exact h.reaches name ⟨directives, position, hsubset hspread⟩
  . intro name hname
    obtain ⟨other, fragment, hpath, hfragment, hset⟩ := h.inlined name hname
    exact ⟨other, fragment, hpath, hfragment, List.Subset.trans hsubset hset⟩

theorem Inside.path (h : Inside document root stack set) {other : String} (hother : other ∈ stack)
    (hspreads : SelectionSet.Spreads set name)
    : TransGen document.Spreads other name := by
  obtain ⟨last, fragment, hpath, hfragment, hset⟩ := h.inlined other hother
  obtain ⟨directives, position, hspread⟩ := hspreads
  exact .tail' hpath ⟨fragment, hfragment, directives, position, hset hspread⟩

theorem Inside.spread {fragment : Fragment} (h : Inside document root stack set)
    (hspreads : SelectionSet.Spreads set name) (hfragment : document.fragment? name = some fragment)
    : Inside document root (name :: stack) fragment.set := by
  constructor
  . intro other hother
    exact (h.reaches name hspreads).trans (.single ⟨fragment, hfragment, hother⟩)
  . intro other hother
    refine ⟨name, fragment, ?_, hfragment, List.Subset.refl _⟩
    obtain rfl | hother := List.mem_cons.mp hother
    . exact .refl
    . exact (h.path hother hspreads).to_reflTransGen

theorem Inside.inner (h : Inside document root stack set) (hitem : item ∈ set.items)
    (hnested : document.inner? item = some nested)
    : Inside document root (stackInside stack item) nested := by
  cases item with
  | field node set => exact h.written hitem hnested
  | inline condition directives set position => exact h.written hitem hnested
  | spread name directives position =>
    obtain ⟨fragment, hfragment, rfl⟩ := Option.map_eq_some_iff.mp hnested
    exact h.spread ⟨directives, position, SelectionSet.mem_selections_of_mem hitem⟩ hfragment

variable (document root name) in
/--
A spread of a fragment, which the root reaches, stands in a fragment that the named one reaches.
-/
def SpreadInside (position : Position) : Prop :=
  document.Reaches root name
    ∧ ∃ other fragment directives, ReflTransGen document.Spreads name other
      ∧ document.fragment? other = some fragment
      ∧ .spread name directives position ∈ SelectionSet.selections fragment.set

theorem SpreadInside.cycle {position : Position} (h : SpreadInside document root name position)
    : TransGen document.Spreads name name := by
  obtain ⟨_, other, fragment, directives, hpath, hfragment, hspread⟩ := h
  exact .tail' hpath ⟨fragment, hfragment, directives, position, hspread⟩

theorem Inside.spreadInside (h : Inside document root stack set) {directives : List Directive}
    {position : Position} (hspread : .spread name directives position ∈ set.items)
    (hname : name ∈ stack)
    : SpreadInside document root name position := by
  have hselection := SelectionSet.mem_selections_of_mem hspread
  obtain ⟨other, fragment, hpath, hfragment, hset⟩ := h.inlined name hname
  exact ⟨h.reaches name ⟨directives, position, hselection⟩, other, fragment, directives, hpath,
    hfragment, hset hselection⟩

theorem spreadInside_of_mem_errors {env : Env} {levels : Nat} {parent : ObjectType}
    {e : CompileError} (he : e ∈ (compileSet env levels [] root parent).errors)
    (hcause : e.cause = .fragmentCycle name)
    : ∃ position, e.positions = [position] ∧ SpreadInside env.document root name position := by
  let P (e : CompileError) : Prop := ∀ name, e.cause = .fragmentCycle name →
    ∃ position, e.positions = [position] ∧ SpreadInside env.document root name position
  have hall : Checked.All P (compileSet env levels [] root parent) := by
    refine all_compileSet ?hlocal (fun _ => Inside env.document root) ?hdeep ?hcycle ?hinner
      (inside_root env.document root) parent
    case hlocal =>
      intro e hkind name hcause
      rw [hcause] at hkind
      exact absurd trivial hkind
    case hdeep =>
      intro stack set _ name hcause
      cases hcause
    case hcycle =>
      intro levels stack set h name directives position hspread hstack _ hcause
      cases hcause
      exact ⟨position, rfl, h.spreadInside hspread hstack⟩
    case hinner => exact fun levels stack set h item hitem inner hinner => h.inner hitem hinner
  exact hall e he name hcause

end Compile

namespace Plan

open Compile

/-- No fragment that is reached reaches itself if there is a plan: it compiles inside of itself. -/
theorem not_cycle_of_compile {schema : Schema} {document : Document} {plan : Plan}
    (h : compile schema document = .ok plan) {operation : Operation}
    (hoperation : operation ∈ document.operations) {name : String}
    (hreaches : document.Reaches operation.set name)
    : ¬ TransGen document.Spreads name name := by
  intro hcycle
  obtain ⟨_, hoperations, hclean⟩ := clean_of_compile h
  rw [hoperations, List.mem_singleton] at hoperation
  subst hoperation
  obtain ⟨_, fragment, fewer, inside, hfragment, hinside, hbody⟩ := hclean.reaches hreaches
  obtain ⟨first, ⟨other, hother, hspreads⟩, hpath⟩ := TransGen.head'_iff.mp hcycle
  rw [hfragment] at hother
  cases hother
  have hname := (hbody.reaches ⟨first, hspreads, hpath⟩).1
  exact hname hinside

/--
The walk of a selection set comes to an end from every state, with the result of compilation, if
one more call may be nested in it than there are levels left. At most 128 sets are open at a
time, and the depth and the stack are what they were. A document whose operation reaches a cycle
has no plan, and a spread is only refused as part of a cycle if it is reached inside of the
fragment that it names.
-/
theorem fragments_inlined (schema : Schema) (document : Document)
    : (∀ definitions set parent (s : Walk.State) calls, Parser.maxDepth - s.depth < calls →
        let env : Env := ⟨schema, document, definitions⟩
        let result := compileSet env (Parser.maxDepth - s.depth) s.stack set parent
        ∃ deepest, deepest ≤ max s.deepest Parser.maxDepth
          ∧ Walk.ofSet env calls set parent s
              = some (result.value, { s with deepest, errors := s.errors ++ result.errors }))
      ∧ (∀ operation ∈ document.operations, ∀ name, document.Reaches operation.set name →
          TransGen document.Spreads name name → ∃ errors, compile schema document = .error errors)
      ∧ ∀ errors, compile schema document = .error errors →
          ∀ e ∈ errors, ∀ name, e.cause = .fragmentCycle name →
            ∃ operation position, document.operations = [operation] ∧ e.positions = [position]
              ∧ SpreadInside document operation.set name position
              ∧ TransGen document.Spreads name name := by
  refine ⟨?_, ?_, ?_⟩
  . intro definitions set parent s calls hcalls
    exact Walk.follows_ofSet _ hcalls _ set parent s rfl rfl
  . intro operation hoperation name hreaches hcycle
    cases hcompile : compile schema document with
    | error errors => exact ⟨errors, rfl⟩
    | ok plan => exact absurd hcycle (not_cycle_of_compile hcompile hoperation hreaches)
  . intro errors h e he name hcause
    have hkind : e.cause.OfInlining := hcause ▸ trivial
    obtain ⟨operation, root, hoperation, hmem⟩ := mem_errors_of_compile h he hkind
    obtain ⟨position, hposition, hinside⟩ := spreadInside_of_mem_errors hmem hcause
    exact ⟨operation, position, hoperation, hposition, hinside, hinside.cycle⟩

def cyclicDocument : Document :=
  ⟨[ .operation ⟨.query, none, [], [], ⟨[.spread "A" [] ⟨1, 3⟩], ⟨1, 1⟩⟩, ⟨1, 1⟩⟩,
    .fragment ⟨"A", "Query", [], ⟨[.spread "B" [] ⟨1, 32⟩], ⟨1, 30⟩⟩, ⟨1, 10⟩⟩,
    .fragment ⟨"B", "Query", [], ⟨[.spread "A" [] ⟨1, 61⟩], ⟨1, 59⟩⟩, ⟨1, 39⟩⟩
  ]⟩

theorem compile_cyclicDocument
    : compile (Library.schema .null .sync) cyclicDocument
        = .error [⟨.fragmentCycle "A", [⟨1, 61⟩]⟩] := by
  cbv

theorem cycle_cyclicDocument : TransGen cyclicDocument.Spreads "A" "A" :=
  .head ⟨_, rfl, [], ⟨1, 32⟩, List.mem_singleton_self _⟩
    (.single ⟨_, rfl, [], ⟨1, 61⟩, List.mem_singleton_self _⟩)

theorem fragments_inlined_cyclicDocument
    : (∃ items deepest errors, deepest ≤ 128
        ∧ Walk.ofSet ⟨Library.schema .null .sync, cyclicDocument, []⟩ 129
            ⟨[.spread "A" [] ⟨1, 3⟩], ⟨1, 1⟩⟩ (Library.queryType .null .sync) ⟨0, 0, [], []⟩
              = some (items, ⟨0, deepest, [], errors⟩))
        ∧ (∃ errors, compile (Library.schema .null .sync) cyclicDocument = .error errors)
        ∧ (∃ position, [⟨1, 61⟩] = [position]
          ∧ ∃ operation, cyclicDocument.operations = [operation]
            ∧ SpreadInside cyclicDocument operation.set "A" position) := by
  obtain ⟨hends, hfails, hreports⟩ := fragments_inlined (Library.schema .null .sync) cyclicDocument
  refine ⟨?_, ?_, ?_⟩
  . obtain ⟨deepest, hdeepest, hwalk⟩ := hends [] ⟨[.spread "A" [] ⟨1, 3⟩], ⟨1, 1⟩⟩
      (Library.queryType .null .sync) ⟨0, 0, [], []⟩ 129 (Nat.lt_succ_self 128)
    exact ⟨_, deepest, _, hdeepest, hwalk⟩
  . have hreaches : cyclicDocument.Reaches ⟨[.spread "A" [] ⟨1, 3⟩], ⟨1, 1⟩⟩ "A" :=
      ⟨"A", ⟨[], ⟨1, 3⟩, List.mem_singleton_self _⟩, .refl⟩
    exact hfails _ (List.mem_singleton_self _) "A" hreaches cycle_cyclicDocument
  . obtain ⟨operation, position, hoperation, hposition, hinside, _⟩ :=
      hreports _ compile_cyclicDocument _ (List.mem_singleton_self _) "A" rfl
    exact ⟨position, hposition, operation, hoperation, hinside⟩

end Plan
end GraphGateway

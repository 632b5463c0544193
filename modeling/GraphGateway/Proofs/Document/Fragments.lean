import GraphGateway.Document.Basic
import Mathlib

/-!
This module contains the graph of the fragments of a document, in which one fragment spreads
another, and how deep selection sets are nested in one another once fragments are inlined.

The nesting of a set is finite if no fragment spreads itself.
-/

namespace GraphGateway

mutual

def Selection.selections : Selection → List Selection
  | .field node none => [.field node none]
  | .field node (some ⟨items, start⟩) =>
    .field node (some ⟨items, start⟩) :: selectionsAll items
  | .spread name directives position => [.spread name directives position]
  | .inline condition directives ⟨items, start⟩ position =>
    .inline condition directives ⟨items, start⟩ position :: selectionsAll items

def Selection.selectionsAll : List Selection → List Selection
  | [] => []
  | item :: rest => item.selections ++ selectionsAll rest

end

def SelectionSet.selections (set : SelectionSet) : List Selection :=
  Selection.selectionsAll set.items

def Selection.set? : Selection → Option SelectionSet
  | .field _ set => set
  | .spread _ _ _ => none
  | .inline _ _ set _ => some set

theorem Selection.selectionsAll_eq_flatMap (items : List Selection)
    : selectionsAll items = items.flatMap selections := by
  induction items with
  | nil => rfl
  | cons item rest ih => rw [selectionsAll, ih, List.flatMap_cons]

theorem Selection.selections_eq (item : Selection)
    : item.selections = item :: item.set?.toList.flatMap SelectionSet.selections := by
  cases item with
  | field node set =>
    cases set with
    | none => rfl
    | some set => simp [selections, set?, SelectionSet.selections]
  | spread name directives position => rfl
  | inline condition directives set position =>
    simp [selections, set?, SelectionSet.selections]

theorem SelectionSet.sizeOf_lt {set inner : SelectionSet} {item : Selection}
    (hitem : item ∈ set.items) (hinner : item.set? = some inner)
    : sizeOf inner < sizeOf set := by
  obtain ⟨items, start⟩ := set
  have hsize : sizeOf item < sizeOf items := List.sizeOf_lt_of_mem hitem
  have hset : sizeOf inner < sizeOf item := by
    cases item with
    | field node set =>
      cases hinner
      simp
      omega
    | spread name directives position => cases hinner
    | inline condition directives set position =>
      cases hinner
      simp
      omega
  simp
  omega

theorem SelectionSet.mem_selections_iff {set : SelectionSet} {selection : Selection}
    : selection ∈ SelectionSet.selections set
        ↔ ∃ item ∈ set.items, selection ∈ item.selections := by
  rw [selections, Selection.selectionsAll_eq_flatMap, List.mem_flatMap]

theorem SelectionSet.exists_of_mem_selections {set : SelectionSet} {selection : Selection}
    (h : selection ∈ SelectionSet.selections set)
    : selection ∈ set.items
        ∨ ∃ item ∈ set.items, ∃ inner ∈ item.set?, selection ∈ SelectionSet.selections inner := by
  obtain ⟨item, hitem, h⟩ := mem_selections_iff.mp h
  rw [Selection.selections_eq, List.mem_cons, List.mem_flatMap] at h
  obtain rfl | ⟨inner, hinner, h⟩ := h
  . exact .inl hitem
  . exact .inr ⟨item, hitem, inner, Option.mem_toList.mp hinner, h⟩

theorem SelectionSet.mem_selections_of_mem {set : SelectionSet} {selection : Selection}
    (h : selection ∈ set.items)
    : selection ∈ SelectionSet.selections set := by
  refine mem_selections_iff.mpr ⟨selection, h, ?_⟩
  rw [Selection.selections_eq]
  exact List.mem_cons_self

theorem SelectionSet.selections_subset {set inner : SelectionSet} {item : Selection}
    (hitem : item ∈ set.items) (hinner : item.set? = some inner)
    : SelectionSet.selections inner ⊆ SelectionSet.selections set := by
  intro selection h
  refine mem_selections_iff.mpr ⟨item, hitem, ?_⟩
  rw [Selection.selections_eq, hinner]
  exact List.mem_cons_of_mem _ (by simpa using h)

def SelectionSet.Spreads (set : SelectionSet) (name : String) : Prop :=
  ∃ directives position, Selection.spread name directives position ∈ SelectionSet.selections set

namespace Document

/-- The selection set inside of a selection once fragments are inlined. -/
def inner? (document : Document) : Selection → Option SelectionSet
  | .field _ set => set
  | .spread name _ _ => (document.fragment? name).map Fragment.set
  | .inline _ _ set _ => some set

/-- An edge of the graph of fragments; a name means the first fragment that has it. -/
def Spreads (document : Document) (name other : String) : Prop :=
  ∃ fragment, document.fragment? name = some fragment ∧ SelectionSet.Spreads fragment.set other

def Reaches (document : Document) (set : SelectionSet) (name : String) : Prop :=
  ∃ first, SelectionSet.Spreads set first ∧ Relation.ReflTransGen document.Spreads first name

def Acyclic (document : Document) : Prop :=
  ∀ name, ¬ Relation.TransGen document.Spreads name name

variable {document : Document}

theorem inner?_of_set? {item : Selection} {inner : SelectionSet} (h : item.set? = some inner)
    : document.inner? item = some inner := by
  cases item with
  | field node set => exact h
  | spread name directives position => cases h
  | inline condition directives set position => exact h

theorem Reaches.trans {set : SelectionSet} {name other : String} (h : document.Reaches set name)
    (hpath : Relation.ReflTransGen document.Spreads name other)
    : document.Reaches set other := by
  obtain ⟨first, hfirst, hname⟩ := h
  exact ⟨first, hfirst, hname.trans hpath⟩

/-! # Nesting -/

/--
At least so many sets are nested in one another, the given one included: the set of a field, an
inline fragment and a spread are each one deeper than the set they stand in.
-/
inductive Nests (document : Document) : Nat → SelectionSet → Prop where
  | one (set : SelectionSet) : Nests document 1 set
  | inner {n : Nat} {set inner : SelectionSet} {item : Selection} (hitem : item ∈ set.items)
    (hinner : document.inner? item = some inner) (h : Nests document n inner)
    : Nests document (n + 1) set

/--
How many sets are nested in one another, which may be without end where fragments spread themselves.
-/
noncomputable def nesting (document : Document) (set : SelectionSet) : ℕ∞ :=
  ⨆ n ∈ {n : Nat | document.Nests n set}, (n : ℕ∞)

theorem Nests.le_nesting {n : Nat} {set : SelectionSet} (h : document.Nests n set)
    : (n : ℕ∞) ≤ document.nesting set :=
  le_iSup₂ (f := fun (n : Nat) (_ : n ∈ {n : Nat | document.Nests n set}) => (n : ℕ∞)) n h

theorem nesting_le_iff {set : SelectionSet} {bound : Nat}
    : document.nesting set ≤ bound ↔ ∀ n, document.Nests n set → n ≤ bound := by
  simp [nesting]

variable (document) in
def Bounded (set : SelectionSet) : Prop :=
  ∃ bound, ∀ n, document.Nests n set → n ≤ bound

theorem nesting_lt_top_iff {set : SelectionSet}
    : document.nesting set < ⊤ ↔ document.Bounded set := by
  constructor
  . intro h
    obtain ⟨bound, hbound⟩ := ENat.ne_top_iff_exists.mp h.ne
    exact ⟨bound, nesting_le_iff.mp hbound.ge⟩
  . rintro ⟨bound, hbound⟩
    exact (nesting_le_iff.mpr hbound).trans_lt (ENat.natCast_lt_top bound)

theorem bounded_of_items {set : SelectionSet}
    (h : ∀ item ∈ set.items, ∀ inner, document.inner? item = some inner → document.Bounded inner)
    : document.Bounded set := by
  -- Of finitely many bounds, one for each item, the greatest is one for all of them.
  have hall : ∀ items : List Selection,
      (∀ item ∈ items, ∀ inner, document.inner? item = some inner → document.Bounded inner) →
        ∃ bound, ∀ item ∈ items, ∀ inner, document.inner? item = some inner →
          ∀ n, document.Nests n inner → n ≤ bound := by
    intro items
    induction items with
    | nil => exact fun _ => ⟨0, by simp⟩
    | cons item rest ih =>
      intro h
      obtain ⟨others, hothers⟩ := ih fun other hother => h other (List.mem_cons_of_mem _ hother)
      cases hinner : document.inner? item with
      | none =>
        refine ⟨others, List.forall_mem_cons.mpr ⟨?_, hothers⟩⟩
        simp [hinner]
      | some inner =>
        obtain ⟨bound, hbound⟩ := h item List.mem_cons_self inner hinner
        refine ⟨max bound others, List.forall_mem_cons.mpr ⟨?_, ?_⟩⟩
        . intro other hother n hn
          rw [hinner] at hother
          cases hother
          exact le_max_of_le_left (hbound n hn)
        . exact fun other hmem inner hinner n hn =>
            le_max_of_le_right (hothers other hmem inner hinner n hn)
  obtain ⟨bound, hbound⟩ := hall set.items h
  refine ⟨bound + 1, fun n hn => ?_⟩
  cases hn with
  | one => exact Nat.le_add_left _ _
  | inner hitem hinner hn => exact Nat.succ_le_succ (hbound _ hitem _ hinner _ hn)

theorem bounded_of_spreads {set : SelectionSet}
    (h : ∀ name, SelectionSet.Spreads set name →
      ∀ fragment, document.fragment? name = some fragment → document.Bounded fragment.set)
    : document.Bounded set := by
  apply bounded_of_items
  intro item hitem inner hinner
  cases hset : item.set? with
  | none =>
    cases item with
    | field node set => cases hset.symm.trans hinner
    | inline condition directives set position => cases hset
    | spread name directives position =>
      obtain ⟨fragment, hfragment, rfl⟩ := Option.map_eq_some_iff.mp hinner
      exact h name ⟨directives, position, SelectionSet.mem_selections_of_mem hitem⟩ fragment
        hfragment
  | some nested =>
    rw [inner?_of_set? hset] at hinner
    cases hinner
    have hsubset := SelectionSet.selections_subset hitem hset
    refine bounded_of_spreads fun name hspreads => h name ?_
    obtain ⟨directives, position, hspread⟩ := hspreads
    exact ⟨directives, position, hsubset hspread⟩
termination_by sizeOf set
decreasing_by exact SelectionSet.sizeOf_lt hitem hset

theorem fragment?_mem_names {name : String} {fragment : Fragment}
    (h : document.fragment? name = some fragment)
    : name ∈ document.fragments.map Fragment.name := by
  have hname : fragment.name = name := by simpa using List.find?_some h
  exact List.mem_map.mpr ⟨fragment, List.mem_of_find?_eq_some h, hname⟩

theorem Acyclic.bounded (h : document.Acyclic) (set : SelectionSet) : document.Bounded set := by
  let Name := { name // name ∈ document.fragments.map Fragment.name }
  let Below (other name : Name) : Prop := Relation.TransGen document.Spreads name.1 other.1
  have : Finite Name := inferInstance
  have : IsTrans Name Below := ⟨fun _ _ _ hfirst hsecond => hsecond.trans hfirst⟩
  have : Std.Irrefl Below := ⟨fun name => h name.1⟩
  have hfragments : ∀ name : Name, ∀ fragment, document.fragment? name.1 = some fragment →
      document.Bounded fragment.set := by
    intro name
    -- There are finitely many fragments, so that their graph has no endless path.
    induction name using (Finite.wellFounded_of_trans_of_irrefl Below).induction with
    | _ name ih =>
      intro fragment hfragment
      apply bounded_of_spreads
      intro other hspreads inner hinner
      exact ih ⟨other, fragment?_mem_names hinner⟩ (.single ⟨fragment, hfragment, hspreads⟩)
        inner hinner
  exact bounded_of_spreads fun name _ fragment hfragment =>
    hfragments ⟨name, fragment?_mem_names hfragment⟩ fragment hfragment

end Document
section Definitions

variable {f : Definition → Definition} {r : Operation → Operation} {g : Fragment → Fragment}
  (hoperation : ∀ operation, f (.operation operation) = .operation (r operation))
  (hfragment : ∀ fragment, f (.fragment fragment) = .fragment (g fragment))

include hoperation hfragment

theorem Document.operations_map (document : Document)
    : (mk (document.definitions.map f)).operations = document.operations.map r := by
  unfold operations
  rw [List.filterMap_map, List.map_filterMap]
  refine List.filterMap_congr fun definition _ => ?_
  cases definition with
  | operation operation => rw [Function.comp_apply, hoperation]; rfl
  | fragment fragment => rw [Function.comp_apply, hfragment]; rfl

theorem Document.fragment?_map (hname : ∀ fragment, (g fragment).name = fragment.name)
    (document : Document) (name : String)
    : (mk (document.definitions.map f)).fragment? name = (document.fragment? name).map g := by
  have hfragments : (mk (document.definitions.map f)).fragments = document.fragments.map g := by
    unfold fragments
    rw [List.filterMap_map, List.map_filterMap]
    refine List.filterMap_congr fun definition _ => ?_
    cases definition with
    | operation operation => rw [Function.comp_apply, hoperation]; rfl
    | fragment fragment => rw [Function.comp_apply, hfragment]; rfl
  unfold fragment?
  rw [hfragments, List.find?_map]
  simp only [Function.comp_def, hname]

end Definitions

end GraphGateway

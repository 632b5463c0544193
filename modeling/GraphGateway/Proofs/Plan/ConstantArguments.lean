import GraphGateway.Proofs.Plan.InlinedSets
import GraphGateway.Proofs.Plan.SentLiterals

/-!
This module contains that the compilation of an argument agrees with the coercion of literals: what
has no variables is compiled to the constant that it is coerced to. Where it cannot be coerced,
compilation goes on after the first fault, but that fault is the first of its errors.
-/

namespace GraphGateway
namespace Compile

open Coercion (LiteralFault coerceLiteral)

variable {α : Type} {argument : String} {position : Position} {fault : LiteralFault}

/-- An argument has no result because of a fault, after which more may have been found. -/
structure Refuses (argument : String) (position : Position) (fault : LiteralFault)
    (x : Compile (Option α)) : Prop where
  value : x.value = none
  first : x.errors.head? = some ⟨.invalidArgument argument fault, [position]⟩
  all : ∀ e ∈ x.errors, ∃ fault, e = ⟨.invalidArgument argument fault, [position]⟩

theorem Refuses.map {β : Type} {x : Compile (Option α)} (h : Refuses argument position fault x)
    (f : α → β)
    : Refuses argument position fault (do return (← x).map f) := by
  have herrors : (do return (← x).map f : Compile (Option β)).errors = x.errors := by
    rw [Checked.errors_bind]
    exact List.append_nil _
  constructor
  . rw [Checked.value_bind, h.value]
    rfl
  . rw [herrors, h.first]
  . rw [herrors]
    exact h.all

theorem refuses_constant {type : TypeRef} {l : Literal} (h : coerceLiteral type l = .error fault)
    : Refuses argument position fault (constant type l argument position) := by
  unfold constant
  rw [h]
  exact ⟨rfl, rfl, fun e he => ⟨fault, List.mem_singleton.mp he⟩⟩

theorem refuses_collect {f : Literal → Compile (Option Template)} {type : TypeRef}
    {items : List Literal}
    (hok : ∀ item ∈ items, ∀ v, coerceLiteral type item = .ok v → f item = pure (some (.const v)))
    (herror : ∀ item ∈ items, ∀ fault, coerceLiteral type item = .error fault →
      Refuses argument position fault (f item))
    (h : items.mapM (coerceLiteral type) = .error fault)
    : Refuses argument position fault (collect f items) := by
  have hall : ∀ e ∈ (collect f items).errors,
      ∃ fault, e = ⟨.invalidArgument argument fault, [position]⟩ := by
    intro e he
    rw [errors_collect, List.mem_flatMap] at he
    obtain ⟨item, hitem, he⟩ := he
    cases hcoerce : coerceLiteral type item with
    | ok v =>
      rw [hok item hitem v hcoerce] at he
      cases he
    | error fault => exact (herror item hitem fault hcoerce).all e he
  induction items with
  | nil => cases h
  | cons item rest ih =>
    rw [List.forall_mem_cons] at hok herror
    rw [List.mapM_cons] at h
    unfold collect at hall ⊢
    obtain hitem | ⟨v, hitem, h⟩ := bind_eq_error h
    . have hrefuses := herror.1 fault hitem
      refine ⟨?_, ?_, hall⟩
      . simp only [Checked.value_bind, hrefuses.value]
        rfl
      . rw [Checked.errors_bind, List.head?_append, hrefuses.first]
        rfl
    . obtain hrest | ⟨vs, _, h⟩ := bind_eq_error h
      . rw [hok.1 v hitem, pure_bind] at hall ⊢
        have hrest := ih hok.2 herror.2 hrest ?_
        . exact hrest.map _
        . intro e he
          exact hall e (List.mem_append_left _ he)
      . cases h

theorem refuses_compileValue {env : Env} {type : TypeRef} {hasDefault : Bool} {l : Literal}
    (hl : l.variableNames = []) (h : coerceLiteral type l = .error fault)
    : Refuses argument position fault (compileValue env argument position type hasDefault l) := by
  induction type using TypeRef.element_induction generalizing hasDefault l fault with
  | h type ih =>
    have hvariable (name : String) : l ≠ .variable name := by
      rintro rfl
      cases hl
    cases htype : elementType? type with
    | none =>
      rw [compileValue_constant htype hvariable]
      exact refuses_constant h
    | some inner =>
      by_cases hnull : l = .null
      . subst hnull
        rw [compileValue_null]
        exact refuses_constant h
      . by_cases hlist : ∃ items, l = .list items
        . obtain ⟨items, rfl⟩ := hlist
          rw [Coercion.coerceLiteral_list htype] at h
          obtain h | ⟨vs, _, h⟩ := bind_eq_error h
          . rw [compileValue_list htype]
            refine (refuses_collect ?_ ?_ h).map _
            . exact fun item _ v hv => compileValue_of_coerceLiteral hv
            . exact fun item hitem fault hfault =>
                ih inner htype (Literal.variableNames_list_eq_nil_iff.mp hl item hitem) hfault
          . cases h
        . rw [not_exists] at hlist
          rw [Coercion.coerceLiteral_single htype hnull hlist] at h
          obtain h | ⟨v, _, h⟩ := bind_eq_error h
          . rw [compileValue_single htype hvariable hnull hlist]
            exact (ih inner htype hl h).map _
          . cases h

/--
A literal without variables is compiled for an argument exactly if it can be coerced, to
the constant that it is coerced to, and without an error. Otherwise the fault of the
coercion is among the errors that have been found afterwards, and all that are new are
about the value of the argument.
-/
theorem compiles_as_coerced (env : Env) (argument : String) (position : Position) (type : TypeRef)
    (hasDefault : Bool) {l : Literal} (hl : l.variableNames = []) (earlier : List CompileError)
    : let compiled := compileValue env argument position type hasDefault l
      let errors := distinct (earlier ++ compiled.errors)
      (∀ template, compiled.value = some template ↔
          ∃ v, coerceLiteral type l = .ok v ∧ template = .const v)
        ∧ (compiled.value.isSome → errors = distinct earlier)
        ∧ (compiled.value = none → ∃ fault, coerceLiteral type l = .error fault
          ∧ ⟨.invalidArgument argument fault, [position]⟩ ∈ errors)
        ∧ ∀ e ∈ errors, e ∈ distinct earlier
          ∨ e.code = "INVALID_ARGUMENT" ∧ e.field? = some argument ∧ e.positions = [position] := by
  intro compiled errors
  cases hcoerce : coerceLiteral type l with
  | ok v =>
    have hcompiled : compiled = pure (some (.const v)) := compileValue_of_coerceLiteral hcoerce
    have herrors : errors = distinct earlier := by
      unfold errors
      rw [hcompiled]
      exact congrArg distinct (List.append_nil earlier)
    refine ⟨fun template => ?_, fun _ => herrors, ?_, ?_⟩
    . rw [hcompiled]
      constructor
      . rintro ⟨⟩
        exact ⟨v, rfl, rfl⟩
      . rintro ⟨_, ⟨⟩, rfl⟩
        rfl
    . rw [hcompiled]
      rintro ⟨⟩
    . rw [herrors]
      exact fun e he => .inl he
  | error fault =>
    have hrefuses : Refuses argument position fault compiled := refuses_compileValue hl hcoerce
    refine ⟨fun template => ?_, ?_, fun _ => ⟨fault, rfl, ?_⟩, fun e he => ?_⟩
    . rw [hrefuses.value]
      constructor
      . rintro ⟨⟩
      . rintro ⟨_, ⟨⟩, _⟩
    . rw [hrefuses.value]
      rintro ⟨⟩
    . exact mem_distinct.mpr (List.mem_append_right _ (List.mem_of_head? hrefuses.first))
    . obtain he | he := List.mem_append.mp (mem_distinct.mp he)
      . exact .inl (mem_distinct.mpr he)
      . obtain ⟨_, rfl⟩ := hrefuses.all e he
        exact .inr ⟨rfl, rfl, rfl⟩

/-- A single number stands for a list of one at any depth, and null is the first fault of two. -/
theorem compiles_as_coerced_numbers
    : let env : Env := ⟨Library.schema .null .sync, Library.namesDocument, []⟩
      let type : TypeRef := .nonNull (.list (.list (Library.required "Int")))
      let nested : Literal := .list [.list [.int 1], .int 2]
      let faulty : Literal := .list [.list [.int 1, .null], .string "a"]
      nested.variableNames = [] ∧ faulty.variableNames = []
        ∧ (compileValue env "n" .start type false nested).value
          = some (.const (.array [.array [.int 1], .array [.int 2]]))
        ∧ (compileValue env "n" .start type false faulty).value = none
        ∧ ⟨.invalidArgument "n" (.null (Library.required "Int")), [.start]⟩
          ∈ distinct ([] ++ (compileValue env "n" .start type false faulty).errors) := by
  intro env type nested faulty
  have hnested := compiles_as_coerced env "n" .start type false (l := nested) rfl []
  have hfaulty := compiles_as_coerced env "n" .start type false (l := faulty) rfl []
  have hnone : (compileValue env "n" .start type false faulty).value = none := by
    cbv
  obtain ⟨fault, hcoerce, hmem⟩ := hfaulty.2.2.1 hnone
  have hfault : coerceLiteral type faulty = .error (.null (Library.required "Int")) := by
    cbv
  cases hcoerce.symm.trans hfault
  refine ⟨rfl, rfl, (hnested.1 _).mpr ⟨_, ?_, rfl⟩, hnone, hmem⟩
  cbv

end Compile
end GraphGateway

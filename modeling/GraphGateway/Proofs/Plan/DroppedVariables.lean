import GraphGateway.Proofs.Plan.ArgumentOutcomes

/-!
This module contains that a variable which can be declared and is given a value can be
dropped from an operation: the other variables compile to the same and are coerced to the
same, with the same errors.
-/

namespace GraphGateway

namespace Compile

variable {schema : Schema}

theorem compileVariables_congr {earlier others definitions : List VariableDefinition}
    (h : ∀ definition ∈ definitions, earlier.find? (fun first => first.name = definition.name)
      = others.find? (fun first => first.name = definition.name))
    : compileVariables schema earlier definitions = compileVariables schema others definitions := by
  induction definitions generalizing earlier others with
  | nil => rfl
  | cons definition rest ih =>
    obtain ⟨hdefinition, hrest⟩ := List.forall_mem_cons.mp h
    have hvariable : compileVariable schema earlier definition
        = compileVariable schema others definition := by
      unfold compileVariable
      rw [hdefinition]
    have hothers : compileVariables schema (earlier ++ [definition]) rest
        = compileVariables schema (others ++ [definition]) rest := by
      apply ih
      intro other hother
      rw [List.find?_append, List.find?_append, hrest other hother]
    unfold compileVariables
    rw [hvariable, hothers]

theorem compileVariable_of_fresh {earlier : List VariableDefinition} {name : String}
    {type : TypeRef} {position : Position} (hinput : (Scalar.ofName? type.innermost).isSome = true)
    (h : ∀ first ∈ earlier, first.name ≠ name)
    : compileVariable schema earlier ⟨name, type, none, [], position⟩
        = pure (some ⟨name, type, none, position⟩) := by
  have hfind : earlier.find? (fun first => first.name = name) = none := by
    simpa using h
  obtain ⟨scalar, hscalar⟩ := Option.isSome_iff_exists.mp hinput
  have htype : schema.type? type.innermost = some (.scalar scalar) := by
    unfold Schema.type? Schema.findType?
    rw [hscalar]
  unfold compileVariable
  dsimp only
  rw [hfind, htype]
  rfl

theorem compileVariables_without {before after earlier : List VariableDefinition} {name : String}
    {type : TypeRef} {position : Position}
    (hinput : (Scalar.ofName? type.innermost).isSome = true)
    (hbefore : ∀ definition ∈ before, definition.name ≠ name)
    (hafter : ∀ definition ∈ after, definition.name ≠ name)
    (hearlier : ∀ definition ∈ earlier, definition.name ≠ name)
    : ∃ first second,
        (compileVariables schema earlier
              (before ++ ⟨name, type, none, [], position⟩ :: after)).value
            = first ++ ⟨name, type, none, position⟩ :: second
          ∧ (compileVariables schema earlier (before ++ after)).value = first ++ second
          ∧ (compileVariables schema earlier
              (before ++ ⟨name, type, none, [], position⟩ :: after)).errors
            = (compileVariables schema earlier (before ++ after)).errors := by
  induction before generalizing earlier with
  | nil =>
    have hrest : compileVariables schema (earlier ++ [⟨name, type, none, [], position⟩]) after
        = compileVariables schema earlier after := by
      apply compileVariables_congr
      intro definition hdefinition
      have hne : name ≠ definition.name := Ne.symm (hafter definition hdefinition)
      rw [List.find?_append, List.find?_cons_of_neg (by simpa using hne), List.find?_nil,
        Option.or_none]
    rw [List.nil_append, List.nil_append, compileVariables,
      compileVariable_of_fresh hinput hearlier, pure_bind, hrest]
    exact ⟨[], _, rfl, rfl, List.append_nil _⟩
  | cons definition rest ih =>
    obtain ⟨hdefinition, hrest⟩ := List.forall_mem_cons.mp hbefore
    have hall : ∀ other ∈ earlier ++ [definition], other.name ≠ name := by
      rw [List.forall_mem_append, List.forall_mem_singleton]
      exact ⟨hearlier, hdefinition⟩
    obtain ⟨first, second, hvalue, hother, herrors⟩ := ih hrest hall
    refine ⟨(compileVariable schema earlier definition).value.toList ++ first, second, ?_, ?_, ?_⟩
    . rw [List.cons_append, compileVariables, Checked.value_bind, Checked.value_bind, hvalue,
        List.append_assoc]
      rfl
    . rw [List.cons_append, compileVariables, Checked.value_bind, Checked.value_bind, hother,
        List.append_assoc]
      rfl
    . rw [List.cons_append, List.cons_append, compileVariables, compileVariables,
        Checked.errors_bind, Checked.errors_bind, Checked.errors_bind, Checked.errors_bind, herrors]
      rfl

end Compile

namespace VariableSpec

/-- Values of variables that differ for one name at most, or the same faults. -/
inductive AgreeBut (name : String)
    : Except (List VariableFault) Json.Members →
        Except (List VariableFault) Json.Members → Prop where
  | faults (faults : List VariableFault) : AgreeBut name (.error faults) (.error faults)
  | values {bindings others : Json.Members}
    (h : ∀ other, other ≠ name → bindings.get? other = others.get? other)
    : AgreeBut name (.ok bindings) (.ok others)

variable {name : String} {provided : Json.Members}

theorem agreeBut_go_cons {spec : VariableSpec} {specs rest : List VariableSpec}
    (hspecs : ∀ coerced others : Json.Members,
      (∀ other, other ≠ name → coerced.get? other = others.get? other) →
        AgreeBut name (coerceAll.go provided specs coerced) (coerceAll.go provided rest others))
    {coerced others : Json.Members}
    (h : ∀ other, other ≠ name → coerced.get? other = others.get? other)
    : AgreeBut name (coerceAll.go provided (spec :: specs) coerced)
        (coerceAll.go provided (spec :: rest) others) := by
  unfold coerceAll.go
  cases hspec : spec.coerce (provided.get? spec.name) with
  | ok v =>
    cases v with
    | none => exact hspecs coerced others h
    | some v =>
      apply hspecs
      intro other hother
      rw [Ordered.get?_insert, Ordered.get?_insert, h other hother]
  | error fault =>
    have hrest := hspecs coerced others h
    dsimp only
    generalize coerceAll.go provided specs coerced = x at hrest
    generalize coerceAll.go provided rest others = y at hrest
    cases hrest <;> exact .faults _

theorem agreeBut_go (specs : List VariableSpec) {coerced others : Json.Members}
    (h : ∀ other, other ≠ name → coerced.get? other = others.get? other)
    : AgreeBut name (coerceAll.go provided specs coerced) (coerceAll.go provided specs others) := by
  induction specs generalizing coerced others with
  | nil => exact .values h
  | cons spec rest ih => exact agreeBut_go_cons (fun _ _ => ih) h

theorem agreeBut_coerceAll {first second : List VariableSpec} {spec : VariableSpec} {v : Json}
    (hspec : spec.coerce (provided.get? spec.name) = .ok (some v))
    : AgreeBut spec.name (coerceAll (first ++ spec :: second) provided)
        (coerceAll (first ++ second) provided) := by
  have hgo : ∀ coerced others : Json.Members,
      (∀ other, other ≠ spec.name → coerced.get? other = others.get? other) →
        AgreeBut spec.name (coerceAll.go provided (first ++ spec :: second) coerced)
          (coerceAll.go provided (first ++ second) others) := by
    induction first with
    | nil =>
      intro coerced others h
      rw [List.nil_append, List.nil_append, coerceAll.go, hspec]
      apply agreeBut_go
      intro other hother
      rw [Ordered.get?_insert, if_neg (Ne.symm hother), h other hother]
    | cons other rest ih => exact fun coerced others h => agreeBut_go_cons ih h
  exact hgo [] [] fun _ _ => rfl

end VariableSpec
end GraphGateway

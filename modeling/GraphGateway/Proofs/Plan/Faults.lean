import GraphGateway.Proofs.Plan.InlinedSets
import GraphGateway.Proofs.Plan.Siblings

/-!
This module contains that no error of a document hides another: apart from fields that cannot
be merged, the errors of selections side by side are those of the first ones followed by those
that the others add.
-/

namespace GraphGateway

section Distinct

variable {α : Type} [DecidableEq α]

theorem nodup_distinct (xs : List α) : (distinct xs).Nodup := by
  induction xs using List.reverseRecOn with
  | nil => exact .nil
  | append_singleton xs x ih =>
    rw [distinct_concat]
    split
    . exact ih
    . next hmem =>
      rw [← List.concat_eq_append]
      exact ih.concat hmem

theorem filter_distinct (p : α → Bool) (xs : List α)
    : (distinct xs).filter p = distinct (xs.filter p) := by
  induction xs using List.reverseRecOn with
  | nil => rfl
  | append_singleton xs x ih =>
    rw [distinct_concat, List.filter_append]
    by_cases hp : p x <;> by_cases hmem : x ∈ xs <;>
      simp [distinct_concat, mem_distinct, hp, hmem, ih]

theorem distinct_append (xs ys : List α)
    : distinct (xs ++ ys) = distinct xs ++ (distinct ys).filter (· ∉ xs) := by
  induction ys using List.reverseRecOn with
  | nil => simp [distinct]
  | append_singleton ys y ih =>
    rw [← List.append_assoc, distinct_concat, distinct_concat]
    by_cases hx : y ∈ xs <;> by_cases hy : y ∈ ys <;> simp [mem_distinct, hx, hy, ih]

theorem distinct_append_append (xs ys zs : List α)
    : distinct (xs ++ ys ++ zs)
        = distinct (xs ++ ys) ++ (distinct (xs ++ zs)).filter (· ∉ distinct (xs ++ ys)) := by
  have hearlier : (distinct xs).filter (· ∉ xs ++ ys) = [] := by
    simp +contextual [mem_distinct]
  have hlater : ((distinct zs).filter (· ∉ xs)).filter (· ∉ xs ++ ys)
      = (distinct zs).filter (· ∉ xs ++ ys) := by
    rw [List.filter_filter]
    refine List.filter_congr fun z _ => ?_
    by_cases hz : z ∈ xs <;> simp [hz]
  simp only [mem_distinct]
  rw [distinct_append (xs ++ ys), distinct_append xs zs, List.filter_append, hearlier, hlater]
  rfl

end Distinct

namespace Plan

open Compile

def errors (schema : Schema) (document : Document) : List CompileError :=
  match compile schema document with
  | .ok _ => []
  | .error errors => errors

def faults (schema : Schema) (document : Document) : List CompileError :=
  (errors schema document).filter (·.code != "FIELD_CONFLICT")

def selected (schema : Schema) (document : Document)
    : Except CompileError (Operation × ObjectType) := do
  let operation ← selectOperation document
  return (operation, ← Compile.rootType schema operation)

theorem errors_eq (schema : Schema) (document : Document)
    : errors schema document =
        match selected schema document with
        | .error e => [e]
        | .ok (operation, root) =>
          distinct (compileOperation schema document operation root).errors := by
  unfold errors compile selected
  cases selectOperation document with
  | error e => rfl
  | ok operation =>
    dsimp only [Except.mapError, bind, Except.bind]
    cases Compile.rootType schema operation with
    | error e => rfl
    | ok root =>
      dsimp only [pure, Except.pure]
      cases distinct (compileOperation schema document operation root).errors <;> rfl

theorem nodup_errors (schema : Schema) (document : Document) : (errors schema document).Nodup := by
  rw [errors_eq]
  split
  . exact List.nodup_singleton _
  . exact nodup_distinct _

theorem faults_of_error {schema : Schema} {document : Document} {e : CompileError}
    (h : selected schema document = .error e)
    : faults schema document = [e].filter (·.code != "FIELD_CONFLICT") := by
  rw [faults, errors_eq, h]

def heading (schema : Schema) (operation : Operation) : List CompileError :=
  (compileVariables schema [] operation.variableDefinitions).errors
    ++ (rejectDirectives operation.directives (operationLocation operation.kind)).errors

theorem faults_of_ok {schema : Schema} {document : Document} {operation : Operation}
    {root : ObjectType} (h : selected schema document = .ok (operation, root))
    : faults schema document
        = distinct ((heading schema operation
            ++ (compileSet ⟨schema, document, operation.variableDefinitions⟩ Parser.maxDepth []
              operation.set root).errors).filter (·.code != "FIELD_CONFLICT")) := by
  have hconflicts (levels : Nat) (items : List SelectionItem)
      : (Conflict.ofSelection levels items).filter (·.code != "FIELD_CONFLICT") = [] := by
    refine List.filter_eq_nil_iff.mpr fun e he => ?_
    obtain ⟨key, conflict, hcause⟩ := Conflict.exists_of_mem_ofSelection he
    simp [CompileError.code, hcause, CompileError.Cause.code]
  rw [faults, errors_eq, h, heading]
  dsimp only
  rw [filter_distinct, errors_compileOperation, List.filter_append, hconflicts, List.append_nil]

theorem selectOperation_map {document other : Document} {r : Operation → Operation}
    (hoperations : other.operations = document.operations.map r)
    (hposition : ∀ operation, (r operation).position = operation.position)
    : selectOperation other = (selectOperation document).map r := by
  unfold selectOperation
  rw [hoperations]
  match document.operations with
  | [] | [_] => rfl
  | _ :: _ :: _ => simp [Except.map, Function.comp_def, hposition]

theorem selected_map (schema : Schema) {document other : Document} {r : Operation → Operation}
    (hoperations : other.operations = document.operations.map r)
    (hposition : ∀ operation, (r operation).position = operation.position)
    (hkind : ∀ operation, (r operation).kind = operation.kind)
    : selected schema other = (selected schema document).map fun x => (r x.1, x.2) := by
  have hroot (operation : Operation)
      : Compile.rootType schema (r operation) = Compile.rootType schema operation := by
    unfold Compile.rootType
    rw [hkind, hposition]
  unfold selected
  rw [selectOperation_map hoperations hposition]
  cases selectOperation document with
  | error e => rfl
  | ok operation =>
    dsimp only [Except.map, bind, Except.bind]
    rw [hroot]
    cases Compile.rootType schema operation <;> rfl

theorem selected_withRoot (schema : Schema) (document : Document) (items : List Selection)
    : selected schema (document.withRoot items)
        = (selected schema document).map fun x => (x.1.withItems items, x.2) :=
  selected_map schema (document.operations_withRoot items) (fun _ => rfl) (fun _ => rfl)

theorem errors_compileSet_append {env : Env} {levels : Nat} (hlevels : 0 < levels)
    (stack : List String) (first second : List Selection) (position : Position)
    (parent : ObjectType)
    : (compileSet env levels stack ⟨first ++ second, position⟩ parent).errors
        = (compileSet env levels stack ⟨first, position⟩ parent).errors
          ++ (compileSet env levels stack ⟨second, position⟩ parent).errors := by
  obtain ⟨levels, rfl⟩ := Nat.exists_eq_succ_of_ne_zero hlevels.ne'
  unfold compileSet
  simp only [Checked.errors_bind, Checked.errors_mapM, Checked.errors_pure, List.append_nil,
    List.flatMap_append]

theorem faults_withRoot_append (schema : Schema) (document : Document)
    (first second : List Selection)
    : faults schema (document.withRoot (first ++ second))
        = faults schema (document.withRoot first)
          ++ (faults schema (document.withRoot second)).filter
            (· ∉ faults schema (document.withRoot first)) := by
  have hselected (items : List Selection) := selected_withRoot schema document items
  cases h : selected schema document with
  | error e =>
    rw [h] at hselected
    simp [faults_of_error (hselected _)]
  | ok found =>
    obtain ⟨operation, root⟩ := found
    rw [h] at hselected
    -- All three documents have the fragments of the one that they come from.
    let env : Env := ⟨schema, document, operation.variableDefinitions⟩
    have hfaults (items : List Selection)
        : faults schema (document.withRoot items)
            = distinct ((heading schema operation
                ++ (compileSet env Parser.maxDepth [] ⟨items, operation.set.position⟩
                    root).errors).filter (·.code != "FIELD_CONFLICT")) := by
      have halike
          : Env.Alike ⟨schema, document.withRoot items, operation.variableDefinitions⟩ env :=
        ⟨rfl, rfl, document.fragment?_withRoot items⟩
      rw [faults_of_ok (hselected items), ← compileSet_congr halike]
      rfl
    have hlevels : 0 < Parser.maxDepth := by decide
    rw [hfaults, hfaults, hfaults, errors_compileSet_append hlevels]
    simp only [List.filter_append, ← List.append_assoc]
    exact distinct_append_append _ _ _

end Plan
end GraphGateway

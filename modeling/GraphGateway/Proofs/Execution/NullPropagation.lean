import GraphGateway.Proofs.Execution.Accounting

/-!
This module contains the proof that the errors of a response account for the nulls in its data:
where the null of every error is, which errors there are, and which nulls need one.
-/

namespace GraphGateway

/--
The failures of a run account for the nulls in its data: each is one of its place and has its null
at the nearest position that may be null, or above it where another failure has its own; and every
null but a supplied one is that of a failure.
-/
structure Places.Account (places : Places) (data : Json) (failures : List Failure) : Prop where
  genuine : ∀ failure ∈ failures, places.Fails failure.site.path failure.cause
  placed : ∀ failure ∈ failures, ∃ home, places.Home home failure.site.path
    ∧ ∃ q, q <+: home ∧ data.at? q = some .null
      ∧ ∃ other ∈ failures, places.Home q other.site.path
  distinct : (failures.map (·.site.path)).Nodup
  explained : ∀ path, data.at? path = some .null → ∃ place, places path = some place
    ∧ ((path ≠ [] ∧ place.supplied = .ok .null)
      ∨ ∃ failure ∈ failures, places.Home path failure.site.path)
  reported : ∀ path cause, places.Fails path cause → failures ≠ []
  root : data = .null ↔ ∃ failure ∈ failures, places.Home [] failure.site.path

namespace Accounted

variable {places : Places} {data : Json} {journal : Journal}

theorem placed_at_root (h : Accounted places (AtOrBelow []) [] (.ok data) journal)
    : ∀ failure ∈ journal.failures, ∃ home, places.Home home failure.site.path
        ∧ ∃ q, q <+: home ∧ data.at? q = some .null
          ∧ ∃ other ∈ journal.failures, places.Home q other.site.path := by
  intro failure hfailure
  obtain ⟨home, _, hhome⟩ := h.recorded failure hfailure
  obtain ⟨other, hother, q, hnull, hextends, hother'⟩ := h.placed data rfl failure hfailure
  -- The position of the null may be null, so that it cannot be below the nearest such position.
  refine ⟨home, hhome, q, ?_, hnull, other, hother, hother'⟩
  exact hhome.prefix_of_nullable hother'.nullable hextends

theorem eq_null_of_home (h : Accounted places (AtOrBelow []) [] (.ok data) journal)
    {failure : Failure} (hfailure : failure ∈ journal.failures)
    (hhome : places.Home [] failure.site.path)
    : data = .null := by
  obtain ⟨other, _, q, hnull, hextends, hother⟩ := h.placed data rfl failure hfailure
  rw [List.nil_append] at hextends hother
  have hq := hhome.prefix_of_nullable hother.nullable hextends
  rw [List.prefix_nil] at hq
  rw [hq, Json.at?_nil, Option.some.injEq] at hnull
  exact hnull

theorem account (h : Accounted places (AtOrBelow []) [] (.ok data) journal)
    (hroot : data = .null → ∃ failure ∈ journal.failures, places.Home [] failure.site.path)
    : places.Account data journal.failures where
  genuine := by
    intro failure hfailure
    exact (h.genuine failure (List.mem_append_left _ hfailure)).2
  placed := h.placed_at_root
  distinct := by
    have := h.distinct
    rwa [Settled.failures, List.append_nil] at this
  explained := by
    intro path hnull
    obtain ⟨place, hplace, hcause⟩ := h.explained data rfl path (List.nil_prefix) hnull
    refine ⟨place, hplace, ?_⟩
    by_cases hpath : path = []
    -- Nothing is supplied for the root, so that a null there is that of a failure.
    . subst hpath
      rw [Json.at?_nil, Option.some.injEq] at hnull
      exact .inr (hroot hnull)
    . rcases hcause with hsupplied | hfailure
      . exact .inl ⟨hpath, hsupplied⟩
      . exact .inr hfailure
  reported := by
    intro path cause hfails
    have := h.reported path cause (List.nil_prefix) hfails
    rwa [Settled.failed_ok_iff] at this
  root := by
    constructor
    . exact hroot
    . rintro ⟨failure, hfailure, hhome⟩
      exact h.eq_null_of_home hfailure hhome

end Accounted

theorem Places.Account.of_perm {places : Places} {data : Json} {failures others : List Failure}
    (h : places.Account data failures) (hperm : others.Perm failures)
    : places.Account data others := by
  constructor
  case genuine =>
    intro failure hfailure
    exact h.genuine failure (hperm.mem_iff.mp hfailure)
  case placed =>
    intro failure hfailure
    obtain ⟨home, hhome, q, hq, hnull, other, hother, hother'⟩ :=
      h.placed failure (hperm.mem_iff.mp hfailure)
    exact ⟨home, hhome, q, hq, hnull, other, hperm.mem_iff.mpr hother, hother'⟩
  case distinct => exact (hperm.map _).nodup_iff.mpr h.distinct
  case explained =>
    intro path hnull
    simp only [hperm.mem_iff]
    exact h.explained path hnull
  case reported =>
    intro path cause hfails heq
    rw [heq] at hperm
    exact h.reported path cause hfails hperm.nil_eq.symm
  case root =>
    simp only [hperm.mem_iff]
    exact h.root

theorem Journal.Perm.resolverErrors {first second : Journal} (h : first.Perm second)
    : first.resolverErrors.Perm second.resolverErrors :=
  h.entries.filterMap _

namespace Plan

variable {plan : Plan}

theorem execute_accounts (hfree : plan.PanicFree)
    (hsound : ∀ head ∈ plan.heads, Compile.TypenameSound head) (setting : Setting) (root : Json)
    : ∃ response data failures, (plan.execute setting root).outcome = .ok response
        ∧ response.data = some data
        ∧ response.errors = failures.map .ofFailure
        ∧ (plan.places setting root).Account data failures
        ∧ ((plan.execute setting root).journal.resolverErrors ≠ [] → failures ≠ []) := by
  obtain ⟨journal, hexecute, hperm⟩ := execute_eq hfree setting root
  have hsettles : Settles (plan.places setting root) [] (plan.rootPlace root) _ _ :=
    settles_ofPlan hsound
  have hnoted : journal.resolverErrors ≠ [] →
      (Task.ofPlan plan setting root).value.Failed (Task.ofPlan plan setting root).journal := by
    intro herrors
    apply hsettles.below.noted
    intro heq
    have := hperm.resolverErrors
    rw [heq, List.perm_nil] at this
    exact herrors this
  rw [hexecute]
  cases hvalue : (Task.ofPlan plan setting root).value with
  | ok data =>
    rw [hvalue] at hsettles hnoted
    rw [Settled.failed_ok_iff] at hnoted
    have haccount := (hsettles.accounted_ok rfl fun _ => rfl).account
      (fun heq => absurd (heq ▸ hvalue) value_ofPlan_ne_null)
    refine ⟨_, data, journal.failures, rfl, rfl, rfl, haccount.of_perm hperm.failures, ?_⟩
    intro herrors heq
    have := hperm.failures
    rw [heq] at this
    exact hnoted herrors this.nil_eq.symm
  | error failure =>
    rw [hvalue] at hsettles
    -- The failure that reached the root has not been recorded: it comes last in the errors.
    have hhome := hsettles.home rfl rfl
    have haccount := (hsettles.accounted_null rfl rfl).account
      (fun _ => ⟨failure, by simp, hhome⟩)
    refine ⟨_, .null, journal.failures ++ [failure], rfl, rfl, rfl, ?_, ?_⟩
    . exact haccount.of_perm (hperm.failures.append_right _)
    . simp

theorem errors_account_for_nulls {schema : Schema} {document : Document}
    (hcompile : compile schema document = .ok plan) {bindings coerced : Json.Members}
    (hcoerce : VariableSpec.coerceAll plan.specs bindings = .ok coerced)
    (hfree : plan.PanicFree) (context root : Json)
    : ∃ response data failures, (plan.answer bindings context root).outcome = .ok response
        ∧ response.data = some data
        ∧ response.errors = failures.map .ofFailure
        ∧ (∀ e ∈ response.errors, ∃ failure ∈ failures, e.path = some failure.site.path)
        ∧ (plan.places ⟨coerced, context⟩ root).Account data failures
        ∧ ((plan.answer bindings context root).journal.resolverErrors ≠ [] →
          response.errors ≠ []) := by
  have hanswer : plan.answer bindings context root = plan.execute ⟨coerced, context⟩ root := by
    unfold answer
    rw [hcoerce]
  rw [hanswer]
  obtain ⟨response, data, failures, houtcome, hdata, herrors, haccount, hnoted⟩ :=
    execute_accounts hfree (typenameSound_of_compile hcompile) ⟨coerced, context⟩ root
  refine ⟨response, data, failures, houtcome, hdata, herrors, ?_, haccount, ?_⟩
  . intro e he
    rw [herrors] at he
    obtain ⟨failure, hfailure, rfl⟩ := List.mem_map.mp he
    exact ⟨failure, hfailure, rfl⟩
  . intro hresolver heq
    rw [herrors, List.map_eq_nil_iff] at heq
    exact hnoted hresolver heq

end Plan

namespace Library

def unnamed : Json :=
  .array [.object [("name", .string "Octavia E. Butler")], .object []]

theorem errors_account_for_nulls_unnamed
    : Plan.compile (schema unnamed .async) namesDocument = .ok (namesPlan unnamed .async)
        ∧ (namesPlan unnamed .async).PanicFree
        ∧ ∃ response data failures,
            ((namesPlan unnamed .async).answer [] .null .null).outcome = .ok response
              ∧ response.data = some data
              ∧ response.errors = failures.map .ofFailure
              ∧ ((namesPlan unnamed .async).places ⟨[], .null⟩ .null).Account data failures := by
  refine ⟨compile_namesDocument _ _, panicFree_namesPlan _ _, ?_⟩
  obtain ⟨response, data, failures, houtcome, hdata, herrors, _, haccount, _⟩ :=
    Plan.errors_account_for_nulls (compile_namesDocument unnamed .async) rfl
      (panicFree_namesPlan unnamed .async) .null .null
  exact ⟨response, data, failures, houtcome, hdata, herrors, haccount⟩

end Library
end GraphGateway

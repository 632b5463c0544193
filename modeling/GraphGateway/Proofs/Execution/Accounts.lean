import GraphGateway.Proofs.Execution.Places
import GraphGateway.Proofs.Execution.Value

/-!
This module contains how the failures of a task account for the nulls in its value, and that a
position keeps this up when it records a failure or lets it through.
-/

namespace GraphGateway

def Settled.failures : Settled → List Failure
  | .ok _ => []
  | .error failure => [failure]

theorem Journal.resolverErrors_append (first second : Journal)
    : (first ++ second).resolverErrors = first.resolverErrors ++ second.resolverErrors := by
  unfold resolverErrors
  rw [entries_append, List.filterMap_append]

def Settled.Failed (value : Settled) (journal : Journal) : Prop :=
  journal.failures ++ value.failures ≠ []

theorem Settled.failed_error (failure : Failure) (journal : Journal)
    : Failed (.error failure) journal := by
  unfold Failed
  simp [failures]

theorem Settled.failed_ok_iff (w : Json) (journal : Journal)
    : Failed (.ok w) journal ↔ journal.failures ≠ [] := by
  unfold Failed
  simp [failures]

/--
How a task accounts for its failures. The covered positions are those whose nulls it has to explain,
the path is the one of its value.
-/
structure Accounted (places : Places) (covered : Path → Prop) (path : Path) (value : Settled)
    (journal : Journal) : Prop where
  genuine : ∀ failure ∈ journal.failures ++ value.failures,
    path <+: failure.site.path ∧ places.Fails failure.site.path failure.cause
  distinct : ((journal.failures ++ value.failures).map (·.site.path)).Nodup
  failing : ∀ failure, value = .error failure →
    ∀ q, covered q → q <+: failure.site.path → places.NonNull q
  recorded : ∀ failure ∈ journal.failures,
    ∃ home, covered home ∧ places.Home home failure.site.path
  placed : ∀ w, value = .ok w → ∀ failure ∈ journal.failures,
    ∃ other ∈ journal.failures, ∃ rest, w.at? rest = some .null
      ∧ path ++ rest <+: failure.site.path ∧ places.Home (path ++ rest) other.site.path
  explained : ∀ w, value = .ok w → ∀ rest, covered (path ++ rest) → w.at? rest = some .null →
    ∃ place, places (path ++ rest) = some place
      ∧ (place.supplied = .ok .null
        ∨ ∃ failure ∈ journal.failures, places.Home (path ++ rest) failure.site.path)
  reported : ∀ q cause, covered q → places.Fails q cause → value.Failed journal
  noted : journal.resolverErrors ≠ [] → value.Failed journal

def AtOrBelow (path q : Path) : Prop :=
  path <+: q

def Below (path q : Path) : Prop :=
  path <+: q ∧ q ≠ path

/-- How the task inside a position accounts for its failures and for the place it stands at. -/
structure Settles (places : Places) (path : Path) (place : Place) (value : Settled)
    (journal : Journal) : Prop where
  below : Accounted places (Below path) path value journal
  fault : ∀ cause, place.fault? = some cause → ∀ w, value = .ok w →
    w = .null ∧ place.type.isNonNull = true
  null : value = .ok .null → place.supplied = .ok .null ∧ journal.failures = []

variable {places : Places} {covered : Path → Prop} {path : Path} {journal : Journal}

theorem Accounted.of_error {failure : Failure}
    (genuine : ∀ other ∈ journal.failures ++ [failure],
      path <+: other.site.path ∧ places.Fails other.site.path other.cause)
    (distinct : ((journal.failures ++ [failure]).map (·.site.path)).Nodup)
    (failing : ∀ q, covered q → q <+: failure.site.path → places.NonNull q)
    (recorded : ∀ failure ∈ journal.failures,
      ∃ home, covered home ∧ places.Home home failure.site.path)
    : Accounted places covered path (.error failure) journal where
  genuine := genuine
  distinct := distinct
  failing := by
    intro other heq
    cases heq
    exact failing
  recorded := recorded
  placed := by
    intro w heq
    cases heq
  explained := by
    intro w heq
    cases heq
  reported _ _ _ _ := Settled.failed_error failure journal
  noted _ := Settled.failed_error failure journal

namespace Settles

variable {site : Site} {place : Place}

theorem recorded {value : Settled} (h : Settles places path place value journal)
    : ∀ failure ∈ journal.failures,
        ∃ home, AtOrBelow path home ∧ places.Home home failure.site.path := by
  intro failure hfailure
  obtain ⟨home, hcovered, hhome⟩ := h.below.recorded failure hfailure
  exact ⟨home, hcovered.1, hhome⟩

theorem accounted_ok {w : Json} (h : Settles places path place (.ok w) journal)
    (hplace : places path = some place) (hw : w = .null → place.type.isNonNull = false)
    : Accounted places (AtOrBelow path) path (.ok w) journal where
  genuine := h.below.genuine
  distinct := h.below.distinct
  failing := by
    intro failure heq
    cases heq
  recorded := h.recorded
  placed := h.below.placed
  explained := by
    intro v heq rest hcovered hnull
    cases heq
    -- A null that stands here has been supplied, those below are explained already.
    by_cases hself : path ++ rest = path
    . rw [hself]
      rw [List.append_right_eq_self] at hself
      rw [hself, Json.at?_nil, Option.some.injEq] at hnull
      rw [hnull] at h
      exact ⟨place, hplace, .inl (h.null rfl).1⟩
    . exact h.below.explained w rfl rest ⟨hcovered, hself⟩ hnull
  reported := by
    intro q cause hcovered hfails
    by_cases hself : q = path
    . obtain ⟨other, hother, hfault⟩ := hfails
      rw [hself, hplace] at hother
      cases hother
      obtain ⟨hnull, htype⟩ := h.fault cause hfault w rfl
      rw [hw hnull] at htype
      cases htype
    . exact h.below.reported q cause ⟨hcovered, hself⟩ hfails
  noted := h.below.noted

theorem accounted_error {failure : Failure}
    (h : Settles places path place (.error failure) journal)
    (hplace : places path = some place) (htype : place.type.isNonNull = true)
    : Accounted places (AtOrBelow path) path (.error failure) journal := by
  apply Accounted.of_error h.below.genuine h.below.distinct _ h.recorded
  intro q hcovered hq
  by_cases hself : q = path
  . rw [hself]
    exact ⟨place, hplace, htype⟩
  . exact h.below.failing failure rfl q ⟨hcovered, hself⟩ hq

theorem accounted_nullValue (h : Settles places site.path place (.ok .null) journal)
    (hplace : places site.path = some place) (htype : place.type.isNonNull = true)
    : Accounted places (AtOrBelow site.path) site.path (.error ⟨site, .nullValue⟩) journal := by
  -- Nothing has failed below a null that was supplied, so that this is the only failure.
  obtain ⟨hsupplied, hfailures⟩ := h.null rfl
  apply Accounted.of_error
  . intro other hother
    rw [hfailures, List.nil_append, List.mem_singleton] at hother
    rw [hother]
    refine ⟨List.prefix_refl _, place, hplace, ?_⟩
    rw [Place.fault?_of_null hsupplied, if_pos htype]
  . simp [hfailures]
  . intro q hcovered hq
    have hself : q = site.path := hq.eq_of_length_le hcovered.length_le
    rw [hself]
    exact ⟨place, hplace, htype⟩
  . exact h.recorded

theorem home {failure : Failure} (h : Settles places path place (.error failure) journal)
    (hplace : places path = some place) (htype : place.type.isNonNull = false)
    : places.Home path failure.site.path := by
  constructor
  . exact (h.below.genuine failure (by simp [Settled.failures])).1
  . exact ⟨place, hplace, htype⟩
  . intro q hcovered hq hself
    exact h.below.failing failure rfl q ⟨hcovered, hself⟩ hq

theorem accounted_null {failure : Failure}
    (h : Settles places path place (.error failure) journal)
    (hplace : places path = some place) (htype : place.type.isNonNull = false)
    : Accounted places (AtOrBelow path) path (.ok .null) (journal ++ ⟨[failure], []⟩) := by
  have hhome := h.home hplace htype
  have hmem : failure ∈ (journal ++ ⟨[failure], []⟩).failures := by simp
  have hfailed : Settled.Failed (.ok .null) (journal ++ ⟨[failure], []⟩) := by
    rw [Settled.failed_ok_iff]
    exact List.ne_nil_of_mem hmem
  have hgenuine := h.below.genuine
  have hdistinct := h.below.distinct
  constructor
  case genuine => simpa [Settled.failures] using hgenuine
  case distinct => simpa [Settled.failures] using hdistinct
  case failing =>
    intro other heq
    cases heq
  case recorded =>
    intro other hother
    rw [Journal.failures_append, List.mem_append, List.mem_singleton] at hother
    rcases hother with hother | rfl
    . exact h.recorded other hother
    . exact ⟨path, List.prefix_refl path, hhome⟩
  case placed =>
    intro w heq other hother
    cases heq
    -- The null that now stands here is above everything that was recorded.
    refine ⟨failure, hmem, [], rfl, ?_, ?_⟩
    . rw [List.append_nil]
      exact (hgenuine other (by simpa [Settled.failures] using hother)).1
    . rwa [List.append_nil]
  case explained =>
    intro w heq rest _ hnull
    cases heq
    rw [Json.eq_nil_of_null_at? hnull, List.append_nil]
    exact ⟨place, hplace, .inr ⟨failure, hmem, hhome⟩⟩
  case reported => exact fun _ _ _ _ => hfailed
  case noted => exact fun _ => hfailed

theorem accounted_caught {value : Settled} (h : Settles places site.path place value journal)
    (hplace : places site.path = some place)
    : Accounted places (AtOrBelow site.path) site.path
        (Task.caught site place.type.isNonNull value)
        (journal ++ Task.kept place.type.isNonNull value) := by
  cases htype : place.type.isNonNull with
  | true =>
    cases value with
    | error failure =>
      simp only [Task.caught, Task.kept, if_true, Journal.append_empty]
      exact h.accounted_error hplace htype
    | ok w =>
      simp only [Task.caught, Task.kept, Bool.true_and, Journal.append_empty]
      split
      . next hnull =>
        rw [(Json.isNull_iff w).mp hnull] at h
        exact h.accounted_nullValue hplace htype
      . next hnull =>
        apply h.accounted_ok hplace
        intro heq
        exact absurd ((Json.isNull_iff w).mpr heq) hnull
  | false =>
    cases value with
    | error failure =>
      simp only [Task.caught, Task.kept, Bool.false_eq_true, if_false]
      exact h.accounted_null hplace htype
    | ok w =>
      simp only [Task.caught, Task.kept, Bool.false_and, Bool.false_eq_true, if_false,
        Journal.append_empty]
      apply h.accounted_ok hplace
      intro _
      exact htype

end Settles

end GraphGateway

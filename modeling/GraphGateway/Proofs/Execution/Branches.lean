import GraphGateway.Proofs.Execution.Accounts
import GraphGateway.Proofs.Execution.Assembled
import Mathlib.Data.List.Nodup

/-!
This module contains that a container accounts for the failures of its tasks, whether they are done
side by side or one after another.
-/

namespace GraphGateway

variable {places : Places} {path : Path}

theorem Below.exists_segment {q : Path} (h : Below path q)
    : ∃ segment rest, q = path ++ segment :: rest := by
  obtain ⟨⟨rest, rfl⟩, hne⟩ := h
  cases rest with
  | nil => exact absurd (List.append_nil path) hne
  | cons segment rest => exact ⟨segment, rest, rfl⟩

theorem prefix_segment (path : Path) (segment : PathSegment) (rest : Path)
    : path ++ [segment] <+: path ++ segment :: rest :=
  ⟨rest, by rw [List.append_assoc, List.singleton_append]⟩

theorem below_of_extends {segment : PathSegment} {q : Path} (h : path ++ [segment] <+: q)
    : Below path q := by
  refine ⟨(List.prefix_append path [segment]).trans h, ?_⟩
  rintro rfl
  have := h.length_le
  rw [List.length_append, List.length_singleton] at this
  omega

theorem prefix_of_below {segment : PathSegment} {q p : Path} (h : path ++ [segment] <+: p)
    (hbelow : Below path q) (hq : q <+: p)
    : path ++ [segment] <+: q := by
  obtain ⟨other, rest, rfl⟩ := hbelow.exists_segment
  apply List.prefix_of_prefix_length_le h hq
  simp

theorem segment_eq_of_extends {first second : PathSegment} {p : Path}
    (hfirst : path ++ [first] <+: p) (hsecond : path ++ [second] <+: p)
    : first = second := by
  have hle := List.prefix_of_prefix_length_le hfirst hsecond (by simp)
  have heq := hle.eq_of_length (by simp)
  simpa using heq

namespace Task

theorem failures_journalAll (tasks : List Task)
    : (journalAll tasks).failures = tasks.flatMap (·.journal.failures) := by
  induction tasks with
  | nil => rfl
  | cons task rest ih => rw [journalAll, Journal.failures_append, ih, List.flatMap_cons]

theorem resolverErrors_journalAll (tasks : List Task)
    : (journalAll tasks).resolverErrors = tasks.flatMap (·.journal.resolverErrors) := by
  induction tasks with
  | nil => rfl
  | cons task rest ih =>
    rw [journalAll, Journal.resolverErrors_append, ih, List.flatMap_cons]

end Task

/-- Tasks that stand next below a path, each with its own segment. -/
structure Branches (places : Places) (path : Path) (branches : List (PathSegment × Task)) : Prop
    where
  accounted : ∀ branch ∈ branches,
    Accounted places (AtOrBelow (path ++ [branch.1])) (path ++ [branch.1]) branch.2.value
      branch.2.journal
  nodup : (branches.map Prod.fst).Nodup

namespace Branches

variable {branches : List (PathSegment × Task)}

theorem mem_failures_iff (failure : Failure)
    : failure ∈ (Task.journalAll (branches.map Prod.snd)).failures
        ↔ ∃ branch ∈ branches, failure ∈ branch.2.journal.failures := by
  rw [Task.failures_journalAll, List.flatMap_map, List.mem_flatMap]

theorem eq_of_extends (h : Branches places path branches) {first second : PathSegment × Task}
    (hfirst : first ∈ branches) (hsecond : second ∈ branches) {p : Path}
    (hextends : path ++ [first.1] <+: p) (hextends' : path ++ [second.1] <+: p)
    : first = second :=
  List.inj_on_of_nodup_map h.nodup hfirst hsecond (segment_eq_of_extends hextends hextends')

theorem genuine (h : Branches places path branches) {branch : PathSegment × Task}
    (hbranch : branch ∈ branches) {failure : Failure}
    (hfailure : failure ∈ branch.2.journal.failures ++ branch.2.value.failures)
    : path <+: failure.site.path ∧ places.Fails failure.site.path failure.cause := by
  obtain ⟨hextends, hfails⟩ := (h.accounted branch hbranch).genuine failure hfailure
  exact ⟨(below_of_extends hextends).1, hfails⟩

theorem recorded (h : Branches places path branches)
    : ∀ failure ∈ (Task.journalAll (branches.map Prod.snd)).failures,
        ∃ home, Below path home ∧ places.Home home failure.site.path := by
  intro failure hfailure
  obtain ⟨branch, hbranch, hfailure⟩ := (mem_failures_iff failure).mp hfailure
  obtain ⟨home, hcovered, hhome⟩ := (h.accounted branch hbranch).recorded failure hfailure
  exact ⟨home, below_of_extends hcovered, hhome⟩

theorem distinct (h : Branches places path branches)
    : ((Task.journalAll (branches.map Prod.snd)).failures.map (·.site.path)).Nodup := by
  rw [Task.failures_journalAll, List.flatMap_map, List.map_flatMap, List.nodup_flatMap]
  constructor
  . intro branch hbranch
    have := (h.accounted branch hbranch).distinct
    rw [List.map_append] at this
    exact (List.nodup_append.mp this).1
  . have hpairwise := List.pairwise_map.mp h.nodup
    refine hpairwise.imp_of_mem ?_
    intro first second hfirst hsecond hne
    apply List.disjoint_left.mpr
    intro p hp hp'
    obtain ⟨failure, hfailure, rfl⟩ := List.mem_map.mp hp
    obtain ⟨other, hother, heq⟩ := List.mem_map.mp hp'
    have hextends := ((h.accounted first hfirst).genuine failure (by simp [hfailure])).1
    have hextends' := ((h.accounted second hsecond).genuine other (by simp [hother])).1
    rw [heq] at hextends'
    exact hne (segment_eq_of_extends hextends hextends')

theorem accounted_error (h : Branches places path branches) {failure : Failure}
    (hraised : ∃ branch ∈ branches, branch.2.value = .error failure)
    : Accounted places (Below path) path (.error failure)
        (Task.journalAll (branches.map Prod.snd)) := by
  obtain ⟨branch, hbranch, hvalue⟩ := hraised
  have hmem : failure ∈ branch.2.journal.failures ++ branch.2.value.failures := by
    simp [hvalue, Settled.failures]
  have hextends := ((h.accounted branch hbranch).genuine failure hmem).1
  apply Accounted.of_error
  . intro other hother
    rw [List.mem_append, List.mem_singleton] at hother
    rcases hother with hother | rfl
    . obtain ⟨second, hsecond, hother⟩ := (mem_failures_iff other).mp hother
      exact h.genuine hsecond (List.mem_append_left _ hother)
    . exact h.genuine hbranch hmem
  . rw [List.map_append, List.map_singleton, List.nodup_append]
    refine ⟨h.distinct, List.nodup_singleton _, ?_⟩
    intro p hp q hq heq
    rw [List.mem_singleton] at hq
    obtain ⟨other, hother, rfl⟩ := List.mem_map.mp hp
    obtain ⟨second, hsecond, hother⟩ := (mem_failures_iff other).mp hother
    have hextends' := ((h.accounted second hsecond).genuine other (by simp [hother])).1
    rw [heq, hq] at hextends'
    -- The two failures have the same path, so that they come from the same task.
    cases h.eq_of_extends hbranch hsecond hextends hextends'
    have hdistinct := (h.accounted branch hbranch).distinct
    rw [hvalue, Settled.failures, List.map_append, List.nodup_append] at hdistinct
    apply hdistinct.2.2 _ (List.mem_map_of_mem hother) _ _ (heq.trans hq)
    simp
  . intro q hcovered hq
    exact (h.accounted branch hbranch).failing failure hvalue q
      (prefix_of_below hextends hcovered hq) hq
  . exact h.recorded

section

variable (h : Branches places path branches) {w : Json}
  (hchild : ∀ segment v, w.child? segment = some v
    ↔ ∃ task, (segment, task) ∈ branches ∧ task.value = .ok v)

include h hchild

theorem explained
    : ∀ rest, Below path (path ++ rest) → w.at? rest = some .null →
        ∃ place, places (path ++ rest) = some place
          ∧ (place.supplied = .ok .null
            ∨ ∃ failure ∈ (Task.journalAll (branches.map Prod.snd)).failures,
                places.Home (path ++ rest) failure.site.path) := by
  intro rest hcovered hnull
  cases rest with
  | nil => exact absurd (List.append_nil path) hcovered.2
  | cons segment rest =>
    rw [Json.at?_cons] at hnull
    obtain ⟨v, hv, hnull⟩ := Option.bind_eq_some_iff.mp hnull
    obtain ⟨task, hbranch, hvalue⟩ := (hchild segment v).mp hv
    have haccounted := h.accounted _ hbranch
    obtain ⟨place, hplace, hcause⟩ :=
      haccounted.explained v hvalue rest (List.prefix_append _ _) hnull
    rw [List.append_assoc, List.singleton_append] at hplace hcause
    refine ⟨place, hplace, ?_⟩
    rcases hcause with hsupplied | ⟨failure, hfailure, hhome⟩
    . exact .inl hsupplied
    . exact .inr ⟨failure, (mem_failures_iff failure).mpr ⟨_, hbranch, hfailure⟩, hhome⟩

variable (hvalues : ∀ branch ∈ branches, ∃ v, branch.2.value = .ok v)

include hvalues

theorem placed
    : ∀ failure ∈ (Task.journalAll (branches.map Prod.snd)).failures,
        ∃ other ∈ (Task.journalAll (branches.map Prod.snd)).failures, ∃ rest,
          w.at? rest = some .null ∧ path ++ rest <+: failure.site.path
            ∧ places.Home (path ++ rest) other.site.path := by
  intro failure hfailure
  obtain ⟨branch, hbranch, hfailure⟩ := (mem_failures_iff failure).mp hfailure
  obtain ⟨v, hv⟩ := hvalues branch hbranch
  obtain ⟨other, hother, rest, hnull, hextends, hhome⟩ :=
    (h.accounted branch hbranch).placed v hv failure hfailure
  refine ⟨other, (mem_failures_iff other).mpr ⟨branch, hbranch, hother⟩, branch.1 :: rest, ?_⟩
  rw [List.append_assoc, List.singleton_append] at hextends hhome
  refine ⟨?_, hextends, hhome⟩
  rw [Json.at?_cons, (hchild branch.1 v).mpr ⟨branch.2, hbranch, hv⟩, Option.bind_some]
  exact hnull

theorem accounted_ok
    (hcover : ∀ segment rest place, places (path ++ segment :: rest) = some place →
      ∃ task, (segment, task) ∈ branches)
    : Accounted places (Below path) path (.ok w) (Task.journalAll (branches.map Prod.snd)) := by
  -- Since no task fails, what fails in one of them has been recorded.
  have hfailed : ∀ branch ∈ branches, branch.2.value.Failed branch.2.journal →
      Settled.Failed (.ok w) (Task.journalAll (branches.map Prod.snd)) := by
    intro branch hbranch hfailed
    obtain ⟨v, hv⟩ := hvalues branch hbranch
    rw [hv, Settled.failed_ok_iff] at hfailed
    obtain ⟨failure, hfailure⟩ := List.exists_mem_of_ne_nil _ hfailed
    rw [Settled.failed_ok_iff]
    exact List.ne_nil_of_mem ((mem_failures_iff failure).mpr ⟨branch, hbranch, hfailure⟩)
  constructor
  case genuine =>
    intro failure hfailure
    rw [Settled.failures, List.append_nil] at hfailure
    obtain ⟨branch, hbranch, hfailure⟩ := (mem_failures_iff failure).mp hfailure
    exact h.genuine hbranch (List.mem_append_left _ hfailure)
  case distinct =>
    rw [Settled.failures, List.append_nil]
    exact h.distinct
  case failing =>
    intro failure heq
    cases heq
  case recorded => exact h.recorded
  case placed =>
    intro v heq
    cases heq
    exact h.placed hchild hvalues
  case explained =>
    intro v heq
    cases heq
    exact h.explained hchild
  case reported =>
    intro q cause hcovered hfails
    obtain ⟨segment, rest, rfl⟩ := hcovered.exists_segment
    obtain ⟨place, hplace, hfault⟩ := hfails
    obtain ⟨task, hbranch⟩ := hcover segment rest place hplace
    apply hfailed _ hbranch
    exact (h.accounted _ hbranch).reported _ cause (prefix_segment path segment rest)
      ⟨place, hplace, hfault⟩
  case noted =>
    intro hnoted
    rw [Task.resolverErrors_journalAll, List.flatMap_map] at hnoted
    obtain ⟨e, he⟩ := List.exists_mem_of_ne_nil _ hnoted
    obtain ⟨branch, hbranch, he⟩ := List.mem_flatMap.mp he
    exact hfailed branch hbranch ((h.accounted branch hbranch).noted (List.ne_nil_of_mem he))

end

theorem restrict (h : Branches places path branches) {done : List (PathSegment × Task)}
    (hdone : done <+: branches)
    : Branches places path done where
  accounted branch hbranch := h.accounted branch (hdone.subset hbranch)
  nodup := h.nodup.sublist (hdone.sublist.map Prod.fst)

theorem journalSeries_of_ok {tasks : List Task} {vs : List Json}
    (h : tasks.map Task.value = vs.map .ok)
    : Task.journalSeries tasks = Task.journalAll tasks := by
  induction tasks generalizing vs with
  | nil => rfl
  | cons task rest ih =>
    cases vs with
    | nil => cases h
    | cons v others =>
      rw [List.map_cons, List.map_cons, List.cons.injEq] at h
      rw [Task.journalSeries, Task.journalAll, h.1, ih h.2]

theorem journalSeries_of_error {failure : Failure}
    (h : Task.firstFailure (Task.values (branches.map Prod.snd)) = .error failure)
    : ∃ done, done <+: branches ∧ (∃ branch ∈ done, branch.2.value = .error failure)
        ∧ Task.journalSeries (branches.map Prod.snd)
          = Task.journalAll (done.map Prod.snd) := by
  induction branches with
  | nil => cases h
  | cons branch rest ih =>
    rw [List.map_cons, Task.values] at h
    rw [List.map_cons, Task.journalSeries]
    cases hvalue : branch.2.value with
    | error first =>
      rw [hvalue, Task.firstFailure_error] at h
      cases h
      refine ⟨[branch], ⟨rest, rfl⟩, ⟨branch, by simp, hvalue⟩, ?_⟩
      simp [Task.journalAll]
    | ok v =>
      rw [hvalue, Task.firstFailure_ok] at h
      cases hrest : Task.firstFailure (Task.values (rest.map Prod.snd)) with
      | ok vs =>
        rw [hrest] at h
        cases h
      | error other =>
        rw [hrest] at h
        cases h
        obtain ⟨done, hdone, ⟨last, hlast, hvalue'⟩, hjournal⟩ := ih hrest
        refine ⟨branch :: done, ?_, ⟨last, List.mem_cons_of_mem _ hlast, hvalue'⟩, ?_⟩
        . exact (List.prefix_cons_inj branch).mpr hdone
        . rw [List.map_cons, Task.journalAll, hjournal]

variable (h : Branches places path branches) {container : Container}
  (hchild : ∀ vs, (branches.map Prod.snd).map Task.value = vs.map .ok →
    ∀ segment v, (container.assemble vs).child? segment = some v
      ↔ ∃ task, (segment, task) ∈ branches ∧ task.value = .ok v)
  (hcover : ∀ segment rest place, places (path ++ segment :: rest) = some place →
    ∃ task, (segment, task) ∈ branches)

include h hchild hcover

theorem accounted_assembled_of_ok {w : Json}
    (hvalue : Task.assembled container (branches.map Prod.snd) = .ok w)
    : Accounted places (Below path) path (.ok w) (Task.journalAll (branches.map Prod.snd)) := by
  obtain ⟨vs, rfl, hvs⟩ := Task.assembled_eq_ok hvalue
  apply h.accounted_ok (hchild vs hvs) _ hcover
  intro branch hbranch
  have hmem := List.mem_map_of_mem (f := Task.value) (List.mem_map_of_mem (f := Prod.snd) hbranch)
  rw [hvs] at hmem
  obtain ⟨v, _, hv⟩ := List.mem_map.mp hmem
  exact ⟨v, hv.symm⟩

theorem accounted_join
    : Accounted places (Below path) path (Task.assembled container (branches.map Prod.snd))
        (Task.journalAll (branches.map Prod.snd)) := by
  cases hvalue : Task.assembled container (branches.map Prod.snd) with
  | ok w => exact h.accounted_assembled_of_ok hchild hcover hvalue
  | error failure =>
    apply h.accounted_error
    obtain ⟨task, htask, hvalue⟩ :=
      Task.exists_task_of_firstFailure (Task.firstFailure_of_assembled hvalue)
    obtain ⟨branch, hbranch, rfl⟩ := List.mem_map.mp htask
    exact ⟨branch, hbranch, hvalue⟩

theorem accounted_series
    : Accounted places (Below path) path (Task.assembled container (branches.map Prod.snd))
        (Task.journalSeries (branches.map Prod.snd)) := by
  cases hvalue : Task.assembled container (branches.map Prod.snd) with
  | ok w =>
    obtain ⟨vs, _, hvs⟩ := Task.assembled_eq_ok hvalue
    rw [journalSeries_of_ok hvs]
    exact h.accounted_assembled_of_ok hchild hcover hvalue
  | error failure =>
    -- Only the tasks up to the one that failed have been done.
    obtain ⟨done, hdone, hraised, hjournal⟩ :=
      journalSeries_of_error (Task.firstFailure_of_assembled hvalue)
    rw [hjournal]
    exact (h.restrict hdone).accounted_error hraised

end Branches

end GraphGateway

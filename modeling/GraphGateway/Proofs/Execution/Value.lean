import GraphGateway.Execution.Schedule
import GraphGateway.Proofs.Execution.Journal

/-!
This module contains what a task comes to and what is noted on the way when none of its resolvers
panics, and that this is what happens when the task is done depth first.
-/

namespace GraphGateway

def Reply.PanicFree (reply : Reply) : Prop :=
  ∀ panic, reply.outcome ≠ .panic panic

namespace Task

mutual

def PanicFree : Task → Prop
  | settled _ => True
  | invoke _ _ reply next | await _ _ _ reply next => reply.PanicFree ∧ next.PanicFree
  | join _ tasks | series _ _ tasks => PanicFreeAll tasks
  | position _ _ task => task.PanicFree

def PanicFreeAll : List Task → Prop
  | [] => True
  | task :: rest => task.PanicFree ∧ PanicFreeAll rest

end

theorem panicFreeAll_iff (tasks : List Task)
    : PanicFreeAll tasks ↔ ∀ task ∈ tasks, task.PanicFree := by
  induction tasks with
  | nil => simp [PanicFreeAll]
  | cons task rest ih => simp [PanicFreeAll, ih]

def caught (site : Site) (nonNull : Bool) (result : Settled) : Settled :=
  match result with
  | .ok v => if nonNull && v.isNull then .error ⟨site, .nullValue⟩ else .ok v
  | .error failure => if nonNull then .error failure else .ok .null

theorem caught_eq_ok {site : Site} {nonNull : Bool} {result : Settled} {w : Json}
    (h : caught site nonNull result = .ok w)
    : w = .null ∧ nonNull = false ∨ w ≠ .null ∧ result = .ok w := by
  cases result with
  | error failure =>
    cases nonNull with
    | true => cases h
    | false =>
      cases h
      exact .inl ⟨rfl, rfl⟩
  | ok v =>
    unfold caught at h
    dsimp only at h
    split at h
    . cases h
    . next hnull =>
      cases h
      cases w <;> simp_all [Json.isNull]

def kept (nonNull : Bool) (result : Settled) : Journal :=
  match result with
  | .ok _ => .empty
  | .error failure => if nonNull then .empty else ⟨[failure], []⟩

@[simp]
theorem firstFailure_nil : firstFailure [] = .ok [] := rfl

@[simp]
theorem firstFailure_error (failure : Failure) (results : List Settled)
    : firstFailure (.error failure :: results) = .error failure := rfl

@[simp]
theorem firstFailure_ok (v : Json) (results : List Settled)
    : firstFailure (.ok v :: results) = (firstFailure results).map (v :: ·) := by
  unfold firstFailure
  rw [List.mapM_cons]
  cases results.mapM fun result => result <;> rfl

def seriesValue (container : Container) (done : List Json) (results : List Settled) : Settled :=
  (firstFailure results).map fun vs => container.assemble (done ++ vs)

@[simp]
theorem seriesValue_nil (container : Container) (done : List Json)
    : seriesValue container done [] = .ok (container.assemble done) := by
  simp [seriesValue, Except.map]

theorem seriesValue_ok (container : Container) (done : List Json) (v : Json)
    (results : List Settled)
    : seriesValue container done (.ok v :: results)
        = seriesValue container (done ++ [v]) results := by
  unfold seriesValue
  rw [firstFailure_ok]
  cases firstFailure results with
  | error failure => rfl
  | ok vs => simp [Except.map]

mutual

def value : Task → Settled
  | settled result => result
  | invoke _ _ _ next | await _ _ _ _ next => next.value
  | join container tasks => (firstFailure (values tasks)).map container.assemble
  | series container done tasks => seriesValue container done (values tasks)
  | position site nonNull task => caught site nonNull task.value

def values : List Task → List Settled
  | [] => []
  | task :: rest => task.value :: values rest

end

mutual

def journal : Task → Journal
  | settled _ => .empty
  | invoke site call reply next =>
    ⟨[], [.invoked site call, .finished site call reply]⟩ ++ next.journal
  | await _ site call reply next => ⟨[], [.finished site call reply]⟩ ++ next.journal
  | join _ tasks => journalAll tasks
  | series _ _ tasks => journalSeries tasks
  | position _ nonNull task => task.journal ++ kept nonNull task.value

def journalAll : List Task → Journal
  | [] => .empty
  | task :: rest => task.journal ++ journalAll rest

/-- The tasks of a series after the first that fails are not done. -/
def journalSeries : List Task → Journal
  | [] => .empty
  | task :: rest =>
    match task.value with
    | .ok _ => task.journal ++ journalSeries rest
    | .error _ => task.journal

end

theorem value_position_eq_ok {site : Site} {task : Task} {w : Json}
    (h : (position site true task).value = .ok w)
    : w ≠ .null ∧ task.value = .ok w := by
  rw [value] at h
  exact (caught_eq_ok h).resolve_left fun hnull => Bool.noConfusion hnull.2

theorem values_eq_map (tasks : List Task) : values tasks = tasks.map value := by
  induction tasks with
  | nil => rfl
  | cons task rest ih => simp [values, ih]

theorem map_mapIdx {α β γ : Type} (f : Nat → α → β) (g : β → γ) (xs : List α)
    : (xs.mapIdx f).map g = xs.mapIdx fun i x => g (f i x) := by
  apply List.ext_getElem?
  intro i
  rw [List.getElem?_map, List.getElem?_mapIdx, List.getElem?_mapIdx, Option.map_map]
  rfl

theorem bind_apply {α β : Type} (x : Run α) (f : α → Run β) {before middle : Journal} {a : α}
    (h : x before = .ok a middle)
    : (x >>= f) before = f a middle := by
  simp only [bind, EStateM.bind, h]

theorem catchFailure_apply (site : Site) (nonNull : Bool) (result : Settled) (before : Journal)
    : catchFailure site nonNull result before
        = .ok (caught site nonNull result) (before ++ kept nonNull result) := by
  cases result with
  | ok v =>
    simp only [catchFailure, caught, kept, Journal.append_empty]
    rfl
  | error failure =>
    cases nonNull with
    | true =>
      simp only [catchFailure, caught, kept, if_true, Journal.append_empty]
      rfl
    | false =>
      have hadd : before.addFailure failure = before ++ ⟨[failure], []⟩ := by
        apply Journal.ext <;> simp [Journal.addFailure]
      simp only [catchFailure, caught, kept, Bool.false_eq_true, if_false]
      rw [← hadd]
      rfl

theorem enter_apply (entry : JournalEntry) (before : Journal)
    : enter entry before = .ok () (before ++ ⟨[], [entry]⟩) := by
  have hadd : before.addEntry entry = before ++ ⟨[], [entry]⟩ := by
    apply Journal.ext <;> simp [Journal.addEntry]
  rw [← hadd]
  rfl

theorem finish_apply (site : Site) (call : Call) {reply : Reply} (h : reply.PanicFree)
    (before : Journal)
    : finish site call reply before
        = .ok () (before ++ ⟨[], [.finished site call reply]⟩) := by
  unfold finish
  rw [bind_apply _ _ (enter_apply _ _)]
  cases houtcome : reply.outcome with
  | panic panic => exact absurd houtcome (h panic)
  | value v => rfl
  | error e => rfl

mutual

theorem run_eq (task : Task) (h : task.PanicFree) (before : Journal)
    : task.run before = .ok task.value (before ++ task.journal) := by
  match task with
  | settled result =>
    simp only [journal, Journal.append_empty]
    rfl
  | invoke site call reply next =>
    obtain ⟨hreply, hnext⟩ := h
    unfold run
    rw [bind_apply _ _ (enter_apply _ _), bind_apply _ _ (finish_apply _ _ hreply _),
      run_eq next hnext]
    simp only [journal, Journal.append_assoc]
    rfl
  | await _ site call reply next =>
    obtain ⟨hreply, hnext⟩ := h
    unfold run
    rw [bind_apply _ _ (finish_apply _ _ hreply _), run_eq next hnext]
    simp only [journal, Journal.append_assoc]
    rfl
  | join container tasks =>
    unfold run
    rw [bind_apply _ _ (runAll_eq tasks h before)]
    rfl
  | series container done tasks =>
    unfold run
    rw [runSeries_eq container done tasks h before]
    rfl
  | position site nonNull task =>
    unfold run
    rw [bind_apply _ _ (run_eq task h before), catchFailure_apply]
    simp only [journal, Journal.append_assoc]
    rfl

theorem runAll_eq (tasks : List Task) (h : PanicFreeAll tasks) (before : Journal)
    : runAll tasks before = .ok (values tasks) (before ++ journalAll tasks) := by
  match tasks with
  | [] =>
    simp only [journalAll, Journal.append_empty]
    rfl
  | task :: rest =>
    unfold runAll
    rw [bind_apply _ _ (run_eq task h.1 before), bind_apply _ _ (runAll_eq rest h.2 _)]
    simp only [journalAll, Journal.append_assoc]
    rfl

theorem runSeries_eq (container : Container) (done : List Json) (tasks : List Task)
    (h : PanicFreeAll tasks) (before : Journal)
    : runSeries container done tasks before
        = .ok (seriesValue container done (values tasks)) (before ++ journalSeries tasks) := by
  match tasks with
  | [] =>
    simp [runSeries, journalSeries, values, seriesValue, Except.map]
    rfl
  | task :: rest =>
    unfold runSeries values journalSeries
    rw [bind_apply _ _ (run_eq task h.1 before)]
    cases hvalue : task.value with
    | error failure => rfl
    | ok v =>
      dsimp
      rw [runSeries_eq container (done ++ [v]) rest h.2, seriesValue_ok, Journal.append_assoc]

end

end Task
end GraphGateway

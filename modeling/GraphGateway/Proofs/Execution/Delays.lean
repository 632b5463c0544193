import GraphGateway.Proofs.Execution.Unfolded

/-!
This module contains the proof that what a plan comes to does not depend on how long its
resolvers make it wait: the data is the same, and the errors and the invocations of resolvers are
the same up to order.
-/

namespace GraphGateway

def Journal.invocations (journal : Journal) : List (Site × Call) :=
  journal.entries.filterMap fun
    | .invoked site call => some (site, call)
    | .finished _ _ _ => none

theorem Journal.invocations_append (first second : Journal)
    : (first ++ second).invocations = first.invocations ++ second.invocations := by
  unfold invocations
  rw [entries_append, List.filterMap_append]

theorem Journal.Perm.invocations {first second : Journal} (h : first.Perm second)
    : first.invocations.Perm second.invocations :=
  h.entries.filterMap _

/-- Journals that differ at most in the replies of the resolvers. -/
structure Journal.Alike (first second : Journal) : Prop where
  failures : first.failures = second.failures
  invocations : first.invocations = second.invocations

namespace Journal.Alike

theorem refl (journal : Journal) : journal.Alike journal :=
  ⟨rfl, rfl⟩

theorem append {first second third fourth : Journal} (h : first.Alike second)
    (h' : third.Alike fourth)
    : (first ++ third).Alike (second ++ fourth) := by
  constructor
  . rw [failures_append, failures_append, h.failures, h'.failures]
  . rw [invocations_append, invocations_append, h.invocations, h'.invocations]

end Journal.Alike

/-- Two runs give the same data, and the same errors and invocations up to order. -/
def Execution.Agrees (first second : Execution) : Prop :=
  ∃ a b, first.outcome = .ok a ∧ second.outcome = .ok b ∧ a.data = b.data
    ∧ a.errors.Perm b.errors ∧ first.journal.invocations.Perm second.journal.invocations

theorem Execution.ofSettled_agrees (result : Settled) {first second : Journal}
    (hfailures : first.failures.Perm second.failures)
    (hinvocations : first.invocations.Perm second.invocations)
    : (ofSettled result first).Agrees (ofSettled result second) := by
  cases result with
  | ok data => exact ⟨_, _, rfl, rfl, rfl, hfailures.map _, hinvocations⟩
  | error failure => exact ⟨_, _, rfl, rfl, rfl, (hfailures.append_right _).map _, hinvocations⟩

namespace Task

mutual

def delayed (delays : Site → Call → Nat) : Task → Task
  | settled result => settled result
  | invoke site call reply next =>
    invoke site call { reply with delay := delays site call } (next.delayed delays)
  | await left site call reply next => await left site call reply (next.delayed delays)
  | join container tasks => join container (delayedAll delays tasks)
  | series container done tasks => series container done (delayedAll delays tasks)
  | position site nonNull task => position site nonNull (task.delayed delays)

def delayedAll (delays : Site → Call → Nat) : List Task → List Task
  | [] => []
  | task :: rest => task.delayed delays :: delayedAll delays rest

end

theorem delayedAll_eq_map (delays : Site → Call → Nat) (tasks : List Task)
    : delayedAll delays tasks = tasks.map (delayed delays) := by
  induction tasks with
  | nil => rfl
  | cons task rest ih => rw [delayedAll, ih, List.map_cons]

variable (delays : Site → Call → Nat)

mutual

theorem panicFree_delayed (task : Task) (h : task.PanicFree)
    : (task.delayed delays).PanicFree := by
  match task with
  | settled result => trivial
  | invoke site call reply next => exact ⟨h.1, panicFree_delayed next h.2⟩
  | await left site call reply next => exact ⟨h.1, panicFree_delayed next h.2⟩
  | join container tasks => exact panicFree_delayedAll tasks h
  | series container done tasks => exact panicFree_delayedAll tasks h
  | position site nonNull task => exact panicFree_delayed task h

theorem panicFree_delayedAll (tasks : List Task) (h : PanicFreeAll tasks)
    : PanicFreeAll (delayedAll delays tasks) := by
  match tasks with
  | [] => trivial
  | task :: rest => exact ⟨panicFree_delayed task h.1, panicFree_delayedAll rest h.2⟩

end

mutual

theorem value_delayed (task : Task) : (task.delayed delays).value = task.value := by
  match task with
  | settled result => rfl
  | invoke site call reply next => exact value_delayed next
  | await left site call reply next => exact value_delayed next
  | join container tasks => rw [delayed, value, values_delayedAll tasks, value]
  | series container done tasks => rw [delayed, value, values_delayedAll tasks, value]
  | position site nonNull task => rw [delayed, value, value_delayed task, value]

theorem values_delayedAll (tasks : List Task)
    : values (delayedAll delays tasks) = values tasks := by
  match tasks with
  | [] => rfl
  | task :: rest =>
    rw [delayedAll, values, value_delayed task, values_delayedAll rest, values]

end

mutual

theorem journal_delayed (task : Task) : (task.delayed delays).journal.Alike task.journal := by
  match task with
  | settled result => exact .refl _
  | invoke site call reply next => exact .append ⟨rfl, rfl⟩ (journal_delayed next)
  | await left site call reply next => exact .append ⟨rfl, rfl⟩ (journal_delayed next)
  | join container tasks => exact journalAll_delayedAll tasks
  | series container done tasks => exact journalSeries_delayedAll tasks
  | position site nonNull task =>
    rw [delayed, journal, value_delayed, journal]
    exact (journal_delayed task).append (.refl _)

theorem journalAll_delayedAll (tasks : List Task)
    : (journalAll (delayedAll delays tasks)).Alike (journalAll tasks) := by
  match tasks with
  | [] => exact .refl _
  | task :: rest => exact (journal_delayed task).append (journalAll_delayedAll rest)

theorem journalSeries_delayedAll (tasks : List Task)
    : (journalSeries (delayedAll delays tasks)).Alike (journalSeries tasks) := by
  match tasks with
  | [] => exact .refl _
  | task :: rest =>
    rw [delayedAll, journalSeries, value_delayed, journalSeries]
    cases task.value with
    | error failure => exact journal_delayed task
    | ok v => exact (journal_delayed task).append (journalSeries_delayedAll rest)

end

end Task

namespace Plan

def executeDelayed (plan : Plan) (delays : Site → Call → Nat) (setting : Setting) (root : Json)
    : Execution :=
  .ofResult (((Task.ofPlan plan setting root).delayed delays).drive .empty)

theorem executeDelayed_eq {plan : Plan} (h : plan.PanicFree) (delays : Site → Call → Nat)
    (setting : Setting) (root : Json)
    : ∃ journal, plan.executeDelayed delays setting root
        = .ofSettled (Task.ofPlan plan setting root).value journal
        ∧ journal.failures.Perm (Task.ofPlan plan setting root).journal.failures
        ∧ journal.invocations.Perm (Task.ofPlan plan setting root).journal.invocations := by
  have hfree := Task.panicFree_delayed delays _ (Task.panicFree_ofPlan h setting root)
  obtain ⟨journal, hdrive, hperm⟩ := Task.drive_eq _ hfree .empty
  rw [Journal.empty_append] at hperm
  obtain ⟨hfailures, hinvocations⟩ :=
    Task.journal_delayed delays (Task.ofPlan plan setting root)
  refine ⟨journal, ?_, ?_, ?_⟩
  . unfold executeDelayed
    rw [hdrive, Task.value_delayed]
    rfl
  . rw [← hfailures]
    exact hperm.failures
  . rw [← hinvocations]
    exact hperm.invocations

end Plan

end GraphGateway

import GraphGateway.Proofs.Execution.Delays
import Mathlib

/-!
This module contains the conservation law of invocations: what has been invoked in a run
and what is still to be invoked are together no more than what there was to invoke, also if
a panic ends the run.
-/

namespace GraphGateway
namespace Task

mutual

def invocations : Task → List (Site × Call)
  | settled _ => []
  | invoke site call _ next => (site, call) :: next.invocations
  | await _ _ _ _ next => next.invocations
  | join _ tasks | series _ _ tasks => invocationsAll tasks
  | position _ _ task => task.invocations

def invocationsAll : List Task → List (Site × Call)
  | [] => []
  | task :: rest => task.invocations ++ invocationsAll rest

end

theorem invocationsAll_eq_flatMap (tasks : List Task)
    : invocationsAll tasks = tasks.flatMap invocations := by
  induction tasks with
  | nil => rfl
  | cons task rest ih => rw [invocationsAll, ih, List.flatMap_cons]

/-- What has been invoked and, unless there was a panic, what is still to be invoked. -/
def accounted {α : Type} (rest : α → List (Site × Call))
    : EStateM.Result Panic Journal α → List (Site × Call)
  | .ok a after => after.invocations ++ rest a
  | .error _ after => after.invocations

/--
A part of a run that invokes only what there is to invoke, each at most once, and
leaves a rest of it.
-/
def Spends {α : Type} (x : Run α) (todo : List (Site × Call)) (rest : α → List (Site × Call))
    : Prop :=
  ∀ before : Journal, (accounted rest (x before)).Subperm (before.invocations ++ todo)

section Spends

variable {α β : Type} {x : Run α} {f : α → Run β} {todo : List (Site × Call)}
  {rest : α → List (Site × Call)} {left : β → List (Site × Call)}

theorem spends_pure {a : α} (h : (rest a).Subperm todo) : Spends (pure a) todo rest :=
  fun _ => (List.subperm_append_left _).mpr h

theorem Spends.bind (hx : Spends x todo rest) (hf : ∀ a, Spends (f a) (rest a) left)
    : Spends (x >>= f) todo left := by
  intro before
  have hmiddle := hx before
  simp only [Bind.bind, EStateM.bind]
  cases hrun : x before with
  | error panic after =>
    rw [hrun] at hmiddle
    exact hmiddle
  | ok a middle =>
    rw [hrun] at hmiddle
    exact (hf a middle).trans hmiddle

theorem Spends.mono (h : Spends x todo rest) {more : List (Site × Call)} (htodo : todo.Subperm more)
    : Spends x more rest := by
  intro before
  exact (h before).trans ((List.subperm_append_left before.invocations).mpr htodo)

theorem Spends.frame (h : Spends x todo rest) (more : List (Site × Call))
    : Spends x (more ++ todo) fun a => more ++ rest a := by
  intro before
  have hafter := h before
  revert hafter
  cases x before with
  | ok a after =>
    intro hafter
    have hmore := (List.subperm_append_left more).mpr hafter
    exact (List.perm_append_comm_assoc _ _ _).subperm.trans
      (hmore.trans (List.perm_append_comm_assoc _ _ _).subperm)
  | error panic after =>
    intro hafter
    exact hafter.trans ((List.subperm_append_left _).mpr (List.sublist_append_right _ _).subperm)

theorem Spends.frame_right (h : Spends x todo rest) (more : List (Site × Call))
    : Spends x (todo ++ more) fun a => rest a ++ more := by
  intro before
  have hafter := (h.frame more).mono List.perm_append_comm.subperm before
  revert hafter
  cases x before with
  | ok a after => exact ((List.perm_append_comm.append_left _).subperm).trans
  | error panic after => exact id

theorem spends_enter_invoked (site : Site) (call : Call) (todo : List (Site × Call))
    : Spends (enter (.invoked site call)) ((site, call) :: todo) fun _ => todo := by
  intro before
  rw [enter_apply, accounted, Journal.invocations_append, List.append_assoc]
  exact List.Subperm.refl _

theorem spends_finish (site : Site) (call : Call) (reply : Reply) (todo : List (Site × Call))
    : Spends (finish site call reply) todo fun _ => todo := by
  have hfinished (journal : Journal)
      : (journal ++ ⟨[], [.finished site call reply]⟩).invocations = journal.invocations := by
    rw [Journal.invocations_append]
    exact List.append_nil _
  have henter : Spends (enter (.finished site call reply)) todo fun _ => todo := by
    intro before
    rw [enter_apply, accounted, hfinished]
  refine henter.bind fun _ => ?_
  split
  . exact fun before => (List.sublist_append_left _ _).subperm
  . exact spends_pure (List.Subperm.refl _)

theorem spends_catchFailure (site : Site) (nonNull : Bool) (result : Settled)
    : Spends (catchFailure site nonNull result) [] fun _ => [] := by
  intro before
  rw [catchFailure_apply, accounted, Journal.invocations_append, List.append_nil, List.append_nil]
  cases result with
  | ok v => exact (List.append_nil _).symm ▸ List.Subperm.refl _
  | error failure => cases nonNull <;> exact (List.append_nil _).symm ▸ List.Subperm.refl _

end Spends

theorem invocations_joined (container : Container) (tasks : List Task)
    : (joined container tasks).invocations.Subperm (invocationsAll tasks) := by
  unfold joined
  split
  . exact List.nil_subperm
  . exact List.Subperm.refl _

mutual

theorem spends_poll (task : Task) : Spends (poll task) task.invocations invocations := by
  match task with
  | settled result => exact spends_pure (List.Subperm.refl _)
  | invoke site call reply next =>
    unfold poll
    refine (spends_enter_invoked site call next.invocations).bind fun _ => ?_
    split
    . exact (spends_finish site call reply _).bind fun _ => spends_poll next
    . exact spends_pure (List.Subperm.refl _)
  | await 0 site call reply next =>
    unfold poll
    exact (spends_finish site call reply _).bind fun _ => spends_poll next
  | await (left + 1) site call reply next => exact spends_pure (List.Subperm.refl _)
  | join container tasks =>
    unfold poll
    exact (spends_pollAll tasks).bind fun polled =>
      spends_pure (invocations_joined container polled)
  | series container done tasks =>
    unfold poll
    exact spends_pollSeries container done tasks
  | position site nonNull task =>
    unfold poll
    refine (spends_poll task).bind fun polled => ?_
    split
    . refine ((spends_catchFailure site nonNull _).bind fun _ => spends_pure ?_).mono
        List.nil_subperm
      exact List.Subperm.refl _
    . exact spends_pure (List.Subperm.refl _)

theorem spends_pollAll (tasks : List Task)
    : Spends (pollAll tasks) (invocationsAll tasks) invocationsAll := by
  match tasks with
  | [] => exact spends_pure (List.Subperm.refl _)
  | task :: rest =>
    unfold pollAll
    refine ((spends_poll task).frame_right (invocationsAll rest)).bind fun polled => ?_
    exact ((spends_pollAll rest).frame polled.invocations).bind fun others =>
      spends_pure (List.Subperm.refl _)

theorem spends_pollSeries (container : Container) (done : List Json) (tasks : List Task)
    : Spends (pollSeries container done tasks) (invocationsAll tasks) invocations := by
  match tasks with
  | [] => exact spends_pure (List.Subperm.refl _)
  | task :: rest =>
    unfold pollSeries
    refine ((spends_poll task).frame_right (invocationsAll rest)).bind fun polled => ?_
    -- The tasks after one that failed are dropped, with all that they had to invoke.
    split
    . exact (spends_pollSeries container _ rest).mono (List.sublist_append_right _ _).subperm
    . exact spends_pure List.nil_subperm
    . exact spends_pure (List.Subperm.refl _)

end

theorem spends_drive (task : Task) : Spends (drive task) task.invocations fun _ => [] := by
  intro before
  fun_induction drive task before with
  | case1 task before panic after hpoll =>
    have hafter := spends_poll task before
    rwa [hpoll] at hafter
  | case2 task before next after hpoll result hsettled =>
    have hafter := spends_poll task before
    rw [hpoll] at hafter
    exact ((List.subperm_append_left _).mpr List.nil_subperm).trans hafter
  | case3 task before next after hpoll hsettled hless ih =>
    have hafter := spends_poll task before
    rw [hpoll] at hafter
    exact ih.trans hafter

end Task

namespace Plan

theorem invocations_execute (plan : Plan) (setting : Setting) (root : Json)
    : (plan.execute setting root).journal.invocations.Subperm
        (Task.ofPlan plan setting root).invocations := by
  have hdrive := Task.spends_drive (Task.ofPlan plan setting root) .empty
  unfold execute
  revert hdrive
  cases (Task.ofPlan plan setting root).drive .empty with
  | ok result journal =>
    intro hdrive
    rw [Task.accounted, List.append_nil] at hdrive
    cases result <;> exact hdrive
  | error panic journal => exact id

end Plan

end GraphGateway

import GraphGateway.Proofs.Execution.Value

/-!
This module contains the conservation law of polling: a visit changes neither what a task
comes to nor what is noted in all, so that a task that is polled in rounds comes to the same
as one done depth first.
-/

namespace GraphGateway
namespace Task

theorem panicFree_joined (container : Container) {tasks : List Task} (h : PanicFreeAll tasks)
    : (joined container tasks).PanicFree := by
  unfold joined
  split
  . trivial
  . exact h

theorem values_of_settled {tasks : List Task} {results : List Settled}
    (h : tasks.mapM settled? = some results)
    : values tasks = results ∧ journalAll tasks = .empty := by
  induction tasks generalizing results with
  | nil =>
    cases h
    exact ⟨rfl, rfl⟩
  | cons task rest ih =>
    rw [List.mapM_cons] at h
    obtain ⟨result, hresult, h⟩ := Option.bind_eq_some_iff.mp h
    obtain ⟨others, hothers, h⟩ := Option.bind_eq_some_iff.mp h
    cases h
    rw [weight_eq_zero_of_settled? hresult]
    simp only [values, journalAll, value, journal, ih hothers, Journal.append_empty]
    exact ⟨trivial, trivial⟩

theorem joined_eq (container : Container) (tasks : List Task)
    : (joined container tasks).value = (join container tasks).value
        ∧ (joined container tasks).journal = (join container tasks).journal := by
  unfold joined
  split
  . next results hresults =>
    obtain ⟨hvalues, hjournal⟩ := values_of_settled hresults
    simp only [value, journal, hvalues, hjournal]
    exact ⟨trivial, trivial⟩
  . exact ⟨rfl, rfl⟩

/--
What a visit makes of something that has a value and a journal: a task of the same value. What is
noted and what is still to be noted are together the same as before.
-/
structure Progress (before : Journal) (result : Settled) (notes : Journal) (next : Task)
    (after : Journal) : Prop where
  panicFree : next.PanicFree
  value_eq : next.value = result
  conserved : (after ++ next.journal).Perm (before ++ notes)

namespace Progress

variable {before middle after : Journal} {result : Settled} {notes : Journal} {next : Task}

theorem settled (h : after.Perm (before ++ notes))
    : Progress before result notes (settled result) after := by
  refine ⟨trivial, rfl, ?_⟩
  rw [journal, Journal.append_empty]
  exact h

theorem of_settled {settled : Settled} (h : Progress before result notes next after)
    (hsettled : next.settled? = some settled)
    : settled = result ∧ after.Perm (before ++ notes) := by
  have hvalue := h.value_eq
  have hconserved := h.conserved
  rw [weight_eq_zero_of_settled? hsettled] at hvalue hconserved
  rw [journal, Journal.append_empty] at hconserved
  exact ⟨hvalue, hconserved⟩

theorem of_perm (h : Progress middle result notes next after) (hperm : middle.Perm before)
    : Progress before result notes next after :=
  ⟨h.panicFree, h.value_eq, h.conserved.trans (hperm.append_right notes)⟩

theorem prepend {first : Journal} (h : Progress (before ++ first) result notes next after)
    : Progress before result (first ++ notes) next after := by
  refine ⟨h.panicFree, h.value_eq, ?_⟩
  rw [← Journal.append_assoc]
  exact h.conserved

end Progress

mutual

theorem poll_progress (task : Task) (h : task.PanicFree) (before : Journal)
    : ∃ next after, poll task before = .ok next after
        ∧ Progress before task.value task.journal next after := by
  match task with
  | settled result =>
    refine ⟨_, _, rfl, .settled ?_⟩
    rw [journal, Journal.append_empty]
    exact .refl _
  | invoke site call reply next =>
    obtain ⟨hreply, hnext⟩ := h
    unfold poll
    rw [bind_apply _ _ (enter_apply _ _)]
    cases hdelay : reply.delay with
    | zero =>
      dsimp
      rw [bind_apply _ _ (finish_apply _ _ hreply _)]
      obtain ⟨polled, after, hpoll, hprogress⟩ := poll_progress next hnext
        (before ++ ⟨[], [.invoked site call]⟩ ++ ⟨[], [.finished site call reply]⟩)
      refine ⟨polled, after, hpoll, ?_⟩
      exact hprogress.prepend.prepend
    | succ left =>
      refine ⟨_, _, rfl, ⟨hreply, hnext⟩, rfl, ?_⟩
      rw [Journal.append_assoc]
      exact .refl _
  | await 0 site call reply next =>
    obtain ⟨hreply, hnext⟩ := h
    unfold poll
    rw [bind_apply _ _ (finish_apply _ _ hreply _)]
    obtain ⟨polled, after, hpoll, hprogress⟩ := poll_progress next hnext
      (before ++ ⟨[], [.finished site call reply]⟩)
    exact ⟨polled, after, hpoll, hprogress.prepend⟩
  | await (left + 1) site call reply next =>
    exact ⟨_, _, rfl, h, rfl, .refl _⟩
  | join container tasks =>
    obtain ⟨polled, after, hpoll, hfree, hvalues, hconserved⟩ := pollAll_progress tasks h before
    unfold poll
    rw [bind_apply _ _ hpoll]
    obtain ⟨hvalue, hjournal⟩ := joined_eq container polled
    refine ⟨_, _, rfl, panicFree_joined container hfree, ?_, ?_⟩
    . rw [hvalue, value, hvalues, value]
    . rw [hjournal]
      exact hconserved
  | series container done tasks =>
    unfold poll
    exact pollSeries_progress container done tasks h before
  | position site nonNull task =>
    obtain ⟨polled, after, hpoll, hprogress⟩ := poll_progress task h before
    unfold poll
    rw [bind_apply _ _ hpoll]
    -- What catching a failure notes is still to come until the task inside has settled.
    cases hsettled : polled.settled? with
    | none =>
      refine ⟨_, _, rfl, hprogress.panicFree, ?_, ?_⟩
      . rw [value, hprogress.value_eq, value]
      . rw [journal, hprogress.value_eq, journal, ← Journal.append_assoc, ← Journal.append_assoc]
        exact hprogress.conserved.append_right _
    | some result =>
      obtain ⟨rfl, hperm⟩ := hprogress.of_settled hsettled
      dsimp
      rw [bind_apply _ _ (catchFailure_apply site nonNull task.value after)]
      refine ⟨_, _, rfl, .settled ?_⟩
      rw [journal, ← Journal.append_assoc]
      exact hperm.append_right _

theorem pollAll_progress (tasks : List Task) (h : PanicFreeAll tasks) (before : Journal)
    : ∃ next after, pollAll tasks before = .ok next after ∧ PanicFreeAll next
        ∧ values next = values tasks
        ∧ (after ++ journalAll next).Perm (before ++ journalAll tasks) := by
  match tasks with
  | [] => exact ⟨_, _, rfl, trivial, rfl, .refl _⟩
  | task :: rest =>
    obtain ⟨first, middle, hfirst, hprogress⟩ := poll_progress task h.1 before
    obtain ⟨others, after, hothers, hfree, hvalues, hconserved⟩ :=
      pollAll_progress rest h.2 middle
    refine ⟨first :: others, after, ?_, ⟨hprogress.panicFree, hfree⟩, ?_, ?_⟩
    . unfold pollAll
      rw [bind_apply _ _ hfirst, bind_apply _ _ hothers]
      rfl
    . rw [values, values, hprogress.value_eq, hvalues]
    . exact hprogress.conserved.both hconserved

theorem pollSeries_progress (container : Container) (done : List Json) (tasks : List Task)
    (h : PanicFreeAll tasks) (before : Journal)
    : ∃ next after, pollSeries container done tasks before = .ok next after
        ∧ Progress before (seriesValue container done (values tasks)) (journalSeries tasks) next
            after := by
  match tasks with
  | [] =>
    unfold pollSeries values journalSeries
    rw [seriesValue_nil]
    refine ⟨_, _, rfl, .settled ?_⟩
    rw [Journal.append_empty]
    exact .refl _
  | task :: rest =>
    obtain ⟨first, middle, hfirst, hprogress⟩ := poll_progress task h.1 before
    unfold pollSeries values journalSeries
    rw [bind_apply _ _ hfirst]
    -- The next field only starts when this one has settled with a value.
    cases hsettled : first.settled? with
    | none =>
      refine ⟨_, _, rfl, ⟨hprogress.panicFree, h.2⟩, ?_, ?_⟩
      . rw [value, values, hprogress.value_eq]
      . rw [journal, journalSeries, hprogress.value_eq]
        cases task.value with
        | error failure => exact hprogress.conserved
        | ok v => exact hprogress.conserved.both (.refl _)
    | some result =>
      obtain ⟨rfl, hperm⟩ := hprogress.of_settled hsettled
      cases hvalue : task.value with
      | error failure => exact ⟨_, _, rfl, .settled hperm⟩
      | ok v =>
        obtain ⟨next, after, hpoll, hrest⟩ :=
          pollSeries_progress container (done ++ [v]) rest h.2 middle
        rw [seriesValue_ok]
        exact ⟨next, after, hpoll, (hrest.of_perm hperm).prepend⟩

end

theorem drive_eq (task : Task) (h : task.PanicFree) (before : Journal)
    : ∃ after, task.drive before = .ok task.value after
        ∧ after.Perm (before ++ task.journal) := by
  obtain ⟨next, middle, hpoll, hprogress⟩ := poll_progress task h before
  unfold drive
  split
  . next heq =>
    rw [hpoll] at heq
    cases heq
  . next heq =>
    rw [hpoll] at heq
    cases heq
    split
    . next result hsettled =>
      obtain ⟨rfl, hperm⟩ := hprogress.of_settled hsettled
      exact ⟨_, rfl, hperm⟩
    . next hsettled =>
      -- Every visit to a task that does not settle makes it lighter.
      have : next.weight < task.weight := by
        simpa [hsettled] using poll_advances task hpoll
      obtain ⟨after, hdrive, hperm⟩ := drive_eq next hprogress.panicFree middle
      rw [hprogress.value_eq] at hdrive
      exact ⟨after, hdrive, hperm.trans hprogress.conserved⟩
termination_by task.weight

end Task
end GraphGateway

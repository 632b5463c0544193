import GraphGateway.Execution.Run

/-!
This module contains which calls the resolvers of a task are handed, and the proof that no others
are noted in the journal, even if a panic ends the run.
-/

namespace GraphGateway

def Journal.Calls (CallOk : Call → Prop) (journal : Journal) : Prop :=
  ∀ site call, .invoked site call ∈ journal.entries → CallOk call

namespace Task

mutual

def Calls (CallOk : Call → Prop) : Task → Prop
  | settled _ => True
  | invoke _ call _ next => CallOk call ∧ next.Calls CallOk
  | await _ _ _ _ next => next.Calls CallOk
  | join _ tasks | series _ _ tasks => CallsAll CallOk tasks
  | position _ _ task => task.Calls CallOk

def CallsAll (CallOk : Call → Prop) : List Task → Prop
  | [] => True
  | task :: rest => task.Calls CallOk ∧ CallsAll CallOk rest

end

theorem callsAll_iff (CallOk : Call → Prop) (tasks : List Task)
    : CallsAll CallOk tasks ↔ ∀ task ∈ tasks, task.Calls CallOk := by
  induction tasks with
  | nil => simp [CallsAll]
  | cons task rest ih => simp [CallsAll, ih]

variable {CallOk : Call → Prop}

/-- A part of a run that notes only such calls and comes to such a result, unless it panics. -/
def Keeps {α : Type} (CallOk : Call → Prop) (P : α → Prop) (part : Run α) : Prop :=
  ∀ before : Journal, before.Calls CallOk →
    match part before with
    | .ok a after => P a ∧ after.Calls CallOk
    | .error _ after => after.Calls CallOk

section Keeps

variable {α β : Type} {P : α → Prop} {Q : β → Prop}

theorem keeps_pure {a : α} (h : P a) : Keeps CallOk P (pure a) :=
  fun _ hbefore => ⟨h, hbefore⟩

theorem Keeps.bind {x : Run α} {f : α → Run β} (hx : Keeps CallOk P x)
    (hf : ∀ a, P a → Keeps CallOk Q (f a))
    : Keeps CallOk Q (x >>= f) := by
  intro before hbefore
  have hafter := hx before hbefore
  simp only [Bind.bind, EStateM.bind]
  split at hafter
  . next a after heq =>
    rw [heq]
    exact hf a hafter.1 after hafter.2
  . next panic after heq =>
    rw [heq]
    exact hafter

end Keeps

theorem keeps_enter {entry : JournalEntry}
    (h : ∀ site call, entry = .invoked site call → CallOk call)
    : Keeps CallOk (fun _ => True) (enter entry) := by
  intro before hbefore
  refine ⟨trivial, ?_⟩
  intro site call hcall
  obtain hcall | hcall := List.mem_append.mp hcall
  . exact hbefore site call hcall
  . exact h site call (List.mem_singleton.mp hcall).symm

theorem keeps_finish (site : Site) (call : Call) (reply : Reply)
    : Keeps CallOk (fun _ => True) (finish site call reply) := by
  refine (keeps_enter fun _ _ => JournalEntry.noConfusion).bind fun _ _ => ?_
  split
  . exact fun _ hbefore => hbefore
  . exact keeps_pure trivial

theorem keeps_catchFailure (site : Site) (nonNull : Bool) (result : Settled)
    : Keeps CallOk (fun _ => True) (catchFailure site nonNull result) := by
  unfold catchFailure
  split
  . exact keeps_pure trivial
  . split
    . exact keeps_pure trivial
    . exact fun _ hbefore => ⟨trivial, hbefore⟩

theorem calls_joined (container : Container) {tasks : List Task} (h : CallsAll CallOk tasks)
    : (joined container tasks).Calls CallOk := by
  unfold joined
  split
  . trivial
  . exact h

mutual

theorem keeps_poll (task : Task) (h : task.Calls CallOk)
    : Keeps CallOk (Calls CallOk) (poll task) := by
  match task with
  | settled result => exact keeps_pure trivial
  | invoke site call reply next =>
    unfold poll
    refine (keeps_enter ?_).bind fun _ _ => ?_
    . rintro _ _ ⟨⟩
      exact h.1
    -- The call is noted by now, whether the resolver finishes at once or not.
    . split
      . exact (keeps_finish site call reply).bind fun _ _ => keeps_poll next h.2
      . exact keeps_pure h.2
  | await 0 site call reply next =>
    unfold poll
    exact (keeps_finish site call reply).bind fun _ _ => keeps_poll next h
  | await (left + 1) site call reply next => exact keeps_pure h
  | join container tasks =>
    unfold poll
    exact (keeps_pollAll tasks h).bind fun polled hpolled => keeps_pure (calls_joined _ hpolled)
  | series container done tasks =>
    unfold poll
    exact keeps_pollSeries container done tasks h
  | position site nonNull inner =>
    unfold poll
    refine (keeps_poll inner h).bind fun polled hpolled => ?_
    split
    . exact (keeps_catchFailure site nonNull _).bind fun _ _ => keeps_pure trivial
    . exact keeps_pure hpolled

theorem keeps_pollAll (tasks : List Task) (h : CallsAll CallOk tasks)
    : Keeps CallOk (CallsAll CallOk) (pollAll tasks) := by
  match tasks with
  | [] => exact keeps_pure trivial
  | task :: rest =>
    unfold pollAll
    refine (keeps_poll task h.1).bind fun polled hpolled => ?_
    exact (keeps_pollAll rest h.2).bind fun others hothers => keeps_pure ⟨hpolled, hothers⟩

theorem keeps_pollSeries (container : Container) (done : List Json) (tasks : List Task)
    (h : CallsAll CallOk tasks)
    : Keeps CallOk (Calls CallOk) (pollSeries container done tasks) := by
  match tasks with
  | [] => exact keeps_pure trivial
  | task :: rest =>
    unfold pollSeries
    refine (keeps_poll task h.1).bind fun polled hpolled => ?_
    split
    . exact keeps_pollSeries container _ rest h.2
    . exact keeps_pure trivial
    . exact keeps_pure ⟨hpolled, h.2⟩

end

theorem keeps_drive (task : Task) (h : task.Calls CallOk)
    : Keeps CallOk (fun _ => True) (drive task) := by
  intro before hbefore
  fun_induction drive task before with
  | case1 task before panic after hpoll =>
    have hafter := keeps_poll task h before hbefore
    rw [hpoll] at hafter
    exact hafter
  | case2 task before next after hpoll result hsettled =>
    have hafter := keeps_poll task h before hbefore
    rw [hpoll] at hafter
    exact ⟨trivial, hafter.2⟩
  | case3 task before next after hpoll hsettled hless ih =>
    have hafter := keeps_poll task h before hbefore
    rw [hpoll] at hafter
    exact ih hafter.1 hafter.2

end Task

theorem Plan.calls_execute {CallOk : Call → Prop} (plan : Plan) (setting : Setting) (root : Json)
    (h : (Task.ofPlan plan setting root).Calls CallOk)
    : (plan.execute setting root).journal.Calls CallOk := by
  have hempty : Journal.empty.Calls CallOk := fun _ _ hmem => by cases hmem
  have hafter := Task.keeps_drive _ h .empty hempty
  unfold execute
  split at hafter
  . next result after heq =>
    rw [heq]
    cases result <;> exact hafter.2
  . next heq =>
    rw [heq]
    exact hafter

end GraphGateway

import GraphGateway.Execution.Run

/-!
This module contains what is kept through a run whether or not a panic ends it, and from that:
the panic of a run is one that a resolver replied with, and a run without one does not come to
null unless it fails.
-/

namespace GraphGateway

/--
What is kept while a journal is written, and what holds of the journal when a panic has ended the
run.
-/
structure Journal.Kept (J : Journal → Prop) (E : Panic → Journal → Prop) : Prop where
  failure : ∀ failure journal, J journal → J (journal.addFailure failure)
  invoked : ∀ site call journal, J journal → J (journal.addEntry (.invoked site call))
  finished : ∀ site call reply journal, J journal → (∀ panic, reply.outcome ≠ .panic panic) →
    J (journal.addEntry (.finished site call reply))
  panicked : ∀ site call reply journal panic, J journal → reply.outcome = .panic panic →
    E panic (journal.addEntry (.finished site call reply))

namespace Task

variable {J : Journal → Prop} {E : Panic → Journal → Prop}

/-- A part of a run keeps to it and comes to such a result, unless it panics. -/
def Holds {α : Type} (J : Journal → Prop) (E : Panic → Journal → Prop) (P : α → Prop)
    (part : Run α)
    : Prop :=
  ∀ before, J before →
    match part before with
    | .ok a after => P a ∧ J after
    | .error panic after => E panic after

section Holds

variable {α β : Type} {P : α → Prop} {Q : β → Prop}

theorem holds_pure {a : α} (h : P a) : Holds J E P (pure a) :=
  fun _ hbefore => ⟨h, hbefore⟩

theorem Holds.bind {x : Run α} {f : α → Run β} (hx : Holds J E P x)
    (hf : ∀ a, P a → Holds J E Q (f a))
    : Holds J E Q (x >>= f) := by
  intro before hbefore
  have hafter := hx before hbefore
  simp only [Bind.bind, EStateM.bind]
  split at hafter
  . next a after heq =>
    rw [heq]
    exact hf a hafter.1 after hafter.2
  . next panic after heq =>
    rw [heq]
    exact hafter

end Holds

theorem holds_finish (h : Journal.Kept J E) (site : Site) (call : Call) (reply : Reply)
    : Holds J E (fun _ => True) (finish site call reply) := by
  intro before hbefore
  unfold finish enter
  cases houtcome : reply.outcome with
  | panic panic => exact h.panicked site call reply before panic hbefore houtcome
  | value v => exact ⟨trivial, h.finished site call reply before hbefore (by simp [houtcome])⟩
  | error e => exact ⟨trivial, h.finished site call reply before hbefore (by simp [houtcome])⟩

theorem holds_catchFailure (h : Journal.Kept J E) (site : Site) (nonNull : Bool) (result : Settled)
    : Holds J E (fun _ => True) (catchFailure site nonNull result) := by
  unfold catchFailure
  split
  . exact holds_pure trivial
  . split
    . exact holds_pure trivial
    . exact fun before hbefore => ⟨trivial, h.failure _ before hbefore⟩

mutual

theorem holds_poll (h : Journal.Kept J E) (task : Task)
    : Holds J E (fun _ => True) (poll task) := by
  match task with
  | settled result => exact holds_pure trivial
  | invoke site call reply next =>
    unfold poll
    have hinvoked : Holds J E (fun _ => True) (enter (.invoked site call)) :=
      fun before hbefore => ⟨trivial, h.invoked site call before hbefore⟩
    refine hinvoked.bind fun _ _ => ?_
    split
    . exact (holds_finish h site call reply).bind fun _ _ => holds_poll h next
    . exact holds_pure trivial
  | await 0 site call reply next =>
    unfold poll
    exact (holds_finish h site call reply).bind fun _ _ => holds_poll h next
  | await (left + 1) site call reply next => exact holds_pure trivial
  | join container tasks =>
    unfold poll
    exact (holds_pollAll h tasks).bind fun _ _ => holds_pure trivial
  | series container done tasks =>
    unfold poll
    exact holds_pollSeries h container done tasks
  | position site nonNull inner =>
    unfold poll
    refine (holds_poll h inner).bind fun polled _ => ?_
    split
    . exact (holds_catchFailure h site nonNull _).bind fun _ _ => holds_pure trivial
    . exact holds_pure trivial

theorem holds_pollAll (h : Journal.Kept J E) (tasks : List Task)
    : Holds J E (fun _ => True) (pollAll tasks) := by
  match tasks with
  | [] => exact holds_pure trivial
  | task :: rest =>
    unfold pollAll
    exact (holds_poll h task).bind fun _ _ => (holds_pollAll h rest).bind fun _ _ =>
      holds_pure trivial

theorem holds_pollSeries (h : Journal.Kept J E) (container : Container) (done : List Json)
    (tasks : List Task)
    : Holds J E (fun _ => True) (pollSeries container done tasks) := by
  match tasks with
  | [] => exact holds_pure trivial
  | task :: rest =>
    unfold pollSeries
    refine (holds_poll h task).bind fun polled _ => ?_
    split
    . exact holds_pollSeries h container _ rest
    . exact holds_pure trivial
    . exact holds_pure trivial

end

theorem holds_drive (h : Journal.Kept J E) (task : Task)
    : Holds J E (fun _ => True) (drive task) := by
  intro before hbefore
  -- Each round is one poll, which keeps to `J` or is the last one.
  fun_induction drive task before with
  | case1 task before panic after hpoll =>
    have hafter := holds_poll h task before hbefore
    rw [hpoll] at hafter
    exact hafter
  | case2 task before next after hpoll result hsettled =>
    have hafter := holds_poll h task before hbefore
    rw [hpoll] at hafter
    exact hafter
  | case3 task before next after hpoll hsettled hless ih =>
    have hafter := holds_poll h task before hbefore
    rw [hpoll] at hafter
    exact ih hafter.2

end Task

def Journal.Panicked (journal : Journal) : Prop :=
  ∃ site call reply panic,
    .finished site call reply ∈ journal.entries ∧ reply.outcome = .panic panic

namespace Journal

theorem not_panicked_empty : ¬ empty.Panicked := by
  rintro ⟨_, _, _, _, hmem, _⟩
  cases hmem

theorem panicked_addEntry {journal : Journal} {entry : JournalEntry}
    (h : (journal.addEntry entry).Panicked)
    : journal.Panicked
        ∨ ∃ site call reply panic,
          entry = .finished site call reply ∧ reply.outcome = .panic panic := by
  obtain ⟨site, call, reply, panic, hmem, houtcome⟩ := h
  rcases List.mem_append.mp hmem with hmem | hmem
  . exact .inl ⟨site, call, reply, panic, hmem, houtcome⟩
  . exact .inr ⟨site, call, reply, panic, (List.mem_singleton.mp hmem).symm, houtcome⟩

theorem kept_not_panicked
    : Kept (fun journal => ¬ journal.Panicked) fun _ journal => journal.Panicked where
  failure := fun _ _ hjournal h => hjournal h
  invoked := by
    intro site call journal hjournal h
    rcases panicked_addEntry h with h | ⟨_, _, _, _, heq, _⟩
    . exact hjournal h
    . cases heq
  finished := by
    intro site call reply journal hjournal hreply h
    rcases panicked_addEntry h with h | ⟨_, _, _, panic, heq, houtcome⟩
    . exact hjournal h
    . cases heq
      exact hreply panic houtcome
  panicked := by
    intro site call reply journal panic _ houtcome
    exact ⟨site, call, reply, panic, List.mem_append_right _ List.mem_cons_self, houtcome⟩

end Journal

namespace Task

def ForObject : Task → Prop
  | settled result => result ≠ .ok .null
  | join container _ | series container _ _ => container ≠ .array
  | _ => False

theorem assemble_ne_null {container : Container} (values : List Json)
    : container.assemble values ≠ .null := by
  cases container <;> exact Json.noConfusion

theorem forObject_joined {container : Container} (h : container ≠ .array) (tasks : List Task)
    : (joined container tasks).ForObject := by
  unfold joined
  split
  . next results _ =>
    cases firstFailure results with
    | error failure =>
      intro heq
      cases heq
    | ok values =>
      intro heq
      exact assemble_ne_null values (Except.ok.inj heq)
  . exact h

theorem forObject_pollSeries {container : Container} (h : container ≠ .array) (done : List Json)
    (tasks : List Task) {next : Task} {before after : Journal}
    (hpoll : pollSeries container done tasks before = .ok next after)
    : next.ForObject := by
  induction tasks generalizing done before with
  | nil =>
    cases hpoll
    intro heq
    exact assemble_ne_null done (Except.ok.inj heq)
  | cons task rest ih =>
    unfold pollSeries at hpoll
    obtain ⟨polled, middle, _, hpoll⟩ := bind_eq_ok hpoll
    cases hsettled : polled.settled? with
    | none =>
      simp only [hsettled] at hpoll
      cases hpoll
      exact h
    | some result =>
      simp only [hsettled] at hpoll
      cases result with
      | ok v => exact ih _ hpoll
      | error failure =>
        cases hpoll
        intro heq
        cases heq

theorem forObject_poll {task : Task} (h : task.ForObject) {next : Task} {before after : Journal}
    (hpoll : poll task before = .ok next after)
    : next.ForObject := by
  match task with
  | settled result =>
    cases hpoll
    exact h
  | join container tasks =>
    unfold poll at hpoll
    obtain ⟨polled, _, _, hpoll⟩ := bind_eq_ok hpoll
    cases hpoll
    exact forObject_joined h polled
  | series container done tasks =>
    unfold poll at hpoll
    exact forObject_pollSeries h done tasks hpoll
  | invoke _ _ _ _ | await _ _ _ _ _ | position _ _ _ => exact h.elim

theorem drive_ne_null {task : Task} (h : task.ForObject) {result : Settled}
    {before after : Journal} (hdrive : drive task before = .ok result after)
    : result ≠ .ok .null := by
  fun_induction drive task before with
  | case1 => cases hdrive
  | case2 task before next middle hpoll settled hsettled =>
    cases hdrive
    have hnext := forObject_poll h hpoll
    rw [weight_eq_zero_of_settled? hsettled] at hnext
    exact hnext
  | case3 task before next middle hpoll hsettled hless ih =>
    exact ih (forObject_poll h hpoll) hdrive

theorem forObject_ofPlan (plan : Plan) (setting : Setting) (root : Json)
    : (ofPlan plan setting root).ForObject := by
  unfold ofPlan
  dsimp only
  split <;> exact Container.noConfusion

end Task

namespace Plan

variable (plan : Plan) (setting : Setting) (root : Json)

theorem panicked_execute
    : (∃ panic, (plan.execute setting root).outcome = .error panic)
        ↔ (plan.execute setting root).journal.Panicked := by
  have hafter := Task.holds_drive Journal.kept_not_panicked (Task.ofPlan plan setting root) .empty
    Journal.not_panicked_empty
  unfold execute
  split at hafter
  . next result journal heq =>
    rw [heq]
    cases result with
    | ok v => exact ⟨nofun, fun h => absurd h hafter.2⟩
    | error failure => exact ⟨nofun, fun h => absurd h hafter.2⟩
  . next panic journal heq =>
    rw [heq]
    exact ⟨fun _ => hafter, fun _ => ⟨panic, rfl⟩⟩

theorem data_execute {response : Response}
    (h : (plan.execute setting root).outcome = .ok response)
    : (∃ failures : List Failure, response.errors = failures.map .ofFailure)
        ∧ ∃ data, response.data = some data ∧ (data = .null → response.errors ≠ []) := by
  unfold execute at h
  cases hdrive : (Task.ofPlan plan setting root).drive .empty with
  | error panic journal =>
    rw [hdrive] at h
    cases h
  | ok result journal =>
    have hroot := Task.drive_ne_null (Task.forObject_ofPlan plan setting root) hdrive
    rw [hdrive] at h
    cases result with
    | ok v =>
      cases h
      exact ⟨⟨_, rfl⟩, v, rfl, fun hnull => absurd (congrArg Except.ok hnull) hroot⟩
    | error failure =>
      cases h
      exact ⟨⟨_, rfl⟩, .null, rfl, by simp⟩

end Plan

end GraphGateway

import GraphGateway.Execution.Run
import GraphGateway.Proofs.Execution.Value

/-!
This module contains changes to the sites of tasks, and the proof that a run does not look at sites:
they only stand in what it notes and in the failure that it comes to.
-/

namespace GraphGateway

variable (f : Site → Site)

def Failure.mapSite (failure : Failure) : Failure :=
  { failure with site := f failure.site }

def JournalEntry.mapSite : JournalEntry → JournalEntry
  | invoked site call => invoked (f site) call
  | finished site call reply => finished (f site) call reply

def Journal.mapSites (journal : Journal) : Journal :=
  ⟨journal.failures.map (Failure.mapSite f), journal.entries.map (JournalEntry.mapSite f)⟩

def Settled.mapSite (result : Settled) : Settled :=
  result.mapError (Failure.mapSite f)

namespace Journal

theorem mapSites_addFailure (journal : Journal) (failure : Failure)
    : (journal.addFailure failure).mapSites f
        = (journal.mapSites f).addFailure (failure.mapSite f) := by
  simp [mapSites, addFailure]

theorem mapSites_addEntry (journal : Journal) (entry : JournalEntry)
    : (journal.addEntry entry).mapSites f = (journal.mapSites f).addEntry (entry.mapSite f) := by
  simp [mapSites, addEntry]

end Journal

namespace Task

mutual

def mapSites : Task → Task
  | settled result => settled (result.mapSite f)
  | invoke site call reply next => invoke (f site) call reply next.mapSites
  | await left site call reply next => await left (f site) call reply next.mapSites
  | join container tasks => join container (mapSitesAll tasks)
  | series container done tasks => series container done (mapSitesAll tasks)
  | position site nonNull task => position (f site) nonNull task.mapSites

def mapSitesAll : List Task → List Task
  | [] => []
  | task :: rest => task.mapSites :: mapSitesAll rest

end

theorem mapSitesAll_eq_map (tasks : List Task) : mapSitesAll f tasks = tasks.map (mapSites f) := by
  induction tasks with
  | nil => rfl
  | cons task rest ih => rw [mapSitesAll, ih, List.map_cons]

theorem settled?_mapSites (task : Task)
    : (task.mapSites f).settled? = task.settled?.map (Settled.mapSite f) := by
  cases task <;> rfl

theorem mapM_settled?_mapSites (tasks : List Task)
    : (mapSitesAll f tasks).mapM settled?
        = (tasks.mapM settled?).map (List.map (Settled.mapSite f)) := by
  induction tasks with
  | nil => rfl
  | cons task rest ih =>
    rw [mapSitesAll, List.mapM_cons, List.mapM_cons, settled?_mapSites, ih]
    cases task.settled? with
    | none => rfl
    | some result => cases rest.mapM settled? <;> rfl

theorem firstFailure_mapSite (results : List Settled)
    : firstFailure (results.map (Settled.mapSite f))
        = (firstFailure results).mapError (Failure.mapSite f) := by
  induction results with
  | nil => rfl
  | cons result rest ih =>
    cases result with
    | error failure => rfl
    | ok v =>
      have hok : Settled.mapSite f (.ok v) = .ok v := rfl
      rw [List.map_cons, hok, firstFailure_ok, firstFailure_ok, ih]
      cases firstFailure rest <;> rfl

theorem joined_mapSites (container : Container) (tasks : List Task)
    : joined container (mapSitesAll f tasks) = (joined container tasks).mapSites f := by
  unfold joined
  rw [mapM_settled?_mapSites]
  cases tasks.mapM settled? with
  | none => rfl
  | some results =>
    dsimp only [Option.map_some]
    rw [firstFailure_mapSite, mapSites]
    cases firstFailure results <;> rfl

end Task

def Run.Result.mapSites {α β : Type} (g : α → β)
    : EStateM.Result Panic Journal α → EStateM.Result Panic Journal β
  | .ok a journal => .ok (g a) (journal.mapSites f)
  | .error panic journal => .error panic (journal.mapSites f)

def Run.Moves {α β : Type} (g : α → β) (x : Run α) (y : Run β) : Prop :=
  ∀ journal : Journal, y (journal.mapSites f) = Run.Result.mapSites f g (x journal)

namespace Run

variable {f} {α β α' β' : Type} {g : α → β} {g' : α' → β'}

theorem Moves.pure {a : α} {b : β} (h : b = g a) : Moves f g (pure a) (pure b) := by
  subst h
  exact fun _ => rfl

theorem Moves.bind {x : Run α} {y : Run β} {k : α → Run α'} {l : β → Run β'} (h : Moves f g x y)
    (hk : ∀ a, Moves f g' (k a) (l (g a)))
    : Moves f g' (x >>= k) (y >>= l) := by
  intro journal
  have hx := h journal
  simp only [Bind.bind, EStateM.bind, hx]
  cases x journal with
  | ok a after => exact hk a after
  | error panic after => rfl

end Run

namespace Task

open Run (Moves)

variable {f}

theorem moves_enter (entry : JournalEntry)
    : Moves f id (enter entry) (enter (entry.mapSite f)) := by
  intro journal
  exact congrArg (EStateM.Result.ok ()) (Journal.mapSites_addEntry f journal entry).symm

theorem moves_finish (site : Site) (call : Call) (reply : Reply)
    : Moves f id (finish site call reply) (finish (f site) call reply) := by
  refine (moves_enter (.finished site call reply)).bind fun _ => ?_
  cases reply.outcome with
  | panic panic => exact fun _ => rfl
  | _ => exact .pure rfl

theorem moves_catchFailure (site : Site) (nonNull : Bool) (result : Settled)
    : Moves f (Settled.mapSite f) (catchFailure site nonNull result)
        (catchFailure (f site) nonNull (result.mapSite f)) := by
  cases result with
  | ok v =>
    refine .pure ?_
    split <;> rfl
  | error failure =>
    cases nonNull with
    | true => exact .pure rfl
    | false =>
      intro journal
      exact congrArg (EStateM.Result.ok (Except.ok Json.null))
        (Journal.mapSites_addFailure f journal failure).symm

mutual

theorem moves_poll (task : Task) : Moves f (mapSites f) (poll task) (poll (task.mapSites f)) := by
  match task with
  | settled result => exact .pure rfl
  | invoke site call reply next =>
    unfold mapSites poll
    refine (moves_enter (.invoked site call)).bind fun _ => ?_
    cases reply.delay with
    | zero => exact (moves_finish site call reply).bind fun _ => moves_poll next
    | succ left => exact .pure rfl
  | await 0 site call reply next =>
    unfold mapSites poll
    exact (moves_finish site call reply).bind fun _ => moves_poll next
  | await (left + 1) site call reply next => exact .pure rfl
  | join container tasks =>
    unfold mapSites poll
    exact (moves_pollAll tasks).bind fun polled => .pure (joined_mapSites f container polled)
  | series container done tasks =>
    unfold mapSites poll
    exact moves_pollSeries container done tasks
  | position site nonNull task =>
    unfold mapSites poll
    refine (moves_poll task).bind fun polled => ?_
    rw [settled?_mapSites]
    cases polled.settled? with
    | none => exact .pure rfl
    | some result => exact (moves_catchFailure site nonNull result).bind fun _ => .pure rfl

theorem moves_pollAll (tasks : List Task)
    : Moves f (mapSitesAll f) (pollAll tasks) (pollAll (mapSitesAll f tasks)) := by
  match tasks with
  | [] => exact .pure rfl
  | task :: rest =>
    unfold mapSitesAll pollAll
    exact (moves_poll task).bind fun _ => (moves_pollAll rest).bind fun _ => .pure rfl

theorem moves_pollSeries (container : Container) (done : List Json) (tasks : List Task)
    : Moves f (mapSites f) (pollSeries container done tasks)
        (pollSeries container done (mapSitesAll f tasks)) := by
  match tasks with
  | [] => exact .pure rfl
  | task :: rest =>
    unfold mapSitesAll pollSeries
    refine (moves_poll task).bind fun polled => ?_
    rw [settled?_mapSites]
    cases polled.settled? with
    | none => exact .pure rfl
    | some result =>
      cases result with
      | ok v => exact moves_pollSeries container (done ++ [v]) rest
      | error failure => exact .pure rfl

end

theorem drive_of_poll {task next : Task} {before after : Journal}
    (hpoll : poll task before = .ok next after)
    : drive task before
        = match next.settled? with
          | some result => .ok result after
          | none => drive next after := by
  rw [drive]
  split
  . next heq =>
    rw [hpoll] at heq
    cases heq
  . next heq =>
    rw [hpoll] at heq
    cases heq
    split <;> simp_all

theorem drive_of_poll_error {task : Task} {panic : Panic} {before after : Journal}
    (hpoll : poll task before = .error panic after)
    : drive task before = .error panic after := by
  rw [drive]
  split
  . next heq =>
    rw [hpoll] at heq
    cases heq
    rfl
  . next heq =>
    rw [hpoll] at heq
    cases heq

theorem moves_drive (task : Task)
    : Moves f (Settled.mapSite f) (drive task) (drive (task.mapSites f)) := by
  intro journal
  have hmoves := moves_poll (f := f)
  fun_induction drive task journal with
  | case1 task before panic after hpoll =>
    have hmoved := hmoves task before
    rw [hpoll] at hmoved
    exact drive_of_poll_error hmoved
  | case2 task before next after hpoll result hsettled =>
    have hmoved := hmoves task before
    rw [hpoll] at hmoved
    rw [drive_of_poll hmoved, settled?_mapSites, hsettled]
    rfl
  | case3 task before next after hpoll hsettled hless ih =>
    have hmoved := hmoves task before
    rw [hpoll] at hmoved
    rw [drive_of_poll hmoved, settled?_mapSites, hsettled]
    exact ih

end Task

/-- A site without the positions of the fields that were merged there. -/
def Site.unplaced (site : Site) : Site :=
  { site with positions := [] }

def ResponseError.unplaced (e : ResponseError) : ResponseError :=
  { e with locations := [] }

def Response.unplaced (response : Response) : Response :=
  { response with errors := response.errors.map ResponseError.unplaced }

def Execution.unplaced (execution : Execution) : Execution :=
  ⟨execution.outcome.map Response.unplaced, execution.journal.mapSites Site.unplaced⟩

namespace Execution

theorem ofFailure_unplaced (failure : Failure)
    : ResponseError.ofFailure (failure.mapSite Site.unplaced)
        = (ResponseError.ofFailure failure).unplaced := by
  obtain ⟨site, cause⟩ := failure
  cases cause <;> rfl

theorem unplaced_ofResult (result : EStateM.Result Panic Journal Settled)
    : (ofResult result).unplaced
        = ofResult (Run.Result.mapSites Site.unplaced (Settled.mapSite Site.unplaced) result) := by
  have herrors (failures : List Failure)
      : (failures.map .ofFailure).map ResponseError.unplaced
          = (failures.map (Failure.mapSite Site.unplaced)).map .ofFailure := by
    simp only [List.map_map]
    exact List.map_congr_left fun failure _ => (ofFailure_unplaced failure).symm
  match result with
  | .error panic journal => rfl
  | .ok (.ok v) journal =>
    unfold Execution.unplaced Response.unplaced ofResult ofSettled
    dsimp only [Except.map]
    rw [herrors]
    rfl
  | .ok (.error failure) journal =>
    unfold Execution.unplaced Response.unplaced ofResult ofSettled
    dsimp only [Except.map]
    rw [herrors, List.map_append]
    rfl

end Execution

namespace Plan

theorem execute_unplaced {plan second : Plan} {setting : Setting} {root : Json}
    (h : (Task.ofPlan second setting root).mapSites Site.unplaced
      = (Task.ofPlan plan setting root).mapSites Site.unplaced)
    : (second.execute setting root).unplaced = (plan.execute setting root).unplaced := by
  have hmoved (plan : Plan)
      : (plan.execute setting root).unplaced
          = .ofResult (((Task.ofPlan plan setting root).mapSites Site.unplaced).drive .empty) := by
    unfold execute
    rw [Execution.unplaced_ofResult, ← Task.moves_drive]
    rfl
  rw [hmoved, hmoved, h]

end Plan

end GraphGateway

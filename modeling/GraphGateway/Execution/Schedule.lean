import GraphGateway.Execution.Task

/-!
This module contains the two ways of doing a task: polling it in rounds until it is settled, and
doing it depth first without any waiting.

A round visits all unfinished tasks of a container in order. A resolver that finishes goes on with
the next task in the same round, and a panic ends everything at once.
-/

namespace GraphGateway

abbrev Run := EStateM Panic Journal

namespace Task

def enter (entry : JournalEntry) : Run Unit :=
  modify (Journal.addEntry entry)

def finish (site : Site) (call : Call) (reply : Reply) : Run Unit := do
  enter (.finished site call reply)
  match reply.outcome with
  | .panic panic => throw panic
  | _ => pure ()

/--
A failure, which a null in a position of non-null type is too, leaves a position of non-null type
and is recorded elsewhere.
-/
def catchFailure (site : Site) (nonNull : Bool) (result : Settled) : Run Settled :=
  match result with
  | .ok v => return if nonNull && v.isNull then .error ⟨site, .nullValue⟩ else .ok v
  | .error failure => do
    if nonNull then
      return .error failure
    else
      modify (Journal.addFailure failure)
      return .ok .null

def joined (container : Container) (tasks : List Task) : Task :=
  match tasks.mapM settled? with
  | some results => settled ((firstFailure results).map container.assemble)
  | none => join container tasks

mutual

def poll : Task → Run Task
  | settled result => return settled result
  | invoke site call reply next => do
    enter (.invoked site call)
    match reply.delay with
    | 0 =>
      finish site call reply
      poll next
    | left + 1 => return await left site call reply next
  | await 0 site call reply next => do
    finish site call reply
    poll next
  | await (left + 1) site call reply next => return await left site call reply next
  | join container tasks => do
    let tasks ← pollAll tasks
    return joined container tasks
  | series container done tasks => pollSeries container done tasks
  | position site nonNull task => do
    let task ← poll task
    match task.settled? with
    | some result =>
      let result ← catchFailure site nonNull result
      return settled result
    | none => return position site nonNull task

def pollAll : List Task → Run (List Task)
  | [] => return []
  | task :: rest => do
    let task ← poll task
    let rest ← pollAll rest
    return task :: rest

/-- A series goes on in the same round with the next task when one is settled, unless it failed. -/
def pollSeries (container : Container) (done : List Json) : List Task → Run Task
  | [] => return settled (.ok (container.assemble done))
  | task :: rest => do
    let task ← poll task
    match task.settled? with
    | some (.ok v) => pollSeries container (done ++ [v]) rest
    | some (.error failure) => return settled (.error failure)
    | none => return series container done (task :: rest)

end

mutual

def run : Task → Run Settled
  | settled result => return result
  | invoke site call reply next => do
    enter (.invoked site call)
    finish site call reply
    run next
  | await _ site call reply next => do
    finish site call reply
    run next
  | join container tasks => do
    let results ← runAll tasks
    return (firstFailure results).map container.assemble
  | series container done tasks => runSeries container done tasks
  | position site nonNull task => do
    let result ← run task
    catchFailure site nonNull result

def runAll : List Task → Run (List Settled)
  | [] => return []
  | task :: rest => do
    let result ← run task
    let results ← runAll rest
    return result :: results

def runSeries (container : Container) (done : List Json) : List Task → Run Settled
  | [] => return .ok (container.assemble done)
  | task :: rest => do
    let result ← run task
    match result with
    | .ok v => runSeries container (done ++ [v]) rest
    | .error failure => return .error failure

end

theorem weight_eq_zero_of_settled? {task : Task} {result : Settled}
    (h : task.settled? = some result)
    : task = settled result := by
  cases task <;> simp_all [settled?]

theorem bind_eq_ok {α β : Type} {x : Run α} {f : α → Run β} {b : β} {before after : Journal}
    (h : (x >>= f) before = .ok b after)
    : ∃ a middle, x before = .ok a middle ∧ f a middle = .ok b after := by
  simp only [bind, EStateM.bind] at h
  split at h
  . exact ⟨_, _, ‹_›, h⟩
  . cases h

theorem weight_le_of_advanced {task : Task} {weight : Nat}
    (h : task.settled?.isSome ∨ task.weight < weight)
    : task.weight ≤ weight := by
  rcases h with h | h
  . obtain ⟨result, hresult⟩ := Option.isSome_iff_exists.mp h
    simp [weight_eq_zero_of_settled? hresult, Task.weight]
  . omega

mutual

theorem poll_advances (task : Task) {next : Task} {before after : Journal}
    (h : poll task before = .ok next after)
    : next.settled?.isSome ∨ next.weight < task.weight := by
  -- A resolver that is not finished has one poll less; one that is goes over to a lighter task.
  match task with
  | settled result =>
    cases h
    exact .inl rfl
  | invoke site call reply inner =>
    unfold poll at h
    obtain ⟨_, _, _, h⟩ := bind_eq_ok h
    cases hdelay : reply.delay with
    | zero =>
      simp only [hdelay] at h
      obtain ⟨_, _, _, h⟩ := bind_eq_ok h
      have := weight_le_of_advanced (poll_advances inner h)
      exact .inr (by simp only [weight]; omega)
    | succ left =>
      simp only [hdelay] at h
      cases h
      exact .inr (by simp only [weight]; omega)
  | await 0 site call reply inner =>
    unfold poll at h
    obtain ⟨_, _, _, h⟩ := bind_eq_ok h
    have := weight_le_of_advanced (poll_advances inner h)
    exact .inr (by simp only [weight]; omega)
  | await (left + 1) site call reply inner =>
    unfold poll at h
    cases h
    exact .inr (by simp only [weight]; omega)
  | join container tasks =>
    unfold poll at h
    obtain ⟨polled, _, hpolled, h⟩ := bind_eq_ok h
    cases h
    have := pollAll_advances tasks hpolled
    unfold joined
    split
    . exact .inl rfl
    . have := this.2 ‹_›
      exact .inr (by simp only [weight]; omega)
  | series container done tasks =>
    unfold poll at h
    exact pollSeries_advances container done tasks h
  | position site nonNull inner =>
    unfold poll at h
    obtain ⟨polled, _, hpolled, h⟩ := bind_eq_ok h
    have hadvanced := poll_advances inner hpolled
    cases hsettled : polled.settled? with
    | some result =>
      simp only [hsettled] at h
      obtain ⟨_, _, _, h⟩ := bind_eq_ok h
      cases h
      exact .inl rfl
    | none =>
      simp only [hsettled] at h
      cases h
      simp only [hsettled, Option.isSome_none, Bool.false_eq_true, false_or] at hadvanced
      exact .inr (by simp only [weight]; omega)

theorem pollAll_advances (tasks : List Task) {next : List Task} {before after : Journal}
    (h : pollAll tasks before = .ok next after)
    : weightAll next ≤ weightAll tasks
        ∧ (next.mapM settled? = none → weightAll next < weightAll tasks) := by
  match tasks with
  | [] =>
    cases h
    simp
  | task :: rest =>
    unfold pollAll at h
    obtain ⟨first, _, hfirst, h⟩ := bind_eq_ok h
    obtain ⟨others, _, hothers, h⟩ := bind_eq_ok h
    cases h
    have hadvanced := poll_advances task hfirst
    have hle := weight_le_of_advanced hadvanced
    have hrest := pollAll_advances rest hothers
    refine ⟨by simp only [weightAll]; omega, fun hnone => ?_⟩
    simp only [weightAll]
    rcases hadvanced with hsettled | hless
    . obtain ⟨result, hresult⟩ := Option.isSome_iff_exists.mp hsettled
      have hothers : others.mapM settled? = none := by
        cases hmap : others.mapM settled? with
        | none => rfl
        | some results => simp [hresult, hmap] at hnone
      have := hrest.2 hothers
      omega
    . omega

theorem pollSeries_advances (container : Container) (done : List Json) (tasks : List Task)
    {next : Task} {before after : Journal}
    (h : pollSeries container done tasks before = .ok next after)
    : next.settled?.isSome ∨ next.weight < 1 + weightAll tasks := by
  match tasks with
  | [] =>
    cases h
    exact .inl rfl
  | task :: rest =>
    unfold pollSeries at h
    obtain ⟨first, _, hfirst, h⟩ := bind_eq_ok h
    have hadvanced := poll_advances task hfirst
    have hle := weight_le_of_advanced hadvanced
    cases hsettled : first.settled? with
    | some result =>
      simp only [hsettled] at h
      cases result with
      | ok v =>
        rcases pollSeries_advances container _ rest h with hsettled | hless
        . exact .inl hsettled
        . exact .inr (by simp only [weightAll]; omega)
      | error failure =>
        cases h
        exact .inl rfl
    | none =>
      simp only [hsettled] at h
      cases h
      simp only [hsettled, Option.isSome_none, Bool.false_eq_true, false_or] at hadvanced
      exact .inr (by simp only [weight, weightAll]; omega)

end

def drive (task : Task) : Run Settled := fun journal =>
  match hpoll : poll task journal with
  | .error panic journal => .error panic journal
  | .ok next journal =>
    match hnext : next.settled? with
    | some result => .ok result journal
    | none =>
      have : next.weight < task.weight := by
        simpa [hnext] using poll_advances task hpoll
      drive next journal
termination_by task.weight

end Task

end GraphGateway

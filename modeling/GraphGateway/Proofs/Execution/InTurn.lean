import GraphGateway.Proofs.Execution.Accounting
import GraphGateway.Proofs.Execution.Frame
import GraphGateway.Proofs.Library
import GraphGateway.Proofs.Plan.MapHeads

/-!
This module contains that the root fields of a mutation run one after another, each as it would run
alone, and that no field runs after one whose failure leaves the root.
-/

namespace GraphGateway

namespace Task

theorem drive_congr {task other : Task} {before middle : Journal}
    (h : poll task before = poll other middle)
    : drive task before = drive other middle := by
  cases hpoll : poll other middle with
  | error panic after => rw [drive_of_poll_error hpoll, drive_of_poll_error (h.trans hpoll)]
  | ok next after => rw [drive_of_poll hpoll, drive_of_poll (h.trans hpoll)]

variable (container : Container) (done : List Json)

theorem drive_series_nil (before : Journal)
    : drive (series container done []) before = .ok (.ok (container.assemble done)) before := by
  have hpoll : poll (series container done []) before
      = .ok (settled (.ok (container.assemble done))) before := rfl
  exact drive_of_poll hpoll

theorem poll_series_cons (task : Task) (rest : List Task) (before : Journal)
    : poll (series container done (task :: rest)) before
        = match poll task before with
          | .ok next middle =>
            match next.settled? with
            | some (.ok v) => poll (series container (done ++ [v]) rest) middle
            | some (.error failure) => .ok (settled (.error failure)) middle
            | none => .ok (series container done (next :: rest)) middle
          | .error panic after => .error panic after := by
  simp only [poll, pollSeries, bind, EStateM.bind]
  cases poll task before with
  | error panic after => rfl
  | ok next middle =>
    dsimp only
    cases next.settled? with
    | none => rfl
    | some result => cases result <;> rfl

theorem drive_series_cons (task : Task) (rest : List Task) (before : Journal)
    : drive (series container done (task :: rest)) before
        = match drive task before with
          | .ok (.ok v) middle => drive (series container (done ++ [v]) rest) middle
          | .ok (.error failure) middle => .ok (.error failure) middle
          | .error panic after => .error panic after := by
  fun_induction drive task before with
  | case1 task before panic after hpoll =>
    apply drive_of_poll_error
    rw [poll_series_cons, hpoll]
  | case2 task before next middle hpoll result hsettled =>
    have hseries := poll_series_cons container done task rest before
    rw [hpoll] at hseries
    dsimp only at hseries
    rw [hsettled] at hseries
    cases result with
    | ok v => exact drive_congr hseries
    | error failure => exact drive_of_poll hseries
  | case3 task before next middle hpoll hsettled hless ih =>
    have hseries := poll_series_cons container done task rest before
    rw [hpoll] at hseries
    dsimp only at hseries
    rw [hsettled] at hseries
    rw [drive_of_poll hseries]
    exact ih

def Alone (field : String × Task) (run : Settled × Journal) : Prop :=
  field.2.drive .empty = .ok run.1 run.2

/-- What the fields came to that were run: values, until a failure keeps the rest from being run. -/
inductive Ending (rest : Ordered Task) (results : List Settled)
    : Except Failure (List Json) → Prop where
  | finished (values : List Json) (hrest : rest = []) (h : results = values.map .ok)
    : Ending rest results (.ok values)
  | stopped (values : List Json) (failure : Failure)
    (h : results = values.map .ok ++ [.error failure])
    : Ending rest results (.error failure)

theorem Ending.cons {rest : Ordered Task} {results : List Settled}
    {result : Except Failure (List Json)} (h : Ending rest results result) (v : Json)
    : Ending rest (.ok v :: results) (result.map (v :: ·)) := by
  cases h with
  | finished values hrest h => exact .finished (v :: values) hrest (by rw [h, List.map_cons])
  | stopped values failure h =>
    exact .stopped (v :: values) failure (by rw [h, List.map_cons, List.cons_append])

end Task

def Journal.concat (journals : List Journal) : Journal :=
  match journals with
  | [] => .empty
  | journal :: rest => journal ++ concat rest

namespace Task

theorem drive_series (container : Container) {fields : Ordered Task}
    (hfree : PanicFreeAll (fields.map Prod.snd)) (done : List Json) (before : Journal)
    : ∃ executed rest runs result, fields = executed ++ rest ∧ List.Forall₂ Alone executed runs
        ∧ Ending rest (runs.map Prod.fst) result
        ∧ drive (series container done (fields.map Prod.snd)) before
          = .ok (result.map fun values => container.assemble (done ++ values))
            (before ++ Journal.concat (runs.map Prod.snd)) := by
  induction fields generalizing done before with
  | nil =>
    refine ⟨[], [], [], .ok [], rfl, .nil, .finished [] rfl rfl, ?_⟩
    rw [List.map_nil, drive_series_nil]
    simp [Except.map, Journal.concat]
  | cons field fields ih =>
    obtain ⟨own, halone, _⟩ := drive_eq field.2 hfree.1 .empty
    have hdrive := drive_eq_after field.2 before
    rw [halone] at hdrive
    rw [List.map_cons, drive_series_cons, hdrive]
    cases hvalue : field.2.value with
    | error failure =>
      rw [hvalue] at halone
      refine ⟨[field], fields, [(.error failure, own)], .error failure, rfl, .cons halone .nil,
        .stopped [] failure rfl, ?_⟩
      simp [Run.Result.after, Except.map, Journal.concat]
    | ok v =>
      rw [hvalue] at halone
      obtain ⟨executed, rest, runs, result, rfl, hruns, hending, hrest⟩ :=
        ih hfree.2 (done ++ [v]) (before ++ own)
      refine ⟨field :: executed, rest, (.ok v, own) :: runs, result.map (v :: ·), rfl,
        .cons halone hruns, hending.cons v, ?_⟩
      dsimp only [Run.Result.after]
      rw [hrest, List.map_cons, Journal.concat, ← Journal.append_assoc]
      cases result <;> simp [Except.map]

end Task

def JournalEntry.Under (key : String) (entry : JournalEntry) : Prop :=
  AtOrBelow [.key key] entry.site.path

theorem JournalEntry.Under.unique {key other : String} {entry : JournalEntry} (h : entry.Under key)
    (h' : entry.Under other)
    : key = other := by
  have hpath : [] ++ [PathSegment.key key] <+: entry.site.path := h
  cases segment_eq_of_extends hpath h'
  rfl

/-- What is noted of earlier fields stands before what is noted of later ones. -/
def JournalEntry.InOrder (keys : List String) (entries : List JournalEntry) : Prop :=
  entries.Pairwise fun first second =>
    ∀ key later, [key, later].Sublist keys → ¬ (first.Under later ∧ second.Under key)

namespace Task

section Segments

variable {executed : Ordered Task} {runs : List (Settled × Journal)}

/-- Each of the fields that were run notes something only of resolvers under its key. -/
def Segments (executed : Ordered Task) (runs : List (Settled × Journal)) : Prop :=
  List.Forall₂ (fun field run => run.2.Belongs [.key field.1]) executed runs

theorem segments_of_alone (h : List.Forall₂ Alone executed runs)
    (hfree : ∀ field ∈ executed, field.2.PanicFree)
    (hbelongs : ∀ field ∈ executed, field.2.Belongs [.key field.1])
    : Segments executed runs := by
  induction h with
  | nil => exact .nil
  | cons halone _ ih =>
    rw [List.forall_mem_cons] at hfree hbelongs
    exact .cons (belongs_drive hfree.1 hbelongs.1 halone) (ih hfree.2 hbelongs.2)

theorem Segments.exists_under (h : Segments executed runs)
    : ∀ entry ∈ (Journal.concat (runs.map Prod.snd)).entries,
        ∃ key ∈ executed.keys, entry.Under key := by
  induction h with
  | nil => simp [Journal.concat]
  | @cons field run fields runs hbelongs _ ih =>
    intro entry hentry
    obtain hentry | hentry := List.mem_append.mp hentry
    . exact ⟨field.1, List.mem_cons_self, hbelongs entry hentry⟩
    . obtain ⟨key, hkey, hunder⟩ := ih entry hentry
      exact ⟨key, List.mem_cons_of_mem _ hkey, hunder⟩

theorem Segments.inOrder (h : Segments executed runs) (hnodup : executed.keys.Nodup)
    : JournalEntry.InOrder executed.keys (Journal.concat (runs.map Prod.snd)).entries := by
  induction h with
  | nil => exact .nil
  | @cons field run fields runs hbelongs hrest ih =>
    obtain ⟨hfield, hnodup⟩ := List.nodup_cons.mp hnodup
    have hlater {key later : String}
        (hsublist : [key, later].Sublist (field.1 :: Ordered.keys fields))
        : later ≠ field.1 := by
      have hmem : later ∈ Ordered.keys fields := by
        cases hsublist with
        | cons _ hsublist => exact hsublist.subset (by simp)
        | cons_cons _ hsublist => exact hsublist.subset (by simp)
      exact ne_of_mem_of_not_mem hmem hfield
    refine List.pairwise_append.mpr ⟨?_, ?_, ?_⟩
    . refine List.pairwise_of_forall_mem_list fun first hfirst second _ key later hsublist h => ?_
      exact hlater hsublist (h.1.unique (hbelongs first hfirst))
    . refine (ih hnodup).imp_of_mem fun {first second} _ hsecond hordered key later hsublist h => ?_
      cases hsublist with
      | cons _ hsublist => exact hordered key later hsublist h
      | cons_cons _ _ =>
        obtain ⟨other, hother, hunder⟩ := Segments.exists_under hrest second hsecond
        exact ne_of_mem_of_not_mem hother hfield (hunder.unique h.2)
    . intro first hfirst second _ key later hsublist h
      exact hlater hsublist (h.1.unique (hbelongs first hfirst))

end Segments

end Task

/--
A run of root fields one after another. The fields that are run are the first ones, and each comes
to what it comes to when it is run by itself. Either they are all of them, or the last one fails
and the data is null.
-/
structure Execution.InTurn (fields executed rest : Ordered Task) (runs : List (Settled × Journal))
    (execution : Execution) : Prop where
  split : fields = executed ++ rest
  alone : List.Forall₂ Task.Alone executed runs
  ending : ∃ result, Task.Ending rest (runs.map Prod.fst) result
    ∧ execution = .ofSettled (result.map fun values => .object (fields.keys.zip values))
      (.concat (runs.map Prod.snd))
  under : ∀ entry ∈ execution.journal.entries, ∃ key ∈ executed.keys, entry.Under key
  skipped : ∀ entry ∈ execution.journal.entries, ∀ key ∈ rest.keys, ¬ entry.Under key
  inOrder : JournalEntry.InOrder fields.keys execution.journal.entries

namespace Task

theorem journal_ofResult (result : Settled) (journal : Journal)
    : (Execution.ofResult (.ok result journal)).journal = journal := by
  cases result <;> rfl

theorem inTurn_series {fields : Ordered Task} (hfree : PanicFreeAll (fields.map Prod.snd))
    (hbelongs : ∀ field ∈ fields, field.2.Belongs [.key field.1]) (hnodup : fields.keys.Nodup)
    : ∃ executed rest runs, Execution.InTurn fields executed rest runs
        (.ofResult ((series (.object fields.keys) [] (fields.map Prod.snd)).drive .empty)) := by
  obtain ⟨executed, rest, runs, result, hsplit, halone, hending, hdrive⟩ :=
    drive_series (.object fields.keys) hfree [] .empty
  subst hsplit
  have hfree : ∀ field ∈ executed, field.2.PanicFree := by
    intro field hfield
    exact (panicFreeAll_iff _).mp hfree field.2
      (List.mem_map_of_mem (List.mem_append_left rest hfield))
  have hsegments : Segments executed runs :=
    segments_of_alone halone hfree fun field hfield =>
      hbelongs field (List.mem_append_left rest hfield)
  have hkeys : Ordered.keys (executed ++ rest) = executed.keys ++ rest.keys := List.map_append
  rw [hkeys] at hnodup
  obtain ⟨hexecuted, _, hdisjoint⟩ := List.nodup_append.mp hnodup
  -- What is noted stands under the keys of fields that were run, and no key comes twice.
  have hskipped : ∀ entry ∈ (Journal.concat (runs.map Prod.snd)).entries, ∀ key ∈ rest.keys,
      ¬ entry.Under key := by
    intro entry hentry key hkey hunder
    obtain ⟨other, hother, hunder'⟩ := hsegments.exists_under entry hentry
    exact hdisjoint other hother key hkey (hunder'.unique hunder)
  rw [hdrive, Journal.empty_append]
  refine ⟨executed, rest, runs, rfl, halone, ⟨result, hending, rfl⟩, ?_, ?_, ?_⟩
  . rw [journal_ofResult]
    exact hsegments.exists_under
  . rw [journal_ofResult]
    exact hskipped
  . rw [journal_ofResult, hkeys]
    refine (hsegments.inOrder hexecuted).imp_of_mem ?_
    intro first second hfirst _ hordered key later hsublist h
    obtain ⟨before, after, heq, hbefore, hafter⟩ := List.sublist_append_iff.mp hsublist
    obtain rfl | ⟨init, last, rfl⟩ := List.eq_nil_or_concat after
    . rw [List.append_nil] at heq
      exact hordered key later (heq ▸ hbefore) h
    . -- A later key that is among the rest has nothing noted under it.
      have hlast : later = last := by
        have hgetLast := congrArg List.getLast? heq
        simpa using hgetLast
      exact hskipped first hfirst later (hafter.subset (by simp [hlast])) h.1

end Task

namespace Plan

/-- The root fields of a plan, in the order in which their keys are first seen. -/
def rootFields (plan : Plan) (setting : Setting) (root : Json) : Ordered Task :=
  Task.ofSelection setting plan.depth plan.rootType plan.selection root []

/--
The root fields of a mutation run one after another in the order in which their keys are first seen,
up to the first one whose failure leaves the root, however long the resolvers make it wait.
-/
theorem mutation_in_turn {plan : Plan} (hserial : plan.isSerial = true) (hfree : plan.PanicFree)
    {provided bindings : Json.Members}
    (hcoerce : VariableSpec.coerceAll plan.specs provided = .ok bindings) (context root : Json)
    : let fields := plan.rootFields ⟨bindings, context⟩ root
      fields.keys = ((SelectionItem.admittedAll bindings plan.selection).map (·.head.key)).eraseDups
        ∧ (∃ executed rest runs,
            (plan.answer provided context root).InTurn fields executed rest runs)
        ∧ ∀ delays, ∃ executed rest runs,
          (plan.executeDelayed delays ⟨bindings, context⟩ root).InTurn
            (fields.mapValues (·.delayed delays)) executed rest runs := by
  intro fields
  let setting : Setting := ⟨bindings, context⟩
  have hbelongs : ∀ field ∈ fields, field.2.Belongs [.key field.1] :=
    fun field hfield => Task.belongs_field setting hfield
  have hnodup : fields.keys.Nodup := Task.nodup_keys_ofSelection (Nat.le_refl plan.depth)
  have hpanicFree : Task.PanicFreeAll (fields.map Prod.snd) :=
    Task.panicFree_ofSelection setting plan.depth plan.rootType hfree root []
  have hplan : Task.ofPlan plan setting root
      = .series (.object fields.keys) [] (fields.map Prod.snd) :=
    if_pos hserial
  refine ⟨Task.keys_ofSelection setting (Nat.le_refl plan.depth) plan.rootType root [], ?_, ?_⟩
  . have hanswer : plan.answer provided context root = plan.execute setting root := by
      unfold answer
      rw [hcoerce]
    rw [hanswer, execute, hplan]
    exact Task.inTurn_series hpanicFree hbelongs hnodup
  . -- Delays change neither the keys nor where resolvers stand.
    intro delays
    have hkeys : (fields.mapValues (·.delayed delays)).keys = fields.keys := by
      simp [Ordered.mapValues, Ordered.keys]
    have htasks : (fields.mapValues (·.delayed delays)).map Prod.snd
        = Task.delayedAll delays (fields.map Prod.snd) := by
      simp [Ordered.mapValues, Task.delayedAll_eq_map]
    unfold executeDelayed
    rw [hplan, Task.delayed, ← htasks, ← hkeys]
    refine Task.inTurn_series ?_ ?_ (hkeys ▸ hnodup)
    . rw [htasks]
      exact Task.panicFree_delayedAll delays _ hpanicFree
    . intro field hfield
      obtain ⟨⟨key, task⟩, hmem, rfl⟩ := List.mem_map.mp hfield
      exact Task.belongs_delayed delays task (hbelongs _ hmem)

end Plan

namespace Library

def serialPlan : Plan :=
  ⟨.mutation, none, "Query", [],
    [ .field { authorsField authors .async with key := "first" } (some [.field nameField none]),
      .field { authorsField authors .sync with key := "second" } (some [.field nameField none])
    ]⟩

theorem panicFree_serialPlan : serialPlan.PanicFree := by
  have hheads : serialPlan.heads
      = [ { authorsField authors .async with key := "first" }, nameField,
          { authorsField authors .sync with key := "second" }, nameField] := rfl
  intro head hhead
  simp only [hheads, List.mem_cons, List.not_mem_nil, or_false] at hhead
  obtain rfl | rfl | rfl | rfl := hhead
  . exact panicFree_authorsField authors .async "first"
  . exact panicFree_nameField
  . exact panicFree_authorsField authors .sync "second"
  . exact panicFree_nameField

theorem mutation_in_turn_authors
    : let fields := serialPlan.rootFields ⟨[], .null⟩ .null
      serialPlan.isSerial = true ∧ serialPlan.PanicFree
        ∧ VariableSpec.coerceAll serialPlan.specs [] = .ok []
        ∧ fields.keys = ["first", "second"]
        ∧ ∃ executed rest runs,
            (serialPlan.answer [] .null .null).InTurn fields executed rest runs := by
  intro fields
  have hserial : serialPlan.isSerial = true := rfl
  obtain ⟨hkeys, hanswer, _⟩ :=
    Plan.mutation_in_turn hserial panicFree_serialPlan rfl .null .null
  exact ⟨hserial, panicFree_serialPlan, rfl, hkeys, hanswer⟩

end Library

end GraphGateway

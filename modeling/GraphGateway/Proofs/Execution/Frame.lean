import GraphGateway.Proofs.Execution.Accounts
import GraphGateway.Proofs.Execution.Delays
import GraphGateway.Proofs.Execution.Sites

/-!
This module contains that a run does not look at the journal that it adds to, and that all it notes
of resolvers is at or below the paths at which they stand in the task.
-/

namespace GraphGateway

def Run.Result.after {α : Type} (before : Journal)
    : EStateM.Result Panic Journal α → EStateM.Result Panic Journal α
  | .ok a journal => .ok a (before ++ journal)
  | .error panic journal => .error panic (before ++ journal)

/-- A part of a run that goes the same way after any journal. -/
def Run.Framed {α : Type} (x : Run α) : Prop :=
  ∀ before journal : Journal, x (before ++ journal) = Run.Result.after before (x journal)

namespace Run

variable {α β : Type}

theorem framed_pure (a : α) : Framed (pure a) :=
  fun _ _ => rfl

theorem Framed.bind {x : Run α} {f : α → Run β} (hx : Framed x) (hf : ∀ a, Framed (f a))
    : Framed (x >>= f) := by
  intro before journal
  simp only [Bind.bind, EStateM.bind, hx before journal]
  cases x journal with
  | ok a after => exact hf a before after
  | error panic after => rfl

end Run

namespace Task

open Run (Framed framed_pure)

theorem framed_enter (entry : JournalEntry) : Framed (enter entry) := by
  intro before journal
  rw [enter_apply, enter_apply, Journal.append_assoc]
  rfl

theorem framed_finish (site : Site) (call : Call) (reply : Reply)
    : Framed (finish site call reply) := by
  refine (framed_enter (.finished site call reply)).bind fun _ => ?_
  split
  . exact fun _ _ => rfl
  . exact framed_pure ()

theorem framed_catchFailure (site : Site) (nonNull : Bool) (result : Settled)
    : Framed (catchFailure site nonNull result) := by
  intro before journal
  rw [catchFailure_apply, catchFailure_apply, Journal.append_assoc]
  rfl

mutual

theorem framed_poll (task : Task) : Framed (poll task) := by
  match task with
  | settled result => exact framed_pure _
  | invoke site call reply next =>
    unfold poll
    refine (framed_enter _).bind fun _ => ?_
    split
    . exact (framed_finish site call reply).bind fun _ => framed_poll next
    . exact framed_pure _
  | await 0 site call reply next =>
    unfold poll
    exact (framed_finish site call reply).bind fun _ => framed_poll next
  | await (left + 1) site call reply next => exact framed_pure _
  | join container tasks =>
    unfold poll
    exact (framed_pollAll tasks).bind fun _ => framed_pure _
  | series container done tasks =>
    unfold poll
    exact framed_pollSeries container done tasks
  | position site nonNull task =>
    unfold poll
    refine (framed_poll task).bind fun polled => ?_
    split
    . exact (framed_catchFailure site nonNull _).bind fun _ => framed_pure _
    . exact framed_pure _

theorem framed_pollAll (tasks : List Task) : Framed (pollAll tasks) := by
  match tasks with
  | [] => exact framed_pure _
  | task :: rest =>
    unfold pollAll
    exact (framed_poll task).bind fun _ => (framed_pollAll rest).bind fun _ => framed_pure _

theorem framed_pollSeries (container : Container) (done : List Json) (tasks : List Task)
    : Framed (pollSeries container done tasks) := by
  match tasks with
  | [] => exact framed_pure _
  | task :: rest =>
    unfold pollSeries
    refine (framed_poll task).bind fun polled => ?_
    split
    . exact framed_pollSeries container _ rest
    . exact framed_pure _
    . exact framed_pure _

end

theorem framed_drive (task : Task) : Framed (drive task) := by
  intro before journal
  fun_induction drive task journal with
  | case1 task journal panic after hpoll =>
    have hframed := framed_poll task before journal
    rw [hpoll] at hframed
    exact drive_of_poll_error hframed
  | case2 task journal next after hpoll result hsettled =>
    have hframed := framed_poll task before journal
    rw [hpoll] at hframed
    rw [drive_of_poll hframed, hsettled]
    rfl
  | case3 task journal next after hpoll hsettled hless ih =>
    have hframed := framed_poll task before journal
    rw [hpoll] at hframed
    rw [drive_of_poll hframed, hsettled]
    exact ih

theorem drive_eq_after (task : Task) (before : Journal)
    : drive task before = Run.Result.after before (drive task .empty) := by
  rw [← framed_drive task, Journal.append_empty]

mutual

def Belongs (path : Path) : Task → Prop
  | settled _ => True
  | invoke site _ _ next | await _ site _ _ next => AtOrBelow path site.path ∧ next.Belongs path
  | join _ tasks | series _ _ tasks => BelongAll path tasks
  | position _ _ task => task.Belongs path

def BelongAll (path : Path) : List Task → Prop
  | [] => True
  | task :: rest => task.Belongs path ∧ BelongAll path rest

end

theorem belongAll_iff (path : Path) (tasks : List Task)
    : BelongAll path tasks ↔ ∀ task ∈ tasks, task.Belongs path := by
  induction tasks with
  | nil => simp [BelongAll]
  | cons task rest ih => simp [BelongAll, ih]

end Task

def JournalEntry.site : JournalEntry → Site
  | invoked site _ => site
  | finished site _ _ => site

def Journal.Belongs (path : Path) (journal : Journal) : Prop :=
  ∀ entry ∈ journal.entries, AtOrBelow path entry.site.path

namespace Journal

variable {path : Path}

theorem belongs_empty : empty.Belongs path := by
  simp [Belongs]

theorem Belongs.append {first second : Journal} (h : first.Belongs path) (h' : second.Belongs path)
    : (first ++ second).Belongs path :=
  List.forall_mem_append.mpr ⟨h, h'⟩

theorem Belongs.of_perm {first second : Journal} (h : second.Belongs path)
    (hperm : first.Perm second)
    : first.Belongs path :=
  fun entry hentry => h entry (hperm.entries.mem_iff.mp hentry)

end Journal

namespace Task

variable {path : Path}

theorem belongs_kept (nonNull : Bool) (result : Settled) : (kept nonNull result).Belongs path := by
  unfold kept
  split
  . exact Journal.belongs_empty
  . split
    . exact Journal.belongs_empty
    . simp [Journal.Belongs]

mutual

theorem belongs_journal (task : Task) (h : task.Belongs path) : task.journal.Belongs path := by
  match task with
  | settled result => exact Journal.belongs_empty
  | invoke site call reply next =>
    refine .append ?_ (belongs_journal next h.2)
    simpa [Journal.Belongs, JournalEntry.site] using h.1
  | await left site call reply next =>
    refine .append ?_ (belongs_journal next h.2)
    simpa [Journal.Belongs, JournalEntry.site] using h.1
  | join container tasks => exact belongs_journalAll tasks h
  | series container done tasks => exact belongs_journalSeries tasks h
  | position site nonNull task => exact (belongs_journal task h).append (belongs_kept nonNull _)

theorem belongs_journalAll (tasks : List Task) (h : BelongAll path tasks)
    : (journalAll tasks).Belongs path := by
  match tasks with
  | [] => exact Journal.belongs_empty
  | task :: rest => exact (belongs_journal task h.1).append (belongs_journalAll rest h.2)

theorem belongs_journalSeries (tasks : List Task) (h : BelongAll path tasks)
    : (journalSeries tasks).Belongs path := by
  match tasks with
  | [] => exact Journal.belongs_empty
  | task :: rest =>
    rw [journalSeries]
    split
    . exact (belongs_journal task h.1).append (belongs_journalSeries rest h.2)
    . exact belongs_journal task h.1

end

theorem belongs_drive {task : Task} (hfree : task.PanicFree) (h : task.Belongs path)
    {result : Settled} {own : Journal} (hdrive : drive task .empty = .ok result own)
    : own.Belongs path := by
  obtain ⟨after, hafter, hperm⟩ := drive_eq task hfree .empty
  cases hdrive.symm.trans hafter
  rw [Journal.empty_append] at hperm
  exact (belongs_journal task h).of_perm hperm

section Unfolding

variable {setting : Setting} {object : ObjectTasks} {children : List SelectionItem}

theorem belongs_complete
    (h : ∀ name v place, AtOrBelow path place → (object name children v place).Belongs path)
    (type : OutputType) {site : Site} (hsite : AtOrBelow path site.path) (v : Json)
    : (complete object children type site v).Belongs path := by
  induction type generalizing site v with
  | scalar s =>
    unfold complete
    split
    . trivial
    . split <;> trivial
  | object name =>
    unfold complete
    split
    . trivial
    . exact h name v site.path hsite
  | list inner ih =>
    unfold complete
    split
    . trivial
    . next items =>
      apply (belongAll_iff path _).mpr
      intro task hmem
      obtain ⟨i, hi, rfl⟩ := List.mem_mapIdx.mp hmem
      exact ih (hsite.trans (List.prefix_append _ _)) items[i]
    . trivial
  | nonNull inner ih => exact ih hsite v

theorem belongs_resolve {group : FieldGroup}
    (h : ∀ name v place, AtOrBelow path place → (object name group.children v place).Belongs path)
    (type : String) (parent : Json) {site : Site} (hsite : AtOrBelow path site.path)
    : (resolve setting object type parent group site).Belongs path := by
  have hcomplete := belongs_complete h group.first.head.output hsite
  unfold resolve
  dsimp only
  split
  . trivial
  . split
    . trivial
    . exact hcomplete _
  . split
    . trivial
    . refine ⟨hsite, ?_⟩
      split
      . exact hcomplete _
      . trivial
      . trivial

theorem belongs_ofSelection (setting : Setting) (levels : Nat) (type : String)
    (items : List SelectionItem) (parent : Json) {place : Path} (hplace : AtOrBelow path place)
    : BelongAll path ((ofSelection setting levels type items parent place).map Prod.snd) := by
  induction levels generalizing type items parent place with
  | zero => trivial
  | succ levels ih =>
    apply (belongAll_iff path _).mpr
    unfold ofSelection
    intro task hmem
    simp only [List.mem_map] at hmem
    obtain ⟨_, ⟨⟨key, group⟩, _, rfl⟩, rfl⟩ := hmem
    refine belongs_resolve ?_ type parent (hplace.trans (List.prefix_append _ _))
    intro name v place hplace
    exact ih name group.children v hplace

theorem belongs_field (setting : Setting) {levels : Nat} {type key : String}
    {items : List SelectionItem} {parent : Json} {place : Path} {task : Task}
    (h : (key, task) ∈ ofSelection setting levels type items parent place)
    : task.Belongs (place ++ [.key key]) := by
  cases levels with
  | zero => cases h
  | succ levels =>
    unfold ofSelection at h
    obtain ⟨⟨other, group⟩, _, heq⟩ := List.mem_map.mp h
    cases heq
    refine belongs_resolve ?_ type parent (List.prefix_refl _)
    intro name v place hplace
    exact belongs_ofSelection setting levels name group.children v hplace

end Unfolding

mutual

theorem belongs_delayed (delays : Site → Call → Nat) (task : Task) (h : task.Belongs path)
    : (task.delayed delays).Belongs path := by
  match task with
  | settled result => trivial
  | invoke site call reply next => exact ⟨h.1, belongs_delayed delays next h.2⟩
  | await left site call reply next => exact ⟨h.1, belongs_delayed delays next h.2⟩
  | join container tasks => exact belongs_delayedAll delays tasks h
  | series container done tasks => exact belongs_delayedAll delays tasks h
  | position site nonNull task => exact belongs_delayed delays task h

theorem belongs_delayedAll (delays : Site → Call → Nat) (tasks : List Task)
    (h : BelongAll path tasks)
    : BelongAll path (delayedAll delays tasks) := by
  match tasks with
  | [] => trivial
  | task :: rest => exact ⟨belongs_delayed delays task h.1, belongs_delayedAll delays rest h.2⟩

end

end Task

end GraphGateway

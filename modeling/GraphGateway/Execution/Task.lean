import GraphGateway.Execution.Failure

/-!
This module contains tasks: what is left to do until the value at a position of a response is
settled, and the journal that is kept on the way.
-/

namespace GraphGateway

inductive JournalEntry where
  | invoked (site : Site) (call : Call)
  | finished (site : Site) (call : Call) (reply : Reply)

structure Journal where
  failures : List Failure
  entries : List JournalEntry

namespace Journal

def empty : Journal :=
  ⟨[], []⟩

def addFailure (failure : Failure) (journal : Journal) : Journal :=
  { journal with failures := journal.failures ++ [failure] }

def addEntry (entry : JournalEntry) (journal : Journal) : Journal :=
  { journal with entries := journal.entries ++ [entry] }

def notes (journal : Journal) : List String :=
  journal.entries.filterMap fun
    | .finished _ _ reply => reply.note
    | .invoked _ _ => none

def resolverErrors (journal : Journal) : List (String × FieldError) :=
  journal.entries.filterMap fun
    | .finished _ call reply =>
      match reply.outcome with
      | .error e => some (call.coordinate, e)
      | _ => none
    | .invoked _ _ => none

end Journal

inductive Container where
  | array
  | object (keys : List String)
deriving DecidableEq, Repr

def Container.assemble (container : Container) (values : List Json) : Json :=
  match container with
  | array => .array values
  | object keys => .object (keys.zip values)

abbrev Settled := Except Failure Json

/--
A task is settled, or has a resolver that is still to be invoked or waited for and then goes on with
the next task. The tasks of a container go on side by side or, in a series, one after another; a
position catches the failure of its task unless it must not be null.
-/
inductive Task where
  | settled (result : Settled)
  | invoke (site : Site) (call : Call) (reply : Reply) (next : Task)
  | await (left : Nat) (site : Site) (call : Call) (reply : Reply) (next : Task)
  | join (container : Container) (tasks : List Task)
  | series (container : Container) (done : List Json) (tasks : List Task)
  | position (site : Site) (nonNull : Bool) (task : Task)

namespace Task

def settled? : Task → Option Settled
  | settled result => some result
  | _ => none

def firstFailure (results : List Settled) : Except Failure (List Json) :=
  results.mapM fun result => result

mutual

def weight : Task → Nat
  | settled _ => 0
  | invoke _ _ reply next => reply.delay + 1 + next.weight
  | await left _ _ _ next => left + 1 + next.weight
  | join _ tasks => 1 + weightAll tasks
  | series _ _ tasks => 1 + weightAll tasks
  | position _ _ task => 1 + task.weight

def weightAll : List Task → Nat
  | [] => 0
  | task :: rest => task.weight + weightAll rest

end

end Task

end GraphGateway

import GraphGateway.Execution.Schedule
import GraphGateway.Execution.Unfold
import GraphGateway.Response

/-!
This module contains the execution of a plan for one request.
-/

namespace GraphGateway

/-- What came out of a run: the panic that ended it or a response, and the journal. -/
structure Execution where
  outcome : Except Panic Response
  journal : Journal

namespace Execution

/-- A failure that leaves the root comes last, and the data is null. -/
def ofSettled (result : Settled) (journal : Journal) : Execution :=
  match result with
  | .ok data => ⟨.ok ⟨some data, journal.failures.map .ofFailure⟩, journal⟩
  | .error failure =>
    ⟨.ok ⟨some .null, (journal.failures ++ [failure]).map .ofFailure⟩, journal⟩

def ofResult (result : EStateM.Result Panic Journal Settled) : Execution :=
  match result with
  | .ok result journal => ofSettled result journal
  | .error panic journal => ⟨.error panic, journal⟩

end Execution

namespace Plan

def execute (plan : Plan) (setting : Setting) (root : Json) : Execution :=
  .ofResult ((Task.ofPlan plan setting root).drive .empty)

/-- Runs a plan depth first, as if no resolver ever made it wait. -/
def executeAtOnce (plan : Plan) (setting : Setting) (root : Json) : Execution :=
  .ofResult ((Task.ofPlan plan setting root).run .empty)

/-- Coerces the variables and runs the plan; without them there is no data. -/
def answer (plan : Plan) (bindings : Json.Members) (context root : Json) : Execution :=
  match VariableSpec.coerceAll plan.specs bindings with
  | .ok coerced => plan.execute ⟨coerced, context⟩ root
  | .error faults => ⟨.ok (.ofErrors (faults.map .ofVariableFault)), .empty⟩

end Plan

end GraphGateway

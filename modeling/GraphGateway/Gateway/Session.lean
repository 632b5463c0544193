import GraphGateway.Gateway.Basic

/-!
This module contains sessions: steps that are done one after the other by two gateways, which share
their cache and counters and may be the same. The cache settles after every step.
-/

namespace GraphGateway

inductive SessionStep where
  | execute (request : Gateway.Request)
  | prepare (text : String)
  | lookup (text : String)
  | contains (text : String)
  | clear

inductive StepAnswer where
  | executed (answer : Gateway.Answer)
  | prepared (result : Except Gateway.PrepareError PreparedPlan)
  | found (plan : Option PreparedPlan)
  | contained (yes : Bool)
  | cleared

structure Session where
  first : Gateway
  second : Gateway

namespace Session

def gateway (session : Session) (second : Bool) : Gateway :=
  if second then session.second else session.first

def perform (session : Session) (second : Bool) (step : SessionStep) : GatewayM StepAnswer := do
  let gateway := session.gateway second
  match step with
  | .execute request => return .executed (← gateway.answer request)
  | .prepare text => return .prepared (← gateway.prepare text)
  | .lookup text => return .found (← Gateway.lookup text)
  | .contains text => return .contained ((← get).cache.contains text)
  | .clear =>
    modify fun state => { state with cache := state.cache.clear }
    return .cleared

def step (session : Session) (second : Bool) (step : SessionStep) : GatewayM StepAnswer := do
  let answer ← session.perform second step
  modify fun state => { state with cache := state.cache.settle }
  return answer

def run (session : Session) (steps : List (Bool × SessionStep))
    : GatewayM (List StepAnswer) :=
  steps.mapM fun (second, step) => session.step second step

end Session

end GraphGateway

import GraphGateway.Gateway.Basic
import GraphGateway.Proofs.Gateway.CacheContents

/-!
This module contains what a gateway answers when it asks no cache, and that a gateway whose cache
agrees with its reader and compiler gives the same answers and keeps such a cache.
-/

namespace GraphGateway
namespace Gateway

theorem bind_apply {α β : Type} (x : GatewayM α) (f : α → GatewayM β) (state : State)
    : (x >>= f) state = f (x state).1 (x state).2 := rfl

theorem pure_apply {α : Type} (a : α) (state : State)
    : (pure a : GatewayM α) state = (a, state) := rfl

theorem emit_apply (event : Event) (state : State)
    : emit event state = ((), { state with events := state.events ++ [event] }) := rfl

theorem emitAll_apply {α : Type} (event : α → Event) (xs : List α) (state : State)
    : (forIn xs PUnit.unit fun x _ => do
        emit (event x)
        return .yield PUnit.unit : GatewayM PUnit) state
        = ((), { state with events := state.events ++ xs.map event }) := by
  induction xs generalizing state with
  | nil => simp [pure_apply]
  | cons x rest ih =>
    rw [List.forIn_cons, bind_apply]
    refine (ih _).trans ?_
    simp [bind_apply, pure_apply, emit_apply]

def documentOf (gateway : Gateway) (text : String) : Except PrepareError Document :=
  match gateway.parse text with
  | .ok result => result.mapError .syntaxError
  | .error panic => .error (.panic panic)

def planOfDocument (gateway : Gateway) (document : Document) : Except PrepareError Plan :=
  match gateway.compile gateway.schema document with
  | .ok result => result.mapError .compileErrors
  | .error panic => .error (.panic panic)

def planOf (gateway : Gateway) (text : String) : Except PrepareError Plan := do
  gateway.planOfDocument (← gateway.documentOf text)

theorem planOf_ofSchema {schema : Schema} {text : String} {document : Document} {plan : Plan}
    (hread : Document.ofText text = .ok document)
    (hcompile : Plan.compile schema document = .ok plan) (flight : Bool)
    : (ofSchema schema flight).planOf text = .ok plan := by
  unfold planOf documentOf ofSchema
  dsimp only
  rw [hread]
  dsimp only [Except.mapError, bind, Except.bind]
  unfold planOfDocument
  dsimp only
  rw [hcompile]
  rfl

theorem parseText_value (gateway : Gateway) (text : String) (state : State)
    : (gateway.parseText text state).1 = gateway.documentOf text := by
  unfold parseText documentOf
  rcases gateway.parse text with _ | _ | _ <;> rfl

theorem parseText_cache (gateway : Gateway) (text : String) (state : State)
    : (gateway.parseText text state).2.cache = state.cache := by
  unfold parseText
  rcases gateway.parse text with _ | _ | _ <;> rfl

theorem compileDocument_value (gateway : Gateway) (document : Document) (state : State)
    : (gateway.compileDocument document state).1.map PreparedPlan.plan
        = gateway.planOfDocument document := by
  unfold compileDocument planOfDocument
  rcases gateway.compile gateway.schema document with _ | _ | _ <;> rfl

theorem compileDocument_cache (gateway : Gateway) (document : Document) (state : State)
    : (gateway.compileDocument document state).2.cache = state.cache := by
  unfold compileDocument
  rcases gateway.compile gateway.schema document with _ | _ | _ <;> rfl

theorem compileText_value (gateway : Gateway) (text : String) (state : State)
    : (gateway.compileText text state).1.map PreparedPlan.plan = gateway.planOf text := by
  unfold compileText planOf
  rw [bind_apply, parseText_value]
  cases gateway.documentOf text with
  | error e => rfl
  | ok document => exact compileDocument_value gateway document _

theorem compileText_cache (gateway : Gateway) (text : String) (state : State)
    : (gateway.compileText text state).2.cache = state.cache := by
  unfold compileText
  rw [bind_apply]
  cases (gateway.parseText text state).1 with
  | error e => exact parseText_cache gateway text state
  | ok document =>
    exact (compileDocument_cache gateway document _).trans (parseText_cache gateway text state)

theorem store_cache (gateway : Gateway) (text : String) (prepared : PreparedPlan) (state : State)
    : (gateway.store text prepared state).2.cache = state.cache.store text prepared := by
  unfold store
  cases gateway.singleFlight <;> rfl

/-- Every plan in a cache is the one that its text compiles to. -/
def Agrees (gateway : Gateway) (cache : PlanCache PreparedPlan) : Prop :=
  ∀ text prepared, (text, prepared) ∈ cache.all → gateway.planOf text = .ok prepared.plan

theorem agrees_empty (gateway : Gateway) (retention : Retention)
    : gateway.Agrees (.empty retention) := by
  intro text prepared h
  cases h

theorem Agrees.of_loses {gateway : Gateway} {before after : PlanCache PreparedPlan}
    (h : gateway.Agrees before) (hloses : before.Loses after)
    : gateway.Agrees after := by
  intro text prepared hmem
  exact h text prepared (hloses hmem)

theorem Agrees.store {gateway : Gateway} {cache : PlanCache PreparedPlan} {text : String}
    {prepared : PreparedPlan} (h : gateway.Agrees cache)
    (hplan : gateway.planOf text = .ok prepared.plan)
    : gateway.Agrees (cache.store text prepared) := by
  intro other kept hmem
  rcases PlanCache.mem_all_store hmem with hmem | heq
  . exact h other kept hmem
  . cases heq
    exact hplan

theorem agrees_lookup {gateway : Gateway} {state : State} (h : gateway.Agrees state.cache)
    (text : String)
    : gateway.Agrees (lookup text state).2.cache :=
  h.of_loses (PlanCache.loses_lookup state.cache text)

theorem planOf_of_lookup {gateway : Gateway} {state : State} (h : gateway.Agrees state.cache)
    {text : String} {prepared : PreparedPlan} (hfound : (lookup text state).1 = some prepared)
    : gateway.planOf text = .ok prepared.plan :=
  h text prepared (PlanCache.mem_all_of_get? hfound)

def miss (gateway : Gateway) (text : String) : GatewayM Unit := do
  count fun counters => { counters with cacheMisses := counters.cacheMisses + 1 }
  emit .planCacheMiss
  if gateway.singleFlight then discard (lookup text)

def compileAndStore (gateway : Gateway) (text : String)
    : GatewayM (Except PrepareError PreparedPlan) := do
  match ← gateway.compileText text with
  | .ok plan =>
    gateway.store text plan
    return .ok plan
  | .error e => return .error e

theorem prepare_of_miss (gateway : Gateway) {text : String} {state : State}
    (h : (lookup text state).1 = none)
    : gateway.prepare text state
        = (do gateway.miss text; gateway.compileAndStore text) (lookup text state).2 := by
  unfold prepare miss
  rw [bind_apply, h]
  cases gateway.singleFlight <;> rfl

theorem loses_miss (gateway : Gateway) (text : String) (state : State)
    : state.cache.Loses (gateway.miss text state).2.cache := by
  unfold miss
  cases gateway.singleFlight
  . exact List.Subset.refl _
  . exact PlanCache.loses_lookup state.cache text

theorem compileAndStore_agrees (gateway : Gateway) (text : String) (state : State)
    (h : gateway.Agrees state.cache)
    : (gateway.compileAndStore text state).1.map PreparedPlan.plan = gateway.planOf text
        ∧ gateway.Agrees (gateway.compileAndStore text state).2.cache := by
  have hvalue := gateway.compileText_value text state
  have hafter : gateway.Agrees (gateway.compileText text state).2.cache := by
    rw [compileText_cache]
    exact h
  unfold compileAndStore
  rw [bind_apply]
  cases hresult : (gateway.compileText text state).1 with
  | error e =>
    rw [hresult] at hvalue
    exact ⟨hvalue, hafter⟩
  | ok prepared =>
    rw [hresult] at hvalue
    refine ⟨hvalue, ?_⟩
    dsimp
    rw [bind_apply]
    apply Agrees.of_loses (hafter.store hvalue.symm)
    rw [← store_cache gateway]
    exact List.Subset.refl _

theorem prepare_agrees (gateway : Gateway) (text : String) (state : State)
    (h : gateway.Agrees state.cache)
    : (gateway.prepare text state).1.map PreparedPlan.plan = gateway.planOf text
        ∧ gateway.Agrees (gateway.prepare text state).2.cache := by
  have hlookup := agrees_lookup h text
  cases hfound : (lookup text state).1 with
  | some prepared =>
    unfold prepare
    rw [bind_apply, hfound, planOf_of_lookup h hfound]
    exact ⟨rfl, hlookup⟩
  | none =>
    rw [gateway.prepare_of_miss hfound, bind_apply]
    apply compileAndStore_agrees
    exact hlookup.of_loses (gateway.loses_miss text _)

def answerOfPlan (plan : Plan) (request : Request) : Answer :=
  let execution := plan.answer request.bindings request.context request.root
  match execution.outcome with
  | .ok response => ⟨response, execution.journal⟩
  | .error panic => ⟨.ofErrors [.ofPanic panic], execution.journal⟩

theorem runPlan_value (plan : Plan) (request : Request) (state : State)
    : (runPlan plan request state).1 = answerOfPlan plan request := by
  unfold runPlan answerOfPlan
  dsimp
  rw [bind_apply]
  cases (plan.answer request.bindings request.context request.root).outcome with
  | error panic => rfl
  | ok response =>
    dsimp
    split <;> rfl

theorem runPlan_cache (plan : Plan) (request : Request) (state : State)
    : (runPlan plan request state).2.cache = state.cache := by
  unfold runPlan
  dsimp
  rw [bind_apply, emitAll_apply]
  cases (plan.answer request.bindings request.context request.root).outcome with
  | error panic => rfl
  | ok response =>
    dsimp
    split <;> rfl

def answerOf (gateway : Gateway) (request : Request) : Answer :=
  match gateway.planOf request.text with
  | .ok plan => answerOfPlan plan request
  | .error e => ⟨e.toResponse, .empty⟩

theorem answer_agrees (gateway : Gateway) (request : Request) (state : State)
    (h : gateway.Agrees state.cache)
    : (gateway.answer request state).1 = gateway.answerOf request
        ∧ gateway.Agrees (gateway.answer request state).2.cache := by
  unfold answer answerOf
  rw [bind_apply, bind_apply, bind_apply]
  generalize hentered : (emit (.queryReceived request.text.utf8ByteSize) _).2 = entered
  have hcache : entered.cache = state.cache := by
    rw [← hentered]
    rfl
  rw [← hcache] at h
  obtain ⟨hvalue, hafter⟩ := gateway.prepare_agrees request.text entered h
  cases hprepared : (gateway.prepare request.text entered).1 with
  | error e =>
    rw [hprepared] at hvalue
    rw [← hvalue]
    exact ⟨rfl, hafter⟩
  | ok prepared =>
    rw [hprepared] at hvalue
    rw [← hvalue]
    refine ⟨runPlan_value prepared.plan request _, ?_⟩
    apply Agrees.of_loses hafter
    unfold PlanCache.Loses
    rw [runPlan_cache]
    exact List.Subset.refl _

def freshAnswer (gateway : Gateway) (retention : Retention) (request : Request) : Answer :=
  (gateway.answer request (.initial retention)).1

theorem freshAnswer_eq (gateway : Gateway) (retention : Retention) (request : Request)
    : gateway.freshAnswer retention request = gateway.answerOf request := by
  apply (gateway.answer_agrees request (.initial retention) _).1
  apply agrees_empty

end Gateway
end GraphGateway

import GraphGateway.Gateway.Session
import GraphGateway.Library.Schema
import GraphGateway.Proofs.Gateway.Preparation
import Mathlib.Data.List.Forall2

/-!
This module contains the proof that a plan cache cannot be told from the answers of a
session: every request is answered as by a gateway that has done nothing before it, whatever
was done and lost before.
-/

namespace GraphGateway
namespace Session

open Gateway (State)

/-- The two gateways answer over one schema with one reader and one compiler. -/
def SharesFront (session : Session) : Prop :=
  session.first.schema = session.second.schema ∧ session.first.parse = session.second.parse
    ∧ session.first.compile = session.second.compile

theorem planOf_gateway {session : Session} (h : session.SharesFront) (second : Bool)
    : (session.gateway second).planOf = session.first.planOf := by
  obtain ⟨hschema, hparse, hcompile⟩ := h
  cases second with
  | false => rfl
  | true =>
    funext text
    unfold gateway Gateway.planOf Gateway.planOfDocument Gateway.documentOf
    simp only [if_true, hschema, hparse, hcompile]

theorem agrees_gateway {session : Session} (h : session.SharesFront) (second : Bool)
    (cache : PlanCache PreparedPlan)
    : (session.gateway second).Agrees cache ↔ session.first.Agrees cache := by
  unfold Gateway.Agrees
  rw [planOf_gateway h]

/--
The histories of a session: its steps are done one after the other, and after every step the cache
may lose any of its entries.
-/
inductive History (session : Session)
    : State → List (Bool × SessionStep) → List StepAnswer → State → Prop where
  | nil (state : State) : History session state [] [] state
  | cons {state middle last : State} {second : Bool} {step : SessionStep} {answer : StepAnswer}
      {cache : PlanCache PreparedPlan} {steps : List (Bool × SessionStep)}
      {answers : List StepAnswer}
      (hstep : session.perform second step state = (answer, middle))
      (hloses : middle.cache.Loses cache)
      (hrest : History session { middle with cache } steps answers last)
      : History session state ((second, step) :: steps) (answer :: answers) last

theorem run_cons (session : Session) (second : Bool) (step : SessionStep)
    (rest : List (Bool × SessionStep)) (state : State)
    : session.run ((second, step) :: rest) state
        =
      ((session.step second step state).1
          :: (session.run rest (session.step second step state).2).1,
        (session.run rest (session.step second step state).2).2) := by
  unfold run
  rw [List.mapM_cons]
  rfl

theorem run_append (session : Session) (first last : List (Bool × SessionStep)) (state : State)
    : (session.run (first ++ last) state).2
        = (session.run last (session.run first state).2).2 := by
  induction first generalizing state with
  | nil => rfl
  | cons head rest ih =>
    obtain ⟨second, step⟩ := head
    rw [List.cons_append, run_cons, run_cons]
    exact ih _

theorem run_history (session : Session) (steps : List (Bool × SessionStep)) (state : State)
    : session.History state steps (session.run steps state).1 (session.run steps state).2 := by
  induction steps generalizing state with
  | nil => exact .nil state
  | cons head rest ih =>
    obtain ⟨second, step⟩ := head
    rw [run_cons]
    -- what a cache drops when it settles is one of the losses that a history allows
    apply History.cons rfl (PlanCache.loses_settle _)
    exact ih _

/-- Every request is answered as by a gateway that has done nothing yet. -/
def Transparent (session : Session) (retention : Retention)
    : List (Bool × SessionStep) → List StepAnswer → Prop :=
  List.Forall₂ fun (second, step) answer =>
    ∀ request, step = .execute request →
      answer = .executed ((session.gateway second).freshAnswer retention request)

theorem perform_agrees {session : Session} (h : session.SharesFront) (second : Bool)
    (step : SessionStep) {state : State} (hagrees : session.first.Agrees state.cache)
    : session.first.Agrees (session.perform second step state).2.cache
        ∧ ∀ request, step = .execute request →
            (session.perform second step state).1
              = .executed ((session.gateway second).answerOf request) := by
  rw [← agrees_gateway h second] at hagrees ⊢
  cases step with
  | execute request =>
    have hanswer := (session.gateway second).answer_agrees request state hagrees
    refine ⟨hanswer.2, ?_⟩
    intro other heq
    cases heq
    exact congrArg StepAnswer.executed hanswer.1
  | prepare text =>
    refine ⟨((session.gateway second).prepare_agrees text state hagrees).2, ?_⟩
    intro other heq
    cases heq
  | lookup text =>
    refine ⟨Gateway.agrees_lookup hagrees text, ?_⟩
    intro other heq
    cases heq
  | contains text =>
    refine ⟨hagrees, ?_⟩
    intro other heq
    cases heq
  | clear =>
    refine ⟨hagrees.of_loses (PlanCache.loses_clear _), ?_⟩
    intro other heq
    cases heq

theorem agrees_run {session : Session} (h : session.SharesFront)
    (steps : List (Bool × SessionStep)) {state : State}
    (hagrees : session.first.Agrees state.cache)
    : session.first.Agrees (session.run steps state).2.cache := by
  induction steps generalizing state with
  | nil => exact hagrees
  | cons head rest ih =>
    obtain ⟨second, step⟩ := head
    rw [run_cons]
    apply ih
    exact (perform_agrees h second step hagrees).1.of_loses (PlanCache.loses_settle _)

theorem History.transparent {session : Session} (h : session.SharesFront) (retention : Retention)
    {state last : State} {steps : List (Bool × SessionStep)} {answers : List StepAnswer}
    (hagrees : session.first.Agrees state.cache)
    (hhistory : session.History state steps answers last)
    : session.Transparent retention steps answers := by
  induction hhistory with
  | nil => exact .nil
  | @cons state middle last second step answer cache steps answers hstep hloses hrest ih =>
    obtain ⟨hafter, hanswer⟩ := perform_agrees h second step hagrees
    rw [hstep] at hafter hanswer
    refine .cons ?_ (ih (hafter.of_loses hloses))
    intro request heq
    rw [Gateway.freshAnswer_eq]
    exact hanswer request heq

theorem answers_eq_fresh (session : Session) (h : session.SharesFront)
    (retention fresh : Retention) (steps : List (Bool × SessionStep))
    : session.Transparent fresh steps (session.run steps (.initial retention)).1
        ∧ ∀ answers last, session.History (.initial retention) steps answers last →
            session.Transparent fresh steps answers := by
  have hagrees := session.first.agrees_empty retention
  constructor
  . exact (session.run_history steps (.initial retention)).transparent h fresh hagrees
  . intro answers last hhistory
    exact hhistory.transparent h fresh hagrees

def ofLibrary : Session :=
  ⟨.ofSchema (Library.schema Library.authors .sync) false,
    .ofSchema (Library.schema Library.authors .sync) true⟩

def namesRequest : Gateway.Request :=
  ⟨"\x7b authors \x7b name \x7d \x7d", [], .object [], .object []⟩

theorem answers_eq_fresh_ofLibrary
    : ofLibrary.SharesFront
        ∧ ofLibrary.Transparent .unbounded
            [(false, .execute namesRequest), (true, .prepare "\x7b"), (true, .execute namesRequest)]
            (ofLibrary.run
              [(false, .execute namesRequest), (true, .prepare "\x7b"),
                (true, .execute namesRequest)]
              (.initial (.lru 1))).1 :=
  ⟨⟨rfl, rfl, rfl⟩, (answers_eq_fresh ofLibrary ⟨rfl, rfl, rfl⟩ (.lru 1) .unbounded _).1⟩

end Session
end GraphGateway

import GraphGateway.Library.Schema
import GraphGateway.Proofs.Execution.Assembled
import GraphGateway.Proofs.Gateway.Preparation
import GraphGateway.Proofs.Plan.DelayedSchema

/-!
This module contains the proof that an answer does not depend on how long resolvers make it
wait, but for the order in which errors are recorded, and what follows for the two sets of
resolvers of the library.
-/

namespace GraphGateway
namespace Gateway

/--
Two answers that differ at most in the order in which errors were recorded and resolvers invoked.
-/
structure Answer.Alike (first second : Answer) : Prop where
  data : second.response.data = first.response.data
  errors : second.response.errors.Perm first.response.errors
  unexecuted : first.response.data = none → second.response = first.response
  root : first.response.data = some .null →
    second.response.errors.getLast? = first.response.errors.getLast?
  invocations : second.journal.invocations.Perm first.journal.invocations

namespace Answer.Alike

theorem refl (answer : Answer) : answer.Alike answer :=
  ⟨rfl, .refl _, fun _ => rfl, fun _ => rfl, .refl _⟩

theorem response_eq {first second : Answer} (h : first.Alike second)
    (hfew : first.response.errors.length ≤ 1)
    : second.response = first.response := by
  have herrors : second.response.errors = first.response.errors := by
    have hperm := h.errors
    match hfirst : first.response.errors with
    | [] => exact List.perm_nil.mp (hfirst ▸ hperm)
    | [e] => exact List.perm_singleton.mp (hfirst ▸ hperm)
    | _ :: _ :: _ => simp [hfirst] at hfew
  have hdata := h.data
  cases hs : second.response
  cases hf : first.response
  simp_all

end Answer.Alike

theorem alike_withDelays {plan : Plan} (h : plan.PanicFree) (delays : Call → Nat)
    (request : Request)
    : (answerOfPlan plan request).Alike (answerOfPlan (plan.withDelays delays) request) := by
  have hspecs : (plan.withDelays delays).specs = plan.specs := rfl
  unfold answerOfPlan Plan.answer
  rw [hspecs]
  cases VariableSpec.coerceAll plan.specs request.bindings with
  | error faults => exact .refl _
  | ok coerced =>
    dsimp only
    let setting : Setting := ⟨coerced, request.context⟩
    obtain ⟨first, hfirst, hperm⟩ := Plan.execute_eq h setting request.root
    obtain ⟨second, hsecond, hfailures, hinvocations⟩ :=
      Plan.executeDelayed_eq h (fun _ => delays) setting request.root
    rw [Plan.execute_withDelays, hsecond, hfirst]
    have hfailures := hfailures.trans hperm.failures.symm
    have hinvocations := hinvocations.trans hperm.invocations.symm
    cases hvalue : (Task.ofPlan plan setting request.root).value with
    | ok v =>
      refine ⟨rfl, hfailures.map _, nofun, ?_, hinvocations⟩
      intro hnull
      -- The root is an object if it comes to anything.
      rw [Task.value_ofPlan] at hvalue
      cases hnull
      exact absurd hvalue Task.assembled_ne_null
    | error failure =>
      refine ⟨rfl, (hfailures.append_right _).map _, nofun, fun _ => ?_, hinvocations⟩
      simp [Execution.ofSettled]

theorem planOf_withDelays (schema : Schema) (delays : Call → Nat) (flight other : Bool)
    (text : String)
    : (ofSchema (schema.withDelays delays) other).planOf text
        = ((ofSchema schema flight).planOf text).map (Plan.withDelays delays) := by
  unfold planOf
  have hdocument : (ofSchema (schema.withDelays delays) other).documentOf text
      = (ofSchema schema flight).documentOf text := rfl
  rw [hdocument]
  cases (ofSchema schema flight).documentOf text with
  | error e => rfl
  | ok document =>
    have hplan : ∀ schema flight, (ofSchema schema flight).planOfDocument document
        = (Plan.compile schema document).mapError .compileErrors := by
      intro schema flight
      rfl
    dsimp only [bind, Except.bind]
    rw [hplan, hplan, Plan.compile_withDelays]
    cases Plan.compile schema document <;> rfl

theorem answerOf_withDelays {schema : Schema} (h : schema.PanicFree) (delays : Call → Nat)
    (flight other : Bool) (request : Request)
    : ((ofSchema schema flight).answerOf request).Alike
        ((ofSchema (schema.withDelays delays) other).answerOf request) := by
  unfold answerOf
  rw [planOf_withDelays schema delays flight other]
  cases hplan : (ofSchema schema flight).planOf request.text with
  | error e => exact .refl _
  | ok plan =>
    refine alike_withDelays ?_ delays request
    unfold planOf at hplan
    obtain ⟨document, _, hplan⟩ := bind_eq_ok hplan
    exact Plan.panicFree_of_compile h (mapError_eq_ok hplan)

end Gateway

namespace Library

theorem schema_async (data : Json)
    : schema data .async = (schema data .sync).withDelays fun _ => 1 := by
  rfl

theorem nameDigest_ne_panic (author : Json) (panic : Panic) : nameDigest author ≠ .panic panic := by
  unfold nameDigest
  split <;> exact Outcome.noConfusion

theorem panicFree_object (data : Json) (mode : ResolverMode)
    : ∀ object ∈ [queryType data mode, authorType mode, bookType], object.PanicFree := by
  intro object hobject name field resolver hfield hresolver
  have hmem := Ordered.mem_of_get? hfield
  simp only [List.mem_cons, List.not_mem_nil, or_false] at hobject
  rcases hobject with rfl | rfl | rfl
  all_goals
    simp only [queryType, authorType, bookType, List.mem_cons, Prod.mk.injEq, List.not_mem_nil,
      or_false] at hmem
  . rcases hmem with ⟨_, rfl⟩ | ⟨_, rfl⟩ <;> cases hresolver
      <;> exact fun _ _ => Outcome.noConfusion
  . rcases hmem with ⟨_, rfl⟩ | ⟨_, rfl⟩ | ⟨_, rfl⟩ | ⟨_, rfl⟩ | ⟨_, rfl⟩ <;> cases hresolver
    exact fun call panic => nameDigest_ne_panic call.parent panic
  . rcases hmem with ⟨_, rfl⟩ | ⟨_, rfl⟩ | ⟨_, rfl⟩ <;> cases hresolver

theorem panicFree_schema (data : Json) (mode : ResolverMode) : (schema data mode).PanicFree where
  objects := panicFree_object data mode
  query := panicFree_object data mode _ List.mem_cons_self
  mutation := nofun

/--
The two sets of resolvers give the same data, the same errors and the same invocations, whatever the
author list is; only errors that are recorded in different rounds may come in another order.
-/
theorem modes_agree (data : Json) (flight other : Bool) (retention kept : Retention)
    (request : Gateway.Request)
    : let sync := (Gateway.ofSchema (schema data .sync) flight).freshAnswer retention request
      let async := (Gateway.ofSchema (schema data .async) other).freshAnswer kept request
      sync.Alike async
        ∧ (sync.response.errors.length ≤ 1 → async.response = sync.response) := by
  have halike : ((Gateway.ofSchema (schema data .sync) flight).freshAnswer retention request).Alike
      ((Gateway.ofSchema (schema data .async) other).freshAnswer kept request) := by
    rw [Gateway.freshAnswer_eq, Gateway.freshAnswer_eq, schema_async]
    exact Gateway.answerOf_withDelays (panicFree_schema data .sync) _ _ _ _
  exact ⟨halike, halike.response_eq⟩

def nameless : Json :=
  .array [.object [("id", .string "1")], .object [("id", .string "2")]]

def digestRequest : Gateway.Request :=
  ⟨"\x7b a: author(id: \"1\") \x7b md5 \x7d b: author(id: \"2\") \x7b name \x7d \x7d", [],
    .object [], .object []⟩

def authorNode (key id field : String) (column : Nat) : Selection :=
  .field ⟨some key, "author", [("id", .string id)], [], ⟨1, column⟩⟩
    (some ⟨[.field ⟨none, field, [], [], ⟨1, column + 21⟩⟩ none], ⟨1, column + 19⟩⟩)

def digestDocument : Document :=
  ⟨[.operation ⟨.query, none, [], [],
    ⟨[authorNode "a" "1" "md5" 3, authorNode "b" "2" "name" 30], ⟨1, 1⟩⟩, ⟨1, 1⟩⟩]⟩

theorem ofText_digestRequest : Document.ofText digestRequest.text = .ok digestDocument := by
  cbv

def authorItem (mode : ResolverMode) (key id : String) (column : Nat) (resolution : Resolution)
    (field : String)
    : SelectionItem :=
  .field ⟨key, "Query", "author", .resolver (authorResolver nameless mode),
      [⟨"id", required "ID", some (.const (.string id)), none⟩], [], .object "Author", ⟨1, column⟩⟩
    (some [.field ⟨field, "Author", field, resolution, [], [], .nonNull (.scalar .string),
      ⟨1, column + 21⟩⟩ none])

def digestPlan (mode : ResolverMode) : Plan :=
  ⟨.query, none, "Query", [],
    [authorItem mode "a" "1" 3 (.resolver (digestResolver mode)) "md5",
      authorItem mode "b" "2" 30 .property "name"]⟩

theorem compile_digestDocument (mode : ResolverMode)
    : Plan.compile (schema nameless mode) digestDocument = .ok (digestPlan mode) := by
  cbv

def errorKeys (response : Response) : List (Option PathSegment) :=
  response.errors.map fun e => e.path.bind List.head?

theorem response_digestRequest (mode : ResolverMode)
    : ((Gateway.ofSchema (schema nameless mode) false).freshAnswer .unbounded
          digestRequest).response
        = (Gateway.answerOfPlan (digestPlan mode) digestRequest).response := by
  have hplan : (Gateway.ofSchema (schema nameless mode) false).planOf digestRequest.text
      = .ok (digestPlan mode) :=
    Gateway.planOf_ofSchema ofText_digestRequest (compile_digestDocument mode) false
  rw [Gateway.freshAnswer_eq]
  unfold Gateway.answerOf
  rw [hplan]

theorem errorKeys_sync
    : errorKeys (Gateway.answerOfPlan (digestPlan .sync) digestRequest).response
        = [some (.key "a"), some (.key "b")] := by
  cbv

theorem errorKeys_async
    : errorKeys (Gateway.answerOfPlan (digestPlan .async) digestRequest).response
        = [some (.key "b"), some (.key "a")] := by
  cbv

/-- The digest is waited for in one more round, so that its error comes last in one of the modes. -/
theorem not_modes_agree
    : ¬ ∀ data request,
      ((Gateway.ofSchema (schema data .async) false).freshAnswer .unbounded request).response
        = ((Gateway.ofSchema (schema data .sync) false).freshAnswer .unbounded
            request).response := by
  intro h
  have hkeys := congrArg errorKeys (h nameless digestRequest)
  rw [response_digestRequest, response_digestRequest, errorKeys_async, errorKeys_sync] at hkeys
  exact absurd hkeys (by decide)

end Library
end GraphGateway

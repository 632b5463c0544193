import GraphGateway.Proofs.Execution.Panics
import GraphGateway.Proofs.Gateway.FailedPreparation
import GraphGateway.Proofs.Plan.RequestVariables

/-!
This module contains the classes of responses, and the proof that every response shows exactly one
of them: the one of the stage at which its request ended, whatever resolvers raise or panic with.
-/

namespace GraphGateway

inductive ResponseClass where
  | unread
  | rejected
  | unbound
  | faulted
  | executed
deriving DecidableEq, Repr

def ResponseClass.errorClass : ResponseClass → ErrorClass
  | unread => .syntaxError
  | rejected => .compilationError
  | unbound | executed => .executionError
  | faulted => .internalFault

theorem ErrorClass.code_injective {one other : ErrorClass} (h : one.code = other.code)
    : one = other := by
  cases one <;> cases other <;> first | rfl | exact absurd h (by decide)

namespace ResponseError

def reason? (e : ResponseError) : Option String :=
  (Ordered.get? e.extensions "reason").bind Json.string?

theorem get?_foldl_insert {own : Json.Members} {name : String} (h : ∀ entry ∈ own, entry.1 ≠ name)
    (extensions : Json.Members)
    : Ordered.get?
          (own.foldl (fun extensions (key, v) => Ordered.insert extensions key v) extensions) name
        = Ordered.get? extensions name := by
  induction own generalizing extensions with
  | nil => rfl
  | cons entry rest ih =>
    obtain ⟨hentry, hrest⟩ := List.forall_mem_cons.mp h
    rw [List.foldl_cons, ih hrest, Ordered.get?_insert, if_neg hentry]

/-- Whatever a resolver puts into the extensions, the code stays that of the class. -/
theorem code?_ofFailure (failure : Failure)
    : (ofFailure failure).code? = some ErrorClass.executionError.code := by
  have hown : ∀ entry ∈ failure.extensions.filter fun (name, _) => name != "code",
      entry.1 ≠ "code" := by
    intro entry hentry
    simpa using (List.mem_filter.mp hentry).2
  unfold code? ofFailure
  dsimp only
  rw [get?_foldl_insert hown]
  rfl

end ResponseError

namespace Response

/-- A response shows its class by its data and by the number, codes and reasons of its errors. -/
def HasClass (response : Response) : ResponseClass → Prop
  | .unread =>
    response.data = none
      ∧ ∃ e, response.errors = [e] ∧ e.code? = some ErrorClass.syntaxError.code
  | .rejected =>
    response.data = none ∧ response.errors ≠ []
      ∧ ∀ e ∈ response.errors, e.code? = some ErrorClass.compilationError.code
  | .unbound =>
    response.data = none ∧ response.errors ≠ []
      ∧ ∀ e ∈ response.errors,
        e.code? = some ErrorClass.executionError.code ∧ e.reason? = some "INVALID_VARIABLE"
  | .faulted =>
    response.data = none
      ∧ ∃ e, response.errors = [e] ∧ e.code? = some ErrorClass.internalFault.code
  | .executed =>
    (∃ data, response.data = some data ∧ (data = .null → response.errors ≠ []))
      ∧ ∀ e ∈ response.errors, e.code? = some ErrorClass.executionError.code

namespace HasClass

variable {response : Response} {cls other : ResponseClass}

theorem data_eq_none_iff (h : response.HasClass cls) : response.data = none ↔ cls ≠ .executed := by
  cases cls with
  | executed =>
    obtain ⟨⟨data, hdata, _⟩, _⟩ := h
    simp [hdata]
  | unread | rejected | unbound | faulted => simp [h.1]

theorem code (h : response.HasClass cls)
    : ∀ e ∈ response.errors, e.code? = some cls.errorClass.code := by
  cases cls with
  | unread | faulted =>
    obtain ⟨_, e, herrors, hcode⟩ := h
    rw [herrors]
    exact List.forall_mem_singleton.mpr hcode
  | rejected => exact h.2.2
  | unbound => exact fun e he => (h.2.2 e he).1
  | executed => exact h.2

theorem errors_ne_nil (h : response.HasClass cls) (hcls : cls ≠ .executed)
    : response.errors ≠ [] := by
  cases cls with
  | unread | faulted =>
    obtain ⟨_, e, herrors, _⟩ := h
    simp [herrors]
  | rejected | unbound => exact h.2.1
  | executed => exact absurd rfl hcls

/-- No response shows two classes: without data they differ in the codes of their errors. -/
theorem unique (h : response.HasClass cls) (hother : response.HasClass other) : cls = other := by
  have hdata := h.data_eq_none_iff.symm.trans hother.data_eq_none_iff
  by_cases hcls : cls = .executed
  . by_contra hne
    exact hdata.mpr (fun heq => hne (hcls.trans heq.symm)) hcls
  . have hne := h.errors_ne_nil hcls
    obtain ⟨e, he⟩ := List.exists_mem_of_ne_nil _ hne
    have hcode := (h.code e he).symm.trans (hother.code e he)
    have herror := ErrorClass.code_injective (Option.some.inj hcode)
    have hexecuted := hdata.mp hcls
    cases cls <;> cases other <;> first | rfl | contradiction

end HasClass

end Response

theorem Plan.ne_nil_of_compile {schema : Schema} {document : Document} {errors : List CompileError}
    (h : compile schema document = .error errors)
    : errors ≠ [] := by
  unfold compile at h
  cases hoperation : Compile.selectOperation document with
  | error e =>
    rw [hoperation] at h
    cases h
    simp
  | ok operation =>
    cases hroot : Compile.rootType schema operation with
    | error e =>
      simp only [hoperation, hroot, Except.mapError, bind, Except.bind] at h
      cases h
      simp
    | ok root =>
      simp only [hoperation, hroot, Except.mapError, bind, Except.bind] at h
      split at h
      . cases h
      . next hne =>
        cases h
        exact hne

namespace Gateway

def withPanics (schema : Schema) (parserPanic : String → Option Panic)
    (compilerPanic : Document → Option Panic) (singleFlight : Bool)
    : Gateway :=
  ⟨schema,
    fun text =>
      match parserPanic text with
      | some panic => .error panic
      | none => .ok (Document.ofText text),
    fun schema document =>
      match compilerPanic document with
      | some panic => .error panic
      | none => .ok (Plan.compile schema document),
    singleFlight⟩

theorem ofSchema_eq_withPanics (schema : Schema) (singleFlight : Bool)
    : ofSchema schema singleFlight
        = withPanics schema (fun _ => none) (fun _ => none) singleFlight := rfl

def classOfPlan (plan : Plan) (request : Request) : ResponseClass :=
  match VariableSpec.coerceAll plan.specs request.bindings with
  | .error _ => .unbound
  | .ok coerced =>
    match (plan.execute ⟨coerced, request.context⟩ request.root).outcome with
    | .error _ => .faulted
    | .ok _ => .executed

def classOf (gateway : Gateway) (request : Request) : ResponseClass :=
  match gateway.parse request.text with
  | .error _ => .faulted
  | .ok (.error _) => .unread
  | .ok (.ok document) =>
    match gateway.compile gateway.schema document with
    | .error _ => .faulted
    | .ok (.error _) => .rejected
    | .ok (.ok plan) => classOfPlan plan request

def PanicsOn (gateway : Gateway) (text : String) : Prop :=
  (∃ panic, gateway.parse text = .error panic)
    ∨ ∃ document panic, gateway.parse text = .ok (.ok document)
      ∧ gateway.compile gateway.schema document = .error panic

namespace PrepareError

def responseClass : PrepareError → ResponseClass
  | syntaxError _ => .unread
  | compileErrors _ => .rejected
  | panic _ => .faulted

theorem hasClass_toResponse {e : PrepareError} (h : e ≠ .compileErrors [])
    : e.toResponse.HasClass e.responseClass := by
  cases e with
  | syntaxError e => exact ⟨rfl, _, rfl, rfl⟩
  | panic p => exact ⟨rfl, _, rfl, rfl⟩
  | compileErrors errors =>
    refine ⟨rfl, ?_, fun e he => code?_of_mem_toResponse he⟩
    intro hnil
    have hnil : errors = [] := List.map_eq_nil_iff.mp hnil
    exact h (congrArg _ hnil)

end PrepareError

section Preparation

variable (gateway : Gateway) (text : String) (request : Request)

theorem planOf_cases
    : (∃ panic, gateway.parse text = .error panic ∧ gateway.planOf text = .error (.panic panic))
        ∨ (∃ e, gateway.parse text = .ok (.error e) ∧ gateway.planOf text = .error (.syntaxError e))
        ∨ ∃ document, gateway.parse text = .ok (.ok document)
          ∧ gateway.planOf text = gateway.planOfDocument document := by
  unfold planOf documentOf
  rcases gateway.parse text with p | e | document
  . exact .inl ⟨p, rfl, rfl⟩
  . exact .inr (.inl ⟨e, rfl, rfl⟩)
  . exact .inr (.inr ⟨document, rfl, rfl⟩)

theorem classOf_eq
    : gateway.classOf request
        =
      match gateway.planOf request.text with
      | .error e => e.responseClass
      | .ok plan => classOfPlan plan request := by
  unfold classOf
  rcases gateway.planOf_cases request.text with
    ⟨p, hparse, hplan⟩ | ⟨e, hparse, hplan⟩ | ⟨document, hparse, hplan⟩
  . rw [hparse, hplan]
    rfl
  . rw [hparse, hplan]
    rfl
  . rw [hparse, hplan]
    unfold planOfDocument
    dsimp only
    rcases gateway.compile gateway.schema document with p | errors | plan <;> rfl

theorem panicsOn_iff
    : gateway.PanicsOn text ↔ ∃ panic, gateway.planOf text = .error (.panic panic) := by
  unfold PanicsOn
  rcases gateway.planOf_cases text with
    ⟨p, hparse, hplan⟩ | ⟨e, hparse, hplan⟩ | ⟨document, hparse, hplan⟩
  . simp [hparse, hplan]
  . simp [hparse, hplan]
  . rw [hparse, hplan]
    unfold planOfDocument
    rcases hcompile : gateway.compile gateway.schema document with p | errors | plan <;>
      simp [Except.mapError, hcompile]

theorem planOf_withPanics_ne (schema : Schema) (parserPanic : String → Option Panic)
    (compilerPanic : Document → Option Panic) (singleFlight : Bool)
    : (withPanics schema parserPanic compilerPanic singleFlight).planOf text
        ≠ .error (.compileErrors []) := by
  intro h
  rcases planOf_cases _ text with ⟨p, _, hplan⟩ | ⟨e, _, hplan⟩ | ⟨document, _, hplan⟩
  . cases hplan.symm.trans h
  . cases hplan.symm.trans h
  . have h := hplan.symm.trans h
    unfold planOfDocument withPanics at h
    dsimp only at h
    cases hpanic : compilerPanic document with
    | some panic =>
      simp only [hpanic] at h
      cases h
    | none =>
      simp only [hpanic] at h
      cases hcompile : Plan.compile schema document with
      | ok plan =>
        rw [hcompile] at h
        cases h
      | error errors =>
        rw [hcompile] at h
        cases h
        exact Plan.ne_nil_of_compile hcompile rfl

end Preparation

section Plans

variable (plan : Plan) (request : Request)

theorem hasClass_answerOfPlan
    : (answerOfPlan plan request).response.HasClass (classOfPlan plan request) := by
  unfold answerOfPlan classOfPlan Plan.answer
  cases hcoerce : VariableSpec.coerceAll plan.specs request.bindings with
  | error faults =>
    refine ⟨rfl, ?_, ?_⟩
    . simpa [Response.ofErrors] using VariableSpec.ne_nil_of_coerceAll hcoerce
    . intro e he
      obtain ⟨fault, _, rfl⟩ := List.mem_map.mp he
      exact ⟨rfl, rfl⟩
  | ok coerced =>
    dsimp only
    cases houtcome : (plan.execute ⟨coerced, request.context⟩ request.root).outcome with
    | error panic => exact ⟨rfl, _, rfl, rfl⟩
    | ok response =>
      obtain ⟨⟨failures, herrors⟩, hdata⟩ := plan.data_execute _ _ houtcome
      refine ⟨hdata, ?_⟩
      intro e he
      dsimp only at he
      rw [herrors] at he
      obtain ⟨failure, _, rfl⟩ := List.mem_map.mp he
      exact ResponseError.code?_ofFailure failure

theorem journal_answerOfPlan
    : (answerOfPlan plan request).journal
        = (plan.answer request.bindings request.context request.root).journal := by
  unfold answerOfPlan
  dsimp only
  split <;> rfl

theorem journal_of_unbound (hexecuted : classOfPlan plan request ≠ .executed)
    (hfaulted : classOfPlan plan request ≠ .faulted)
    : (answerOfPlan plan request).journal = .empty := by
  rw [journal_answerOfPlan]
  unfold classOfPlan at hexecuted hfaulted
  unfold Plan.answer
  split at hexecuted
  . next heq => rw [heq]
  . next heq =>
    simp only [heq] at hfaulted
    split at hexecuted
    . next hpanic => simp [hpanic] at hfaulted
    . exact absurd rfl hexecuted

theorem classOfPlan_eq_faulted_iff
    : classOfPlan plan request = .faulted ↔ (answerOfPlan plan request).journal.Panicked := by
  rw [journal_answerOfPlan]
  unfold classOfPlan Plan.answer
  cases VariableSpec.coerceAll plan.specs request.bindings with
  | error faults => exact ⟨nofun, fun h => absurd h Journal.not_panicked_empty⟩
  | ok coerced =>
    dsimp only
    rw [← Plan.panicked_execute]
    split
    . next panic heq => exact ⟨fun _ => ⟨panic, heq⟩, fun _ => rfl⟩
    . next response heq =>
      refine ⟨nofun, ?_⟩
      rintro ⟨panic, h⟩
      cases heq.symm.trans h

theorem panicked_run_iff
    : (request.run plan).panicked = true ↔ classOfPlan plan request = .faulted := by
  unfold Request.run Execution.panicked classOfPlan Plan.answer
  cases VariableSpec.coerceAll plan.specs request.bindings with
  | error faults => exact ⟨nofun, nofun⟩
  | ok coerced =>
    dsimp only
    split <;> simp_all

end Plans

theorem hasClass_answerOf {gateway : Gateway} {request : Request}
    (h : gateway.planOf request.text ≠ .error (.compileErrors []))
    : (gateway.answerOf request).response.HasClass (gateway.classOf request) := by
  rw [classOf_eq]
  unfold answerOf
  cases hplan : gateway.planOf request.text with
  | error e => exact PrepareError.hasClass_toResponse fun he => h (hplan.trans (congrArg _ he))
  | ok plan => exact hasClass_answerOfPlan plan request

theorem classOf_eq_faulted_iff (gateway : Gateway) (request : Request)
    : gateway.classOf request = .faulted
        ↔ gateway.PanicsOn request.text ∨ (gateway.answerOf request).journal.Panicked := by
  rw [classOf_eq, panicsOn_iff]
  unfold answerOf
  cases gateway.planOf request.text with
  | error e => cases e <;> simp [PrepareError.responseClass, Journal.not_panicked_empty]
  | ok plan => simpa using classOfPlan_eq_faulted_iff plan request

theorem journal_of_stopped {gateway : Gateway} {request : Request}
    (hexecuted : gateway.classOf request ≠ .executed)
    (hfaulted : gateway.classOf request ≠ .faulted)
    : (gateway.answerOf request).journal = .empty := by
  rw [classOf_eq] at hexecuted hfaulted
  unfold answerOf
  cases hplan : gateway.planOf request.text with
  | error e => rfl
  | ok plan =>
    rw [hplan] at hexecuted hfaulted
    exact journal_of_unbound plan request hexecuted hfaulted

section Catching

variable (gateway : Gateway) (request : Request) (state : State)

theorem outcome_course {cache : PlanCache PreparedPlan} (h : gateway.Agrees cache) (text : String)
    : (gateway.course text cache).outcome = gateway.planOf text := by
  unfold course
  split
  . next prepared hfound => exact (h text prepared (PlanCache.mem_all_of_get? hfound)).symm
  . exact gateway.outcome_courseOfMiss text

theorem Course.panics_eq (course : Course)
    : (course.isParserPanic || course.isCompilerPanic)
        =
      match course.outcome with
      | .error e => e.isInternal
      | .ok _ => false := by
  cases course <;> rfl

def catchesPanic : Bool :=
  match (gateway.course request.text state.cache).outcome with
  | .error e => e.isInternal
  | .ok plan => (request.run plan).panicked

theorem internalFaults_answer
    : (gateway.answer request state).2.counters.internalFaults
        = state.counters.internalFaults + (gateway.catchesPanic request state).toNat := by
  have hpanics := (gateway.course request.text state.cache).panics_eq
  unfold catchesPanic
  rw [answer_eq]
  cases houtcome : (gateway.course request.text state.cache).outcome with
  | error e =>
    rw [houtcome] at hpanics
    rw [answerBy_of_error state gateway request.run request houtcome]
    simp only [Course.after, Course.count, received, hpanics]
  | ok plan =>
    rw [houtcome] at hpanics
    rw [answerBy_of_plan state gateway request.run request houtcome]
    simp only [ran, Course.after, Course.count, received, hpanics, Bool.toNat_false, Nat.add_zero]

theorem catchesPanic_iff_faulted (h : gateway.Agrees state.cache)
    : gateway.catchesPanic request state = true ↔ gateway.classOf request = .faulted := by
  unfold catchesPanic
  rw [gateway.outcome_course h, classOf_eq]
  cases gateway.planOf request.text with
  | error e => cases e <;> simp [PrepareError.isInternal, PrepareError.responseClass]
  | ok plan => exact panicked_run_iff plan request

end Catching

end Gateway

namespace Session

open Gateway (State)

def withPanics (schema : Schema) (parserPanic : String → Option Panic)
    (compilerPanic : Document → Option Panic) (flight other : Bool)
    : Session :=
  ⟨.withPanics schema parserPanic compilerPanic flight,
    .withPanics schema parserPanic compilerPanic other⟩

/--
Whatever has been done before, the response to a request shows the class of the stage at which
the request ends, and no other. No resolver is invoked before the last stage, and a panic in
any of them is counted.
-/
theorem response_of_one_class (schema : Schema) (parserPanic : String → Option Panic)
    (compilerPanic : Document → Option Panic) (flight other : Bool) (retention : Retention)
    (steps : List (Bool × SessionStep)) (second : Bool) (request : Gateway.Request)
    : let session := withPanics schema parserPanic compilerPanic flight other
      let before := (session.run steps (.initial retention)).2
      let gateway := session.gateway second
      let answered := gateway.answer request before
      let cls := gateway.classOf request
      (∀ shown, answered.1.response.HasClass shown ↔ shown = cls)
        ∧ (cls ≠ .executed → cls ≠ .faulted → answered.1.journal = .empty)
        ∧ (cls = .faulted ↔ gateway.PanicsOn request.text ∨ answered.1.journal.Panicked)
        ∧ answered.2.counters.internalFaults
          = before.counters.internalFaults + if cls = .faulted then 1 else 0 := by
  intro session before gateway answered cls
  have hshares : session.SharesFront := ⟨rfl, rfl, rfl⟩
  have hagrees : gateway.Agrees before.cache := by
    rw [agrees_gateway hshares]
    exact agrees_run hshares steps (session.first.agrees_empty retention)
  have hanswer : answered.1 = gateway.answerOf request :=
    (gateway.answer_agrees request before hagrees).1
  have hreports : gateway.planOf request.text ≠ .error (.compileErrors []) := by
    rw [planOf_gateway hshares]
    exact Gateway.planOf_withPanics_ne request.text schema parserPanic compilerPanic flight
  have hclass : answered.1.response.HasClass cls :=
    hanswer ▸ Gateway.hasClass_answerOf hreports
  refine ⟨?_, ?_, ?_, ?_⟩
  . intro shown
    exact ⟨fun hshown => hshown.unique hclass, fun heq => heq ▸ hclass⟩
  . rw [hanswer]
    exact Gateway.journal_of_stopped
  . rw [hanswer]
    exact Gateway.classOf_eq_faulted_iff gateway request
  . rw [Gateway.internalFaults_answer]
    have hcaught := gateway.catchesPanic_iff_faulted request before hagrees
    by_cases hcls : cls = .faulted
    . rw [if_pos hcls, hcaught.mpr hcls]
      rfl
    . rw [if_neg hcls, Bool.eq_false_iff.mpr fun h => hcls (hcaught.mp h)]
      rfl

end Session

end GraphGateway

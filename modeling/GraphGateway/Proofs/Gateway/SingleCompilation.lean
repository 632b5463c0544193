import GraphGateway.Proofs.Gateway.Memory
import GraphGateway.Proofs.Library

/-!
This module contains the proof that, with a cache that keeps everything, a text that compiles is
compiled once until the cache is cleared, and has one plan that no other text ever has. A text that
does not compile is tried anew whenever its plan is asked for.
-/

namespace GraphGateway

def SessionStep.named? : SessionStep → Option String
  | prepare text | lookup text => some text
  | _ => none

def StepAnswer.plan? : StepAnswer → Option PreparedPlan
  | prepared (.ok plan) => some plan
  | found plan => plan
  | _ => none

namespace Session

open Gateway (State Course)

def after (session : Session) (steps : List (Bool × SessionStep)) : State :=
  (session.run steps (.initial .unbounded)).2

def answerAfter (session : Session) (steps : List (Bool × SessionStep))
    (next : Bool × SessionStep)
    : StepAnswer :=
  (session.step next.1 next.2 (session.after steps)).1

def askedSince (steps : List (Bool × SessionStep)) : List String :=
  steps.foldl (fun asked step => step.2.askedAfter asked) []

def Calls (session : Session) (steps : List (Bool × SessionStep)) (next : Bool × SessionStep)
    (reader compiler : Nat)
    : Prop :=
  (session.after (steps ++ [next])).parserCalls = (session.after steps).parserCalls + reader
    ∧ (session.after (steps ++ [next])).compilerCalls
        = (session.after steps).compilerCalls + compiler

def callsFor (session : Session) (calls : State → Nat) (text : String)
    (steps : List (Bool × SessionStep)) (last : List (Bool × SessionStep))
    : Nat :=
  match last with
  | [] => 0
  | next :: rest =>
    (if next.2.asked? = some text then
      calls (session.after (steps ++ [next])) - calls (session.after steps)
    else 0)
      + session.callsFor calls text (steps ++ [next]) rest

theorem after_append (session : Session) (first last : List (Bool × SessionStep))
    : session.after (first ++ last) = (session.run last (session.after first)).2 :=
  session.run_append first last _

theorem after_concat (session : Session) (steps : List (Bool × SessionStep))
    (next : Bool × SessionStep)
    : session.after (steps ++ [next]) = (session.step next.1 next.2 (session.after steps)).2 :=
  session.after_append steps [next]

theorem askedSince_concat (steps : List (Bool × SessionStep)) (next : Bool × SessionStep)
    : askedSince (steps ++ [next]) = next.2.askedAfter (askedSince steps) := by
  unfold askedSince
  rw [List.foldl_append]
  rfl

theorem exists_remembers {session : Session} (hfront : session.SharesFront)
    (steps : List (Bool × SessionStep))
    : ∃ made, Remembers session.first.planOf (askedSince steps) made (session.after steps) := by
  obtain ⟨made, h⟩ := (remembers_initial session.first.planOf).run hfront steps
  exact ⟨made, h⟩

theorem documentOf_gateway {session : Session} (h : session.SharesFront) (second : Bool)
    : (session.gateway second).documentOf = session.first.documentOf := by
  obtain ⟨_, hparse, _⟩ := h
  cases second with
  | false => rfl
  | true =>
    funext text
    unfold gateway Gateway.documentOf
    simp only [if_true, hparse]

theorem calls_of_asked (session : Session) (steps : List (Bool × SessionStep))
    {next : Bool × SessionStep} {text : String} (h : next.2.asked? = some text)
    : let course := (session.gateway next.1).course text (session.after steps).cache
      session.Calls steps next course.reads.toNat course.compiles.toNat := by
  have halike := alike_perform_of_asked session next.1 h (session.after steps)
  unfold Calls
  rw [after_concat]
  exact ⟨halike.parserCalls, halike.compilerCalls⟩

theorem calls_of_found {session : Session} (hfront : session.SharesFront)
    (steps : List (Bool × SessionStep)) {next : Bool × SessionStep} {text : String} {plan : Plan}
    (hasked : next.2.asked? = some text) (hplan : session.first.planOf text = .ok plan)
    (hmem : text ∈ askedSince steps)
    : session.Calls steps next 0 0 := by
  obtain ⟨made, h⟩ := exists_remembers hfront steps
  have hcalls := session.calls_of_asked steps hasked
  rw [← planOf_gateway hfront next.1] at h hplan
  rcases h.hit_or_miss text with ⟨prepared, _, hcourse, _⟩ | ⟨_, _, hmiss⟩
  . rw [hcourse] at hcalls
    exact hcalls
  . exact absurd hplan (hmiss hmem plan)

theorem calls_of_missed {session : Session} (hfront : session.SharesFront)
    (steps : List (Bool × SessionStep)) {next : Bool × SessionStep} {text : String}
    (hasked : next.2.asked? = some text)
    (hmiss : text ∉ askedSince steps ∨ ∀ plan, session.first.planOf text ≠ .ok plan)
    : session.Calls steps next 1 (session.first.documentOf text).toOption.isSome.toNat := by
  obtain ⟨made, h⟩ := exists_remembers hfront steps
  have hcalls := session.calls_of_asked steps hasked
  rw [← planOf_gateway hfront next.1] at h hmiss
  rw [← documentOf_gateway hfront next.1]
  rcases h.hit_or_miss text with ⟨_, plan, _, _, hmem, hplan⟩ | ⟨hcourse, _, _⟩
  . rcases hmiss with hmiss | hmiss
    . exact absurd hmem hmiss
    . exact absurd hplan (hmiss plan)
  . dsimp only at hcalls
    rw [hcourse, Course.reads_courseOfMiss, Course.compiles_courseOfMiss] at hcalls
    exact hcalls

theorem calls_of_idle (session : Session) (steps : List (Bool × SessionStep))
    {next : Bool × SessionStep} (h : next.2.asked? = none)
    : session.Calls steps next 0 0 := by
  obtain ⟨second, step⟩ := next
  unfold Calls
  rw [after_concat]
  cases step with
  | execute request | prepare text => cases h
  | lookup text | contains text | clear => exact ⟨rfl, rfl⟩

theorem mem_askedSince_concat (steps : List (Bool × SessionStep)) {next : Bool × SessionStep}
    (h : next.2 ≠ .clear) (text : String)
    : text ∈ askedSince (steps ++ [next])
        ↔ text ∈ askedSince steps ∨ next.2.asked? = some text := by
  obtain ⟨second, step⟩ := next
  rw [askedSince_concat]
  cases step with
  | execute request | prepare other =>
    simp [SessionStep.askedAfter, SessionStep.asked?, eq_comm]
  | lookup other | contains other => simp [SessionStep.askedAfter, SessionStep.asked?]
  | clear => exact absurd rfl h

theorem callsFor_cons_of_asked {session : Session} {steps : List (Bool × SessionStep)}
    {next : Bool × SessionStep} {text : String} {reader compiler : Nat}
    (hasked : next.2.asked? = some text) (hcalls : session.Calls steps next reader compiler)
    (rest : List (Bool × SessionStep))
    : session.callsFor State.parserCalls text steps (next :: rest)
          = reader + session.callsFor State.parserCalls text (steps ++ [next]) rest
        ∧ session.callsFor State.compilerCalls text steps (next :: rest)
            = compiler + session.callsFor State.compilerCalls text (steps ++ [next]) rest := by
  obtain ⟨hreader, hcompiler⟩ := hcalls
  constructor
  . rw [callsFor, if_pos hasked, hreader, Nat.add_sub_cancel_left]
  . rw [callsFor, if_pos hasked, hcompiler, Nat.add_sub_cancel_left]

theorem callsFor_cons_of_not_asked (session : Session) (steps : List (Bool × SessionStep))
    {next : Bool × SessionStep} {text : String} (hasked : next.2.asked? ≠ some text)
    (rest : List (Bool × SessionStep)) (calls : State → Nat)
    : session.callsFor calls text steps (next :: rest)
        = session.callsFor calls text (steps ++ [next]) rest := by
  rw [callsFor, if_neg hasked, Nat.zero_add]

theorem isSome_documentOf {gateway : Gateway} {text : String} {plan : Plan}
    (h : gateway.planOf text = .ok plan)
    : (gateway.documentOf text).toOption.isSome = true := by
  unfold Gateway.planOf at h
  cases hdocument : gateway.documentOf text with
  | ok document => rfl
  | error e =>
    rw [hdocument] at h
    cases h

theorem planOf_ne_ok_of_unread {gateway : Gateway} {text : String} {e : Gateway.PrepareError}
    (h : gateway.documentOf text = .error e) (plan : Plan)
    : gateway.planOf text ≠ .ok plan := by
  intro hplan
  have hsome := isSome_documentOf hplan
  rw [h] at hsome
  cases hsome

theorem planOf_ne_ok_of_uncompiled {gateway : Gateway} {text : String} {document : Document}
    {e : Gateway.PrepareError} (h : gateway.documentOf text = .ok document)
    (hdocument : gateway.planOfDocument document = .error e) (plan : Plan)
    : gateway.planOf text ≠ .ok plan := by
  unfold Gateway.planOf
  rw [h]
  intro hplan
  cases hdocument.symm.trans hplan

section InAll

variable {session : Session} (hfront : session.SharesFront) {text : String} {plan : Plan}
  (hplan : session.first.planOf text = .ok plan)

include hfront hplan

theorem callsFor_of_found {steps last : List (Bool × SessionStep)}
    (hmem : text ∈ askedSince steps) (hlast : ∀ next ∈ last, next.2 ≠ .clear)
    : session.callsFor State.parserCalls text steps last = 0
        ∧ session.callsFor State.compilerCalls text steps last = 0 := by
  induction last generalizing steps with
  | nil => exact ⟨rfl, rfl⟩
  | cons next rest ih =>
    have hnext := mem_askedSince_concat steps (hlast next List.mem_cons_self) text
    have hrest := ih (hnext.mpr (.inl hmem)) fun other hother =>
      hlast other (List.mem_cons_of_mem _ hother)
    by_cases hasked : next.2.asked? = some text
    . have hcons :=
        callsFor_cons_of_asked hasked (calls_of_found hfront steps hasked hplan hmem) rest
      rw [hcons.1, hcons.2, hrest.1, hrest.2]
      exact ⟨rfl, rfl⟩
    . rw [callsFor_cons_of_not_asked session steps hasked, callsFor_cons_of_not_asked session steps
        hasked]
      exact hrest

theorem callsFor_of_missed {steps last : List (Bool × SessionStep)}
    (hmem : text ∉ askedSince steps) (hlast : ∀ next ∈ last, next.2 ≠ .clear)
    (hasked : ∃ next ∈ last, next.2.asked? = some text)
    : session.callsFor State.parserCalls text steps last = 1
        ∧ session.callsFor State.compilerCalls text steps last = 1 := by
  induction last generalizing steps with
  | nil =>
    obtain ⟨next, hnext, _⟩ := hasked
    cases hnext
  | cons next rest ih =>
    have hafter := mem_askedSince_concat steps (hlast next List.mem_cons_self) text
    have hrest (other) (hother : other ∈ rest) : other.2 ≠ .clear :=
      hlast other (List.mem_cons_of_mem _ hother)
    by_cases hnext : next.2.asked? = some text
    . have hcalls := calls_of_missed hfront steps hnext (.inl hmem)
      rw [isSome_documentOf hplan] at hcalls
      have hcons := callsFor_cons_of_asked hnext hcalls rest
      have hzero := callsFor_of_found hfront hplan (hafter.mpr (.inr hnext)) hrest
      rw [hcons.1, hcons.2, hzero.1, hzero.2]
      exact ⟨rfl, rfl⟩
    . rw [callsFor_cons_of_not_asked session steps hnext, callsFor_cons_of_not_asked session steps
        hnext]
      apply ih
      . rw [hafter]
        rintro (hbefore | hnow)
        . exact hmem hbefore
        . exact hnext hnow
      . exact hrest
      . obtain ⟨other, hother, heq⟩ := hasked
        rcases List.mem_cons.mp hother with rfl | hother
        . exact absurd heq hnext
        . exact ⟨other, hother, heq⟩

end InAll

theorem plan?_of_found {state : State} {text : String} {prepared : PreparedPlan}
    (h : state.cache.get? text = some prepared) (session : Session) (second : Bool)
    {step : SessionStep} (hnamed : step.named? = some text)
    : (session.step second step state).1.plan? = some prepared := by
  cases step with
  | prepare text =>
    cases hnamed
    have hprepare : (session.step second (.prepare text) state).1
        = .prepared ((session.gateway second).prepare text state).1 := rfl
    rw [hprepare, Gateway.prepare_apply]
    unfold Gateway.course
    rw [h]
    rfl
  | lookup text =>
    cases hnamed
    exact h
  | execute request | contains text | clear => cases hnamed

theorem get?_of_plan? {state : State} (hretention : state.cache.retention = .unbounded)
    {text : String} {prepared : PreparedPlan} (session : Session) (second : Bool)
    {step : SessionStep} (hnamed : step.named? = some text)
    (h : (session.step second step state).1.plan? = some prepared)
    : (session.step second step state).2.cache.get? text = some prepared := by
  refine (PlanCache.get?_settle _ ((retention_perform ..).trans hretention) text).trans ?_
  cases step with
  | prepare text =>
    cases hnamed
    have hprepare : (session.step second (.prepare text) state).1
        = .prepared ((session.gateway second).prepare text state).1 := rfl
    have hkeep := Course.get?_keep (session.gateway second) text hretention
      ((session.gateway second).course text state.cache) state.plansMade text
    rw [perform_prepare]
    refine hkeep.trans ?_
    rw [hprepare, Gateway.prepare_apply] at h
    cases hcourse : (session.gateway second).course text state.cache with
    | hit kept =>
      rw [hcourse] at h
      cases h
      exact Course.get?_of_hit hcourse
    | compiled plan =>
      rw [hcourse] at h
      cases h
      exact if_pos rfl
    | parserPanic p | syntaxError e | compilerPanic p | compileErrors errors =>
      rw [hcourse] at h
      cases h
  | lookup text =>
    cases hnamed
    exact (state.cache.get?_lookup hretention text text).trans h
  | execute request | contains text | clear => cases hnamed

theorem exists_plan?_of_named {session : Session} (hfront : session.SharesFront)
    (steps : List (Bool × SessionStep)) {next : Bool × SessionStep} {text : String} {plan : Plan}
    (hnamed : next.2.named? = some text) (hasked : next.2.asked? = some text)
    (hplan : session.first.planOf text = .ok plan)
    : ∃ prepared, (session.answerAfter steps next).plan? = some prepared := by
  obtain ⟨second, step⟩ := next
  cases step with
  | prepare text =>
    cases hnamed
    have hempty : session.first.Agrees (State.initial .unbounded).cache :=
      session.first.agrees_empty .unbounded
    have hagrees : session.first.Agrees (session.after steps).cache :=
      agrees_run hfront steps hempty
    rw [← agrees_gateway hfront second] at hagrees
    have hvalue := ((session.gateway second).prepare_agrees text _ hagrees).1
    rw [planOf_gateway hfront second, hplan] at hvalue
    cases hprepared : ((session.gateway second).prepare text (session.after steps)).1 with
    | ok prepared =>
      exact ⟨prepared, congrArg (fun result => (StepAnswer.prepared result).plan?) hprepared⟩
    | error e =>
      rw [hprepared] at hvalue
      cases hvalue
  | lookup text => cases hasked
  | execute request | contains text | clear => cases hnamed

theorem get?_of_made {session : Session} (hfront : session.SharesFront)
    {steps : List (Bool × SessionStep)} {next : Bool × SessionStep} {text : String} {plan : Plan}
    (hasked : next.2.asked? = some text) (hplan : session.first.planOf text = .ok plan)
    (hmem : text ∉ askedSince steps)
    : (session.after (steps ++ [next])).cache.get? text
        = some ⟨plan, (session.after steps).plansMade⟩ := by
  obtain ⟨_, h⟩ := exists_remembers hfront steps
  have hretained := (session.retention_perform next.1 next.2 _).trans h.retention
  have hkeep := Course.get?_keep (session.gateway next.1) text h.retention
    ((session.gateway next.1).course text (session.after steps).cache)
    (session.after steps).plansMade text
  rw [← planOf_gateway hfront next.1] at h hplan
  rw [after_concat]
  refine (PlanCache.get?_settle _ hretained text).trans ?_
  rw [(alike_perform_of_asked session next.1 hasked _).cache]
  refine hkeep.trans ?_
  rcases h.hit_or_miss text with ⟨_, _, _, _, hfound, _⟩ | ⟨hcourse, _, _⟩
  . exact absurd hfound hmem
  . rw [hcourse, Course.eq_compiled_of_planOf hplan]
    exact if_pos rfl

theorem get?_after_of_plan? {session : Session} (hfront : session.SharesFront)
    (steps : List (Bool × SessionStep)) {next : Bool × SessionStep} {text : String}
    {prepared : PreparedPlan} (hnamed : next.2.named? = some text)
    (h : (session.answerAfter steps next).plan? = some prepared)
    : (session.after (steps ++ [next])).cache.get? text = some prepared := by
  obtain ⟨_, hbefore⟩ := exists_remembers hfront steps
  rw [after_concat]
  exact get?_of_plan? hbefore.retention session next.1 hnamed h

theorem exists_get?_of_asked {session : Session} (hfront : session.SharesFront)
    (steps : List (Bool × SessionStep)) {next : Bool × SessionStep} {text : String} {plan : Plan}
    (hasked : next.2.asked? = some text) (hplan : session.first.planOf text = .ok plan)
    : ∃ prepared : PreparedPlan,
        (session.after (steps ++ [next])).cache.get? text = some prepared
          ∧ prepared.plan = plan := by
  have hclear : next.2 ≠ .clear := by
    intro heq
    rw [heq] at hasked
    cases hasked
  obtain ⟨_, h⟩ := exists_remembers hfront (steps ++ [next])
  have hmem := (mem_askedSince_concat steps hclear text).mpr (.inr hasked)
  obtain ⟨prepared, hprepared⟩ :=
    Option.isSome_iff_exists.mp ((h.found text).mpr ⟨hmem, plan, hplan⟩)
  have hsame := h.plan text prepared hprepared
  rw [hplan] at hsame
  exact ⟨prepared, hprepared, (Except.ok.inj hsame).symm⟩

theorem text_eq_of_number {session : Session} (hfront : session.SharesFront)
    {steps last : List (Bool × SessionStep)} {text other : String} {prepared plan : PreparedPlan}
    (hfirst : (session.after steps).cache.get? text = some prepared)
    (hlast : (session.after (steps ++ last)).cache.get? other = some plan)
    (hnumber : prepared.number = plan.number)
    : text = other := by
  obtain ⟨made, h⟩ := exists_remembers hfront steps
  -- the texts of the plans that were made since come after those of the plans made before
  obtain ⟨more, hmore⟩ := h.run hfront last
  rw [← after_append] at hmore
  have hmade := h.number text prepared hfirst
  have hkept : (made ++ more)[prepared.number]? = some text :=
    (List.getElem?_append_left (List.getElem?_eq_some_iff.mp hmade).1).trans hmade
  have hmoreNumber := hmore.number other plan hlast
  rw [← hnumber, hkept] at hmoreNumber
  exact Option.some.inj hmoreNumber

structure CompilesOnce (session : Session) : Prop where
  first : ∀ steps next text plan, next.2.asked? = some text →
    session.first.planOf text = .ok plan → text ∉ askedSince steps → session.Calls steps next 1 1
  again : ∀ steps next text plan, next.2.asked? = some text →
    session.first.planOf text = .ok plan → text ∈ askedSince steps → session.Calls steps next 0 0
  unread : ∀ steps next text e, next.2.asked? = some text →
    session.first.documentOf text = .error e → session.Calls steps next 1 0
  uncompiled : ∀ steps next text document e, next.2.asked? = some text →
    session.first.documentOf text = .ok document →
    session.first.planOfDocument document = .error e → session.Calls steps next 1 1
  idle : ∀ steps next, next.2.asked? = none → session.Calls steps next 0 0
  inAll : ∀ steps last text plan, session.first.planOf text = .ok plan → text ∉ askedSince steps →
    (∀ next ∈ last, next.2 ≠ .clear) → (∃ next ∈ last, next.2.asked? = some text) →
    session.callsFor State.parserCalls text steps last = 1
      ∧ session.callsFor State.compilerCalls text steps last = 1
  same : ∀ steps next text plan, next.2.asked? = some text →
    session.first.planOf text = .ok plan →
    ∃ prepared : PreparedPlan, prepared.plan = plan
      ∧ (text ∉ askedSince steps → prepared.number = (session.after steps).plansMade)
      ∧ (next.2.named? = some text → (session.answerAfter steps next).plan? = some prepared)
      ∧ ∀ between later, (∀ other ∈ between, other.2 ≠ .clear) → later.2.named? = some text →
          (session.answerAfter (steps ++ next :: between) later).plan? = some prepared
  distinct : ∀ steps next between later text other prepared plan,
    next.2.named? = some text → (session.answerAfter steps next).plan? = some prepared →
    later.2.named? = some other →
    (session.answerAfter (steps ++ next :: between) later).plan? = some plan →
    prepared.number = plan.number → text = other

theorem compilesOnce (session : Session) (hfront : session.SharesFront) : session.CompilesOnce where
  first := by
    intro steps next text plan hasked hplan hmem
    have hcalls := calls_of_missed hfront steps hasked (.inl hmem)
    rw [isSome_documentOf hplan] at hcalls
    exact hcalls
  again := by
    intro steps next text plan hasked hplan hmem
    exact calls_of_found hfront steps hasked hplan hmem
  unread := by
    intro steps next text e hasked hdocument
    have hcalls := calls_of_missed hfront steps hasked (.inr (planOf_ne_ok_of_unread hdocument))
    rw [hdocument] at hcalls
    exact hcalls
  uncompiled := by
    intro steps next text document e hasked hdocument hplan
    have hcalls :=
      calls_of_missed hfront steps hasked (.inr (planOf_ne_ok_of_uncompiled hdocument hplan))
    rw [hdocument] at hcalls
    exact hcalls
  idle := by
    intro steps next hasked
    exact session.calls_of_idle steps hasked
  inAll := by
    intro steps last text plan hplan hmem hlast hasked
    exact callsFor_of_missed hfront hplan hmem hlast hasked
  same := by
    intro steps next text plan hasked hplan
    obtain ⟨prepared, hprepared, hsame⟩ := exists_get?_of_asked hfront steps hasked hplan
    refine ⟨prepared, hsame, ?_, ?_, ?_⟩
    . intro hfirst
      rw [get?_of_made hfront hasked hplan hfirst] at hprepared
      cases hprepared
      rfl
    . intro hnamed
      obtain ⟨answered, hanswered⟩ := exists_plan?_of_named hfront steps hnamed hasked hplan
      have hget := get?_after_of_plan? hfront steps hnamed hanswered
      rw [hprepared] at hget
      cases hget
      exact hanswered
    . intro between later hbetween hnamed
      obtain ⟨_, h⟩ := exists_remembers hfront (steps ++ [next])
      unfold answerAfter
      rw [List.append_cons, after_append]
      apply plan?_of_found _ session later.1 hnamed
      exact session.get?_run_of_found hbetween h.retention hprepared
  distinct := by
    intro steps next between later text other prepared plan hnamed hprepared hlater hplan hnumber
    have hfirst := get?_after_of_plan? hfront steps hnamed hprepared
    have hlast := get?_after_of_plan? hfront (steps ++ next :: between) hlater hplan
    rw [List.append_assoc, List.cons_append, List.append_cons] at hlast
    exact text_eq_of_number hfront hfirst hlast hnumber

def namesTokens : Tokens :=
  ⟨[ ⟨.punctuator .braceL, ⟨1, 1⟩⟩, ⟨.name "authors", ⟨1, 3⟩⟩, ⟨.punctuator .braceL, ⟨1, 11⟩⟩,
     ⟨.name "name", ⟨1, 13⟩⟩, ⟨.punctuator .braceR, ⟨1, 18⟩⟩, ⟨.punctuator .braceR, ⟨1, 20⟩⟩],
    ⟨1, 21⟩⟩

theorem planOf_namesRequest
    : ofLibrary.first.planOf namesRequest.text = .ok (Library.namesPlan Library.authors .sync) := by
  have hscan : Tokens.ofText namesRequest.text = .ok namesTokens := by
    cbv
  have hread : Document.ofText namesRequest.text = .ok Library.namesDocument := by
    unfold Document.ofText
    rw [hscan]
    rfl
  exact Gateway.planOf_ofSchema hread (Library.compile_namesDocument Library.authors .sync) _

theorem compilesOnce_ofLibrary
    : let prepared := [(false, SessionStep.prepare namesRequest.text)]
      (ofLibrary.after prepared).compilerCalls = 1
        ∧ (ofLibrary.after (prepared ++ [(true, .execute namesRequest)])).compilerCalls = 1 := by
  intro prepared
  have h := compilesOnce ofLibrary ⟨rfl, rfl, rfl⟩
  have hfirst := h.first [] (false, .prepare namesRequest.text) namesRequest.text _ rfl
    planOf_namesRequest List.not_mem_nil
  have hagain := h.again prepared (true, .execute namesRequest) namesRequest.text _ rfl
    planOf_namesRequest (by decide)
  exact ⟨hfirst.2, hagain.2.trans hfirst.2⟩

end Session
end GraphGateway

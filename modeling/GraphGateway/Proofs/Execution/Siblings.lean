import GraphGateway.Proofs.Execution.Accounts
import GraphGateway.Proofs.Execution.Delays
import GraphGateway.Proofs.Execution.Reduced
import GraphGateway.Proofs.Library
import GraphGateway.Proofs.Plan.Siblings

/-!
This module contains that root fields leave one another alone: a query for two selections whose
response keys are disjoint comes to what a query for each of them comes to, one after the other.
Only a null in the place of all data is shared.
-/

namespace GraphGateway

open SelectionItem (allFields headsAll depthAll)

def Settled.data : Settled → Json
  | .ok v => v
  | .error _ => .null

inductive Settled.Joins : Settled → Settled → Settled → Prop where
  | objects (members others : Json.Members)
    : Joins (.ok (.object members)) (.ok (.object others)) (.ok (.object (members ++ others)))
  | first (failure : Failure) (second : Settled) : Joins (.error failure) second (.error failure)
  | second (members : Json.Members) (failure : Failure)
    : Joins (.ok (.object members)) (.error failure) (.error failure)

theorem Settled.Joins.failures_subperm {first second joint : Settled} (h : first.Joins second joint)
    : joint.failures.Subperm (first.failures ++ second.failures) := by
  cases h with
  | objects members others => exact List.nil_subperm
  | first failure second => exact (List.sublist_append_left _ _).subperm
  | second members failure => exact (List.Sublist.refl _).subperm

/--
The data of two responses one after the other, with the errors of both; null takes
the place of all data.
-/
structure Response.Joins (first second joint : Response) : Prop where
  null_iff : joint.data = some .null ↔ first.data = some .null ∨ second.data = some .null
  members : joint.data ≠ some .null →
    ∃ members others, first.data = some (.object members) ∧ second.data = some (.object others)
      ∧ joint.data = some (.object (members ++ others))
      ∧ joint.errors.Perm (first.errors ++ second.errors)
  errors : joint.errors.Subperm (first.errors ++ second.errors)

def Execution.Joins (first second joint : Execution) : Prop :=
  ∃ a b c, first.outcome = .ok a ∧ second.outcome = .ok b ∧ joint.outcome = .ok c ∧ a.Joins b c
    ∧ joint.journal.invocations.Perm (first.journal.invocations ++ second.journal.invocations)

namespace Execution

theorem ofSettled_eq (result : Settled) (journal : Journal)
    : ofSettled result journal
        = ⟨.ok ⟨some result.data, (journal.failures ++ result.failures).map .ofFailure⟩,
            journal⟩ := by
  cases result with
  | ok v => simp [ofSettled, Settled.data, Settled.failures]
  | error failure => rfl

theorem joins_ofSettled {a b c : Settled} (h : a.Joins b c) {first second joint : Journal}
    (hfailures : joint.failures.Perm (first.failures ++ second.failures))
    (hinvocations : joint.invocations.Perm (first.invocations ++ second.invocations))
    : (ofSettled a first).Joins (ofSettled b second) (ofSettled c joint) := by
  have hinterleaved : ((first.failures ++ second.failures) ++ (a.failures ++ b.failures)).Perm
      ((first.failures ++ a.failures) ++ (second.failures ++ b.failures)) := by
    simp only [List.append_assoc]
    exact (List.perm_append_comm_assoc _ _ _).append_left _
  have herrors : (joint.failures ++ c.failures).Subperm
      ((first.failures ++ a.failures) ++ (second.failures ++ b.failures)) :=
    (hfailures.subperm.append h.failures_subperm).trans hinterleaved.subperm
  rw [ofSettled_eq, ofSettled_eq, ofSettled_eq]
  refine ⟨_, _, _, rfl, rfl, rfl, ⟨?_, ?_, ?_⟩, hinvocations⟩
  . cases h <;> simp [Settled.data]
  . cases h with
    | objects members others =>
      refine fun _ => ⟨members, others, rfl, rfl, rfl, ?_⟩
      have := hfailures.map ResponseError.ofFailure
      simpa [Settled.failures] using this
    | first failure second => exact fun hne => absurd rfl hne
    | second members failure => exact fun hne => absurd rfl hne
  . obtain ⟨shared, hperm, hsublist⟩ := herrors
    rw [← List.map_append]
    exact ⟨_, hperm.map _, hsublist.map _⟩

end Execution

namespace Task

theorem firstFailure_append (results others : List Settled)
    : firstFailure (results ++ others)
        = (firstFailure results).bind fun vs => (firstFailure others).map (vs ++ ·) := by
  induction results with
  | nil =>
    rw [List.nil_append, firstFailure_nil]
    cases firstFailure others <;> rfl
  | cons result rest ih =>
    cases result with
    | error failure => rfl
    | ok v =>
      rw [List.cons_append, firstFailure_ok, firstFailure_ok, ih]
      cases firstFailure rest with
      | error failure => rfl
      | ok vs => cases firstFailure others <;> rfl

theorem values_append (tasks others : List Task)
    : values (tasks ++ others) = values tasks ++ values others := by
  simp only [values_eq_map, List.map_append]

theorem journalAll_append (tasks others : List Task)
    : journalAll (tasks ++ others) = journalAll tasks ++ journalAll others := by
  induction tasks with
  | nil => rw [List.nil_append, journalAll, Journal.empty_append]
  | cons task rest ih => rw [List.cons_append, journalAll, journalAll, ih, Journal.append_assoc]

def ofFields (tasks : Ordered Task) : Task :=
  join (.object tasks.keys) (tasks.map Prod.snd)

theorem value_ofFields_append (tasks others : Ordered Task)
    : (ofFields tasks).value.Joins (ofFields others).value (ofFields (tasks ++ others)).value := by
  unfold ofFields
  simp only [value_join, assembled, List.map_append, values_append, firstFailure_append]
  cases htasks : firstFailure (values (tasks.map Prod.snd)) with
  | error failure => exact .first failure _
  | ok vs =>
    cases firstFailure (values (others.map Prod.snd)) with
    | error failure => exact .second _ failure
    | ok ws =>
      have hlength : tasks.keys.length = vs.length := by
        have := congrArg List.length (firstFailure_eq_ok htasks)
        simpa [values_eq_map, Ordered.keys] using this
      have hassemble : Container.assemble (.object (tasks ++ others).keys) (vs ++ ws)
          = .object (tasks.keys.zip vs ++ others.keys.zip ws) := by
        simp only [Container.assemble, Ordered.keys, List.map_append] at hlength ⊢
        rw [List.zip_append hlength]
      dsimp only [Except.bind, Except.map]
      rw [hassemble]
      exact .objects _ _

theorem journal_ofFields_append (tasks others : Ordered Task)
    : (ofFields (tasks ++ others)).journal
        = (ofFields tasks).journal ++ (ofFields others).journal := by
  simp only [ofFields, journal, List.map_append, journalAll_append]

theorem ofSelection_append {setting : Setting} {items others : List SelectionItem}
    (h : SelectedField.Disjoint (allFields items) (allFields others)) (levels : Nat) (type : String)
    (parent : Json) (path : Path)
    : ofSelection setting levels type (items ++ others) parent path
        = ofSelection setting levels type items parent path
          ++ ofSelection setting levels type others parent path := by
  cases levels with
  | zero => rfl
  | succ levels =>
    have hadmitted := h.mono (SelectionItem.admittedAll_subset setting.bindings items)
      (SelectionItem.admittedAll_subset setting.bindings others)
    unfold ofSelection
    rw [SelectionItem.admittedAll_append, FieldGroup.ofFields_append hadmitted, List.map_append]

theorem ofPlan_query (plan : Plan) (h : plan.kind = .query) (setting : Setting) {levels : Nat}
    (hlevels : plan.depth ≤ levels) (root : Json)
    : ofPlan plan setting root
        = ofFields (ofSelection setting levels plan.rootType plan.selection root []) := by
  have hserial : plan.isSerial = false := by
    unfold Plan.isSerial
    rw [h]
    rfl
  rw [ofSelection_levels (Nat.le_refl _) hlevels]
  unfold ofPlan
  rw [hserial]
  rfl

theorem ofPlan_extended {plan : Plan} (hquery : plan.kind = .query) {items : List SelectionItem}
    (hdisjoint : SelectedField.Disjoint (allFields plan.selection) (allFields items))
    (setting : Setting) (root : Json)
    : ∃ tasks others, ofPlan plan setting root = ofFields tasks
        ∧ ofPlan { plan with selection := items } setting root = ofFields others
        ∧ ofPlan (plan.extended items) setting root = ofFields (tasks ++ others) := by
  have hdepth : (plan.extended items).depth = max plan.depth (depthAll items) :=
    SelectionItem.depthAll_append _ _
  refine ⟨_, _, ofPlan_query plan hquery setting (Nat.le_max_left _ (depthAll items)) root,
    ofPlan_query { plan with selection := items } hquery setting
      (Nat.le_max_right plan.depth _) root, ?_⟩
  rw [ofPlan_query (plan.extended items) hquery setting (Nat.le_of_eq hdepth) root]
  exact congrArg ofFields (ofSelection_append hdisjoint _ plan.rootType root [])

/-- A run that comes to what a task comes to and notes the same, perhaps in another order. -/
def Yields (task : Task) (execution : Execution) : Prop :=
  ∃ journal, execution = .ofSettled task.value journal
    ∧ journal.failures.Perm task.journal.failures
    ∧ journal.invocations.Perm task.journal.invocations

theorem joins_of_yields {tasks others : Ordered Task} {first second joint : Execution}
    (hfirst : (ofFields tasks).Yields first) (hsecond : (ofFields others).Yields second)
    (hjoint : (ofFields (tasks ++ others)).Yields joint)
    : first.Joins second joint := by
  obtain ⟨_, rfl, hfailures, hinvocations⟩ := hfirst
  obtain ⟨_, rfl, hfailures', hinvocations'⟩ := hsecond
  obtain ⟨_, rfl, hfailuresJoint, hinvocationsJoint⟩ := hjoint
  rw [journal_ofFields_append] at hfailuresJoint hinvocationsJoint
  rw [Journal.invocations_append] at hinvocationsJoint
  apply Execution.joins_ofSettled (value_ofFields_append tasks others)
  . exact hfailuresJoint.trans (hfailures.append hfailures').symm
  . exact hinvocationsJoint.trans (hinvocations.append hinvocations').symm

end Task

namespace Plan

theorem yields_execute {plan : Plan} (h : plan.PanicFree) (setting : Setting) (root : Json)
    : (Task.ofPlan plan setting root).Yields (plan.execute setting root) := by
  obtain ⟨journal, hexecute, hperm⟩ := execute_eq h setting root
  exact ⟨journal, hexecute, hperm.failures, hperm.invocations⟩

variable {plan : Plan} {items : List SelectionItem}

theorem panicFree_extended (hplan : plan.PanicFree)
    (hitems : ({ plan with selection := items } : Plan).PanicFree)
    : (plan.extended items).PanicFree := by
  intro head hhead
  unfold heads extended at hhead
  rw [SelectionItem.headsAll_append, List.mem_append] at hhead
  exact hhead.elim (hplan head) (hitems head)

theorem joins_extended (hquery : plan.kind = .query)
    (hdisjoint : SelectedField.Disjoint (allFields plan.selection) (allFields items))
    (hplan : plan.PanicFree) (hitems : ({ plan with selection := items } : Plan).PanicFree)
    (setting : Setting) (root : Json)
    : (plan.execute setting root).Joins
          (({ plan with selection := items } : Plan).execute setting root)
          ((plan.extended items).execute setting root)
        ∧ ∀ delays delays' delaysJoint : Site → Call → Nat,
          (plan.executeDelayed delays setting root).Joins
            (({ plan with selection := items } : Plan).executeDelayed delays' setting root)
            ((plan.extended items).executeDelayed delaysJoint setting root) := by
  obtain ⟨tasks, others, hfirst, hsecond, hjoint⟩ :=
    Task.ofPlan_extended hquery hdisjoint setting root
  have hextended := panicFree_extended hplan hitems
  constructor
  . apply Task.joins_of_yields (hfirst ▸ yields_execute hplan setting root)
      (hsecond ▸ yields_execute hitems setting root)
    exact hjoint ▸ yields_execute hextended setting root
  . intro delays delays' delaysJoint
    apply Task.joins_of_yields (hfirst ▸ executeDelayed_eq hplan delays setting root)
      (hsecond ▸ executeDelayed_eq hitems delays' setting root)
    exact hjoint ▸ executeDelayed_eq hextended delaysJoint setting root

/--
A query for two selections with disjoint response keys compiles if a query for each of them does,
and its answers are those of the two queries together.
-/
theorem siblings_isolated {schema : Schema} {document : Document}
    {selections others : List Selection} {first second : Plan}
    (hfirst : compile schema (document.withRoot selections) = .ok first)
    (hsecond : compile schema (document.withRoot others) = .ok second)
    (hquery : first.kind = .query)
    (hkeys : ∀ key, document.HasKey key selections → ¬ document.HasKey key others)
    (hfree : first.PanicFree) (hfree' : second.PanicFree)
    : ∃ joint, compile schema (document.withRoot (selections ++ others)) = .ok joint
        ∧ joint.specs = first.specs
        ∧ ∀ provided bindings, VariableSpec.coerceAll first.specs provided = .ok bindings →
          ∀ context root,
            (first.answer provided context root).Joins (second.answer provided context root)
                (joint.answer provided context root)
              ∧ ∀ delays delays' delaysJoint,
                (first.executeDelayed delays ⟨bindings, context⟩ root).Joins
                  (second.executeDelayed delays' ⟨bindings, context⟩ root)
                  (joint.executeDelayed delaysJoint ⟨bindings, context⟩ root) := by
  obtain ⟨hjoint, hsame, hdisjoint⟩ := compile_withRoot_append hfirst hsecond hkeys
  refine ⟨_, hjoint, rfl, fun provided bindings hcoerce context root => ?_⟩
  have hspecs : VariableSpec.coerceAll (first.extended second.selection).specs provided
      = .ok bindings :=
    hcoerce
  rw [hsame] at hfree' ⊢
  unfold answer
  simp only [hcoerce, hspecs]
  exact joins_extended hquery hdisjoint hfree hfree' ⟨bindings, context⟩ root

end Plan

namespace Library

def namesSelection (key : String) : Selection :=
  .field ⟨some key, "authors", [], [], ⟨1, 3⟩⟩
    (some ⟨[.field ⟨none, "name", [], [], ⟨1, 13⟩⟩ none], ⟨1, 11⟩⟩)

def keyedPlan (key : String) : Plan :=
  ⟨.query, none, "Query", [],
    [.field { authorsField authors .sync with key } (some [.field nameField none])]⟩

theorem panicFree_keyedPlan (key : String) : (keyedPlan key).PanicFree := by
  have hheads : (keyedPlan key).heads = [{ authorsField authors .sync with key }, nameField] := rfl
  intro head hhead
  rw [hheads, List.mem_cons, List.mem_singleton] at hhead
  obtain rfl | rfl := hhead
  . exact panicFree_authorsField authors .sync key
  . exact panicFree_nameField

theorem compile_keyed (key : String)
    : Plan.compile (schema authors .sync) (namesDocument.withRoot [namesSelection key])
        = .ok (keyedPlan key) := by
  cbv

theorem key_of_namesSelection {document : Document} {key other : String}
    (h : document.HasKey other [namesSelection key])
    : other = key := by
  cases h with
  | field hmem hkey =>
    cases List.mem_singleton.mp hmem
    exact hkey.symm
  | spread hmem => cases List.mem_singleton.mp hmem
  | inline hmem => cases List.mem_singleton.mp hmem

def authorNames : Json :=
  .array
    [ .object [("name", .string "Ursula K. Le Guin")],
      .object [("name", .string "Octavia E. Butler")]
    ]

theorem outcome_keyedPlan (key : String)
    : ((keyedPlan key).answer [] .null .null).outcome
        = .ok ⟨some (.object [(key, authorNames)]), []⟩ := by
  cbv

theorem siblings_isolated_names
    : Plan.compile (schema authors .sync) (namesDocument.withRoot [namesSelection "ours"])
          = .ok (keyedPlan "ours")
        ∧ Plan.compile (schema authors .sync) (namesDocument.withRoot [namesSelection "theirs"])
          = .ok (keyedPlan "theirs")
        ∧ VariableSpec.coerceAll (keyedPlan "ours").specs [] = .ok []
        ∧ ∃ joint response, Plan.compile (schema authors .sync)
            (namesDocument.withRoot [namesSelection "ours", namesSelection "theirs"]) = .ok joint
          ∧ ((keyedPlan "ours").answer [] .null .null).Joins
            ((keyedPlan "theirs").answer [] .null .null)
            (joint.answer [] .null .null)
          ∧ (joint.answer [] .null .null).outcome = .ok response
          ∧ response.data = some (.object [("ours", authorNames), ("theirs", authorNames)]) := by
  refine ⟨compile_keyed "ours", compile_keyed "theirs", rfl, ?_⟩
  have hkeys (key : String) (hours : namesDocument.HasKey key [namesSelection "ours"])
      : ¬ namesDocument.HasKey key [namesSelection "theirs"] := by
    intro htheirs
    have hsame := (key_of_namesSelection hours).symm.trans (key_of_namesSelection htheirs)
    exact absurd hsame (by decide)
  obtain ⟨joint, hjoint, _, hjoins⟩ := Plan.siblings_isolated (compile_keyed "ours")
    (compile_keyed "theirs") rfl hkeys (panicFree_keyedPlan "ours") (panicFree_keyedPlan "theirs")
  obtain ⟨_, _, response, hours, htheirs, hresponse, hdata, hcalls⟩ :=
    (hjoins [] [] rfl .null .null).1
  refine ⟨joint, response, hjoint, ⟨_, _, _, hours, htheirs, hresponse, hdata, hcalls⟩,
    hresponse, ?_⟩
  cases hours.symm.trans (outcome_keyedPlan "ours")
  cases htheirs.symm.trans (outcome_keyedPlan "theirs")
  have hne : response.data ≠ some .null := by
    rw [Ne, hdata.null_iff]
    rintro (⟨⟨⟩⟩ | ⟨⟨⟩⟩)
  obtain ⟨_, _, ⟨⟩, ⟨⟩, hjointly, _⟩ := hdata.members hne
  exact hjointly

end Library

end GraphGateway

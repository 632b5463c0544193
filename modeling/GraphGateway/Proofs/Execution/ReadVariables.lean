import GraphGateway.Proofs.Execution.Unfolded
import GraphGateway.Proofs.Plan.ArgumentOutcomes
import GraphGateway.Proofs.Plan.Flags
import GraphGateway.Proofs.Plan.Literals

/-!
This module contains the variables that a selection reads, in its conditions and in its
arguments, and the proof that a run depends on no other variables. All variables that a plan
reads are declared in it.
-/

namespace GraphGateway

section Evaluation

variable {bindings others : Json.Members}

mutual

theorem Template.evaluate_congr {template : Template}
    (h : ∀ name ∈ template.variableNames, others.get? name = bindings.get? name)
    : template.evaluate others = template.evaluate bindings := by
  match template with
  | .const v => rfl
  | .variable name =>
    rw [evaluate, evaluate, h name List.mem_cons_self]
  | .list items =>
    rw [evaluate, evaluate, Template.evaluateItems_congr h]

theorem Template.evaluateItems_congr {items : List Template}
    (h : ∀ name ∈ variableNamesAll items, others.get? name = bindings.get? name)
    : evaluateItems others items = evaluateItems bindings items := by
  match items with
  | [] => rfl
  | item :: rest =>
    obtain ⟨hitem, hrest⟩ := List.forall_mem_append.mp h
    rw [evaluateItems, evaluateItems, Template.evaluate_congr hitem,
      Template.evaluateItems_congr hrest]

end

namespace ArgumentPlan

def variableNames (argument : ArgumentPlan) : List String :=
  argument.template.toList.flatMap Template.variableNames

theorem evaluate_congr {argument : ArgumentPlan}
    (h : ∀ name ∈ argument.variableNames, others.get? name = bindings.get? name)
    : argument.evaluate others = argument.evaluate bindings := by
  have hvalue : argument.value? others = argument.value? bindings := by
    unfold value?
    unfold variableNames at h
    cases htemplate : argument.template with
    | none => rfl
    | some template =>
      have h : ∀ name ∈ template.variableNames, others.get? name = bindings.get? name := by
        simpa [htemplate] using h
      cases template with
      | «variable» name =>
        dsimp only
        rw [h name List.mem_cons_self]
      | _ => exact congrArg some (Template.evaluate_congr h)
  unfold evaluate
  rw [hvalue]

theorem evaluateAll_congr {arguments : List ArgumentPlan}
    (h : ∀ argument ∈ arguments, ∀ name ∈ argument.variableNames,
      others.get? name = bindings.get? name)
    : evaluateAll arguments others = evaluateAll arguments bindings := by
  unfold evaluateAll
  refine congrArg (· >>= _) (mapM_congr fun argument hargument => ?_)
  rw [evaluate_congr (h argument hargument)]

end ArgumentPlan

theorem Condition.admits_congr {condition : Condition}
    (h : others.get? condition.variableName = bindings.get? condition.variableName)
    : condition.admits others = condition.admits bindings := by
  unfold admits
  rw [h]

end Evaluation

namespace SelectionItem

theorem allConditionsIn_cons (item : SelectionItem) (rest : List SelectionItem)
    : allConditionsIn (item :: rest) = item.allConditions ++ allConditionsIn rest := by
  rw [allConditionsIn]

section Admitted

variable {bindings others : Json.Members}

theorem all_admits_congr {conditions : List Condition}
    (h : ∀ condition ∈ conditions,
      others.get? condition.variableName = bindings.get? condition.variableName)
    : conditions.all (·.admits others) = conditions.all (·.admits bindings) := by
  rw [Bool.eq_iff_iff, List.all_eq_true, List.all_eq_true]
  exact forall₂_congr fun condition hcondition => by
    rw [Condition.admits_congr (h condition hcondition)]

theorem conditions_subset_allConditions (head : FieldPlan) (children : Option (List SelectionItem))
    : head.conditions ⊆ (field head children).allConditions := by
  cases children with
  | none => exact List.Subset.refl _
  | some children => exact List.subset_append_left _ _

mutual

theorem admitted_congr {item : SelectionItem}
    (h : ∀ condition ∈ item.allConditions,
      others.get? condition.variableName = bindings.get? condition.variableName)
    : item.admitted others = item.admitted bindings := by
  match item with
  | field head children =>
    rw [admitted, admitted, all_admits_congr]
    exact fun condition hcondition => h condition (conditions_subset_allConditions _ _ hcondition)
  | group conditions items =>
    obtain ⟨hconditions, hitems⟩ := List.forall_mem_append.mp h
    rw [admitted, admitted, all_admits_congr hconditions, admittedAll_congr hitems]

theorem admittedAll_congr {items : List SelectionItem}
    (h : ∀ condition ∈ allConditionsIn items,
      others.get? condition.variableName = bindings.get? condition.variableName)
    : admittedAll others items = admittedAll bindings items := by
  match items with
  | [] => rfl
  | item :: rest =>
    obtain ⟨hitem, hrest⟩ := List.forall_mem_append.mp h
    rw [admittedAll, admittedAll, admitted_congr hitem, admittedAll_congr hrest]

end

mutual

theorem allConditionsIn_of_mem_fields {item : SelectionItem} {field : SelectedField}
    (h : field ∈ item.fields)
    : allConditionsIn (field.children.getD []) ⊆ item.allConditions := by
  match item with
  | .field head none =>
    cases List.mem_singleton.mp h
    exact List.nil_subset _
  | .field head (some children) =>
    cases List.mem_singleton.mp h
    exact List.subset_append_right _ _
  | .group conditions items =>
    exact List.subset_append_of_subset_right _ (allConditionsIn_of_mem_allFields h)

theorem allConditionsIn_of_mem_allFields {items : List SelectionItem} {field : SelectedField}
    (h : field ∈ allFields items)
    : allConditionsIn (field.children.getD []) ⊆ allConditionsIn items := by
  match items with
  | [] => cases h
  | item :: rest =>
    rw [allConditionsIn_cons]
    obtain h | h := List.mem_append.mp h
    . exact List.subset_append_of_subset_left _ (allConditionsIn_of_mem_fields h)
    . exact List.subset_append_of_subset_right _ (allConditionsIn_of_mem_allFields h)

end

end Admitted

end SelectionItem

open SelectionItem (headsAll allConditionsIn admittedAll)

theorem FieldGroup.allConditionsIn_children_subset {bindings : Json.Members}
    {items : List SelectionItem} {key : String} {group : FieldGroup}
    (h : ofKey? key (admittedAll bindings items) = some group)
    : allConditionsIn group.children ⊆ allConditionsIn items := by
  intro condition hcondition
  obtain ⟨item, hitem, hcondition⟩ := SelectionItem.exists_of_mem_allConditionsIn hcondition
  obtain ⟨field, hfield, hitem⟩ := List.mem_flatMap.mp hitem
  apply SelectionItem.allConditionsIn_of_mem_allFields (fields_subset_of_ofKey? h hfield)
  exact subset_of_mem SelectionItem.allConditionsIn_cons hitem hcondition

namespace SelectionItem

def variablesRead (items : List SelectionItem) : List String :=
  (allConditionsIn items).map Condition.variableName
    ++ (headsAll items).flatMap fun head => head.arguments.flatMap ArgumentPlan.variableNames

variable {items : List SelectionItem}

theorem mem_variablesRead_of_condition {condition : Condition}
    (h : condition ∈ allConditionsIn items)
    : condition.variableName ∈ variablesRead items :=
  List.mem_append_left _ (List.mem_map_of_mem h)

theorem mem_variablesRead_of_argument {head : FieldPlan} (hhead : head ∈ headsAll items)
    {argument : ArgumentPlan} (hargument : argument ∈ head.arguments) {name : String}
    (hname : name ∈ argument.variableNames)
    : name ∈ variablesRead items :=
  List.mem_append_right _
    (List.mem_flatMap.mpr ⟨head, hhead, List.mem_flatMap.mpr ⟨argument, hargument, hname⟩⟩)

theorem variablesRead_children_subset {bindings : Json.Members} {key : String} {group : FieldGroup}
    (h : FieldGroup.ofKey? key (admittedAll bindings items) = some group)
    : variablesRead group.children ⊆ variablesRead items := by
  intro name hname
  obtain hname | hname := List.mem_append.mp hname
  . obtain ⟨condition, hcondition, rfl⟩ := List.mem_map.mp hname
    exact mem_variablesRead_of_condition (FieldGroup.allConditionsIn_children_subset h hcondition)
  . obtain ⟨head, hhead, hname⟩ := List.mem_flatMap.mp hname
    obtain ⟨argument, hargument, hname⟩ := List.mem_flatMap.mp hname
    exact mem_variablesRead_of_argument (FieldGroup.headsAll_children_subset h hhead)
      hargument hname

end SelectionItem

open SelectionItem (variablesRead)

namespace Task

variable {setting other : Setting}

theorem ofGroup_congr (hcontext : other.context = setting.context) {object others : ObjectTasks}
    {group : FieldGroup}
    (harguments : ArgumentPlan.evaluateAll group.first.head.arguments other.bindings
      = ArgumentPlan.evaluateAll group.first.head.arguments setting.bindings)
    (h : ∀ type v path, others type group.children v path = object type group.children v path)
    (type : String) (parent : Json) (path : Path) (key : String)
    : ofGroup other others type parent path key group
        = ofGroup setting object type parent path key group := by
  unfold ofGroup resolve
  simp only [complete_congr h, harguments, hcontext]

theorem ofSelection_congr (hcontext : other.context = setting.context) (levels : Nat)
    (type : String) {items : List SelectionItem}
    (h : ∀ name ∈ variablesRead items, other.bindings.get? name = setting.bindings.get? name)
    (parent : Json) (path : Path)
    : ofSelection other levels type items parent path
        = ofSelection setting levels type items parent path := by
  induction levels generalizing type items parent path with
  | zero => rfl
  | succ levels ih =>
    have hadmitted : admittedAll other.bindings items = admittedAll setting.bindings items :=
      SelectionItem.admittedAll_congr fun condition hcondition =>
        h _ (SelectionItem.mem_variablesRead_of_condition hcondition)
    unfold ofSelection
    rw [hadmitted]
    apply List.map_congr_left
    rintro ⟨key, group⟩ hgroup
    have hgroup := FieldGroup.mem_ofFields_iff.mp hgroup
    refine congrArg (Prod.mk key) (ofGroup_congr hcontext ?_ ?_ type parent path key)
    . refine ArgumentPlan.evaluateAll_congr fun argument hargument name hname => ?_
      exact h name (SelectionItem.mem_variablesRead_of_argument
        (FieldGroup.first_mem_headsAll hgroup) hargument hname)
    . intro type v path
      dsimp only
      rw [ih type fun name hname =>
        h name (SelectionItem.variablesRead_children_subset hgroup hname)]

theorem ofPlan_congr (hcontext : other.context = setting.context) {plan : Plan}
    (h : ∀ name ∈ variablesRead plan.selection,
      other.bindings.get? name = setting.bindings.get? name)
    (root : Json)
    : ofPlan plan other root = ofPlan plan setting root := by
  unfold ofPlan
  rw [ofSelection_congr hcontext plan.depth plan.rootType h]

end Task

namespace Plan

open Compile

theorem declares_of_mem_variablesRead {schema : Schema} {document : Document} {plan : Plan}
    (h : compile schema document = .ok plan)
    {name : String} (hname : name ∈ variablesRead plan.selection)
    : plan.Declares name := by
  obtain ⟨operation, root, _, hdeclared, hselection⟩ := exists_parts_of_compile h
  obtain ⟨herrors, hvalue⟩ := Checked.eq_pure_iff.mp hselection
  have hwell :=
    wellFormed_compileSet (checks_typesArgument _ False) (fun _ _ _ _ => False.elim) _ _ _ root
      (fun _ _ => False.elim) herrors
  rw [hvalue] at hwell
  obtain hname | hname := List.mem_append.mp hname
  . obtain ⟨condition, hcondition, rfl⟩ := List.mem_map.mp hname
    obtain ⟨item, hitem, hcondition⟩ := SelectionItem.exists_of_mem_allConditionsIn hcondition
    obtain ⟨definition, hfind, _⟩ := (hwell item hitem).conditionOk condition hcondition
    exact declares_of_findVariable hdeclared hfind
  . obtain ⟨head, hhead, hname⟩ := List.mem_flatMap.mp hname
    obtain ⟨argument, hargument, hname⟩ := List.mem_flatMap.mp hname
    obtain ⟨template, htemplate, hname⟩ := List.mem_flatMap.mp hname
    obtain ⟨item, hitem, hhead⟩ := SelectionItem.exists_of_mem_headsAll hhead
    have htypes := (hwell item hitem).argumentOk head hhead argument hargument template
      (Option.mem_toList.mp htemplate)
    obtain ⟨definition, hfind⟩ := htypes.findVariable name hname
    exact declares_of_findVariable hdeclared hfind

end Plan
end GraphGateway

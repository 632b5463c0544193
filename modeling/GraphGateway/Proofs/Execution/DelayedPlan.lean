import GraphGateway.Proofs.Execution.Delays
import GraphGateway.Proofs.Plan.MapHeads

/-!
This module contains the proof that the delays of resolvers are all that is changed when they are
changed in the plan, and that a plan comes to the same whatever they are.
-/

namespace GraphGateway

open SelectionItem (mapHeadsAll admittedAll)

def Resolution.withDelays (delays : Call → Nat) : Resolution → Resolution
  | .resolver r => .resolver fun call => { r call with delay := delays call }
  | other => other

def FieldPlan.withDelays (delays : Call → Nat) (field : FieldPlan) : FieldPlan :=
  { field with resolution := field.resolution.withDelays delays }

def Plan.withDelays (delays : Call → Nat) (plan : Plan) : Plan :=
  { plan with selection := mapHeadsAll (FieldPlan.withDelays delays) plan.selection }

namespace Task

variable (delays : Call → Nat)

theorem complete_withDelays {object other : ObjectTasks} {children : List SelectionItem}
    (h : ∀ type v path,
      other type (mapHeadsAll (FieldPlan.withDelays delays) children) v path
        = (object type children v path).delayed fun _ => delays)
    (type : OutputType) (site : Site) (v : Json)
    : complete other (mapHeadsAll (FieldPlan.withDelays delays) children) type site v
        = (complete object children type site v).delayed fun _ => delays := by
  induction type generalizing site v with
  | scalar s =>
    unfold complete
    split
    . rfl
    . cases s.serialize v <;> rfl
  | object name =>
    unfold complete
    split
    . rfl
    . exact h name v site.path
  | list inner ih =>
    unfold complete
    cases v with
    | array items =>
      dsimp
      rw [delayed, delayedAll_eq_map, map_mapIdx]
      congr 1
      apply congrArg (List.mapIdx · items)
      funext i item
      rw [delayed, ih]
    | _ => rfl
  | nonNull inner ih => exact ih site v

theorem resolve_withDelays {setting : Setting} {object other : ObjectTasks} {group : FieldGroup}
    (h : ∀ type v path,
      other type (mapHeadsAll (FieldPlan.withDelays delays) group.children) v path
        = (object type group.children v path).delayed fun _ => delays)
    (type : String) (parent : Json) (site : Site)
    : resolve setting other type parent (group.mapHeads (FieldPlan.withDelays delays)) site
        = (resolve setting object type parent group site).delayed fun _ => delays := by
  have hcomplete := complete_withDelays delays h group.first.head.output site
  unfold resolve
  rw [FieldGroup.children_mapHeads]
  dsimp [FieldGroup.mapHeads, SelectedField.mapHeads, FieldPlan.withDelays]
  cases hresolution : group.first.head.resolution with
  | typename => rfl
  | property =>
    dsimp [Resolution.withDelays]
    cases ArgumentPlan.evaluateAll group.first.head.arguments setting.bindings with
    | error fault => rfl
    | ok arguments => exact hcomplete _
  | resolver resolver =>
    dsimp [Resolution.withDelays]
    cases ArgumentPlan.evaluateAll group.first.head.arguments setting.bindings with
    | error fault => rfl
    | ok arguments =>
      dsimp
      rw [delayed]
      split
      . next v heq => rw [hcomplete]
      . rfl
      . rfl

theorem ofGroup_withDelays {setting : Setting} {object other : ObjectTasks} {group : FieldGroup}
    (h : ∀ type v path,
      other type (mapHeadsAll (FieldPlan.withDelays delays) group.children) v path
        = (object type group.children v path).delayed fun _ => delays)
    (type : String) (parent : Json) (path : Path) (key : String)
    : ofGroup setting other type parent path key (group.mapHeads (FieldPlan.withDelays delays))
        = (ofGroup setting object type parent path key group).delayed fun _ => delays := by
  have hpositions : (group.mapHeads (FieldPlan.withDelays delays)).positions = group.positions :=
    FieldGroup.positions_mapHeads (by intro; rfl) group
  unfold ofGroup
  dsimp only
  rw [delayed, hpositions, resolve_withDelays delays h]
  rfl

theorem ofSelection_withDelays (setting : Setting) (levels : Nat) (type : String)
    (items : List SelectionItem) (parent : Json) (path : Path)
    : ofSelection setting levels type (mapHeadsAll (FieldPlan.withDelays delays) items) parent path
        = (ofSelection setting levels type items parent path).mapValues
            (delayed fun _ => delays) := by
  induction levels generalizing type items parent path with
  | zero => rfl
  | succ levels ih =>
    unfold ofSelection
    -- Which fields are admitted, and into which groups they go, does not depend on delays.
    rw [SelectionItem.admittedAll_mapHeadsAll _ (by intro; rfl),
      FieldGroup.ofFields_mapHeads (by intro; rfl)]
    unfold Ordered.mapValues
    rw [List.map_map, List.map_map]
    apply List.map_congr_left
    rintro ⟨key, group⟩ _
    refine congrArg (Prod.mk key) ?_
    apply ofGroup_withDelays
    intro type v path
    rw [ih, delayed, delayedAll_eq_map]
    simp [Ordered.mapValues, Ordered.keys]

theorem ofPlan_withDelays (plan : Plan) (setting : Setting) (root : Json)
    : ofPlan (plan.withDelays delays) setting root
        = (ofPlan plan setting root).delayed fun _ => delays := by
  have hdepth : (plan.withDelays delays).depth = plan.depth :=
    SelectionItem.depthAll_mapHeadsAll _ plan.selection
  have hserial : (plan.withDelays delays).isSerial = plan.isSerial := rfl
  have htasks := ofSelection_withDelays delays setting plan.depth plan.rootType plan.selection
    root []
  unfold ofPlan
  dsimp only
  rw [hdepth, hserial]
  unfold Plan.withDelays
  dsimp only
  rw [htasks]
  split
  . rw [delayed, delayedAll_eq_map]
    simp [Ordered.mapValues, Ordered.keys]
  . rw [delayed, delayedAll_eq_map]
    simp [Ordered.mapValues, Ordered.keys]

end Task

namespace Plan

theorem execute_withDelays (plan : Plan) (delays : Call → Nat) (setting : Setting) (root : Json)
    : (plan.withDelays delays).execute setting root
        = plan.executeDelayed (fun _ => delays) setting root := by
  unfold execute executeDelayed
  rw [Task.ofPlan_withDelays]

variable {plan : Plan} (h : plan.PanicFree) (setting : Setting) (root : Json)

include h

theorem executeDelayed_agrees (first second : Site → Call → Nat)
    : (plan.executeDelayed first setting root).Agrees
        (plan.executeDelayed second setting root) := by
  obtain ⟨_, hfirst, hfailures, hinvocations⟩ := executeDelayed_eq h first setting root
  obtain ⟨_, hsecond, hfailures', hinvocations'⟩ := executeDelayed_eq h second setting root
  rw [hfirst, hsecond]
  apply Execution.ofSettled_agrees
  . exact hfailures.trans hfailures'.symm
  . exact hinvocations.trans hinvocations'.symm

theorem executeDelayed_agrees_atOnce (delays : Site → Call → Nat)
    : (plan.executeDelayed delays setting root).Agrees (plan.executeAtOnce setting root) := by
  obtain ⟨_, hdelayed, hfailures, hinvocations⟩ := executeDelayed_eq h delays setting root
  rw [hdelayed, executeAtOnce_eq h]
  exact Execution.ofSettled_agrees _ hfailures hinvocations

theorem execute_agrees_atOnce
    : (plan.execute setting root).Agrees (plan.executeAtOnce setting root) := by
  obtain ⟨_, hexecute, hperm⟩ := execute_eq h setting root
  rw [hexecute, executeAtOnce_eq h]
  exact Execution.ofSettled_agrees _ hperm.failures hperm.invocations

theorem schedule_independent (first second : Site → Call → Nat)
    : (plan.executeDelayed first setting root).Agrees (plan.executeDelayed second setting root)
        ∧ (plan.executeDelayed first setting root).Agrees (plan.executeAtOnce setting root)
        ∧ (plan.execute setting root).Agrees (plan.executeAtOnce setting root)
        ∧ ∀ delays : Call → Nat, (plan.withDelays delays).execute setting root
            = plan.executeDelayed (fun _ => delays) setting root := by
  refine ⟨?_, ?_, ?_, ?_⟩
  . exact executeDelayed_agrees h setting root first second
  . exact executeDelayed_agrees_atOnce h setting root first
  . exact execute_agrees_atOnce h setting root
  . intro delays
    exact execute_withDelays plan delays setting root

omit h

def brokenField (name : String) : FieldPlan :=
  ⟨name, "Query", name, .resolver fun call => .ofError (.ofMessage call.fieldName), [], [],
    .scalar .int, ⟨1, 1⟩⟩

theorem panicFree_brokenField (name : String) : (brokenField name).PanicFree := by
  intro resolver hresolver call panic
  cases hresolver
  exact Outcome.noConfusion

def race : Plan :=
  ⟨.query, none, "Query", [],
    [.field (brokenField "first") none, .field (brokenField "second") none]⟩

theorem panicFree_race : race.PanicFree := by
  have hheads : race.heads = [brokenField "first", brokenField "second"] := rfl
  intro head hhead
  rw [hheads, List.mem_cons, List.mem_singleton] at hhead
  rcases hhead with rfl | rfl <;> exact panicFree_brokenField _

def firstWaits (_ : Site) (call : Call) : Nat :=
  if call.fieldName = "first" then 1 else 0

theorem schedule_independent_race
    : race.PanicFree
        ∧ (race.executeDelayed firstWaits ⟨[], .null⟩ .null).Agrees
            (race.executeDelayed (fun _ _ => 0) ⟨[], .null⟩ .null) :=
  ⟨panicFree_race, (schedule_independent panicFree_race _ _ _ _).1⟩

end Plan
end GraphGateway

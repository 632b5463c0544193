import GraphGateway.Proofs.Execution.Accounting
import GraphGateway.Proofs.Execution.InvocationSites
import GraphGateway.Proofs.Plan.Agreement

/-!
This module contains the fields of a run: which fields stand at a position of the response, with the
object that they are fields of, and that resolvers are invoked only for such fields, with the
arguments that these have.
-/

namespace GraphGateway

open SelectionItem (admittedAll depthAll headsAll)

theorem Place.walk?_append (setting : Setting) (place : Place) (path rest : Path)
    : place.walk? setting (path ++ rest)
        = (place.walk? setting path).bind (walk? setting · rest) := by
  induction path generalizing place with
  | nil => rfl
  | cons segment path ih =>
    rw [List.cons_append, walk?, walk?]
    cases place.step? setting segment with
    | none => rfl
    | some next => exact ih next

namespace Plan

variable {plan : Plan} {setting : Setting} {root : Json}

theorem at_of_places {path : Path} {place : Place} (hne : path ≠ [])
    (h : plan.places setting root path = some place)
    : (plan.places setting root).At setting path place := by
  cases path with
  | nil => exact absurd rfl hne
  | cons segment rest =>
    cases segment with
    | index i => cases h
    | key key =>
      obtain ⟨first, hfirst, hwalk⟩ := Option.bind_eq_some_iff.mp h
      intro more
      rw [List.cons_append, places, hfirst, Option.bind_some, Place.walk?_append, hwalk,
        Option.bind_some]

/-- The object that a place is supplied with. The root is one, even if it is supplied as null. -/
structure IsObject (path : Path) (place : Place) (type : String) (v : Json) : Prop where
  type : place.type.bare = .object type
  supplied : place.supplied = .ok v
  notNull : path ≠ [] → v.isNull = false

/--
The fields that share a response key in a run, which stand at a path, and the object that they are
fields of, with its type.
-/
def FieldAt (plan : Plan) (setting : Setting) (root : Json) (path : Path) (type : String)
    (parent : Json) (group : FieldGroup)
    : Prop :=
  ∃ above key place, path = above ++ [.key key] ∧ plan.places setting root above = some place
    ∧ IsObject above place type parent
    ∧ FieldGroup.ofKey? key (admittedAll setting.bindings place.children) = some group

theorem FieldAt.at {path : Path} {type : String} {parent : Json} {group : FieldGroup}
    (h : plan.FieldAt setting root path type parent group)
    : (plan.places setting root).At setting path (.ofGroup setting type parent group) := by
  obtain ⟨above, key, place, rfl, hplace, hobject, hgroup⟩ := h
  by_cases habove : above = []
  . subst habove
    cases hplace
    cases hobject.type
    cases hobject.supplied
    exact at_field hgroup
  . apply (at_of_places habove hplace).step
    rw [Place.step?_of_object setting hobject.type rfl hobject.supplied (hobject.notNull habove),
      Place.ofField?, hgroup, Option.map_some]

theorem FieldAt.unique {path : Path} {type other : String} {parent second : Json}
    {group larger : FieldGroup} (h : plan.FieldAt setting root path type parent group)
    (h' : plan.FieldAt setting root path other second larger)
    : type = other ∧ parent = second ∧ group = larger := by
  obtain ⟨above, key, place, rfl, hplace, hobject, hgroup⟩ := h
  obtain ⟨_, _, _, heq, hplace', hobject', hgroup'⟩ := h'
  obtain ⟨rfl, hkey⟩ := List.append_inj' heq rfl
  cases hkey
  cases hplace.symm.trans hplace'
  cases hobject.type.symm.trans hobject'.type
  cases hobject.supplied.symm.trans hobject'.supplied
  cases hgroup.symm.trans hgroup'
  exact ⟨rfl, rfl, rfl⟩

def InvokedAt (plan : Plan) (setting : Setting) (root : Json) (invocation : Site × Call) : Prop :=
  let (site, call) := invocation
  ∃ group, plan.FieldAt setting root site.path call.typeName call.parent group
    ∧ site.positions = group.positions
    ∧ call.fieldName = group.first.head.name
    ∧ call.context = setting.context
    ∧ ArgumentPlan.evaluateAll group.first.head.arguments setting.bindings = .ok call.arguments

end Plan

namespace Task

variable {plan : Plan} {setting : Setting} {root : Json}

def AllAt (plan : Plan) (setting : Setting) (root : Json) (invocations : List (Site × Call))
    : Prop :=
  ∀ invocation ∈ invocations, plan.InvokedAt setting root invocation

theorem allAt_nil : AllAt plan setting root [] :=
  fun _ hmem => nomatch hmem

def ObjectsAt (plan : Plan) (setting : Setting) (root : Json) (object : ObjectTasks)
    (children : List SelectionItem)
    : Prop :=
  ∀ name v path place, path ≠ [] → plan.places setting root path = some place →
    Plan.IsObject path place name v → place.children = children →
      AllAt plan setting root (object name children v path).invocations

variable {object : ObjectTasks} {children : List SelectionItem}

theorem allAt_complete (hobject : ObjectsAt plan setting root object children) (type : OutputType)
    (site : Site) (v : Json) (place : Place) (htype : place.type.bare = type.bare)
    (hchildren : place.children = children) (hsupplied : place.supplied = .ok v)
    (hpath : site.path ≠ []) (hplace : plan.places setting root site.path = some place)
    : AllAt plan setting root (complete object children type site v).invocations := by
  induction type generalizing site v place with
  | scalar s =>
    unfold complete
    split
    . exact allAt_nil
    . split <;> exact allAt_nil
  | object name =>
    unfold complete
    split
    . exact allAt_nil
    . next hnull =>
      exact hobject name v site.path place hpath hplace
        ⟨htype, hsupplied, fun _ => Bool.eq_false_iff.mpr hnull⟩ hchildren
  | list inner ih =>
    unfold complete
    split
    . exact allAt_nil
    . next items =>
      rw [← map_snd_elements, invocations, invocationsAll_eq_flatMap, List.flatMap_map]
      intro invocation hinvocation
      obtain ⟨⟨segment, task⟩, hbranch, hinvocation⟩ := List.mem_flatMap.mp hinvocation
      obtain ⟨i, item, hitem, rfl, rfl⟩ := mem_elements_iff.mp hbranch
      have hstep : place.step? setting (.index i) = some ⟨inner, children, .ok item⟩ := by
        rw [Place.step?_of_list htype hsupplied, hitem, hchildren, Option.map_some]
      have hnext := (Plan.at_of_places hpath hplace).step hstep
      exact ih (site.element i) item _ rfl rfl rfl (by simp [Site.element]) hnext.eq_some invocation
        hinvocation
    . exact allAt_nil
  | nonNull inner ih => exact ih site v place htype hchildren hsupplied hpath hplace

theorem allAt_resolve {group : FieldGroup} {type : String} {parent : Json} (site : Site)
    (hobject : ObjectsAt plan setting root object group.children)
    (hfield : plan.FieldAt setting root site.path type parent group)
    (hpositions : site.positions = group.positions)
    : AllAt plan setting root (resolve setting object type parent group site).invocations := by
  have hpath : site.path ≠ [] := by
    obtain ⟨_, _, _, hpath, _⟩ := hfield
    simp [hpath]
  have hcomplete := fun v hsupplied =>
    allAt_complete hobject group.first.head.output site v _ rfl rfl hsupplied hpath
      hfield.at.eq_some
  have hsupplied : (Place.ofGroup setting type parent group).supplied
      = group.first.head.supply setting type parent := rfl
  have hresolves := resolves setting object type parent group site
  rw [← hsupplied] at hresolves
  generalize hsupply : (Place.ofGroup setting type parent group).supplied = supplied at hresolves
  generalize resolve setting object type parent group site = task at hresolves ⊢
  -- The field itself is at its path, and what comes of its value is at the places below it.
  have hinvoked {arguments : Json.Members} {next : Task} (reply : Reply)
      (harguments : ArgumentPlan.evaluateAll group.first.head.arguments setting.bindings
        = .ok arguments)
      (hnext : AllAt plan setting root next.invocations)
      : AllAt plan setting root (invoke site ⟨parent, arguments, setting.context, type,
          group.first.head.name⟩ reply next).invocations := by
    rw [invocations]
    exact List.forall_mem_cons.mpr
      ⟨⟨group, hfield, hpositions, rfl, rfl, harguments⟩, hnext⟩
  cases hresolves with
  | typename => exact allAt_nil
  | property => exact hcomplete _ hsupply
  | fault => exact allAt_nil
  | value _ harguments hcall =>
    subst hcall
    exact hinvoked _ harguments (hcomplete _ hsupply)
  | error _ harguments hcall =>
    subst hcall
    exact hinvoked _ harguments allAt_nil
  | panic _ harguments hcall =>
    subst hcall
    exact hinvoked _ harguments allAt_nil

theorem allAt_ofSelection {levels : Nat} {items : List SelectionItem}
    (hdepth : depthAll items ≤ levels) {type : String} {parent : Json} {path : Path}
    (hfields : ∀ key group,
      FieldGroup.ofKey? key (admittedAll setting.bindings items) = some group →
      plan.FieldAt setting root (path ++ [.key key]) type parent group)
    : AllAt plan setting root
        (invocationsAll ((ofSelection setting levels type items parent path).map Prod.snd)) := by
  induction levels using Nat.strongRecOn generalizing type items parent path with
  | ind levels ih =>
    rw [invocationsAll_eq_flatMap, List.flatMap_map]
    intro invocation hinvocation
    obtain ⟨⟨key, task⟩, hmem, hinvocation⟩ := List.mem_flatMap.mp hinvocation
    obtain ⟨group, hgroup, rfl⟩ := (mem_ofSelection_iff setting hdepth _ _ _ _ _).mp hmem
    have hlt := FieldGroup.depthAll_children_lt hgroup
    have hobject : ObjectsAt plan setting root (ofObject setting (levels - 1)) group.children := by
      intro name v inner place hne hplace hobject hchildren
      rw [← hchildren] at hlt ⊢
      apply ih (levels - 1) (by omega) (by omega)
      exact fun key group hgroup => ⟨inner, key, place, rfl, hplace, hobject, hgroup⟩
    have hresolve :=
      allAt_resolve ⟨group.first.head.coordinate, group.positions, path ++ [.key key]⟩
        hobject (hfields key group hgroup) rfl
    exact hresolve invocation hinvocation

end Task

namespace Plan

variable {plan : Plan} {setting : Setting} {root : Json}

theorem fieldAt_root {key : String} {group : FieldGroup}
    (hgroup : FieldGroup.ofKey? key (admittedAll setting.bindings plan.selection) = some group)
    : plan.FieldAt setting root ([] ++ [.key key]) plan.rootType root group :=
  ⟨[], key, _, rfl, rfl, ⟨rfl, rfl, fun hne => absurd rfl hne⟩, hgroup⟩

theorem invokedAt_execute (plan : Plan) (setting : Setting) (root : Json)
    : ∀ invocation ∈ (plan.execute setting root).journal.invocations,
        plan.InvokedAt setting root invocation := by
  intro invocation hinvocation
  have hmem := (plan.invocations_execute setting root).subset hinvocation
  have hall : Task.AllAt plan setting root _ :=
    Task.allAt_ofSelection (Nat.le_refl plan.depth) fun key group hgroup => fieldAt_root hgroup
  unfold Task.ofPlan at hmem
  dsimp only at hmem
  split at hmem <;> exact hall invocation hmem

end Plan

def OutputType.object? : OutputType → Option String
  | scalar _ => none
  | object name => some name
  | list inner | nonNull inner => inner.object?

theorem OutputType.object?_bare (type : OutputType) : type.bare.object? = type.object? := by
  induction type with
  | nonNull inner ih => exact ih
  | _ => rfl

theorem OutputType.innermost_of_object? {type : TypeRef} {name : String}
    (h : (ofTypeRef type).object? = some name)
    : type.innermost = name := by
  induction type with
  | named other =>
    unfold ofTypeRef at h
    split at h
    . cases h
    . exact Option.some.inj h
  | list inner ih => exact ih h
  | nonNull inner ih => exact ih h

section Sound

variable {schema : Schema} {ArgumentOk : ArgumentPlan → Prop} {ConditionOk : Condition → Prop}
  {plan : Plan} {setting : Setting} {root : Json}

/-- The selection on a place is on its type, and is a part of the plan. -/
structure Place.Fits (schema : Schema) (ArgumentOk : ArgumentPlan → Prop)
    (ConditionOk : Condition → Prop) (plan : Plan) (place : Place)
    : Prop where
  heads : ∀ head ∈ headsAll place.children, head ∈ plan.heads
  on : ∀ name, place.type.object? = some name →
    SelectionItem.On schema ArgumentOk ConditionOk name place.children
  agree : ∃ levels, depthAll place.children ≤ levels
    ∧ FieldGroup.AgreeWithin levels (SelectionItem.allFields place.children)

namespace Place.Fits

variable {place : Place}

theorem field (h : place.Fits schema ArgumentOk ConditionOk plan) {type key : String}
    (htype : place.type.bare = .object type) {group : FieldGroup}
    (hgroup : FieldGroup.ofKey? key (admittedAll setting.bindings place.children) = some group)
    (parent : Json)
    : (∃ object, schema.object? type = some object
          ∧ (SelectionItem.field group.first.head group.first.children).WellFormed schema ArgumentOk
            ConditionOk object)
        ∧ (Place.ofGroup setting type parent group).Fits schema ArgumentOk ConditionOk plan := by
  have hsubset := SelectionItem.admittedAll_subset setting.bindings place.children
  have hfields : group.fields ⊆ SelectionItem.allFields place.children := fun field hfield =>
    hsubset (FieldGroup.mem_of_ofKey? hgroup hfield).1
  have hname : place.type.object? = some type := by
    rw [← OutputType.object?_bare, htype]
    rfl
  obtain ⟨object, hobject, hwell⟩ :=
    (h.on type hname).exists_object (hfields group.first_mem_fields)
  have hfirst := SelectionItem.wellFormed_of_mem_allFields hwell (hfields group.first_mem_fields)
  have hlt := FieldGroup.depthAll_children_lt hgroup
  obtain ⟨levels, hdepth, hagree⟩ := h.agree
  obtain ⟨fewer, rfl⟩ := Nat.exists_eq_add_one_of_ne_zero (by omega : levels ≠ 0)
  obtain ⟨hagrees, hchildren⟩ := hagree.mono hsubset key group hgroup
  refine ⟨⟨object, hobject, hfirst⟩, ?_, ?_, fewer, ?_, hchildren⟩
  . exact FieldGroup.forall_headsAll_children hgroup h.heads
  . intro name houtput
    obtain htypename | ⟨field, hdeclared⟩ := hfirst.head
    . rw [Place.ofGroup, htypename.output] at houtput
      cases houtput
    . rw [Place.ofGroup, hdeclared.output] at houtput
      rw [← OutputType.innermost_of_object? houtput]
      exact FieldGroup.on_children hwell hfields hagrees hdeclared.field?
  . have hlt : depthAll group.children < depthAll place.children := hlt
    exact Nat.le_of_lt_succ (lt_of_lt_of_le hlt hdepth)

theorem step (h : place.Fits schema ArgumentOk ConditionOk plan) {segment : PathSegment}
    {next : Place} (hstep : place.step? setting segment = some next)
    : next.Fits schema ArgumentOk ConditionOk plan := by
  unfold Place.step? at hstep
  split at hstep
  . next inner items i htype _ =>
    obtain ⟨item, _, rfl⟩ := Option.map_eq_some_iff.mp hstep
    refine ⟨h.heads, fun name hname => h.on name ?_, h.agree⟩
    rw [← OutputType.object?_bare, htype]
    exact hname
  . next name v key htype _ =>
    split at hstep
    . cases hstep
    . obtain ⟨group, hgroup, rfl⟩ := Option.map_eq_some_iff.mp hstep
      exact (h.field htype hgroup v).2
  . cases hstep

theorem walk (h : place.Fits schema ArgumentOk ConditionOk plan) {path : Path} {next : Place}
    (hwalk : place.walk? setting path = some next)
    : next.Fits schema ArgumentOk ConditionOk plan := by
  induction path generalizing place with
  | nil =>
    cases hwalk
    exact h
  | cons segment rest ih =>
    obtain ⟨first, hfirst, hrest⟩ := Option.bind_eq_some_iff.mp hwalk
    exact ih (h.step hfirst) hrest

end Place.Fits

namespace Plan

variable (hitems : SelectionItem.On schema ArgumentOk ConditionOk plan.rootType plan.selection)
  (hagree : FieldGroup.AgreeWithin plan.depth (SelectionItem.allFields plan.selection))

include hitems hagree

theorem fits_rootPlace (root : Json)
    : (plan.rootPlace root).Fits schema ArgumentOk ConditionOk plan where
  heads _ hhead := hhead
  on := by
    rintro name ⟨⟩
    exact hitems
  agree := ⟨plan.depth, Nat.le_refl _, hagree⟩

theorem fits_of_places {path : Path} {place : Place}
    (h : plan.places setting root path = some place)
    : place.Fits schema ArgumentOk ConditionOk plan := by
  cases path with
  | nil =>
    cases h
    exact fits_rootPlace hitems hagree root
  | cons segment rest =>
    cases segment with
    | index i => cases h
    | key key =>
      obtain ⟨first, hfirst, hwalk⟩ := Option.bind_eq_some_iff.mp h
      obtain ⟨group, hgroup, rfl⟩ := Option.map_eq_some_iff.mp hfirst
      exact ((fits_rootPlace hitems hagree root).field rfl hgroup root).2.walk hwalk

theorem FieldAt.wellFormed {path : Path} {type : String} {parent : Json} {group : FieldGroup}
    (h : plan.FieldAt setting root path type parent group)
    : group.first.head ∈ plan.heads
        ∧ ∃ object, schema.object? type = some object
          ∧ (SelectionItem.field group.first.head group.first.children).WellFormed schema ArgumentOk
            ConditionOk object := by
  obtain ⟨above, key, place, rfl, hplace, hobject, hgroup⟩ := h
  have hfits := fits_of_places hitems hagree hplace
  exact ⟨hfits.heads _ (FieldGroup.first_mem_headsAll hgroup),
    (hfits.field hobject.type hgroup parent).1⟩

end Plan

end Sound

end GraphGateway

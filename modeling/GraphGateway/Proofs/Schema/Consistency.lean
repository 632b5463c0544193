import GraphGateway.Proofs.Document.Spelling
import GraphGateway.Library.Schema

/-!
This module contains which blueprints are consistent, and that a schema is built from a blueprint
exactly if it is, in whatever order the fields of its objects are checked.
-/

namespace GraphGateway

section Checks

variable {ε α β : Type}

theorem bind_pure_eq_ok_iff {x : Except ε Unit} {b c : β}
    : (do x; return b) = .ok c ↔ x = .ok ⟨⟩ ∧ c = b := by
  cases x with
  | error e => exact ⟨nofun, fun h => nomatch h.1⟩
  | ok _ =>
    constructor
    . rintro ⟨⟩
      exact ⟨rfl, rfl⟩
    . rintro ⟨_, rfl⟩
      rfl

theorem forIn_eq_ok_iff {P : α → Prop} {f : α → Unit → Except ε (ForInStep Unit)}
    (hf : ∀ x step, f x ⟨⟩ = .ok step ↔ P x ∧ step = .yield ⟨⟩) {xs : List α} {u : Unit}
    : forIn xs ⟨⟩ f = .ok u ↔ ∀ x ∈ xs, P x := by
  induction xs with
  | nil => exact ⟨fun _ => nofun, fun _ => rfl⟩
  | cons x rest ih =>
    rw [List.forIn_cons, List.forall_mem_cons, ← ih]
    constructor
    . intro h
      obtain ⟨step, hstep, hrest⟩ := bind_eq_ok h
      obtain ⟨hx, rfl⟩ := (hf x step).mp hstep
      exact ⟨hx, hrest⟩
    . rintro ⟨hx, hrest⟩
      rw [(hf x _).mpr ⟨hx, rfl⟩]
      exact hrest

end Checks

structure IsOwnName (name : String) : Prop where
  text : IsNameText name.toList
  notReserved : ¬ ['_', '_'] <+: name.toList

def IsScalarName (name : String) : Prop :=
  ∃ scalar : Scalar, scalar.name = name

namespace Blueprint

variable {blueprint : Blueprint}

def Registers (blueprint : Blueprint) (name : String) : Prop :=
  ∃ object ∈ blueprint.objects, object.name = name

structure FitsArgument (name : String) (argument : ArgumentDef) : Prop where
  name : IsOwnName name
  type : IsScalarName argument.type.innermost

structure FitsField (blueprint : Blueprint) (name : String) (field : FieldDef) : Prop where
  name : IsOwnName name
  type : IsScalarName field.type.innermost ∨ blueprint.Registers field.type.innermost
  arguments : ∀ argument ∈ field.arguments, FitsArgument argument.1 argument.2

/-- What a blueprint must be like for a schema to be built from it. -/
structure Consistent (blueprint : Blueprint) : Prop where
  names : ∀ object ∈ blueprint.objects, IsOwnName object.name
  distinct : (blueprint.objects.map ObjectType.name).Nodup
  notScalar : ∀ object ∈ blueprint.objects, ¬ IsScalarName object.name
  nonempty : ∀ object ∈ blueprint.objects, object.fields ≠ []
  fields : ∀ object ∈ blueprint.objects, ∀ field ∈ object.fields,
    blueprint.FitsField field.1 field.2
  query : blueprint.Registers blueprint.query
  mutation : ∀ name ∈ blueprint.mutation, blueprint.Registers name

section Names

theorem isValidName_iff (name : String) : isValidName name = true ↔ IsOwnName name := by
  unfold isValidName
  constructor
  . intro h
    split at h
    . cases h
    . next c rest heq =>
      simp only [Bool.and_eq_true, List.all_eq_true] at h
      obtain ⟨⟨hstart, hcontinue⟩, hreserved⟩ := h
      refine ⟨⟨c, rest, heq, hstart, hcontinue⟩, ?_⟩
      rw [heq]
      rintro ⟨after, hafter⟩
      cases hafter
      cases hreserved
  . rintro ⟨⟨c, rest, heq, hstart, hcontinue⟩, hreserved⟩
    rw [heq] at hreserved ⊢
    dsimp only
    rw [hstart, List.all_eq_true.mpr hcontinue, Bool.and_self, Bool.true_and]
    cases rest with
    | nil => simp
    | cons d rest =>
      have hfirst : (decide (c = '_') && (d :: rest).head? = some '_') = false := by
        rw [Bool.and_eq_false_iff, decide_eq_false_iff_not, decide_eq_false_iff_not]
        refine Decidable.not_and_iff_not_or_not.mp ?_
        rintro ⟨rfl, ⟨⟩⟩
        exact hreserved ⟨rest, rfl⟩
      rw [hfirst]
      rfl

theorem checkName_eq_ok_iff (name : String) {u : Unit}
    : checkName name = .ok u ↔ IsOwnName name := by
  unfold checkName
  rw [← isValidName_iff]
  cases isValidName name <;> simp

end Names

section Types

variable {objects : List ObjectType} {name : String}

theorem isSome_ofName?_iff : (Scalar.ofName? name).isSome ↔ IsScalarName name := by
  constructor
  . intro h
    obtain ⟨scalar, hscalar⟩ := Option.isSome_iff_exists.mp h
    exact ⟨scalar, Scalar.name_of_ofName? hscalar⟩
  . rintro ⟨scalar, rfl⟩
    rw [Scalar.ofName?_name]
    rfl

theorem isSome_findObject?_iff
    : (Schema.findObject? objects name).isSome ↔ ∃ object ∈ objects, object.name = name := by
  unfold Schema.findObject?
  rw [List.find?_isSome]
  simp

theorem isSome_findType?_iff
    : (Schema.findType? objects name).isSome
        ↔ IsScalarName name ∨ ∃ object ∈ objects, object.name = name := by
  rw [← isSome_ofName?_iff, ← isSome_findObject?_iff]
  unfold Schema.findType?
  cases Scalar.ofName? name <;> simp

theorem any_isInput_findType?_iff (objects : List ObjectType)
    : (Schema.findType? objects name).any NamedType.isInput = true ↔ IsScalarName name := by
  rw [← isSome_ofName?_iff]
  unfold Schema.findType?
  cases Scalar.ofName? name with
  | some scalar => exact ⟨fun _ => rfl, fun _ => rfl⟩
  | none => cases Schema.findObject? objects name <;> exact ⟨nofun, nofun⟩

theorem exists_root_iff (hscalar : ∀ object ∈ objects, ¬ IsScalarName object.name)
    : (∃ object, root objects name = .ok object) ↔ ∃ object ∈ objects, object.name = name := by
  rw [← isSome_findObject?_iff]
  unfold root Schema.findType?
  cases hname : Scalar.ofName? name with
  | some scalar =>
    refine ⟨nofun, fun h => ?_⟩
    obtain ⟨object, hobject, rfl⟩ := isSome_findObject?_iff.mp h
    exact absurd (isSome_ofName?_iff.mp (Option.isSome_of_eq_some hname)) (hscalar object hobject)
  | none =>
    cases Schema.findObject? objects name with
    | none => exact ⟨nofun, nofun⟩
    | some object => exact ⟨fun _ => rfl, fun _ => ⟨object, rfl⟩⟩

end Types

section Checks

variable {objects earlier : List ObjectType} {u : Unit}

theorem checkObject_eq_ok_iff (object : ObjectType)
    : checkObject earlier object = .ok u
        ↔ IsOwnName object.name ∧ object.fields ≠ [] ∧ ¬ IsScalarName object.name
          ∧ ∀ other ∈ earlier, other.name ≠ object.name := by
  have hknown : (Schema.findType? earlier object.name).isSome = false
      ↔ ¬ IsScalarName object.name ∧ ∀ other ∈ earlier, other.name ≠ object.name := by
    rw [← Bool.not_eq_true, isSome_findType?_iff]
    simp
  rw [← hknown, ← checkName_eq_ok_iff (u := ()), ← List.isEmpty_eq_false_iff]
  unfold checkObject
  cases checkName object.name with
  | error e => exact ⟨nofun, fun h => nomatch h.1⟩
  | ok _ =>
    cases object.fields.isEmpty with
    | true => exact ⟨nofun, fun h => nomatch h.2.1⟩
    | false =>
      cases (Schema.findType? earlier object.name).isSome with
      | true => exact ⟨nofun, fun h => nomatch h.2.2⟩
      | false => exact ⟨fun _ => ⟨rfl, rfl, rfl⟩, fun _ => rfl⟩

theorem checkObjects_eq_ok_iff
    : checkObjects earlier objects = .ok u
        ↔ (∀ object ∈ objects,
            IsOwnName object.name ∧ object.fields ≠ [] ∧ ¬ IsScalarName object.name)
          ∧ (objects.map ObjectType.name).Nodup
          ∧ ∀ object ∈ objects, ∀ other ∈ earlier, other.name ≠ object.name := by
  induction objects generalizing earlier with
  | nil => simp [checkObjects]
  | cons object rest ih =>
    have hbind : checkObjects earlier (object :: rest) = .ok u
        ↔ checkObject earlier object = .ok ()
          ∧ checkObjects (earlier ++ [object]) rest = .ok u := by
      rw [checkObjects]
      cases checkObject earlier object with
      | error e => exact ⟨nofun, fun h => nomatch h.1⟩
      | ok _ => exact ⟨fun h => ⟨rfl, h⟩, And.right⟩
    rw [hbind, checkObject_eq_ok_iff, ih]
    simp only [List.forall_mem_cons, List.map_cons, List.nodup_cons, List.mem_map, not_exists,
      not_and, List.forall_mem_append, List.not_mem_nil, false_implies, implies_true, and_true]
    constructor
    . rintro ⟨⟨hname, hfields, hscalar, hearlier⟩, hrest, hnodup, hothers⟩
      exact ⟨⟨⟨hname, hfields, hscalar⟩, hrest⟩,
        ⟨fun other hother heq => (hothers other hother).2 heq.symm, hnodup⟩, hearlier,
        fun other hother => (hothers other hother).1⟩
    . rintro ⟨⟨⟨hname, hfields, hscalar⟩, hrest⟩, ⟨hfirst, hnodup⟩, hearlier, hothers⟩
      exact ⟨⟨hname, hfields, hscalar, hearlier⟩, hrest, hnodup,
        fun other hother => ⟨hothers other hother, fun heq => hfirst other hother heq.symm⟩⟩

theorem checkArgument_eq_ok_iff (coordinate name : String) (argument : ArgumentDef)
    : checkArgument objects coordinate name argument = .ok u ↔ FitsArgument name argument := by
  have hfits : FitsArgument name argument
      ↔ IsOwnName name ∧ IsScalarName argument.type.innermost :=
    ⟨fun h => ⟨h.name, h.type⟩, fun h => ⟨h.1, h.2⟩⟩
  rw [hfits, ← checkName_eq_ok_iff (u := ()), ← any_isInput_findType?_iff objects]
  unfold checkArgument
  cases checkName name with
  | error e => exact ⟨nofun, fun h => nomatch h.1⟩
  | ok _ =>
    rcases Schema.findType? objects argument.type.innermost with _ | scalar | object
    . exact ⟨nofun, fun h => nomatch h.2⟩
    . exact ⟨fun _ => ⟨rfl, rfl⟩, fun _ => rfl⟩
    . exact ⟨nofun, fun h => nomatch h.2⟩

theorem checkField_eq_ok_iff (object : ObjectType) (name : String) (field : FieldDef)
    : checkField blueprint.objects object name field = .ok u ↔ blueprint.FitsField name field := by
  have hfits : blueprint.FitsField name field
      ↔ IsOwnName name ∧ (Schema.findType? blueprint.objects field.type.innermost).isSome
        ∧ ∀ argument ∈ field.arguments, FitsArgument argument.1 argument.2 := by
    rw [isSome_findType?_iff]
    exact ⟨fun h => ⟨h.name, h.type, h.arguments⟩, fun h => ⟨h.1, h.2.1, h.2.2⟩⟩
  rw [hfits, ← checkName_eq_ok_iff (u := ())]
  unfold checkField
  cases checkName name with
  | error e => exact ⟨nofun, fun h => nomatch h.1⟩
  | ok _ =>
    cases Schema.findType? blueprint.objects field.type.innermost with
    | none => exact ⟨nofun, fun h => nomatch h.2.1⟩
    | some type =>
      refine bind_pure_eq_ok_iff.trans ?_
      rw [forIn_eq_ok_iff (P := fun argument : String × ArgumentDef =>
        FitsArgument argument.1 argument.2)]
      . simp
      . intro argument step
        exact bind_pure_eq_ok_iff.trans (by rw [checkArgument_eq_ok_iff])

end Checks

/-- Checks the fields of objects in the given order; all types are known by then. -/
def checkFieldsIn (objects order : List ObjectType) : Except SchemaError Unit := do
  for object in order do
    for (name, field) in object.fields do
      checkField objects object name field

/-- Builds a schema, where the fields of the objects are checked in the given order. -/
def buildIn (order : List ObjectType) (blueprint : Blueprint) : Except SchemaError Schema := do
  checkObjects [] blueprint.objects
  checkFieldsIn blueprint.objects order
  let query ← root blueprint.objects blueprint.query
  let mutation ← blueprint.mutation.mapM (root blueprint.objects)
  return ⟨blueprint.objects, query, mutation⟩

theorem build_eq_buildIn (blueprint : Blueprint)
    : blueprint.build = blueprint.buildIn blueprint.objects := rfl

section Building

variable {order : List ObjectType}

theorem checkFieldsIn_eq_ok_iff {u : Unit}
    : checkFieldsIn blueprint.objects order = .ok u
        ↔ ∀ object ∈ order, ∀ field ∈ object.fields, blueprint.FitsField field.1 field.2 := by
  unfold checkFieldsIn
  refine bind_pure_eq_ok_iff.trans ?_
  rw [forIn_eq_ok_iff (P := fun object : ObjectType =>
    ∀ field ∈ object.fields, blueprint.FitsField field.1 field.2)]
  . simp
  . intro object step
    refine bind_pure_eq_ok_iff.trans ?_
    rw [forIn_eq_ok_iff (P := fun field : String × FieldDef => blueprint.FitsField field.1 field.2)]
    intro field step
    exact bind_pure_eq_ok_iff.trans (by rw [checkField_eq_ok_iff])

theorem root_eq_ok_iff {objects : List ObjectType} {name : String} {object : ObjectType}
    : root objects name = .ok object ↔ Schema.findType? objects name = some (.object object) := by
  unfold root
  rcases Schema.findType? objects name with _ | scalar | other <;> simp

theorem buildIn_eq_ok_iff {schema : Schema}
    : blueprint.buildIn order = .ok schema
        ↔ checkObjects [] blueprint.objects = .ok ()
          ∧ checkFieldsIn blueprint.objects order = .ok ()
          ∧ schema.objects = blueprint.objects
          ∧ root blueprint.objects blueprint.query = .ok schema.query
          ∧ blueprint.mutation.mapM (root blueprint.objects) = .ok schema.mutation := by
  unfold buildIn
  constructor
  . intro h
    obtain ⟨_, hobjects, h⟩ := bind_eq_ok h
    obtain ⟨_, hfields, h⟩ := bind_eq_ok h
    obtain ⟨query, hquery, h⟩ := bind_eq_ok h
    obtain ⟨mutation, hmutation, h⟩ := bind_eq_ok h
    cases h
    exact ⟨hobjects, hfields, rfl, hquery, hmutation⟩
  . rintro ⟨hobjects, hfields, heq, hquery, hmutation⟩
    rw [hobjects, hfields, hquery, hmutation, ← heq]
    rfl

theorem exists_mapM_root_iff {objects : List ObjectType} {name? : Option String}
    : (∃ mutation, name?.mapM (root objects) = .ok mutation)
        ↔ ∀ name ∈ name?, ∃ object, root objects name = .ok object := by
  cases name? with
  | none => exact ⟨fun _ => nofun, fun _ => ⟨none, rfl⟩⟩
  | some name =>
    constructor
    . rintro ⟨mutation, h⟩ _ ⟨⟩
      obtain ⟨object, hobject, _⟩ := bind_eq_ok h
      exact ⟨object, hobject⟩
    . intro h
      obtain ⟨object, hobject⟩ := h name rfl
      refine ⟨some object, ?_⟩
      rw [Option.mapM_some, hobject]
      rfl

theorem consistent_iff
    : blueprint.Consistent
        ↔ checkObjects [] blueprint.objects = .ok ()
          ∧ checkFieldsIn blueprint.objects blueprint.objects = .ok ()
          ∧ (∃ query, root blueprint.objects blueprint.query = .ok query)
          ∧ ∃ mutation, blueprint.mutation.mapM (root blueprint.objects) = .ok mutation := by
  rw [checkObjects_eq_ok_iff, checkFieldsIn_eq_ok_iff, exists_mapM_root_iff]
  constructor
  . intro h
    refine ⟨⟨fun object hobject => ?_, h.distinct, by simp⟩, h.fields, ?_, ?_⟩
    . exact ⟨h.names object hobject, h.nonempty object hobject, h.notScalar object hobject⟩
    . exact (exists_root_iff h.notScalar).mpr h.query
    . exact fun name hname => (exists_root_iff h.notScalar).mpr (h.mutation name hname)
  . rintro ⟨⟨hobjects, hdistinct, _⟩, hfields, hquery, hmutation⟩
    have hscalar : ∀ object ∈ blueprint.objects, ¬ IsScalarName object.name :=
      fun object hobject => (hobjects object hobject).2.2
    exact
      { names := fun object hobject => (hobjects object hobject).1
        distinct := hdistinct
        notScalar := hscalar
        nonempty := fun object hobject => (hobjects object hobject).2.1
        fields := hfields
        query := (exists_root_iff hscalar).mp hquery
        mutation := fun name hname => (exists_root_iff hscalar).mp (hmutation name hname) }

structure ResolvedIn (blueprint : Blueprint) (schema : Schema) : Prop where
  objects : schema.objects = blueprint.objects
  query : schema.object? blueprint.query = some schema.query
  mutation : blueprint.mutation.mapM schema.object? = some schema.mutation
  fields : ∀ object ∈ schema.objects, ∀ field ∈ object.fields,
    (schema.type? field.2.type.innermost).isSome
  arguments : ∀ object ∈ schema.objects, ∀ field ∈ object.fields,
    ∀ argument ∈ field.2.arguments, schema.isInputType argument.2.type = true

theorem object?_of_root {schema : Schema} {name : String} {object : ObjectType}
    (h : root schema.objects name = .ok object)
    : schema.object? name = some object := by
  unfold Schema.object?
  rw [root_eq_ok_iff.mp h]

theorem mapM_object?_of_root {schema : Schema} {name? : Option String} {object? : Option ObjectType}
    (h : name?.mapM (root schema.objects) = .ok object?)
    : name?.mapM schema.object? = some object? := by
  cases name? with
  | none =>
    cases h
    rfl
  | some name =>
    obtain ⟨object, hobject, heq⟩ := bind_eq_ok h
    cases heq
    rw [Option.mapM_some, object?_of_root hobject]
    rfl

theorem resolvedIn_of_buildIn {schema : Schema} (horder : order.Perm blueprint.objects)
    (h : blueprint.buildIn order = .ok schema)
    : blueprint.ResolvedIn schema := by
  obtain ⟨_, hfields, hobjects, hquery, hmutation⟩ := buildIn_eq_ok_iff.mp h
  have hfits : ∀ object ∈ schema.objects, ∀ field ∈ object.fields,
      blueprint.FitsField field.1 field.2 := by
    intro object hobject
    exact checkFieldsIn_eq_ok_iff.mp hfields object (horder.mem_iff.mpr (hobjects ▸ hobject))
  rw [← hobjects] at hquery hmutation
  refine ⟨hobjects, object?_of_root hquery, mapM_object?_of_root hmutation, ?_, ?_⟩
  . intro object hobject field hfield
    have htype := (hfits object hobject field hfield).type
    rw [Registers, ← hobjects] at htype
    exact isSome_findType?_iff.mpr htype
  . intro object hobject field hfield argument hargument
    have htype := ((hfits object hobject field hfield).arguments argument hargument).type
    exact (any_isInput_findType?_iff _).mpr htype

/--
A schema is built exactly from the consistent blueprints. In whatever order the fields are checked,
it is the same schema, in which all names stand for something.
-/
theorem builds_iff_consistent (blueprint : Blueprint) (horder : order.Perm blueprint.objects)
    : ((∃ schema, blueprint.buildIn order = .ok schema) ↔ blueprint.Consistent)
        ∧ ∀ schema, blueprint.buildIn order = .ok schema →
          blueprint.build = .ok schema ∧ blueprint.ResolvedIn schema := by
  have hfields : checkFieldsIn blueprint.objects order = .ok ()
      ↔ checkFieldsIn blueprint.objects blueprint.objects = .ok () := by
    simp only [checkFieldsIn_eq_ok_iff, horder.mem_iff]
  constructor
  . simp only [consistent_iff, buildIn_eq_ok_iff, hfields]
    constructor
    . rintro ⟨schema, hobjects, hfields, _, hquery, hmutation⟩
      exact ⟨hobjects, hfields, ⟨_, hquery⟩, ⟨_, hmutation⟩⟩
    . rintro ⟨hobjects, hfields, ⟨query, hquery⟩, mutation, hmutation⟩
      exact ⟨⟨_, query, mutation⟩, hobjects, hfields, rfl, hquery, hmutation⟩
  . intro schema h
    refine ⟨?_, resolvedIn_of_buildIn horder h⟩
    rw [build_eq_buildIn, buildIn_eq_ok_iff, ← hfields, ← buildIn_eq_ok_iff]
    exact h

end Building

theorem builds_iff_consistent_reversed
    : (Library.blueprint .null .sync).objects.reverse.Perm (Library.blueprint .null .sync).objects
        ∧ (Library.blueprint .null .sync).Consistent := by
  refine ⟨List.reverse_perm _, (builds_iff_consistent _ (List.reverse_perm _)).1.mp ?_⟩
  exact ⟨_, rfl⟩

end Blueprint

end GraphGateway

import GraphGateway.Execution.Unfold
import GraphGateway.Proofs.Plan.Groups

/-!
This module contains the places of a run: what type a position of the response has, which
selection is on it and what was supplied for it. They are found by walking from the root,
without running anything.
-/

namespace GraphGateway

open SelectionItem (admittedAll)

def OutputType.bare : OutputType → OutputType
  | nonNull inner => inner.bare
  | type => type

structure Place where
  type : OutputType
  children : List SelectionItem
  supplied : Except Failure.Cause Json

def FieldPlan.supply (field : FieldPlan) (setting : Setting) (parentType : String) (parent : Json)
    : Except Failure.Cause Json :=
  match field.resolution with
  | .typename => .ok (.string parentType)
  | .property =>
    match ArgumentPlan.evaluateAll field.arguments setting.bindings with
    | .error fault => .error (.argument fault)
    | .ok _ => .ok ((parent.get? field.name).getD .null)
  | .resolver r =>
    match ArgumentPlan.evaluateAll field.arguments setting.bindings with
    | .error fault => .error (.argument fault)
    | .ok arguments =>
      match (r ⟨parent, arguments, setting.context, parentType, field.name⟩).outcome with
      | .value v => .ok v
      | .error e => .error (.resolver e)
      | .panic _ => .ok .null

namespace Place

def mismatch? (type : OutputType) (v : Json) : Option Failure.Cause :=
  match type with
  | .list _ => if v.items?.isSome then none else some .notList
  | .scalar s =>
    match s.serialize v with
    | .ok _ => none
    | .error fault => some (.scalar fault)
  | _ => none

/-- What is wrong with the value that was supplied, apart from what is below it. -/
def fault? (place : Place) : Option Failure.Cause :=
  match place.supplied with
  | .error cause => some cause
  | .ok v =>
    if v.isNull then if place.type.isNonNull then some .nullValue else none
    else mismatch? place.type.bare v

theorem fault?_of_error {place : Place} {cause : Failure.Cause} (h : place.supplied = .error cause)
    : place.fault? = some cause := by
  unfold fault?
  rw [h]

theorem fault?_of_null {place : Place} (h : place.supplied = .ok .null)
    : place.fault? = if place.type.isNonNull then some .nullValue else none := by
  unfold fault?
  rw [h]
  rfl

theorem fault?_of_not_null {place : Place} {v : Json} (h : place.supplied = .ok v)
    (hv : v.isNull = false)
    : place.fault? = mismatch? place.type.bare v := by
  unfold fault?
  rw [h]
  simp [hv]

def ofGroup (setting : Setting) (parentType : String) (parent : Json) (group : FieldGroup)
    : Place :=
  ⟨group.first.head.output, group.children, group.first.head.supply setting parentType parent⟩

def ofField? (setting : Setting) (parentType : String) (items : List SelectionItem)
    (parent : Json) (key : String)
    : Option Place :=
  (FieldGroup.ofKey? key (admittedAll setting.bindings items)).map
    (ofGroup setting parentType parent)

def step? (setting : Setting) (place : Place) (segment : PathSegment) : Option Place :=
  match place.type.bare, place.supplied, segment with
  | .list inner, .ok (.array items), .index i =>
    items[i]?.map fun item => ⟨inner, place.children, .ok item⟩
  | .object name, .ok v, .key key =>
    if v.isNull then none else ofField? setting name place.children v key
  | _, _, _ => none

variable {setting : Setting} {place : Place}

theorem step?_of_null (h : place.supplied = .ok .null) (segment : PathSegment)
    : place.step? setting segment = none := by
  unfold step?
  rw [h]
  cases place.type.bare <;> cases segment <;> rfl

theorem step?_of_object (setting : Setting) {name : String} {children : List SelectionItem}
    {v : Json} (htype : place.type.bare = .object name) (hchildren : place.children = children)
    (hsupplied : place.supplied = .ok v) (hnull : v.isNull = false) (key : String)
    : place.step? setting (.key key) = ofField? setting name children v key := by
  unfold step?
  rw [htype, hsupplied]
  simp [hnull, hchildren]

theorem step?_index_of_object {name : String} (h : place.type.bare = .object name) (i : Nat)
    : place.step? setting (.index i) = none := by
  unfold step?
  rw [h]
  cases place.supplied <;> rfl

theorem step?_of_list {inner : OutputType} {items : List Json}
    (htype : place.type.bare = .list inner) (hsupplied : place.supplied = .ok (.array items))
    (i : Nat)
    : place.step? setting (.index i)
        = items[i]?.map fun item => ⟨inner, place.children, .ok item⟩ := by
  unfold step?
  rw [htype, hsupplied]

theorem step?_key_of_list {inner : OutputType} (h : place.type.bare = .list inner) (key : String)
    : place.step? setting (.key key) = none := by
  unfold step?
  rw [h]
  cases place.supplied with
  | error cause => rfl
  | ok v => cases v <;> rfl

theorem step?_of_scalar {s : Scalar} (h : place.type.bare = .scalar s) (segment : PathSegment)
    : place.step? setting segment = none := by
  unfold step?
  rw [h]

def walk? (setting : Setting) : Place → Path → Option Place
  | place, [] => some place
  | place, segment :: rest => (place.step? setting segment).bind (walk? setting · rest)

end Place

abbrev Places := Path → Option Place

/-- The places of a run. The root is an object, even if it is supplied as null. -/
def Plan.places (plan : Plan) (setting : Setting) (root : Json) : Places
  | [] => some ⟨.object plan.rootType, plan.selection, .ok root⟩
  | .key key :: rest =>
    (Place.ofField? setting plan.rootType plan.selection root key).bind (·.walk? setting rest)
  | .index _ :: _ => none

namespace Places

def NonNull (places : Places) (path : Path) : Prop :=
  ∃ place, places path = some place ∧ place.type.isNonNull = true

def Nullable (places : Places) (path : Path) : Prop :=
  ∃ place, places path = some place ∧ place.type.isNonNull = false

def Fails (places : Places) (path : Path) (cause : Failure.Cause) : Prop :=
  ∃ place, places path = some place ∧ place.fault? = some cause

/-- The nearest position at or above a path that may be null. -/
structure Home (places : Places) (home path : Path) : Prop where
  above : home <+: path
  nullable : places.Nullable home
  nearest : ∀ q, home <+: q → q <+: path → q ≠ home → places.NonNull q

variable {places : Places}

theorem Nullable.not_nonNull {path : Path} (h : places.Nullable path) : ¬ places.NonNull path := by
  obtain ⟨place, hplace, htype⟩ := h
  rintro ⟨other, hother, htype'⟩
  rw [hplace] at hother
  cases hother
  rw [htype] at htype'
  cases htype'

theorem Home.prefix_of_nullable {home path q : Path} (h : places.Home home path)
    (hq : places.Nullable q) (hpath : q <+: path)
    : q <+: home := by
  rcases List.prefix_or_prefix_of_prefix hpath h.above with hle | hle
  . exact hle
  . by_cases heq : q = home
    . subst heq
      exact List.prefix_refl q
    . exact absurd (h.nearest q hle hpath heq) hq.not_nonNull

def At (places : Places) (setting : Setting) (path : Path) (place : Place) : Prop :=
  ∀ rest, places (path ++ rest) = place.walk? setting rest

variable {setting : Setting} {path : Path} {place next : Place}

theorem At.eq_some (h : places.At setting path place) : places path = some place := by
  have := h []
  rwa [List.append_nil] at this

theorem At.step (h : places.At setting path place) {segment : PathSegment}
    (hstep : place.step? setting segment = some next)
    : places.At setting (path ++ [segment]) next := by
  intro rest
  rw [List.append_assoc, h]
  dsimp [Place.walk?]
  rw [hstep, Option.bind_some]

theorem At.exists_step (h : places.At setting path place) {segment : PathSegment} {rest : Path}
    (hplace : places (path ++ segment :: rest) = some next)
    : ∃ first, place.step? setting segment = some first := by
  rw [h] at hplace
  dsimp [Place.walk?] at hplace
  cases hstep : place.step? setting segment with
  | none =>
    rw [hstep] at hplace
    cases hplace
  | some first => exact ⟨first, rfl⟩

end Places

namespace Json

def child? (v : Json) (segment : PathSegment) : Option Json :=
  match v, segment with
  | .array items, .index i => items[i]?
  | .object members, .key key => Ordered.get? members key
  | _, _ => none

def at? : Json → Path → Option Json
  | v, [] => some v
  | v, segment :: rest => (v.child? segment).bind (at? · rest)

@[simp]
theorem at?_nil (v : Json) : v.at? [] = some v := rfl

theorem at?_cons (v : Json) (segment : PathSegment) (rest : Path)
    : v.at? (segment :: rest) = (v.child? segment).bind (at? · rest) := rfl

theorem eq_nil_of_null_at? {path : Path} {v : Json} (h : Json.null.at? path = some v)
    : path = [] := by
  cases path with
  | nil => rfl
  | cons segment rest => cases h

end Json
end GraphGateway

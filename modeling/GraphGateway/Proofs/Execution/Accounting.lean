import GraphGateway.Proofs.Execution.Branches
import GraphGateway.Proofs.Execution.Conformance

/-!
This module contains the proof that the tasks of a plan account for their failures at
the places of the plan.
-/

namespace GraphGateway

open SelectionItem (admittedAll depthAll headsAll)

theorem Scalar.HasShape.ne_null {s : Scalar} {v : Json} (h : s.HasShape v) : v ≠ .null := by
  rintro rfl
  cases s <;> obtain ⟨_, h⟩ := h <;> simp [Json.int] at h

theorem Scalar.HasShape.child?_eq_none {s : Scalar} {v : Json} (h : s.HasShape v)
    (segment : PathSegment)
    : v.child? segment = none := by
  cases v with
  | array items => cases s <;> obtain ⟨_, h⟩ := h <;> simp [Json.int] at h
  | object members => cases s <;> obtain ⟨_, h⟩ := h <;> simp [Json.int] at h
  | _ => rfl

variable {places : Places} {setting : Setting} {place : Place}

namespace Settles

theorem of_journal {path : Path} {value : Settled} {journal other : Journal}
    (h : Settles places path place value journal) (hfailures : other.failures = journal.failures)
    (herrors : other.resolverErrors = journal.resolverErrors)
    : Settles places path place value other := by
  obtain ⟨⟨genuine, distinct, failing, recorded, placed, explained, reported, noted⟩, fault,
      null⟩ := h
  unfold Settled.Failed at reported noted
  rw [← hfailures] at genuine distinct recorded placed explained reported noted null
  rw [← herrors] at noted
  exact ⟨⟨genuine, distinct, failing, recorded, placed, explained, reported, noted⟩, fault, null⟩

theorem of_leaf {path : Path} {w : Json} (hat : places.At setting path place)
    (hstep : ∀ segment, place.step? setting segment = none)
    (hchild : ∀ segment, w.child? segment = none)
    (hfault : ∀ cause, place.fault? = some cause → w = .null ∧ place.type.isNonNull = true)
    (hnull : w = .null → place.supplied = .ok .null)
    : Settles places path place (.ok w) .empty where
  below := by
    have hbranches : Branches places path [] := ⟨by simp, by simp⟩
    apply hbranches.accounted_ok
    . intro segment v
      simp [hchild]
    . simp
    . intro segment rest next hnext
      obtain ⟨first, hfirst⟩ := hat.exists_step hnext
      rw [hstep] at hfirst
      cases hfirst
  fault := by
    intro cause hcause v heq
    cases heq
    exact hfault cause hcause
  null := by
    intro heq
    cases heq
    exact ⟨hnull rfl, rfl⟩

theorem of_fault {site : Site} {cause : Failure.Cause} {journal : Journal}
    (hplace : places site.path = some place) (hfault : place.fault? = some cause)
    (hfailures : journal.failures = [])
    : Settles places site.path place (.error ⟨site, cause⟩) journal where
  below := by
    apply Accounted.of_error
    . intro other hother
      rw [hfailures, List.nil_append, List.mem_singleton] at hother
      rw [hother]
      exact ⟨List.prefix_refl _, place, hplace, hfault⟩
    . simp [hfailures]
    . intro q hcovered hq
      exact absurd (hq.eq_of_length_le hcovered.1.length_le) hcovered.2
    . simp [hfailures]
  fault := by
    intro _ _ w heq
    cases heq
  null := by
    intro heq
    cases heq

theorem of_null {path : Path} (hat : places.At setting path place)
    (hsupplied : place.supplied = .ok .null)
    : Settles places path place (.ok .null) .empty := by
  apply of_leaf hat (Place.step?_of_null hsupplied)
  . intro segment
    cases segment <;> rfl
  . intro cause hcause
    rw [Place.fault?_of_null hsupplied] at hcause
    split at hcause
    . next htype => exact ⟨rfl, htype⟩
    . cases hcause
  . intro _
    exact hsupplied

theorem of_scalar {path : Path} {s : Scalar} {v w : Json} (hat : places.At setting path place)
    (htype : place.type.bare = .scalar s) (hsupplied : place.supplied = .ok v)
    (hnull : v.isNull = false) (hserialize : s.serialize v = .ok w)
    : Settles places path place (.ok w) .empty := by
  have hshape := Scalar.hasShape_serialize hserialize
  apply of_leaf hat (Place.step?_of_scalar htype) hshape.child?_eq_none
  . intro cause hcause
    rw [Place.fault?_of_not_null hsupplied hnull, htype, Place.mismatch?, hserialize] at hcause
    cases hcause
  . intro heq
    exact absurd heq hshape.ne_null

end Settles

namespace Task

def elements (object : ObjectTasks) (children : List SelectionItem) (inner : OutputType)
    (site : Site) (items : List Json)
    : List (PathSegment × Task) :=
  items.mapIdx fun i item =>
    (.index i, position (site.element i) inner.isNonNull
      (complete object children inner (site.element i) item))

variable {object : ObjectTasks} {children : List SelectionItem} {inner : OutputType} {site : Site}
  {items : List Json}

theorem map_snd_elements
    : (elements object children inner site items).map Prod.snd
        = items.mapIdx fun i item => position (site.element i) inner.isNonNull
            (complete object children inner (site.element i) item) := by
  unfold elements
  rw [map_mapIdx]

theorem map_fst_elements
    : (elements object children inner site items).map Prod.fst
        = (List.range items.length).map .index := by
  apply List.ext_getElem
  . simp [elements]
  . intro i _ _
    simp [elements]

theorem mem_elements_iff {segment : PathSegment} {task : Task}
    : (segment, task) ∈ elements object children inner site items
        ↔ ∃ i item, items[i]? = some item ∧ segment = .index i
            ∧ task = position (site.element i) inner.isNonNull
                (complete object children inner (site.element i) item) := by
  unfold elements
  rw [List.mem_mapIdx]
  constructor
  . rintro ⟨i, hi, heq⟩
    cases heq
    exact ⟨i, items[i], List.getElem?_eq_getElem hi, rfl, rfl⟩
  . rintro ⟨i, item, hitem, rfl, rfl⟩
    obtain ⟨hi, rfl⟩ := List.getElem?_eq_some_iff.mp hitem
    exact ⟨i, hi, rfl⟩

theorem child?_array_iff {vs : List Json} (segment : PathSegment) (v : Json)
    : (Json.array vs).child? segment = some v
        ↔ (segment, v) ∈ ((List.range vs.length).map .index).zip vs := by
  rw [List.mem_iff_getElem?]
  simp only [List.getElem?_zip_eq_some, List.getElem?_map]
  cases segment with
  | key key => simp [Json.child?]
  | index i =>
    simp only [Json.child?]
    constructor
    . intro h
      obtain ⟨hi, _⟩ := List.getElem?_eq_some_iff.mp h
      exact ⟨i, by simp [hi], h⟩
    . rintro ⟨j, hj, h⟩
      obtain ⟨k, hk, heq⟩ := Option.map_eq_some_iff.mp hj
      obtain ⟨_, rfl⟩ := List.getElem?_eq_some_iff.mp hk
      cases heq
      simpa using h

theorem settles_array {path : Path}
    (h : ∀ i item, items[i]? = some item →
      Accounted places (AtOrBelow (path ++ [.index i])) (path ++ [.index i])
        (position (site.element i) inner.isNonNull
          (complete object children inner (site.element i) item)).value
        (position (site.element i) inner.isNonNull
          (complete object children inner (site.element i) item)).journal)
    (hat : places.At setting path place) (htype : place.type.bare = .list inner)
    (hsupplied : place.supplied = .ok (.array items))
    : Settles places path place
        (assembled .array ((elements object children inner site items).map Prod.snd))
        (journalAll ((elements object children inner site items).map Prod.snd)) where
  below := by
    have hbranches : Branches places path (elements object children inner site items) := by
      constructor
      . rintro ⟨segment, task⟩ hbranch
        obtain ⟨i, item, hitem, rfl, rfl⟩ := mem_elements_iff.mp hbranch
        exact h i item hitem
      . rw [map_fst_elements]
        apply List.Nodup.map _ List.nodup_range
        intro i j heq
        cases heq
        rfl
    apply hbranches.accounted_join
    . intro vs hvs segment v
      have hlength := congrArg List.length hvs
      rw [List.length_map, List.length_map, List.length_map, elements, List.length_mapIdx]
        at hlength
      rw [← mem_zip_iff hvs, map_fst_elements, hlength]
      exact child?_array_iff segment v
    . intro segment rest next hnext
      obtain ⟨first, hfirst⟩ := hat.exists_step hnext
      cases segment with
      | key key =>
        rw [Place.step?_key_of_list htype] at hfirst
        cases hfirst
      | index i =>
        rw [Place.step?_of_list htype hsupplied] at hfirst
        obtain ⟨item, hitem, _⟩ := Option.map_eq_some_iff.mp hfirst
        exact ⟨_, mem_elements_iff.mpr ⟨i, item, hitem, rfl, rfl⟩⟩
  fault := by
    intro cause hcause
    rw [Place.fault?_of_not_null hsupplied rfl, htype] at hcause
    cases hcause
  null heq := absurd heq assembled_ne_null

def ObjectsSettle (places : Places) (setting : Setting) (object : ObjectTasks)
    (children : List SelectionItem) : Prop :=
  ∀ name v path place, place.type.bare = .object name → place.children = children →
    place.supplied = .ok v → v.isNull = false → places.At setting path place →
    Settles places path place (object name children v path).value
      (object name children v path).journal

theorem settles_complete (hobject : ObjectsSettle places setting object children)
    (type : OutputType) (site : Site) (v : Json) (place : Place)
    (htype : place.type.bare = type.bare) (hchildren : place.children = children)
    (hsupplied : place.supplied = .ok v) (hat : places.At setting site.path place)
    : Settles places site.path place (complete object children type site v).value
        (complete object children type site v).journal := by
  induction type generalizing site v place with
  | scalar s =>
    unfold complete
    split
    . next hnull =>
      rw [(Json.isNull_iff v).mp hnull] at hsupplied
      exact .of_null hat hsupplied
    . next hnull =>
      rw [Bool.not_eq_true] at hnull
      split
      . next w hserialize => exact .of_scalar hat htype hsupplied hnull hserialize
      . next fault hserialize =>
        apply Settles.of_fault hat.eq_some _ rfl
        rw [Place.fault?_of_not_null hsupplied hnull, htype]
        simp [OutputType.bare, Place.mismatch?, hserialize]
  | object name =>
    unfold complete
    split
    . next hnull =>
      rw [(Json.isNull_iff v).mp hnull] at hsupplied
      exact .of_null hat hsupplied
    . next hnull =>
      rw [Bool.not_eq_true] at hnull
      exact hobject name v site.path place htype hchildren hsupplied hnull hat
  | list inner ih =>
    unfold complete
    split
    . exact .of_null hat hsupplied
    . next items =>
      rw [← map_snd_elements, value_join, journal]
      apply settles_array _ hat htype hsupplied
      intro i item hitem
      have hstep : place.step? setting (.index i) = some ⟨inner, children, .ok item⟩ := by
        rw [Place.step?_of_list htype hsupplied, hitem, hchildren, Option.map_some]
      have hnext := hat.step hstep
      rw [value, journal]
      exact (ih (site.element i) item _ rfl rfl rfl hnext).accounted_caught hnext.eq_some
    . next hnull harray =>
      have hnotNull : v.isNull = false := by
        cases v with
        | null => exact absurd rfl hnull
        | _ => rfl
      apply Settles.of_fault hat.eq_some _ rfl
      rw [Place.fault?_of_not_null hsupplied hnotNull, htype]
      cases v with
      | array items => exact absurd rfl (harray items)
      | _ => rfl
  -- A null that the type refuses is left to the position.
  | nonNull inner ih => exact ih site v place htype hchildren hsupplied hat

inductive Resolves (setting : Setting) (object : ObjectTasks) (type : String) (parent : Json)
    (group : FieldGroup) (site : Site)
    : Except Failure.Cause Json → Task → Prop where
  | typename (h : group.first.head.resolution = .typename)
    : Resolves setting object type parent group site (.ok (.string type))
        (settled (.ok (.string type)))
  | property {v : Json} (h : group.first.head.resolution = .property)
    : Resolves setting object type parent group site (.ok v)
        (complete object group.children group.first.head.output site v)
  | fault {fault : ArgumentFault}
    (h : ArgumentPlan.evaluateAll group.first.head.arguments setting.bindings = .error fault)
    : Resolves setting object type parent group site (.error (.argument fault))
        (failed site (.argument fault))
  | value {r : Resolver} {arguments : Json.Members} {v : Json}
    (hresolution : group.first.head.resolution = .resolver r)
    (h : ArgumentPlan.evaluateAll group.first.head.arguments setting.bindings = .ok arguments)
    {call : Call} (hcall : call = ⟨parent, arguments, setting.context, type, group.first.head.name⟩)
    (houtcome : (r call).outcome = .value v)
    : Resolves setting object type parent group site (.ok v)
        (invoke site call (r call)
          (complete object group.children group.first.head.output site v))
  | error {r : Resolver} {arguments : Json.Members} {e : FieldError}
    (hresolution : group.first.head.resolution = .resolver r)
    (h : ArgumentPlan.evaluateAll group.first.head.arguments setting.bindings = .ok arguments)
    {call : Call} (hcall : call = ⟨parent, arguments, setting.context, type, group.first.head.name⟩)
    (houtcome : (r call).outcome = .error e)
    : Resolves setting object type parent group site (.error (.resolver e))
        (invoke site call (r call) (failed site (.resolver e)))
  | panic {r : Resolver} {arguments : Json.Members} {p : Panic}
    (hresolution : group.first.head.resolution = .resolver r)
    (h : ArgumentPlan.evaluateAll group.first.head.arguments setting.bindings = .ok arguments)
    {call : Call} (hcall : call = ⟨parent, arguments, setting.context, type, group.first.head.name⟩)
    (houtcome : (r call).outcome = .panic p)
    : Resolves setting object type parent group site (.ok .null)
        (invoke site call (r call) (settled (.ok .null)))

theorem resolves (setting : Setting) (object : ObjectTasks) (type : String) (parent : Json)
    (group : FieldGroup) (site : Site)
    : Resolves setting object type parent group site (group.first.head.supply setting type parent)
        (resolve setting object type parent group site) := by
  unfold FieldPlan.supply resolve
  dsimp only
  cases hresolution : group.first.head.resolution with
  | typename => exact .typename hresolution
  | property =>
    cases harguments : ArgumentPlan.evaluateAll group.first.head.arguments setting.bindings with
    | error fault => exact .fault harguments
    | ok arguments => exact .property hresolution
  | resolver r =>
    cases harguments : ArgumentPlan.evaluateAll group.first.head.arguments setting.bindings with
    | error fault => exact .fault harguments
    | ok arguments =>
      dsimp only
      cases houtcome : (r ⟨parent, arguments, setting.context, type,
        group.first.head.name⟩).outcome with
      | value v => exact .value hresolution harguments rfl houtcome
      | error e => exact .error hresolution harguments rfl houtcome
      | panic p => exact .panic hresolution harguments rfl houtcome

theorem settles_resolve {group : FieldGroup} {parentType : String} {parent : Json} (site : Site)
    (hobject : ObjectsSettle places setting object group.children)
    (hsound : Compile.TypenameSound group.first.head)
    (hat : places.At setting site.path (.ofGroup setting parentType parent group))
    : Settles places site.path (.ofGroup setting parentType parent group)
        (resolve setting object parentType parent group site).value
        (resolve setting object parentType parent group site).journal := by
  have hcomplete := fun v hsupplied =>
    settles_complete hobject group.first.head.output site v _ rfl rfl hsupplied hat
  have hsupplied : (Place.ofGroup setting parentType parent group).supplied
      = group.first.head.supply setting parentType parent := rfl
  have hresolves := resolves setting object parentType parent group site
  rw [← hsupplied] at hresolves
  generalize hsupply
    : (Place.ofGroup setting parentType parent group).supplied = supplied at hresolves
  generalize resolve setting object parentType parent group site = task at hresolves ⊢
  cases hresolves with
  | typename hresolution =>
    rw [hsound.output hresolution] at hcomplete
    exact hcomplete _ hsupply
  | property => exact hcomplete _ hsupply
  | fault => exact .of_fault hat.eq_some (Place.fault?_of_error hsupply) rfl
  | value _ _ _ houtcome =>
    apply (hcomplete _ hsupply).of_journal
    . rfl
    . simp [Journal.resolverErrors, houtcome, journal]
  | error => exact .of_fault hat.eq_some (Place.fault?_of_error hsupply) rfl
  | panic _ _ _ houtcome =>
    -- A panic leaves a null behind, and no error of the resolver.
    apply (Settles.of_null hat hsupply).of_journal
    . rfl
    . simp [Journal.resolverErrors, houtcome, journal, Journal.empty]

theorem accounted_ofGroup {group : FieldGroup} {parentType : String} {parent : Json}
    {path : Path} {key : String}
    (hobject : ObjectsSettle places setting object group.children)
    (hsound : Compile.TypenameSound group.first.head)
    (hat : places.At setting (path ++ [.key key]) (.ofGroup setting parentType parent group))
    : Accounted places (AtOrBelow (path ++ [.key key])) (path ++ [.key key])
        (ofGroup setting object parentType parent path key group).value
        (ofGroup setting object parentType parent path key group).journal := by
  unfold ofGroup
  dsimp only
  rw [value, journal]
  have hsettles := settles_resolve
    ⟨group.first.head.coordinate, group.positions, path ++ [.key key]⟩ hobject hsound hat
  exact hsettles.accounted_caught hat.eq_some

def fields (tasks : Ordered Task) : List (PathSegment × Task) :=
  tasks.map fun (key, task) => (.key key, task)

theorem map_snd_fields (tasks : Ordered Task)
    : (fields tasks).map Prod.snd = tasks.map Prod.snd := by
  unfold fields
  rw [List.map_map]
  rfl

theorem map_fst_fields (tasks : Ordered Task)
    : (fields tasks).map Prod.fst = tasks.keys.map .key := by
  unfold fields Ordered.keys
  rw [List.map_map, List.map_map]
  rfl

theorem child?_object_iff {keys : List String} {vs : List Json} (hnodup : keys.Nodup)
    (hlength : keys.length = vs.length) (segment : PathSegment) (v : Json)
    : (Json.object (keys.zip vs)).child? segment = some v
        ↔ (segment, v) ∈ (keys.map .key).zip vs := by
  rw [List.zip_map_left, List.mem_map]
  cases segment with
  | index i => simp [Json.child?]
  | key key =>
    have hkeys : Ordered.keys (keys.zip vs) = keys := List.map_fst_zip (by omega)
    simp only [Json.child?]
    constructor
    . intro h
      exact ⟨(key, v), Ordered.mem_of_get? h, rfl⟩
    . rintro ⟨⟨other, w⟩, hmem, heq⟩
      cases heq
      rw [← hkeys] at hnodup
      exact Ordered.get?_of_mem hnodup hmem

section

variable {levels : Nat} {items : List SelectionItem} {type : String} {parent : Json} {path : Path}

theorem nodup_keys_ofSelection (hdepth : depthAll items ≤ levels)
    : (ofSelection setting levels type items parent path).keys.Nodup := by
  rw [keys_ofSelection setting hdepth, ← FieldGroup.keys_ofFields]
  apply FieldGroup.nodup_keys_ofFields

theorem branches_ofSelection (hdepth : depthAll items ≤ levels)
    (hsound : ∀ head ∈ headsAll items, Compile.TypenameSound head)
    (hobject : ∀ key group,
      FieldGroup.ofKey? key (admittedAll setting.bindings items) = some group →
      ObjectsSettle places setting (ofObject setting (levels - 1)) group.children)
    (hat : ∀ key group,
      FieldGroup.ofKey? key (admittedAll setting.bindings items) = some group →
      places.At setting (path ++ [.key key]) (.ofGroup setting type parent group))
    : Branches places path (fields (ofSelection setting levels type items parent path)) := by
  constructor
  . rintro ⟨segment, task⟩ hbranch
    obtain ⟨⟨key, task⟩, hmem, heq⟩ := List.mem_map.mp hbranch
    cases heq
    obtain ⟨group, hgroup, rfl⟩ := (mem_ofSelection_iff setting hdepth _ _ _ _ _).mp hmem
    exact accounted_ofGroup (hobject key group hgroup)
      (hsound _ (FieldGroup.first_mem_headsAll hgroup)) (hat key group hgroup)
  . rw [map_fst_fields]
    apply List.Nodup.map _ (nodup_keys_ofSelection hdepth)
    intro key other heq
    cases heq
    rfl

theorem child?_ofSelection (hdepth : depthAll items ≤ levels) (vs : List Json)
    (hvs : ((fields (ofSelection setting levels type items parent path)).map Prod.snd).map value
      = vs.map .ok)
    (segment : PathSegment) (v : Json)
    : ((Container.object (ofSelection setting levels type items parent path).keys).assemble
          vs).child? segment = some v
        ↔ ∃ task, (segment, task) ∈ fields (ofSelection setting levels type items parent path)
            ∧ task.value = .ok v := by
  have hlength := congrArg List.length hvs
  rw [List.length_map, List.length_map, List.length_map, fields, List.length_map] at hlength
  rw [← mem_zip_iff hvs, map_fst_fields]
  apply child?_object_iff (nodup_keys_ofSelection hdepth)
  rw [← hlength, Ordered.keys, List.length_map]

theorem cover_ofSelection (hdepth : depthAll items ≤ levels) {key : String} {place : Place}
    (hplace : Place.ofField? setting type items parent key = some place)
    : ∃ task, (.key key, task) ∈ fields (ofSelection setting levels type items parent path) := by
  obtain ⟨group, hgroup, _⟩ := Option.map_eq_some_iff.mp hplace
  have hmem := (mem_ofSelection_iff setting hdepth type parent path key _).mpr ⟨group, hgroup, rfl⟩
  exact ⟨_, List.mem_map.mpr ⟨_, hmem, rfl⟩⟩

theorem value_ofObject
    : (ofObject setting levels type items parent path).value
        = assembled (.object (ofSelection setting levels type items parent path).keys)
            ((fields (ofSelection setting levels type items parent path)).map Prod.snd) := by
  rw [map_snd_fields, ← value_join]
  rfl

theorem journal_ofObject
    : (ofObject setting levels type items parent path).journal
        = journalAll ((fields (ofSelection setting levels type items parent path)).map
            Prod.snd) := by
  rw [map_snd_fields]
  rfl

theorem settles_ofObject (hdepth : depthAll items ≤ levels)
    (hsound : ∀ head ∈ headsAll items, Compile.TypenameSound head)
    : ObjectsSettle places setting (ofObject setting levels) items := by
  -- The selections below a field are nested less deep, so that one level less is enough for them.
  induction levels using Nat.strongRecOn generalizing items with
  | ind levels ih =>
    intro name v path place htype hchildren hsupplied hnull hat
    have hstep := Place.step?_of_object setting htype hchildren hsupplied hnull
    have hbranches : Branches places path
        (fields (ofSelection setting levels name items v path)) := by
      apply branches_ofSelection hdepth hsound
      . intro key group hgroup
        have hlt := FieldGroup.depthAll_children_lt hgroup
        apply ih (levels - 1) (by omega) (by omega)
        exact FieldGroup.forall_headsAll_children hgroup hsound
      . intro key group hgroup
        apply hat.step
        rw [hstep, Place.ofField?, hgroup, Option.map_some]
    rw [value_ofObject, journal_ofObject]
    constructor
    case below =>
      apply hbranches.accounted_join (child?_ofSelection hdepth)
      intro segment rest next hnext
      obtain ⟨first, hfirst⟩ := hat.exists_step hnext
      cases segment with
      | index i =>
        rw [Place.step?_index_of_object htype] at hfirst
        cases hfirst
      | key key =>
        rw [hstep] at hfirst
        exact cover_ofSelection hdepth hfirst
    case fault =>
      intro cause hcause
      rw [Place.fault?_of_not_null hsupplied hnull, htype] at hcause
      cases hcause
    case null =>
      intro heq
      exact absurd heq assembled_ne_null

end

end Task

namespace Plan

variable {plan : Plan} {root : Json}

theorem at_field {key : String} {group : FieldGroup}
    (hgroup : FieldGroup.ofKey? key (admittedAll setting.bindings plan.selection) = some group)
    : (plan.places setting root).At setting ([] ++ [.key key])
        (.ofGroup setting plan.rootType root group) := by
  intro rest
  have hfield : Place.ofField? setting plan.rootType plan.selection root key
      = some (.ofGroup setting plan.rootType root group) := by
    rw [Place.ofField?, hgroup, Option.map_some]
  rw [List.nil_append, List.singleton_append, places, hfield, Option.bind_some]

def rootPlace (plan : Plan) (root : Json) : Place :=
  ⟨.object plan.rootType, plan.selection, .ok root⟩

theorem accounted_ofPlan (hsound : ∀ head ∈ plan.heads, Compile.TypenameSound head)
    : Accounted (plan.places setting root) (Below []) [] (Task.ofPlan plan setting root).value
        (Task.ofPlan plan setting root).journal := by
  have hdepth : depthAll plan.selection ≤ plan.depth := Nat.le_refl _
  have hbranches : Branches (plan.places setting root) []
      (Task.fields
        (Task.ofSelection setting plan.depth plan.rootType plan.selection root [])) := by
    apply Task.branches_ofSelection hdepth hsound
    . intro key group hgroup
      have hlt := FieldGroup.depthAll_children_lt hgroup
      apply Task.settles_ofObject (by omega)
      exact FieldGroup.forall_headsAll_children hgroup hsound
    . intro key group hgroup
      exact at_field hgroup
  have hcover : ∀ segment rest place,
      plan.places setting root ([] ++ segment :: rest) = some place →
      ∃ task, (segment, task) ∈ Task.fields
        (Task.ofSelection setting plan.depth plan.rootType plan.selection root []) := by
    intro segment rest place hplace
    cases segment with
    | index i => cases hplace
    | key key =>
      obtain ⟨first, hfirst, _⟩ := Option.bind_eq_some_iff.mp hplace
      exact Task.cover_ofSelection hdepth hfirst
  rw [Task.value_ofPlan, ← Task.map_snd_fields]
  unfold Task.ofPlan
  dsimp only
  rw [← Task.map_snd_fields]
  -- Only the fields of a mutation are worked on one after the other.
  split
  . exact hbranches.accounted_series (Task.child?_ofSelection hdepth) hcover
  . exact hbranches.accounted_join (Task.child?_ofSelection hdepth) hcover

theorem value_ofPlan_ne_null : (Task.ofPlan plan setting root).value ≠ .ok .null := by
  rw [Task.value_ofPlan]
  exact Task.assembled_ne_null

theorem settles_ofPlan (hsound : ∀ head ∈ plan.heads, Compile.TypenameSound head)
    : Settles (plan.places setting root) [] (plan.rootPlace root)
        (Task.ofPlan plan setting root).value (Task.ofPlan plan setting root).journal where
  below := accounted_ofPlan hsound
  fault := by
    intro cause hcause
    unfold Place.fault? rootPlace at hcause
    dsimp [OutputType.isNonNull, OutputType.bare, Place.mismatch?] at hcause
    split at hcause <;> cases hcause
  null heq := absurd heq value_ofPlan_ne_null

end Plan
end GraphGateway

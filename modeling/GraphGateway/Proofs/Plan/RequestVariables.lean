import GraphGateway.Proofs.Plan.Evaluation
import GraphGateway.Response

/-!
This module contains which values a request can give for an input type, and what the
variables of a request are coerced to: values of their types, or one error for each variable
that cannot be coerced.
-/

namespace GraphGateway

def Scalar.takes : Scalar → Json → Bool
  | int, .number (.integer n) => inRange n
  | float, .number _ => true
  | string, .string _ | id, .string _ => true
  | id, .number (.integer _) => true
  | boolean, .bool _ => true
  | _, _ => false

def TypeRef.takes : TypeRef → Json → Bool
  | named name, v => v.isNull || (Scalar.ofName? name).any (·.takes v)
  | list _, .null => true
  | list inner, .array items => items.all inner.takes
  | list inner, v => inner.takes v
  | nonNull inner, v => !v.isNull && inner.takes v

def VariableSpec.admits (spec : VariableSpec) : Option Json → Bool
  | some v => spec.type.takes v
  | none => spec.default.isSome || !spec.type.isNonNull

section Results

variable {ε α β : Type}

theorem isOk_iff {x : Except ε α} : x.isOk = true ↔ ∃ a, x = .ok a := by
  cases x with
  | error e => exact iff_of_false nofun nofun
  | ok a => exact iff_of_true rfl ⟨a, rfl⟩

theorem isOk_mapError {ε' : Type} (f : ε → ε') (x : Except ε α) : (x.mapError f).isOk = x.isOk := by
  cases x <;> rfl

theorem isOk_bind {x : Except ε α} {f : α → Except ε β} (hf : ∀ a, (f a).isOk = true)
    : (x >>= f).isOk = x.isOk := by
  cases x with
  | error e => rfl
  | ok a => exact hf a

theorem isOk_mapM (f : α → Except ε β) (xs : List α)
    : (xs.mapM f).isOk = xs.all fun x => (f x).isOk := by
  induction xs with
  | nil => rfl
  | cons x rest ih =>
    rw [List.mapM_cons, List.all_cons, ← ih]
    cases f x with
    | error e => rfl
    | ok y => exact isOk_bind (f := fun ys => pure (y :: ys)) fun ys => rfl

theorem mapM_eq_ok_self {f : α → Except ε α} {xs : List α} (h : ∀ x ∈ xs, f x = .ok x)
    : xs.mapM f = .ok xs := by
  induction xs with
  | nil => rfl
  | cons x rest ih =>
    rw [List.forall_mem_cons] at h
    rw [List.mapM_cons, h.1, ih h.2]
    rfl

end Results

theorem Ordered.mem_of_mem_insert {α : Type} {table : Ordered α} {name : String} {value : α}
    {entry : String × α} (h : entry ∈ table.insert name value)
    : entry ∈ table ∨ entry = (name, value) := by
  induction table with
  | nil => exact .inr (List.mem_singleton.mp h)
  | cons first rest ih =>
    unfold insert at h
    split at h
    . next hkey =>
      obtain rfl | h := List.mem_cons.mp h
      . exact .inr (by rw [hkey])
      . exact .inl (List.mem_cons_of_mem _ h)
    . obtain rfl | h := List.mem_cons.mp h
      . exact .inl List.mem_cons_self
      . exact (ih h).imp_left (List.mem_cons_of_mem _)

namespace Scalar

theorem ofRange_eq_ok_iff {number : Number} {n : Int} {w : Json}
    : ofRange number (some n) = .ok w ↔ inRange n = true ∧ w = .int n := by
  unfold ofRange
  dsimp only
  split
  . next hrange => simp [hrange, eq_comm]
  . next hrange => simp [hrange]

theorem isOk_coerceInput (scalar : Scalar) (v : Json)
    : (scalar.coerceInput v).isOk = scalar.takes v := by
  unfold coerceInput
  split
  case h_1 n =>
    rw [Bool.eq_iff_iff, isOk_iff]
    simp only [ofRange_eq_ok_iff, exists_and_left, exists_eq, and_true]
    rfl
  case h_8 =>
    unfold takes
    split <;> simp_all [Except.isOk, Except.toBool]
  all_goals rfl

theorem coerceInput_idem {scalar : Scalar} {v w : Json} (h : scalar.coerceInput v = .ok w)
    : scalar.coerceInput w = .ok w := by
  unfold coerceInput at h
  split at h
  case h_1 n =>
    obtain ⟨hrange, rfl⟩ := ofRange_eq_ok_iff.mp h
    exact ofRange_eq_ok_iff.mpr ⟨hrange, rfl⟩
  all_goals cases h
  all_goals rfl

end Scalar

namespace Coercion

theorem isOk_coerceValue (type : TypeRef) (v : Json)
    : (coerceValue type v).isOk = type.takes v := by
  induction type generalizing v with
  | named name =>
    unfold coerceValue TypeRef.takes
    split
    . next hnull =>
      rw [hnull]
      rfl
    . next hnull =>
      rw [Bool.eq_false_iff.mpr hnull, Bool.false_or]
      split
      . next scalar hscalar =>
        rw [hscalar, Option.any_some, isOk_mapError]
        exact Scalar.isOk_coerceInput scalar v
      . next hscalar =>
        rw [hscalar]
        rfl
  | list inner ih =>
    unfold coerceValue
    split
    . rfl
    . next items =>
      rw [isOk_bind fun _ => rfl, isOk_mapM]
      simp only [ih]
      rfl
    . next hnull harray =>
      rw [isOk_bind fun _ => rfl, ih]
      cases v with
      | null => exact absurd rfl hnull
      | array items => exact absurd rfl (harray items)
      | _ => rfl
  | nonNull inner ih =>
    unfold coerceValue TypeRef.takes
    split
    . next hnull =>
      rw [hnull]
      rfl
    . next hnull => rw [Bool.eq_false_iff.mpr hnull, ih, Bool.not_false, Bool.true_and]

theorem coerceValue_array_self {inner : TypeRef} {items : List Json}
    (h : ∀ item ∈ items, coerceValue inner item = .ok item)
    : coerceValue (.list inner) (.array items) = .ok (.array items) := by
  unfold coerceValue
  dsimp only
  rw [mapM_eq_ok_self h]
  rfl

theorem coerceValue_idem {type : TypeRef} {v w : Json} (h : coerceValue type v = .ok w)
    : coerceValue type w = .ok w := by
  induction type generalizing v w with
  | named name =>
    unfold coerceValue at h
    split at h
    . cases h
      rfl
    . split at h
      . next scalar hscalar =>
        have h := mapError_eq_ok h
        have hnull : w.isNull = false := by
          rw [← Bool.not_eq_true, Json.isNull_iff]
          exact Scalar.ne_null_of_hasShape (Scalar.hasShape_coerceInput h)
        unfold coerceValue
        rw [hnull, hscalar, if_neg Bool.false_ne_true]
        dsimp only
        rw [Scalar.coerceInput_idem h]
        rfl
      . cases h
  | list inner ih =>
    unfold coerceValue at h
    split at h
    . cases h
      rfl
    . obtain ⟨ws, hws, h⟩ := bind_eq_ok h
      cases h
      apply coerceValue_array_self
      intro item hitem
      obtain ⟨_, _, hok⟩ := mem_of_mapM_eq_ok hws item hitem
      exact ih hok
    . obtain ⟨item, hitem, h⟩ := bind_eq_ok h
      cases h
      apply coerceValue_array_self
      rw [List.forall_mem_singleton]
      exact ih hitem
  | nonNull inner ih =>
    unfold coerceValue at h
    split at h
    . cases h
    . next hnull =>
      have hw : w.isNull = false := by
        rw [← Bool.not_eq_true, Json.isNull_iff]
        exact (@coerceValue_eq_ok True _ _ _ h).2 (Bool.eq_false_iff.mpr hnull)
      unfold coerceValue
      rw [hw, if_neg Bool.false_ne_true]
      exact ih h

end Coercion

namespace VariableSpec

theorem isOk_coerce (spec : VariableSpec) (given : Option Json)
    : (spec.coerce given).isOk = spec.admits given := by
  unfold coerce admits
  cases given with
  | none =>
    cases spec.default with
    | some d => rfl
    | none => cases spec.type.isNonNull <;> rfl
  | some v =>
    dsimp only
    split
    . next hrefused =>
      rw [Bool.and_eq_true] at hrefused
      cases htype : spec.type with
      | nonNull inner => simp [TypeRef.takes, hrefused.1, Except.isOk, Except.toBool]
      | _ => simp [htype, TypeRef.isNonNull] at hrefused
    . rw [← Coercion.isOk_coerceValue]
      cases Coercion.coerceValue spec.type v <;> rfl

theorem spec_of_coerce {spec : VariableSpec} {given : Option Json} {fault : VariableFault}
    (h : spec.coerce given = .error fault)
    : fault.spec = spec := by
  unfold coerce at h
  split at h
  . split at h
    . cases h
    . split at h <;> cases h
      rfl
  . split at h
    . cases h
      rfl
    . split at h <;> cases h
      rfl

theorem sound_of_coerce {spec : VariableSpec} {given v : Option Json}
    (h : spec.coerce given = .ok v)
    : (v.isSome = true ↔ given.isSome = true ∨ spec.default.isSome = true)
        ∧ ((∀ d ∈ spec.default, spec.type.Accepts True d) → ∀ w ∈ v, spec.type.Accepts True w) := by
  unfold coerce at h
  split at h
  . split at h
    . next d hd =>
      cases h
      simp [hd]
    . next hd =>
      split at h <;> cases h
      simp [hd]
  . next given =>
    split at h
    . cases h
    . split at h <;> cases h
      next w hw =>
        refine ⟨by simp, fun _ => ?_⟩
        rintro _ ⟨⟩
        exact (Coercion.coerceValue_eq_ok hw).1

variable {provided : Json.Members}

def refused (specs : List VariableSpec) (provided : Json.Members) : List VariableSpec :=
  specs.filter fun spec => !spec.admits (provided.get? spec.name)

theorem refused_cons (spec : VariableSpec) (rest : List VariableSpec)
    : refused (spec :: rest) provided
        = if (spec.coerce (provided.get? spec.name)).isOk then refused rest provided
          else spec :: refused rest provided := by
  rw [isOk_coerce]
  unfold refused
  rw [List.filter_cons]
  cases spec.admits (provided.get? spec.name) <;> rfl

theorem coerceAll_go_cases (specs : List VariableSpec) (coerced : Json.Members)
    : (∃ bindings, coerceAll.go provided specs coerced = .ok bindings ∧ refused specs provided = [])
        ∨ ∃ faults, coerceAll.go provided specs coerced = .error faults
          ∧ faults.map (·.spec) = refused specs provided ∧ faults ≠ [] := by
  induction specs generalizing coerced with
  | nil => exact .inl ⟨coerced, rfl, rfl⟩
  | cons spec rest ih =>
    unfold coerceAll.go
    rw [refused_cons]
    cases hspec : spec.coerce (provided.get? spec.name) with
    | ok v =>
      cases v with
      | none => exact ih coerced
      | some v => exact ih (coerced.insert spec.name v)
    | error fault =>
      right
      obtain ⟨_, hrest, hnone⟩ | ⟨faults, hrest, hfaults, _⟩ := ih coerced
      . refine ⟨[fault], by rw [hrest], ?_, List.cons_ne_nil _ _⟩
        rw [hnone, List.map_singleton, spec_of_coerce hspec]
        rfl
      . refine ⟨fault :: faults, by rw [hrest], ?_, List.cons_ne_nil _ _⟩
        rw [← hfaults, List.map_cons, spec_of_coerce hspec]
        rfl

theorem exists_coerceAll_iff (specs : List VariableSpec) (provided : Json.Members)
    : (∃ bindings, coerceAll specs provided = .ok bindings)
        ↔ ∀ spec ∈ specs, spec.admits (provided.get? spec.name) = true := by
  have hrefused : refused specs provided = []
      ↔ ∀ spec ∈ specs, spec.admits (provided.get? spec.name) = true := by
    simp [refused, List.filter_eq_nil_iff]
  rw [← hrefused]
  unfold coerceAll
  obtain ⟨bindings, hok, hnone⟩ | ⟨faults, herror, hfaults, hne⟩ := coerceAll_go_cases specs []
  . exact iff_of_true ⟨bindings, hok⟩ hnone
  . refine iff_of_false ?_ ?_
    . rintro ⟨bindings, hok⟩
      cases herror.symm.trans hok
    . rw [← hfaults]
      simpa using hne

theorem specs_of_coerceAll {specs : List VariableSpec} {faults : List VariableFault}
    (h : coerceAll specs provided = .error faults)
    : faults.map (·.spec) = refused specs provided := by
  unfold coerceAll at h
  obtain ⟨bindings, hok, _⟩ | ⟨faults, herror, hfaults, _⟩ := coerceAll_go_cases specs []
  . cases h.symm.trans hok
  . cases h.symm.trans herror
    exact hfaults

theorem ne_nil_of_coerceAll {specs : List VariableSpec} {faults : List VariableFault}
    (h : coerceAll specs provided = .error faults)
    : faults ≠ [] := by
  unfold coerceAll at h
  obtain ⟨bindings, hok, _⟩ | ⟨faults, herror, _, hne⟩ := coerceAll_go_cases specs []
  . cases h.symm.trans hok
  . cases h.symm.trans herror
    exact hne

structure Coerced (specs : List VariableSpec) (provided bindings : Json.Members) : Prop where
  value : ∀ spec ∈ specs, spec.coerce (provided.get? spec.name) = .ok (bindings.get? spec.name)
  keys : ∀ name, name ∈ bindings.keys ↔ ∃ spec ∈ specs, spec.name = name
    ∧ ((provided.get? name).isSome = true ∨ spec.default.isSome = true)
  accepts : ∀ name v, (name, v) ∈ bindings →
    ∃ spec ∈ specs, spec.name = name ∧ spec.type.Accepts True v

theorem mem_of_coerceAll_go {specs : List VariableSpec} {coerced bindings : Json.Members}
    (h : coerceAll.go provided specs coerced = .ok bindings) {name : String} {v : Json}
    (hmem : (name, v) ∈ bindings)
    : (name, v) ∈ coerced
        ∨ ∃ spec ∈ specs, spec.name = name ∧ spec.coerce (provided.get? name) = .ok (some v) := by
  induction specs generalizing coerced with
  | nil =>
    cases h
    exact .inl hmem
  | cons spec rest ih =>
    unfold coerceAll.go at h
    split at h
    . obtain hcoerced | ⟨other, hother, hvalue⟩ := ih h
      . exact .inl hcoerced
      . exact .inr ⟨other, List.mem_cons_of_mem _ hother, hvalue⟩
    . next w hw =>
      obtain hcoerced | ⟨other, hother, hvalue⟩ := ih h
      . obtain hcoerced | heq := Ordered.mem_of_mem_insert hcoerced
        . exact .inl hcoerced
        . cases heq
          exact .inr ⟨spec, List.mem_cons_self, rfl, hw⟩
      . exact .inr ⟨other, List.mem_cons_of_mem _ hother, hvalue⟩
    . split at h <;> cases h

theorem coerced_of_coerceAll {specs : List VariableSpec} (hnodup : (specs.map (·.name)).Nodup)
    (hdefaults : ∀ spec ∈ specs, ∀ d ∈ spec.default, spec.type.Accepts True d)
    {bindings : Json.Members} (h : coerceAll specs provided = .ok bindings)
    : Coerced specs provided bindings := by
  obtain ⟨hvalue, hothers⟩ := get?_of_coerceAll_go h hnodup fun _ _ => rfl
  constructor
  case value => exact hvalue
  case keys =>
    intro name
    rw [← Ordered.contains_iff_mem_keys]
    unfold Ordered.contains
    constructor
    . intro hsome
      have hname : name ∈ specs.map (·.name) := by
        by_contra hname
        rw [hothers name hname] at hsome
        cases hsome
      obtain ⟨spec, hspec, rfl⟩ := List.mem_map.mp hname
      exact ⟨spec, hspec, rfl, (sound_of_coerce (hvalue spec hspec)).1.mp hsome⟩
    . rintro ⟨spec, hspec, rfl, hsome⟩
      exact (sound_of_coerce (hvalue spec hspec)).1.mpr hsome
  case accepts =>
    intro name v hmem
    obtain hmem | ⟨spec, hspec, hname, hcoerce⟩ := mem_of_coerceAll_go h hmem
    . cases hmem
    . exact ⟨spec, hspec, hname, (sound_of_coerce hcoerce).2 (hdefaults spec hspec) v rfl⟩

/--
A value that is coerced to an input type is of the type, and is coerced to itself. The variables of
a request are coerced if every one of them is given a value that its type takes, or has a default,
or may be absent; and otherwise each of the others is reported once, in the order of declaration.
-/
theorem coerceAll_exact
    : (∀ type v, (Coercion.coerceValue type v).isOk = type.takes v)
        ∧ (∀ type v w, Coercion.coerceValue type v = .ok w →
          type.Accepts True w ∧ Coercion.coerceValue type w = .ok w)
        ∧ ∀ specs : List VariableSpec, (specs.map (·.name)).Nodup →
          (∀ spec ∈ specs, ∀ d ∈ spec.default, spec.type.Accepts True d) →
            ∀ given : Option Json.Members,
              ((∃ bindings, coerceAll specs (given.getD []) = .ok bindings)
                  ↔ ∀ spec ∈ specs, spec.admits ((given.getD []).get? spec.name) = true)
                ∧ (∀ bindings, coerceAll specs (given.getD []) = .ok bindings →
                  Coerced specs (given.getD []) bindings)
                ∧ ∀ faults, coerceAll specs (given.getD []) = .error faults →
                  (faults.map ResponseError.ofVariableFault).map
                      (fun e => (e.extensions.get? "reason", e.locations))
                    = (specs.filter fun spec =>
                        !spec.admits ((given.getD []).get? spec.name)).map
                      fun spec => (some (.string "INVALID_VARIABLE"), [spec.position]) := by
  refine ⟨Coercion.isOk_coerceValue, ?_, ?_⟩
  . intro type v w h
    exact ⟨(Coercion.coerceValue_eq_ok h).1, Coercion.coerceValue_idem h⟩
  . intro specs hnodup hdefaults given
    refine ⟨exists_coerceAll_iff _ _, fun _ => coerced_of_coerceAll hnodup hdefaults, ?_⟩
    intro faults h
    have hspecs := specs_of_coerceAll h
    unfold refused at hspecs
    rw [← hspecs, List.map_map, List.map_map]
    rfl

end VariableSpec

namespace Library

theorem coerceAll_exact_authorPlan
    : Coercion.coerceValue (.list (.list (required "Float"))) (.int 2)
          = .ok (.array [.array [.double (.ofInt 2)]])
        ∧ (TypeRef.list (.list (required "Float"))).Accepts True
          (.array [.array [.double (.ofInt 2)]])
        ∧ ((authorPlan .null .sync).specs.map (·.name)).Nodup
        ∧ (∀ spec ∈ (authorPlan .null .sync).specs, ∀ d ∈ spec.default, spec.type.Accepts True d)
        ∧ VariableSpec.coerceAll (authorPlan .null .sync).specs [("id", .int 1)]
          = .ok [("id", .string "1"), ("full", .bool false)]
        ∧ VariableSpec.Coerced (authorPlan .null .sync).specs [("id", .int 1)]
          [("id", .string "1"), ("full", .bool false)] := by
  have hvalue : Coercion.coerceValue (.list (.list (required "Float"))) (.int 2)
      = .ok (.array [.array [.double (.ofInt 2)]]) := by
    rfl
  have hnodup : ((authorPlan .null .sync).specs.map (·.name)).Nodup := by
    decide
  have hdefaults : ∀ spec ∈ (authorPlan .null .sync).specs, ∀ d ∈ spec.default,
      spec.type.Accepts True d := by
    have hflag : (TypeRef.named "Boolean").Accepts True (.bool false) :=
      .inr ⟨.boolean, rfl, false, rfl⟩
    simpa [authorPlan] using hflag
  have hcoerce : VariableSpec.coerceAll (authorPlan .null .sync).specs [("id", .int 1)]
      = .ok [("id", .string "1"), ("full", .bool false)] := by
    cbv
  obtain ⟨_, hexact, hall⟩ := VariableSpec.coerceAll_exact
  exact ⟨hvalue, (hexact _ _ _ hvalue).1, hnodup, hdefaults, hcoerce,
    (hall _ hnodup hdefaults (some [("id", .int 1)])).2.1 _ hcoerce⟩

end Library

end GraphGateway

import GraphGateway.Proofs.Execution.Conformance

/-!
This module contains which values an input type accepts, and the proofs that the coercions of
values and of literals give such values, and that a variable may stand only where all values of
its type are accepted.
-/

namespace GraphGateway

mutual

def Literal.Finite : Literal → Prop
  | .float d => d.isFinite = true
  | .list items => FiniteItems items
  | .object fields => FiniteFields fields
  | _ => True

def Literal.FiniteItems : List Literal → Prop
  | [] => True
  | item :: rest => item.Finite ∧ FiniteItems rest

def Literal.FiniteFields : List (String × Literal) → Prop
  | [] => True
  | (_, value) :: rest => value.Finite ∧ FiniteFields rest

end

/--
The values of an input type, at every depth. Where the type forbids null, a value that is not
accepted strictly may be null nevertheless.
-/
def TypeRef.Accepts (strict : Prop) : TypeRef → Json → Prop
  | .nonNull inner, v => inner.Accepts strict v ∧ (strict → v ≠ .null)
  | .list inner, v =>
    v = .null ∨ ∃ items, v = .array items ∧ ∀ item ∈ items, inner.Accepts strict item
  | .named name, v => v = .null ∨ ∃ scalar, Scalar.ofName? name = some scalar ∧ scalar.HasShape v

theorem Literal.FiniteItems.mem {items : List Literal} (h : FiniteItems items)
    : ∀ item ∈ items, item.Finite := by
  induction items with
  | nil => simp
  | cons item rest ih => exact List.forall_mem_cons.mpr ⟨h.1, ih h.2⟩

theorem Literal.FiniteFields.mem {fields : List (String × Literal)} (h : FiniteFields fields)
    : ∀ field ∈ fields, field.2.Finite := by
  induction fields with
  | nil => simp
  | cons field rest ih => exact List.forall_mem_cons.mpr ⟨h.1, ih h.2⟩

namespace Scalar

theorem ne_null_of_hasShape {scalar : Scalar} {v : Json} (h : scalar.HasShape v) : v ≠ .null := by
  rintro rfl
  cases scalar with
  | int =>
    obtain ⟨_, h, _⟩ := h
    cases h
  | _ =>
    obtain ⟨_, h⟩ := h
    cases h

theorem hasShape_coerceInput {scalar : Scalar} {v w : Json} (h : scalar.coerceInput v = .ok w)
    : scalar.HasShape w := by
  unfold coerceInput at h
  split at h
  case h_1 => exact hasShape_ofRange h
  all_goals cases h
  all_goals exact ⟨_, rfl⟩

theorem hasShape_coerceLiteral {scalar : Scalar} {l : Literal} {w : Json}
    (h : scalar.coerceLiteral l = .ok w)
    : scalar.HasShape w ∨ w = .null ∧ ¬ l.Finite := by
  unfold coerceLiteral at h
  split at h
  case h_1 n =>
    split at h
    . next hrange =>
      have hof : ofRange (.integer n) (some n) = .ok (.int n) := by
        simp [ofRange, hrange]
      cases h
      exact .inl (hasShape_ofRange hof)
    . cases h
  case h_3 d =>
    cases h
    unfold Json.ofDouble
    split
    . exact .inl ⟨_, rfl⟩
    . next hfinite => exact .inr ⟨rfl, hfinite⟩
  all_goals cases h
  all_goals exact .inl ⟨_, rfl⟩

end Scalar

namespace TypeRef

variable {strict : Prop}

theorem accepts_null {type : TypeRef} (h : type.isNonNull = false) : type.Accepts strict .null := by
  cases type with
  | named name => exact .inl rfl
  | list inner => exact .inl rfl
  | nonNull inner => cases h

theorem accepts_array {type inner : TypeRef} (h : Compile.elementType? type = some inner)
    {items : List Json} (hitems : ∀ item ∈ items, inner.Accepts strict item)
    : type.Accepts strict (.array items) := by
  unfold Compile.elementType? at h
  split at h
  . cases h
    exact .inr ⟨items, rfl, hitems⟩
  . cases h
    exact ⟨.inr ⟨items, rfl, hitems⟩, fun _ => Json.noConfusion⟩
  . cases h

theorem accepts_of_nullable {type : TypeRef} {v : Json} (h : type.nullable.Accepts strict v)
    (hnull : type.isNonNull = true → strict → v ≠ .null)
    : type.Accepts strict v := by
  cases type with
  | named name => exact h
  | list inner => exact h
  | nonNull inner => exact ⟨h, hnull rfl⟩

theorem Accepts.mono {strict other : Prop} (hstrict : other → strict) {type : TypeRef} {v : Json}
    (h : type.Accepts strict v)
    : type.Accepts other v := by
  induction type generalizing v with
  | named name => exact h
  | list inner ih =>
    obtain rfl | ⟨items, rfl, hitems⟩ := h
    . exact .inl rfl
    . exact .inr ⟨items, rfl, fun item hitem => ih (hitems item hitem)⟩
  | nonNull inner ih => exact ⟨ih h.1, fun hother => h.2 (hstrict hother)⟩

theorem accepts_of_typeFits {type location : TypeRef} {v : Json}
    (hfits : Compile.typeFits type location = true) (h : type.Accepts strict v)
    : location.Accepts strict v := by
  fun_induction Compile.typeFits type location generalizing v with
  | case1 v l ih => exact ⟨ih hfits h.1, h.2⟩
  | case2 v l _ ih => exact ih hfits h.1
  | case3 => cases hfits
  | case4 v l ih =>
    obtain rfl | ⟨items, rfl, hitems⟩ := h
    . exact .inl rfl
    . exact .inr ⟨items, rfl, fun item hitem => ih hfits (hitems item hitem)⟩
  | case5 v l =>
    cases of_decide_eq_true hfits
    exact h
  | case6 => cases hfits

end TypeRef

namespace Coercion

open TypeRef

variable {strict : Prop}

theorem coerceValue_eq_ok {type : TypeRef} {v w : Json} (h : coerceValue type v = .ok w)
    : type.Accepts strict w ∧ (v.isNull = false → w ≠ .null) := by
  induction type generalizing v w with
  | named name =>
    unfold coerceValue at h
    split at h
    . next hnull =>
      cases h
      exact ⟨.inl rfl, fun hv => absurd hnull (Bool.eq_false_iff.mp hv)⟩
    . split at h
      . next scalar hscalar =>
        have hshape := Scalar.hasShape_coerceInput (mapError_eq_ok h)
        exact ⟨.inr ⟨scalar, hscalar, hshape⟩, fun _ => Scalar.ne_null_of_hasShape hshape⟩
      . cases h
  | list inner ih =>
    unfold coerceValue at h
    split at h
    . cases h
      exact ⟨.inl rfl, fun hv => absurd rfl (Bool.eq_false_iff.mp hv)⟩
    . next items =>
      obtain ⟨ws, hws, h⟩ := bind_eq_ok h
      cases h
      refine ⟨.inr ⟨ws, rfl, ?_⟩, fun _ => Json.noConfusion⟩
      intro item hitem
      obtain ⟨v, _, hv⟩ := mem_of_mapM_eq_ok hws item hitem
      exact (ih hv).1
    . obtain ⟨item, hitem, h⟩ := bind_eq_ok h
      cases h
      exact ⟨.inr ⟨[item], rfl, by simpa using (ih hitem).1⟩, fun _ => Json.noConfusion⟩
  | nonNull inner ih =>
    unfold coerceValue at h
    split at h
    . cases h
    . next hnull =>
      have hv : v.isNull = false := Bool.eq_false_iff.mpr hnull
      obtain ⟨haccepts, hne⟩ := ih h
      exact ⟨⟨haccepts, fun _ => hne hv⟩, hne⟩

theorem coerceLiteral_eq_ok {type : TypeRef} {l : Literal} {w : Json}
    (h : coerceLiteral type l = .ok w) (hfinite : strict → l.Finite)
    : type.Accepts strict w ∧ (strict → l.isNull = false → w ≠ .null) := by
  induction type generalizing l w with
  | named name =>
    unfold coerceLiteral at h
    split at h
    . next hnull =>
      cases h
      exact ⟨.inl rfl, fun _ hl => absurd hnull (Bool.eq_false_iff.mp hl)⟩
    . split at h
      . next scalar hscalar =>
        obtain hshape | ⟨rfl, hinfinite⟩ := Scalar.hasShape_coerceLiteral (mapError_eq_ok h)
        . exact ⟨.inr ⟨scalar, hscalar, hshape⟩, fun _ _ => Scalar.ne_null_of_hasShape hshape⟩
        . exact ⟨.inl rfl, fun hstrict => absurd (hfinite hstrict) hinfinite⟩
      . cases h
  | list inner ih =>
    unfold coerceLiteral at h
    split at h
    . cases h
      exact ⟨.inl rfl, fun _ hl => absurd rfl (Bool.eq_false_iff.mp hl)⟩
    . next items =>
      obtain ⟨ws, hws, h⟩ := bind_eq_ok h
      cases h
      refine ⟨.inr ⟨ws, rfl, ?_⟩, fun _ _ => Json.noConfusion⟩
      intro item hitem
      obtain ⟨inner, hinner, hok⟩ := mem_of_mapM_eq_ok hws item hitem
      exact (ih hok fun hstrict => Literal.FiniteItems.mem (hfinite hstrict) inner hinner).1
    . obtain ⟨item, hitem, h⟩ := bind_eq_ok h
      cases h
      exact ⟨.inr ⟨[item], rfl, by simpa using (ih hitem hfinite).1⟩, fun _ _ => Json.noConfusion⟩
  | nonNull inner ih =>
    unfold coerceLiteral at h
    split at h
    . cases h
    . next hnull =>
      have hl : l.isNull = false := Bool.eq_false_iff.mpr hnull
      obtain ⟨haccepts, hne⟩ := ih h hfinite
      exact ⟨⟨haccepts, fun hstrict => hne hstrict hl⟩, hne⟩

end Coercion

namespace Compile

theorem typeFits_self (type : TypeRef) : typeFits type type = true := by
  induction type with
  | named name => simp [typeFits]
  | list inner ih => exact ih
  | nonNull inner ih => exact ih

theorem typeFits_trans {type middle location : TypeRef} (h : typeFits type middle = true)
    (h' : typeFits middle location = true)
    : typeFits type location = true := by
  fun_induction typeFits type middle generalizing location with
  | case1 v m ih =>
    -- The wrapper of the type in the middle is kept or dropped; that of the first one is
    -- there for either.
    cases location with
    | nonNull l => exact ih h h'
    | named name => exact ih h h'
    | list l => exact ih h h'
  | case2 v m hm ih =>
    cases location with
    | nonNull l =>
      cases m with
      | nonNull m => exact absurd rfl (hm m)
      | named name => cases h'
      | list m => cases h'
    | named name => exact ih h h'
    | list l => exact ih h h'
  | case3 => cases h
  | case4 v m ih =>
    cases location with
    | list l => exact ih h h'
    | named name => cases h'
    | nonNull l => cases h'
  | case5 v m =>
    cases of_decide_eq_true h
    exact h'
  | case6 => cases h

/--
A type fits a location only if all its values are accepted there, at every depth. Every type fits
itself, and what fits a type fits wherever that type does.
-/
theorem typeFits_sound (type location other : TypeRef)
    : (typeFits type location = true → ∀ v, type.Accepts True v → location.Accepts True v)
        ∧ typeFits type type = true
        ∧ (typeFits type location = true → typeFits location other = true →
          typeFits type other = true) := by
  refine ⟨?_, typeFits_self type, typeFits_trans⟩
  intro hfits v hv
  exact TypeRef.accepts_of_typeFits hfits hv

/-- A list of numbers without null stands for one that may be null, and for one with nulls in it. -/
theorem typeFits_sound_numbers
    : let required : TypeRef := .nonNull (.list (.nonNull (.named "Int")))
      let strict : TypeRef := .list (.nonNull (.named "Int"))
      let lenient : TypeRef := .list (.named "Int")
      typeFits required strict = true ∧ typeFits strict lenient = true
        ∧ required.Accepts True (.array [.int 5]) ∧ strict.Accepts True (.array [.int 5])
        ∧ typeFits required lenient = true := by
  intro required strict lenient
  have hint : (TypeRef.nonNull (.named "Int")).Accepts True (.int 5) :=
    ⟨.inr ⟨.int, rfl, 5, rfl, by decide, by decide⟩, fun _ => Json.noConfusion⟩
  have hv : required.Accepts True (.array [.int 5]) :=
    TypeRef.accepts_array rfl (List.forall_mem_singleton.mpr hint)
  have h : typeFits required strict = true := by
    decide
  have h' : typeFits strict lenient = true := by
    decide
  obtain ⟨haccepts, _, htrans⟩ := typeFits_sound required strict lenient
  exact ⟨h, h', hv, haccepts h _ hv, htrans h h'⟩

end Compile

end GraphGateway

import GraphGateway.Proofs.Plan.ArgumentOutcomes

/-!
This module contains that a literal is coerced as its JSON is, which can be sent for a variable,
and that an argument on which such a literal is written compiles exactly if the literal can be
coerced, to a constant.
-/

namespace GraphGateway

/--
The literals that JSON can say: without variables, enum values and infinite numbers, at any depth.
-/
inductive Literal.Sendable : Literal → Prop where
  | int (n : Int) : Sendable (.int n)
  | float {d : Double} (h : d.isFinite = true) : Sendable (.float d)
  | string (s : String) : Sendable (.string s)
  | boolean (b : Bool) : Sendable (.boolean b)
  | null : Sendable .null
  | list {items : List Literal} (hitems : ∀ item ∈ items, Sendable item) : Sendable (.list items)
  | object {fields : List (String × Literal)} (hfields : ∀ field ∈ fields, Sendable field.2)
    : Sendable (.object fields)

namespace Literal

theorem toJsonItems_eq_map (items : List Literal) : toJsonItems items = items.map toJson := by
  induction items with
  | nil => rfl
  | cons item rest ih => rw [toJsonItems, ih, List.map_cons]

theorem Sendable.variableNames {l : Literal} (h : l.Sendable) : l.variableNames = [] := by
  induction h with
  | list _ ih => exact variableNames_list_eq_nil_iff.mpr ih
  | object _ ih =>
    rw [Literal.variableNames, List.eq_nil_iff_forall_not_mem]
    intro name hname
    obtain ⟨field, hfield, hname⟩ := mem_variableNamesFields_iff.mp hname
    rw [ih field hfield] at hname
    cases hname
  | _ => rfl

theorem Sendable.isNull_toJson {l : Literal} (h : l.Sendable) : l.toJson.isNull = l.isNull := by
  cases h with
  | float h =>
    rw [toJson, Json.ofDouble, if_pos h]
    rfl
  | _ => rfl

end Literal

section Except

variable {ε ε' α β : Type}

theorem toOption_mapError (f : ε → ε') (x : Except ε α) : (x.mapError f).toOption = x.toOption := by
  cases x <;> rfl

theorem toOption_bind {x : Except ε α} {y : Except ε' α} (h : x.toOption = y.toOption)
    (f : α → β)
    : (do return f (← x) : Except ε β).toOption = (do return f (← y) : Except ε' β).toOption := by
  cases x <;> cases y <;> cases h <;> rfl

theorem toOption_mapM {γ : Type} {f : α → Except ε γ} {g : β → Except ε' γ} {h : β → α}
    {xs : List β} (hxs : ∀ x ∈ xs, (f (h x)).toOption = (g x).toOption)
    : ((xs.map h).mapM f).toOption = (xs.mapM g).toOption := by
  induction xs with
  | nil => rfl
  | cons x rest ih =>
    obtain ⟨hx, hrest⟩ := List.forall_mem_cons.mp hxs
    have ih := ih hrest
    rw [List.map_cons, List.mapM_cons, List.mapM_cons]
    cases hf : f (h x) <;> cases hg : g x <;> rw [hf, hg] at hx <;> cases hx
    . rfl
    . exact toOption_bind ih _

end Except

namespace Coercion

variable {l : Literal}

theorem coerceInput_toJson (scalar : Scalar) (h : l.Sendable) (hnull : l.isNull = false)
    : (scalar.coerceInput l.toJson).toOption = (scalar.coerceLiteral l).toOption := by
  cases h with
  | int n =>
    cases scalar with
    | int =>
      rw [Literal.toJson, Json.int, Scalar.coerceInput, Scalar.coerceLiteral, Scalar.ofRange]
      split <;> rfl
    | _ => rfl
  | @float d hfinite =>
    have hdouble : Json.ofDouble d = .double d := if_pos hfinite
    rw [Literal.toJson, hdouble]
    cases scalar with
    | float => exact congrArg some hdouble.symm
    | _ => rfl
  | null => cases hnull
  | _ => cases scalar <;> rfl

/--
A literal comes to what its JSON comes to as the value of a variable, or neither of
them can be coerced.
-/
theorem coerceValue_toJson (type : TypeRef) (h : l.Sendable)
    : (coerceValue type l.toJson).toOption = (coerceLiteral type l).toOption := by
  induction type generalizing l with
  | named name =>
    unfold coerceValue coerceLiteral
    rw [h.isNull_toJson]
    split
    . rfl
    . next hnull =>
      split
      . rw [toOption_mapError, toOption_mapError]
        exact coerceInput_toJson _ h (Bool.eq_false_iff.mpr hnull)
      . rfl
  | nonNull inner ih =>
    unfold coerceValue coerceLiteral
    rw [h.isNull_toJson]
    split
    . rfl
    . exact ih h
  | list inner ih =>
    cases h with
    | null => rfl
    | list hitems =>
      unfold coerceValue coerceLiteral
      rw [Literal.toJson, Literal.toJsonItems_eq_map]
      exact toOption_bind (toOption_mapM fun item hitem => ih (hitems item hitem)) _
    | float hfinite =>
      have hinner := ih (.float hfinite)
      unfold coerceValue coerceLiteral
      rw [Literal.toJson, Json.ofDouble, if_pos hfinite] at hinner ⊢
      exact toOption_bind hinner _
    | int n => exact toOption_bind (ih (.int n)) _
    | string s => exact toOption_bind (ih (.string s)) _
    | boolean b => exact toOption_bind (ih (.boolean b)) _
    | object hfields => exact toOption_bind (ih (.object hfields)) _

end Coercion

namespace Double

theorem magnitudeBits_ofMagnitudeBits {negative : Bool} {bits : Nat} (h : bits ≤ infinityBits)
    : (ofMagnitudeBits negative bits).magnitudeBits = bits := by
  unfold infinityBits at h
  unfold magnitudeBits ofMagnitudeBits
  rw [UInt64.toNat_ofNat']
  cases negative
  . rw [if_neg Bool.false_ne_true]
    norm_num at *
    omega
  . rw [if_pos rfl]
    norm_num at *
    omega

theorem isNaN_ofMagnitudeBits {negative : Bool} {bits : Nat} (h : bits ≤ infinityBits)
    : (ofMagnitudeBits negative bits).isNaN = false := by
  unfold isNaN
  rw [magnitudeBits_ofMagnitudeBits h]
  exact decide_eq_false (Nat.not_lt.mpr h)

theorem isNaN_ofInt (n : Int) : (ofInt n).isNaN = false :=
  isNaN_ofMagnitudeBits (Nat.min_le_right _ _)

theorem isNaN_of_isFinite {d : Double} (h : d.isFinite = true) : d.isNaN = false :=
  decide_eq_false (Nat.not_lt.mpr (Nat.le_of_lt (of_decide_eq_true h)))

theorem equal_self {d : Double} (h : d.isNaN = false) : d.equal d = true := by
  simp [equal, h]

end Double

theorem Json.equalItems_self {items : List Json} (h : ∀ item ∈ items, item.equal item = true)
    : equalItems items items = true := by
  induction items with
  | nil => rfl
  | cons item rest ih =>
    obtain ⟨hitem, hrest⟩ := List.forall_mem_cons.mp h
    rw [equalItems, hitem, ih hrest]
    rfl

theorem Scalar.equal_self_of_coerceLiteral {scalar : Scalar} {l : Literal} (hl : l.Sendable)
    {v : Json} (h : scalar.coerceLiteral l = .ok v)
    : v.equal v = true := by
  cases hl with
  | int n =>
    cases scalar with
    | int =>
      rw [coerceLiteral] at h
      split at h <;> cases h
      simp [Json.int, Json.equal, Number.equal]
    | float =>
      cases h
      exact Double.equal_self (Double.isNaN_ofInt n)
    | id =>
      cases h
      simp [Json.equal]
    | _ => cases h
  | @float d hfinite =>
    cases scalar with
    | float =>
      have hdouble : Json.ofDouble d = .double d := if_pos hfinite
      cases h
      rw [hdouble]
      exact Double.equal_self (Double.isNaN_of_isFinite hfinite)
    | _ => cases h
  | _ => cases scalar <;> cases h <;> simp [Json.equal]

theorem Coercion.equal_self_of_coerceLiteral {type : TypeRef} {l : Literal} (hl : l.Sendable)
    {v : Json} (h : coerceLiteral type l = .ok v)
    : v.equal v = true := by
  induction type generalizing l v with
  | named name =>
    unfold coerceLiteral at h
    split at h
    . cases h
      rfl
    . split at h
      . exact Scalar.equal_self_of_coerceLiteral hl (mapError_eq_ok h)
      . cases h
  | nonNull inner ih =>
    unfold coerceLiteral at h
    split at h
    . cases h
    . exact ih hl h
  | list inner ih =>
    unfold coerceLiteral at h
    split at h
    . cases h
      rfl
    . next items =>
      cases hl with
      | list hitems =>
        obtain ⟨vs, hvs, h⟩ := bind_eq_ok h
        cases h
        apply Json.equalItems_self
        intro item hitem
        obtain ⟨first, hfirst, hok⟩ := mem_of_mapM_eq_ok hvs item hitem
        exact ih (hitems first hfirst) hok
    . obtain ⟨item, hitem, h⟩ := bind_eq_ok h
      cases h
      apply Json.equalItems_self
      rw [List.forall_mem_singleton]
      exact ih hl hitem

theorem VariableSpec.coerce_some_eq_ok_iff {spec : VariableSpec} {v : Json} {given : Option Json}
    : spec.coerce (some v) = .ok given
        ↔ ∃ w, given = some w ∧ Coercion.coerceValue spec.type v = .ok w := by
  unfold coerce
  dsimp only
  split
  . next hnull =>
    refine iff_of_false nofun ?_
    rintro ⟨w, _, hw⟩
    rw [Bool.and_eq_true] at hnull
    cases htype : spec.type with
    | nonNull inner =>
      rw [htype, Coercion.coerceValue, if_pos hnull.1] at hw
      cases hw
    | _ =>
      rw [htype] at hnull
      cases hnull.2
  . cases Coercion.coerceValue spec.type v <;> simp [eq_comm]

theorem eq_ok_iff_of_toOption {ε ε' α : Type} {x : Except ε α} {y : Except ε' α}
    (h : x.toOption = y.toOption) (a : α)
    : x = .ok a ↔ y = .ok a := by
  cases x <;> cases y <;> cases h <;> simp

theorem Template.ofList_const (vs : List Json) : ofList (vs.map const) = const (.array vs) := by
  have hvalues : (vs.map const).mapM const? = some vs := by
    induction vs with
    | nil => rfl
    | cons v rest ih => simp [const?, ih]
  unfold ofList
  rw [hvalues]

namespace Compile

open Coercion (coerceLiteral)

variable {env : Env} {argument : String} {position : Position}

theorem collect_const {f : Literal → Compile (Option Template)} {type : TypeRef}
    {items : List Literal} {vs : List Json}
    (hf : ∀ item ∈ items, ∀ v, coerceLiteral type item = .ok v → f item = pure (some (.const v)))
    (h : items.mapM (coerceLiteral type) = .ok vs)
    : collect f items = pure (some (vs.map .const)) := by
  induction items generalizing vs with
  | nil =>
    cases h
    rfl
  | cons item rest ih =>
    obtain ⟨hitem, hrest⟩ := List.forall_mem_cons.mp hf
    rw [List.mapM_cons] at h
    obtain ⟨v, hv, h⟩ := bind_eq_ok h
    obtain ⟨others, hothers, h⟩ := bind_eq_ok h
    cases h
    rw [collect, hitem v hv, ih hrest hothers]
    rfl

theorem compileValue_of_coerceLiteral {type : TypeRef} {hasDefault : Bool} {l : Literal} {v : Json}
    (h : coerceLiteral type l = .ok v)
    : compileValue env argument position type hasDefault l = pure (some (.const v)) := by
  induction type using TypeRef.element_induction generalizing hasDefault l v with
  | h type ih =>
    have hconstant : constant type l argument position = pure (some (.const v)) := by
      unfold constant
      rw [h]
    have hvariable (name : String) : l ≠ .variable name := by
      rintro rfl
      cases Coercion.variableNames_of_coerceLiteral h
    cases htype : elementType? type with
    | none => rw [compileValue_constant htype hvariable, hconstant]
    | some inner =>
      by_cases hnull : l = .null
      . subst hnull
        rw [compileValue_null, hconstant]
      . by_cases hlist : ∃ items, l = .list items
        . obtain ⟨items, rfl⟩ := hlist
          rw [Coercion.coerceLiteral_list htype] at h
          obtain ⟨vs, hvs, h⟩ := bind_eq_ok h
          cases h
          rw [compileValue_list htype, collect_const (fun item _ v hv => ih inner htype hv) hvs,
            pure_bind, Option.map_some, Template.ofList_const]
        . rw [not_exists] at hlist
          rw [Coercion.coerceLiteral_single htype hnull hlist] at h
          obtain ⟨item, hitem, h⟩ := bind_eq_ok h
          cases h
          rw [compileValue_single htype hvariable hnull hlist, ih inner htype hitem, pure_bind,
            Option.map_some]
          exact congrArg (fun template => pure (some template)) (Template.ofList_const [item])

end Compile
end GraphGateway

import GraphGateway.Plan.Basic

/-!
This module contains what the equality of arguments is. It is that of numbers, for which the two
zeros are the same, so that equal arguments are the same up to the signs of their zeros.
-/

namespace GraphGateway

namespace Double

def unsigned (d : Double) : Double :=
  if d.isZero then zero else d

theorem bits_inj {a b : Double} : a.bits = b.bits ↔ a = b := by
  cases a
  cases b
  simp

theorem isNaN_of_isZero {d : Double} (h : d.isZero = true) : d.isNaN = false := by
  have hzero : d.magnitudeBits = 0 := of_decide_eq_true h
  unfold isNaN
  rw [hzero]
  rfl

theorem isZero_unsigned (d : Double) : d.unsigned.isZero = d.isZero := by
  unfold unsigned
  split
  . next h =>
    rw [h]
    decide
  . rfl

/--
A number is equal to itself, unless it is none, and to those that differ in the sign of a zero.
-/
theorem equal_iff (a b : Double)
    : a.equal b = true ↔ a.equal a = true ∧ a.unsigned = b.unsigned := by
  have hzeros (h : a.unsigned = b.unsigned) : a.isZero = b.isZero := by
    rw [← isZero_unsigned a, h, isZero_unsigned b]
  constructor
  . intro h
    simp only [equal, Bool.and_eq_true, Bool.or_eq_true, decide_eq_true_eq, bits_inj] at h
    obtain ⟨⟨ha, _⟩, rfl | ⟨hazero, hbzero⟩⟩ := h
    . simp [equal, ha]
    . simp [equal, unsigned, ha, hazero, hbzero]
  . rintro ⟨h, heq⟩
    have hzero := hzeros heq
    cases hb : b.isZero with
    | true => simp_all [equal, isNaN_of_isZero]
    | false =>
      unfold unsigned at heq
      rw [hzero, hb] at heq
      cases heq
      exact h

end Double

namespace Json

inductive Plain : Json → Prop where
  | null : Plain .null
  | bool (b : Bool) : Plain (.bool b)
  | number (n : Number) : Plain (.number n)
  | string (s : String) : Plain (.string s)
  | array {items : List Json} (hitems : ∀ item ∈ items, Plain item) : Plain (.array items)

mutual

def unsigned : Json → Json
  | number (.double d) => number (.double d.unsigned)
  | array items => array (unsignedItems items)
  | v => v

def unsignedItems : List Json → List Json
  | [] => []
  | item :: rest => item.unsigned :: unsignedItems rest

end

theorem equalItems_iff {items : List Json}
    (h : ∀ item ∈ items, ∀ w, item.equal w = true
      ↔ item.equal item = true ∧ item.unsigned = w.unsigned)
    (others : List Json)
    : equalItems items others = true
        ↔ equalItems items items = true ∧ unsignedItems items = unsignedItems others := by
  induction items generalizing others with
  | nil => cases others <;> simp [equalItems, unsignedItems]
  | cons item rest ih =>
    obtain ⟨hitem, hrest⟩ := List.forall_mem_cons.mp h
    cases others with
    | nil => simp [equalItems, unsignedItems]
    | cons other others =>
      simp only [equalItems, unsignedItems, Bool.and_eq_true, List.cons.injEq, ih hrest others,
        hitem other]
      constructor
      . rintro ⟨⟨hself, heq⟩, hselves, heqs⟩
        exact ⟨⟨hself, hselves⟩, heq, heqs⟩
      . rintro ⟨⟨hself, hselves⟩, heq, heqs⟩
        exact ⟨⟨hself, heq⟩, hselves, heqs⟩

theorem Plain.equal_iff {v : Json} (h : v.Plain) (w : Json)
    : v.equal w = true ↔ v.equal v = true ∧ v.unsigned = w.unsigned := by
  induction h generalizing w with
  | null | bool b | string s =>
    cases w with
    | number n => cases n <;> simp [equal, unsigned]
    | _ => simp [equal, unsigned]
  | number n =>
    cases w with
    | number m =>
      cases n with
      | integer i => cases m <;> simp [equal, unsigned, Number.equal]
      | double d =>
        cases m with
        | integer i => simp [equal, unsigned, Number.equal]
        | double e => simpa [equal, unsigned, Number.equal] using d.equal_iff e
    | _ => cases n <;> simp [equal, unsigned]
  | array _ ih =>
    cases w with
    | array others => simpa [equal, unsigned] using equalItems_iff ih others
    | number m => cases m <;> simp [equal, unsigned]
    | _ => simp [equal, unsigned]

end Json

namespace Template

inductive Plain : Template → Prop where
  | const {v : Json} (h : v.Plain) : Plain (.const v)
  | variable (name : String) : Plain (.variable name)
  | list {items : List Template} (hitems : ∀ item ∈ items, Plain item) : Plain (.list items)

mutual

def unsigned : Template → Template
  | const v => const v.unsigned
  | .variable name => .variable name
  | list items => list (unsignedItems items)

def unsignedItems : List Template → List Template
  | [] => []
  | item :: rest => item.unsigned :: unsignedItems rest

end

theorem equalItems_iff {items : List Template}
    (h : ∀ item ∈ items, ∀ other,
      item.equal other = true ↔ item.equal item = true ∧ item.unsigned = other.unsigned)
    (others : List Template)
    : equalItems items others = true
        ↔ equalItems items items = true ∧ unsignedItems items = unsignedItems others := by
  induction items generalizing others with
  | nil => cases others <;> simp [equalItems, unsignedItems]
  | cons item rest ih =>
    obtain ⟨hitem, hrest⟩ := List.forall_mem_cons.mp h
    cases others with
    | nil => simp [equalItems, unsignedItems]
    | cons other others =>
      simp only [equalItems, unsignedItems, Bool.and_eq_true, List.cons.injEq, ih hrest others,
        hitem other]
      constructor
      . rintro ⟨⟨hself, heq⟩, hselves, heqs⟩
        exact ⟨⟨hself, hselves⟩, heq, heqs⟩
      . rintro ⟨⟨hself, hselves⟩, heq, heqs⟩
        exact ⟨⟨hself, heq⟩, hselves, heqs⟩

theorem Plain.equal_iff {template : Template} (h : template.Plain) (other : Template)
    : template.equal other = true
        ↔ template.equal template = true ∧ template.unsigned = other.unsigned := by
  induction h generalizing other with
  | const hv =>
    cases other with
    | const w => simpa [equal, unsigned] using hv.equal_iff w
    | _ => simp [equal, unsigned]
  | «variable» name => cases other <;> simp [equal, unsigned]
  | list _ ih =>
    cases other with
    | list others => simpa [equal, unsigned] using equalItems_iff ih others
    | _ => simp [equal, unsigned]

end Template

namespace ArgumentPlan

def unsigned (argument : ArgumentPlan) : ArgumentPlan :=
  { argument with template := argument.template.map Template.unsigned }

def declaration (argument : ArgumentPlan) : String × ArgumentDef :=
  (argument.name, ⟨argument.type, argument.default⟩)

def Plain (argument : ArgumentPlan) : Prop :=
  ∀ template ∈ argument.template, template.Plain

theorem equalOption_template_iff {a : ArgumentPlan} (h : a.Plain) (b : ArgumentPlan)
    : equalOption Template.equal a.template b.template = true
        ↔ equalOption Template.equal a.template a.template = true
            ∧ a.template.map Template.unsigned = b.template.map Template.unsigned := by
  unfold Plain at h
  cases ha : a.template with
  | none => cases b.template <;> simp [equalOption]
  | some template =>
    rw [ha] at h
    cases b.template with
    | none => simp [equalOption]
    | some other => simpa [equalOption] using (h template rfl).equal_iff other

theorem unsigned_of_equal {a b : ArgumentPlan} (hplain : a.Plain)
    (hdeclaration : a.declaration = b.declaration) (h : a.equal b = true)
    : a.unsigned = b.unsigned := by
  simp only [equal, Bool.and_eq_true] at h
  obtain ⟨⟨_, htemplate⟩, _⟩ := h
  rw [equalOption_template_iff hplain] at htemplate
  cases a
  cases b
  cases hdeclaration
  exact congrArg (ArgumentPlan.mk _ _ · _) htemplate.2

theorem equal_of_equal {a b c : ArgumentPlan} (ha : a.Plain) (hb : b.Plain)
    (hdeclaration : a.declaration = c.declaration) (hac : a.equal c = true)
    (hbc : b.equal c = true)
    : b.equal a = true := by
  simp only [equal, Bool.and_eq_true, decide_eq_true_eq] at hac hbc ⊢
  obtain ⟨⟨⟨hname, htype⟩, htemplate⟩, _⟩ := hac
  obtain ⟨⟨⟨hother, hothers⟩, hothersTemplate⟩, hdefault⟩ := hbc
  have hdefaults : a.default = c.default := congrArg (fun d => d.2.default) hdeclaration
  rw [equalOption_template_iff ha] at htemplate
  rw [equalOption_template_iff hb] at hothersTemplate
  rw [equalOption_template_iff hb, hdefaults]
  exact ⟨⟨⟨hother.trans hname.symm, hothers.trans htype.symm⟩, hothersTemplate.1,
    hothersTemplate.2.trans htemplate.2.symm⟩, hdefault⟩

theorem unsigned_of_equalAll {as bs : List ArgumentPlan} (hplain : ∀ a ∈ as, a.Plain)
    (hdeclaration : as.map declaration = bs.map declaration) (h : equalAll as bs = true)
    : as.map unsigned = bs.map unsigned := by
  induction as generalizing bs with
  | nil =>
    cases bs with
    | nil => rfl
    | cons b others => cases h
  | cons a rest ih =>
    cases bs with
    | nil => cases h
    | cons b others =>
      simp only [equalAll, Bool.and_eq_true] at h
      simp only [List.map_cons, List.cons.injEq] at hdeclaration ⊢
      obtain ⟨ha, hrest⟩ := List.forall_mem_cons.mp hplain
      exact ⟨unsigned_of_equal ha hdeclaration.1 h.1, ih hrest hdeclaration.2 h.2⟩

theorem equalAll_of_equalAll {as bs cs : List ArgumentPlan} (has : ∀ a ∈ as, a.Plain)
    (hbs : ∀ b ∈ bs, b.Plain) (hdeclaration : as.map declaration = cs.map declaration)
    (hac : equalAll as cs = true) (hbc : equalAll bs cs = true)
    : equalAll bs as = true := by
  induction cs generalizing as bs with
  | nil =>
    cases as with
    | nil => exact hbc
    | cons a rest => cases hac
  | cons c cs ih =>
    cases as with
    | nil => cases hac
    | cons a as =>
      cases bs with
      | nil => cases hbc
      | cons b bs =>
        simp only [equalAll, Bool.and_eq_true] at hac hbc ⊢
        simp only [List.map_cons, List.cons.injEq] at hdeclaration
        obtain ⟨ha, has⟩ := List.forall_mem_cons.mp has
        obtain ⟨hb, hbs⟩ := List.forall_mem_cons.mp hbs
        exact ⟨equal_of_equal ha hb hdeclaration.1 hac.1 hbc.1,
          ih has hbs hdeclaration.2 hac.2 hbc.2⟩

end ArgumentPlan

end GraphGateway

import GraphGateway.Proofs.Document.Reads

/-!
This module contains the proofs that values, arguments, directives and types are read
as the grammar says.
-/

namespace GraphGateway
namespace Parser

open Tokens (prepend prepend_append)

theorem inIntRange_iff (n : Int)
    : inIntRange n = true ↔ -9223372036854775808 ≤ n ∧ n ≤ 9223372036854775807 := by
  have hpow : Int.pow 2 63 = 9223372036854775808 := rfl
  unfold inIntRange
  simp only [hpow, Bool.and_eq_true, decide_eq_true_eq]
  omega

theorem derives_nameLiteral (constant : Bool) (name : String) (start : Position)
    : (nameLiteral name).Derives constant [⟨.name name, start⟩] := by
  unfold nameLiteral
  split
  . next h =>
    subst h
    exact .boolean (b := true)
  . split
    . next h =>
      subst h
      exact .boolean (b := false)
    . split
      . next h =>
        subst h
        exact .null
      . exact .enum (by simp [*])

theorem nameLiteral_of_not_mem {name : String} (h : name ∉ ["true", "false", "null"])
    : nameLiteral name = .enum name := by
  simp only [List.mem_cons, List.not_mem_nil, or_false, not_or] at h
  obtain ⟨htrue, hfalse, hnull⟩ := h
  unfold nameLiteral
  rw [if_neg htrue, if_neg hfalse, if_neg hnull]

theorem depth_nameLiteral (name : String) : (nameLiteral name).depth = 0 := by
  unfold nameLiteral
  split
  . rfl
  . split
    . rfl
    . split <;> rfl

theorem begins_literal (constant : Bool)
    : Begins (Literal.Derives constant) fun kind => kind ≠ .punctuator .bracketR := by
  intro tokens x h
  cases h <;> exact ⟨_, _, rfl, by simp⟩

theorem begins_named (constant : Bool)
    : Begins (Literal.DerivesNamed constant) fun kind => ∃ name, kind = .name name := by
  rintro tokens x ⟨h⟩
  exact ⟨_, _, rfl, _, rfl⟩

abbrev LiteralWithin (constant : Bool) (levels : Nat) : List Token → Literal → Prop :=
  Within (Literal.Derives constant) Literal.depth levels

abbrev NamedWithin (constant : Bool) (levels : Nat) : List Token → String × Literal → Prop :=
  Within (Literal.DerivesNamed constant) (fun field => field.2.depth) levels

theorem reads_named {levels : Nat} {constant : Bool} {value : Parser Literal}
    (h : value.Reads (LiteralWithin constant levels) (fun _ => True))
    : (named value).Reads (NamedWithin constant levels) (fun _ => True) := by
  constructor
  . intro tokens after field hrun
    unfold named at hrun
    simp only [run_bind_eq_ok_iff] at hrun
    obtain ⟨name, _, hname, _, _, hcolon, l, _, hvalue, hrun⟩ := hrun
    cases hrun
    obtain ⟨_, rfl⟩ := expectName_eq_ok hname
    obtain rfl := expect_eq_ok hcolon
    obtain ⟨taken, rfl, hderives, hdepth⟩ := h.sound hvalue
    exact ⟨_ :: _ :: taken, rfl, .mk hderives, hdepth⟩
  . rintro taken field after ⟨⟨hderives⟩, hdepth⟩ _
    unfold named
    rw [Tokens.prepend_cons, run_bind (run_expectName _ _ _), Tokens.prepend_cons,
      run_bind (run_expect _ _ _), run_bind (h.complete after ⟨hderives, hdepth⟩ trivial)]
    rfl

/-- The reader of the values in a value that is at most so deep; there is none at the last level. -/
inductive ReadsBelow (constant : Bool) : Nat → Option (Parser Literal) → Prop where
  | none : ReadsBelow constant 0 none
  | some {levels : Nat} {value : Parser Literal}
    (h : value.Reads (LiteralWithin constant levels) (fun _ => True))
    : ReadsBelow constant (levels + 1) (some value)

section Values

variable {levels : Nat} {constant : Bool} {inner : Option (Parser Literal)}

theorem reads_items {value : Parser Literal}
    (h : value.Reads (LiteralWithin constant levels) (fun _ => True))
    : (manyUntil .bracketR value).Reads (Closed (LiteralWithin constant levels) .bracketR)
        (fun _ => True) := by
  apply reads_manyUntil h _ trivial
  exact ((begins_literal constant).within _ _).mono fun _ hkind => ⟨hkind, trivial⟩

theorem reads_fields {value : Parser Literal}
    (h : value.Reads (LiteralWithin constant levels) (fun _ => True))
    : (manyUntil .braceR (named value)).Reads (Closed (NamedWithin constant levels) .braceR)
        (fun _ => True) := by
  apply reads_manyUntil (reads_named h) _ trivial
  refine ((begins_named constant).within _ _).mono ?_
  rintro _ ⟨name, rfl⟩
  exact ⟨by simp, trivial⟩

theorem literalOver_sound (hinner : ReadsBelow constant levels inner) {tokens after : Tokens}
    {l : Literal} (h : (literalOver constant inner).run tokens = .ok (l, after))
    : ∃ taken, tokens = prepend taken after ∧ LiteralWithin constant levels taken l := by
  unfold literalOver at h
  rw [run_peek] at h
  split at h
  . next hhead =>
    obtain ⟨start, rest, rfl, _, hadvance⟩ := exists_token_of_head? hhead
    split at h
    . cases h
    . next hconstant =>
      rw [run_bind hadvance] at h
      simp only [run_bind_eq_ok_iff] at h
      obtain ⟨name, _, hname, h⟩ := h
      cases h
      obtain ⟨next, rfl⟩ := expectName_eq_ok hname
      exact ⟨[_, _], rfl, .variable (by simpa using hconstant), Nat.zero_le _⟩
  . next hhead =>
    obtain ⟨start, rest, rfl, _, hadvance⟩ := exists_token_of_head? hhead
    cases hinner with
    | none => cases h
    | some hvalue =>
      rw [descend, run_bind hadvance] at h
      simp only [run_bind_eq_ok_iff] at h
      obtain ⟨items, _, hitems, h⟩ := h
      cases h
      obtain ⟨_, rfl, ⟨hclosed⟩⟩ := (reads_items hvalue).sound hitems
      obtain ⟨hphrases, hdepth⟩ := phrases_within_iff.mp hclosed
      rw [← Literal.depthItems_eq_greatest] at hdepth
      exact ⟨_, rfl, .list hphrases, Nat.succ_le_succ hdepth⟩
  . next hhead =>
    obtain ⟨start, rest, rfl, _, hadvance⟩ := exists_token_of_head? hhead
    cases hinner with
    | none => cases h
    | some hvalue =>
      rw [descend, run_bind hadvance] at h
      simp only [run_bind_eq_ok_iff] at h
      obtain ⟨fields, _, hfields, h⟩ := h
      cases h
      obtain ⟨_, rfl, ⟨hclosed⟩⟩ := (reads_fields hvalue).sound hfields
      obtain ⟨hphrases, hdepth⟩ := phrases_within_iff.mp hclosed
      rw [← Literal.depthNamed_eq_greatest] at hdepth
      exact ⟨_, rfl, .object hphrases, Nat.succ_le_succ hdepth⟩
  . next raw hhead =>
    obtain ⟨start, rest, rfl, _, hadvance⟩ := exists_token_of_head? hhead
    dsimp only at h
    split at h
    . next hrange =>
      obtain ⟨hlow, hhigh⟩ := (inIntRange_iff _).mp hrange
      rw [run_bind hadvance] at h
      cases h
      exact ⟨_, rfl, .int hlow hhigh, Nat.zero_le _⟩
    . cases h
  . next hhead =>
    obtain ⟨start, rest, rfl, _, hadvance⟩ := exists_token_of_head? hhead
    rw [run_bind hadvance] at h
    cases h
    exact ⟨_, rfl, .float, Nat.zero_le _⟩
  . next hhead =>
    obtain ⟨start, rest, rfl, _, hadvance⟩ := exists_token_of_head? hhead
    rw [run_bind hadvance] at h
    cases h
    exact ⟨_, rfl, .string, Nat.zero_le _⟩
  . next name hhead =>
    obtain ⟨start, rest, rfl, _, hadvance⟩ := exists_token_of_head? hhead
    rw [run_bind hadvance] at h
    cases h
    exact ⟨_, rfl, derives_nameLiteral constant name start, depth_nameLiteral name ▸ Nat.zero_le _⟩
  . cases h

theorem run_literalOver_name (name : String) (start : Position) (after : Tokens)
    : (literalOver constant inner).run (prepend [⟨.name name, start⟩] after)
        = .ok (nameLiteral name, after) := rfl

theorem run_literalOver_list (value : Parser Literal) (start : Position) (tokens : List Token)
    (after : Tokens)
    : (literalOver constant (some value)).run
        (prepend (⟨.punctuator .bracketL, start⟩ :: tokens) after)
        = (do return .list (← manyUntil .bracketR value) : Parser Literal).run
            (prepend tokens after) := rfl

theorem run_literalOver_object (value : Parser Literal) (start : Position) (tokens : List Token)
    (after : Tokens)
    : (literalOver constant (some value)).run
        (prepend (⟨.punctuator .braceL, start⟩ :: tokens) after)
        = (do return .object (← manyUntil .braceR (named value)) : Parser Literal).run
            (prepend tokens after) := rfl

theorem literalOver_complete (hinner : ReadsBelow constant levels inner) {taken : List Token}
    {l : Literal} (after : Tokens) (h : LiteralWithin constant levels taken l)
    : (literalOver constant inner).run (prepend taken after) = .ok (l, after) := by
  obtain ⟨h, hdepth⟩ := h
  cases h with
  | «variable» hconstant =>
    subst hconstant
    rfl
  | @int raw start hlow hhigh =>
    have hrange : inIntRange (intOfRaw raw) = true := (inIntRange_iff _).mpr ⟨hlow, hhigh⟩
    unfold literalOver
    rw [run_peek, Tokens.head?_prepend_cons]
    simp only [hrange, if_true]
    rfl
  | float => rfl
  | string => rfl
  | @boolean b start =>
    rw [run_literalOver_name]
    cases b <;> rfl
  | null => rfl
  | enum hname => rw [run_literalOver_name, nameLiteral_of_not_mem hname]
  | @list tokens items start stop hitems =>
    cases hinner with
    | none => cases hdepth
    | some hvalue =>
      rw [Literal.depth, Literal.depthItems_eq_greatest] at hdepth
      have hclosed := phrases_within_iff.mpr ⟨hitems, Nat.le_of_succ_le_succ hdepth⟩
      rw [run_literalOver_list,
        run_bind ((reads_items hvalue).complete after (.mk hclosed) trivial)]
      rfl
  | @object tokens fields start stop hfields =>
    cases hinner with
    | none => cases hdepth
    | some hvalue =>
      rw [Literal.depth, Literal.depthNamed_eq_greatest] at hdepth
      have hclosed := phrases_within_iff.mpr ⟨hfields, Nat.le_of_succ_le_succ hdepth⟩
      rw [run_literalOver_object,
        run_bind ((reads_fields hvalue).complete after (.mk hclosed) trivial)]
      rfl

theorem reads_literalOver (hinner : ReadsBelow constant levels inner)
    : (literalOver constant inner).Reads (LiteralWithin constant levels) (fun _ => True) :=
  ⟨literalOver_sound hinner, fun after h _ => literalOver_complete hinner after h⟩

end Values

theorem reads_literal (levels : Nat) (constant : Bool)
    : (literal levels constant).Reads (LiteralWithin constant levels) (fun _ => True) := by
  induction levels with
  | zero => exact reads_literalOver .none
  | succ levels ih => exact reads_literalOver (.some ih)

theorem reads_argument (levels : Nat) (constant : Bool)
    : (argument levels constant).Reads (NamedWithin constant levels) (fun _ => True) :=
  reads_named (reads_literal levels constant)

abbrev ArgumentsWithin (constant : Bool) (levels : Nat) : List Token → Arguments → Prop :=
  Within (Parenthesized (Literal.DerivesNamed constant)) Literal.depthNamed levels

abbrev DirectivesWithin (constant : Bool) (levels : Nat) : List Token → List Directive → Prop :=
  Within (Phrases (Directive.Derives constant)) (greatest Directive.depth) levels

theorem reads_arguments (levels : Nat) (constant : Bool)
    : (arguments levels constant).Reads (ArgumentsWithin constant levels)
        (fun next => next ≠ some (.punctuator .parenL)) := by
  have hbegins : Begins (NamedWithin constant levels)
      fun kind => kind ≠ .punctuator .parenR ∧ True := by
    refine ((begins_named constant).within _ _).mono ?_
    rintro _ ⟨name, rfl⟩
    exact ⟨by simp, trivial⟩
  refine (reads_parenthesized (reads_argument levels constant) hbegins trivial).congr ?_
  intro tokens xs
  rw [parenthesized_within_iff, ArgumentsWithin, funext Literal.depthNamed_eq_greatest]

theorem reads_directive (levels : Nat) (constant : Bool)
    : (directive levels constant).Reads
        (Within (Directive.Derives constant) Directive.depth levels)
        (fun next => next ≠ some (.punctuator .parenL)) := by
  constructor
  . intro tokens after x h
    unfold directive at h
    simp only [run_bind_eq_ok_iff] at h
    obtain ⟨start, _, hstart, name, _, hname, given, _, hgiven, h⟩ := h
    cases h
    obtain rfl := expect_eq_ok hstart
    obtain ⟨_, rfl⟩ := expectName_eq_ok hname
    obtain ⟨taken, rfl, hderives, hdepth⟩ := (reads_arguments levels constant).sound hgiven
    exact ⟨_ :: _ :: taken, rfl, .mk hderives, hdepth⟩
  . rintro taken x after ⟨⟨hderives⟩, hdepth⟩ hstops
    unfold directive
    rw [Tokens.prepend_cons, run_bind (run_expect _ _ _), Tokens.prepend_cons,
      run_bind (run_expectName _ _ _),
      run_bind ((reads_arguments levels constant).complete after ⟨hderives, hdepth⟩ hstops)]
    rfl

theorem begins_directive (constant : Bool)
    : Begins (Directive.Derives constant) fun kind => kind = .punctuator .atSign := by
  rintro tokens x ⟨h⟩
  exact ⟨_, _, rfl, rfl⟩

theorem reads_directives (levels : Nat) (constant : Bool)
    : (directives levels constant).Reads (DirectivesWithin constant levels)
        (fun next => next ≠ some (.punctuator .atSign) ∧ next ≠ some (.punctuator .parenL)) := by
  have hbegins := (begins_directive constant).within Directive.depth levels
  refine (reads_manyFrom (reads_directive levels constant) hbegins (by simp)).congr ?_
  intro tokens xs
  exact phrases_within_iff

section Types

def BareWithin (levels : Nat) (tokens : List Token) (type : TypeRef) : Prop :=
  Within TypeRef.Derives TypeRef.listDepth levels tokens type ∧ type.isNonNull = false

theorem reads_typeRef_of_bare {levels : Nat}
    (h : (typeRef.bare levels).Reads (BareWithin levels) (fun _ => True))
    : (typeRef levels).Reads (Within TypeRef.Derives TypeRef.listDepth levels)
        (fun next => next ≠ some (.punctuator .bang)) := by
  constructor
  . intro tokens after type hrun
    unfold typeRef at hrun
    simp only [run_bind_eq_ok_iff] at hrun
    obtain ⟨inner, _, hinner, marked, _, hskip, hrun⟩ := hrun
    obtain ⟨taken, rfl, ⟨hderives, hdepth⟩, hnull⟩ := h.sound hinner
    obtain ⟨rfl, position, rfl⟩ | ⟨rfl, rfl⟩ := skip_eq_ok hskip
    . cases hrun
      exact ⟨_, (Tokens.prepend_append ..).symm, .nonNull hnull hderives, hdepth⟩
    . cases hrun
      exact ⟨taken, rfl, hderives, hdepth⟩
  . rintro taken type after ⟨hderives, hdepth⟩ hstops
    unfold typeRef
    cases hnull : type.isNonNull with
    | false =>
      rw [run_bind (h.complete after ⟨⟨hderives, hdepth⟩, hnull⟩ trivial),
        run_bind (run_skip_other hstops)]
      rfl
    | true =>
      cases hderives with
      | named => cases hnull
      | list => cases hnull
      | @nonNull tokens inner stop hbare hinner =>
        rw [Tokens.prepend_append, run_bind (h.complete _ ⟨⟨hinner, hdepth⟩, hbare⟩ trivial),
          run_bind (run_skip_next _ _ _)]
        rfl

theorem run_bare_name (levels : Nat) (name : String) (start : Position) (after : Tokens)
    : (typeRef.bare levels).run (prepend [⟨.name name, start⟩] after)
        = .ok (.named name, after) := by
  cases levels <;> rfl

theorem run_bare_list (levels : Nat) (start : Position) (tokens : List Token) (after : Tokens)
    : (typeRef.bare (levels + 1)).run (prepend (⟨.punctuator .bracketL, start⟩ :: tokens) after)
        = (do
            let inner ← typeRef levels
            let _ ← expect .bracketR
            return .list inner : Parser TypeRef).run (prepend tokens after) := by
  unfold typeRef.bare
  rw [run_bind (run_isNext _ _), Tokens.head?_prepend_cons, decide_eq_true rfl, if_pos rfl,
    run_bind (run_advance _ _ _)]
  unfold typeRef
  rw [bind_assoc]
  congr 2
  funext inner
  rw [bind_assoc]
  congr 1
  funext marked
  cases marked <;> rfl

theorem reads_bare (levels : Nat)
    : (typeRef.bare levels).Reads (BareWithin levels) (fun _ => True) := by
  -- The levels are those that are left for lists; the type in a list may have a
  -- mark after it again.
  induction levels with
  | zero =>
    constructor
    . intro tokens after type h
      unfold typeRef.bare at h
      rw [run_bind (run_isNext _ _)] at h
      split at h
      . cases h
      . simp only [run_bind_eq_ok_iff] at h
        obtain ⟨name, _, hname, h⟩ := h
        cases h
        obtain ⟨position, rfl⟩ := expectName_eq_ok hname
        exact ⟨_, rfl, ⟨.named, Nat.le_refl _⟩, rfl⟩
    . rintro taken type after ⟨⟨hderives, hdepth⟩, hnull⟩ _
      cases hderives with
      | named => exact run_bare_name ..
      | list => cases hdepth
      | nonNull => cases hnull
  | succ levels ih =>
    have hinside := reads_typeRef_of_bare ih
    constructor
    . intro tokens after type h
      by_cases hhead : tokens.head? = some (.punctuator .bracketL)
      . obtain ⟨start, rest, rfl, _⟩ := exists_token_of_head? hhead
        rw [run_bare_list] at h
        simp only [run_bind_eq_ok_iff] at h
        obtain ⟨inner, _, hinner, _, _, hclose, h⟩ := h
        cases h
        obtain ⟨taken, hrest, hderives, hdepth⟩ := hinside.sound hinner
        obtain rfl := expect_eq_ok hclose
        rw [← Tokens.prepend_append, Tokens.prepend_nil] at hrest
        subst hrest
        exact ⟨_, rfl, ⟨.list hderives, Nat.succ_le_succ hdepth⟩, rfl⟩
      . unfold typeRef.bare at h
        rw [run_bind (run_isNext _ _), decide_eq_false hhead] at h
        simp only [Bool.false_eq_true, if_false, run_bind_eq_ok_iff] at h
        obtain ⟨name, _, hname, h⟩ := h
        cases h
        obtain ⟨position, rfl⟩ := expectName_eq_ok hname
        exact ⟨_, rfl, ⟨.named, Nat.zero_le _⟩, rfl⟩
    . rintro taken type after ⟨⟨hderives, hdepth⟩, hnull⟩ _
      cases hderives with
      | named => exact run_bare_name ..
      | list hinner =>
        rw [run_bare_list, Tokens.prepend_append,
          run_bind (hinside.complete _ ⟨hinner, Nat.le_of_succ_le_succ hdepth⟩ (by
            simp [Tokens.head?_prepend_cons])),
          run_bind (run_expect _ _ _)]
        rfl
      | nonNull => cases hnull

theorem reads_typeRef (levels : Nat)
    : (typeRef levels).Reads (Within TypeRef.Derives TypeRef.listDepth levels)
        (fun next => next ≠ some (.punctuator .bang)) :=
  reads_typeRef_of_bare (reads_bare levels)

end Types

section Variables

theorem begins_default
    : Begins Literal.DerivesDefault fun kind => kind = .punctuator .equals := by
  rintro tokens x ⟨h⟩
  exact ⟨_, _, rfl, rfl⟩

theorem begins_variableDefinition
    : Begins VariableDefinition.Derives fun kind => kind = .punctuator .dollar := by
  rintro tokens x ⟨h⟩
  exact ⟨_, _, rfl, rfl⟩

theorem VariableDefinition.depth_le_iff (definition : VariableDefinition) (levels : Nat)
    : definition.depth ≤ levels
        ↔ definition.type.listDepth ≤ levels
          ∧ greatest Literal.depth definition.default.toList ≤ levels
          ∧ greatest Directive.depth definition.directives ≤ levels := by
  rw [VariableDefinition.depth, Nat.max_le, Nat.max_le]

abbrev DefaultWithin (levels : Nat) : List Token → Option Literal → Prop :=
  Within (Optionally Literal.DerivesDefault) (fun l => greatest Literal.depth l.toList) levels

theorem reads_defaultValue (levels : Nat)
    : (defaultValue levels).Reads (DefaultWithin levels)
        (fun next => next ≠ some (.punctuator .equals)) := by
  constructor
  . intro tokens after x h
    unfold defaultValue at h
    simp only [run_bind_eq_ok_iff] at h
    obtain ⟨equals, _, hskip, h⟩ := h
    obtain ⟨rfl, position, rfl⟩ | ⟨rfl, rfl⟩ := skip_eq_ok hskip
    . simp only [if_true, run_bind_eq_ok_iff] at h
      obtain ⟨l, _, hl, h⟩ := h
      cases h
      obtain ⟨taken, rfl, hderives, hdepth⟩ := (reads_literal levels true).sound hl
      exact ⟨_, rfl, .present (.mk hderives), by simpa [greatest] using hdepth⟩
    . cases h
      exact ⟨[], rfl, .absent, Nat.zero_le _⟩
  . rintro taken x after ⟨hderives, hdepth⟩ hstops
    unfold defaultValue
    cases hderives with
    | absent =>
      rw [Tokens.prepend_nil, run_bind (run_skip_other hstops)]
      rfl
    | present hdefault =>
      obtain ⟨hderives⟩ := hdefault
      have hliteral := (reads_literal levels true).complete after
        ⟨hderives, by simpa [greatest] using hdepth⟩ trivial
      rw [Tokens.prepend_cons, run_bind (run_skip_next _ _ _), if_pos rfl, run_bind hliteral]
      rfl

theorem head?_default_directives {first second : List Token} {default : Option Literal}
    {ds : List Directive} {after : Tokens}
    (hdefault : Optionally Literal.DerivesDefault first default)
    (hds : Phrases (Directive.Derives true) second ds)
    (hstops : after.head? = some (.punctuator .dollar) ∨ after.head? = some (.punctuator .parenR))
    : (prepend first (prepend second after)).head? ≠ some (.punctuator .bang)
        ∧ (prepend second after).head? ≠ some (.punctuator .equals)
        ∧ after.head? ≠ some (.punctuator .atSign) ∧ after.head? ≠ some (.punctuator .parenL) := by
  have hsecond : (prepend second after).head? ≠ some (.punctuator .bang)
      ∧ (prepend second after).head? ≠ some (.punctuator .equals) := by
    apply head?_prepend (Q := fun next => next ≠ some _ ∧ next ≠ some _)
    . intro token htoken
      simp [(begins_directive true).head?_phrases hds token htoken]
    . obtain h | h := hstops <;> simp [h]
  have hfirst : (prepend first (prepend second after)).head? ≠ some (.punctuator .bang) := by
    apply head?_prepend (Q := fun next => next ≠ some _) _ hsecond.1
    intro token htoken
    simp [begins_default.head?_optionally hdefault token htoken]
  refine ⟨hfirst, hsecond.2, ?_⟩
  obtain h | h := hstops <;> simp [h]

theorem reads_variableDefinition
    : variableDefinition.Reads
        (Within VariableDefinition.Derives VariableDefinition.depth maxDepth)
        (fun next => next = some (.punctuator .dollar) ∨ next = some (.punctuator .parenR)) := by
  constructor
  . intro tokens after x h
    unfold variableDefinition at h
    simp only [run_bind_eq_ok_iff] at h
    obtain ⟨start, _, hstart, name, _, hname, colon, _, hcolon, type, _, hrunType, default, _,
      hrunDefault, ds, _, hrunDirectives, h⟩ := h
    cases h
    obtain rfl := expect_eq_ok hstart
    obtain ⟨next, rfl⟩ := expectName_eq_ok hname
    obtain rfl := expect_eq_ok hcolon
    obtain ⟨first, rfl, htype, htypeDepth⟩ := (reads_typeRef maxDepth).sound hrunType
    obtain ⟨second, rfl, hdefault, hdefaultDepth⟩ :=
      (reads_defaultValue maxDepth).sound hrunDefault
    obtain ⟨third, rfl, hdirectives, hdirectivesDepth⟩ :=
      (reads_directives maxDepth true).sound hrunDirectives
    refine ⟨⟨.punctuator .dollar, start⟩ :: ⟨.name name, next⟩ :: ⟨.punctuator .colon, colon⟩
        :: (first ++ second ++ third), ?_, .mk htype hdefault hdirectives,
      (VariableDefinition.depth_le_iff _ _).mpr ⟨htypeDepth, hdefaultDepth, hdirectivesDepth⟩⟩
    simp [prepend]
  . rintro taken x after ⟨hderives, hdepth⟩ hstops
    obtain ⟨htypeDepth, hdefaultDepth, hdirectivesDepth⟩ :=
      (VariableDefinition.depth_le_iff _ _).mp hdepth
    cases hderives with
    | @mk name type default ds first second third start next colon htype hdefault hdirectives =>
      obtain ⟨hsecond, hthird, hafter⟩ := head?_default_directives hdefault hdirectives hstops
      unfold variableDefinition
      rw [Tokens.prepend_cons, run_bind (run_expect _ _ _), Tokens.prepend_cons,
        run_bind (run_expectName _ _ _), Tokens.prepend_cons, run_bind (run_expect _ _ _),
        prepend_append, prepend_append,
        run_bind ((reads_typeRef maxDepth).complete _ ⟨htype, htypeDepth⟩ hsecond),
        run_bind ((reads_defaultValue maxDepth).complete _ ⟨hdefault, hdefaultDepth⟩ hthird),
        run_bind ((reads_directives maxDepth true).complete _ ⟨hdirectives, hdirectivesDepth⟩
          hafter)]
      rfl

theorem reads_variableDefinitions
    : variableDefinitions.Reads
        (Within (Parenthesized VariableDefinition.Derives) (greatest VariableDefinition.depth)
          maxDepth)
        (fun next => next ≠ some (.punctuator .parenL)) := by
  refine (reads_parenthesized reads_variableDefinition ?_ (.inr rfl)).congr ?_
  . refine (begins_variableDefinition.within _ _).mono ?_
    rintro _ rfl
    exact ⟨by simp, .inl rfl⟩
  . intro tokens xs
    exact parenthesized_within_iff

end Variables

end Parser
end GraphGateway

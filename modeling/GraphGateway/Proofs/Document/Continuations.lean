import GraphGateway.Proofs.Document.Foresight

/-!
This module contains the proofs that the readers of values, types and selections decide by the next
token how a phrase goes on, in the same way if more levels are left.
-/

namespace GraphGateway
namespace Parser

open Tokens (prepend prepend_append)

section Values

variable {constant : Bool} {levels more : Nat}

/-- The readers of the values in a value, of which the other one has no fewer levels left. -/
inductive PredictsBelow (constant : Bool)
    : Option (Parser Literal) → Option (Parser Literal) → Prop where
  | none {other : Option (Parser Literal)} : PredictsBelow constant none other
  | some {levels more : Nat}
    (h : Predicts (literal levels constant) (literal more constant) (Literal.Derives constant))
    : PredictsBelow constant (some (literal levels constant)) (some (literal more constant))

theorem predicts_argument
    (h : Predicts (literal levels constant) (literal more constant) (Literal.Derives constant))
    : Predicts (argument levels constant) (argument more constant)
        (Literal.DerivesNamed constant) := by
  refine (reads_argument levels constant).predicts fun tokens => ?_
  unfold argument named
  refine .expectName ?_ fun {name start _} => ?_
  . exact ⟨[⟨.name "a", .start⟩, ⟨.punctuator .colon, .start⟩, ⟨.name "null", .start⟩],
      ("a", .null), .mk .null⟩
  refine .expect ?_ fun {next _} => ?_
  . exact ⟨[⟨.punctuator .colon, .start⟩, ⟨.name "null", .start⟩], (name, .null), .mk .null⟩
  refine h.bind ?_ fun _ _ => decides_pure _
  intro taken value hvalue
  exact ⟨[], (name, value), by simpa using .mk hvalue⟩

theorem takes_literal (levels : Nat) (constant : Bool) : (literal levels constant).Takes :=
  (reads_literal levels constant).takes ((begins_literal constant).within _ _)

theorem takes_argument (levels : Nat) (constant : Bool) : (argument levels constant).Takes :=
  (reads_argument levels constant).takes ((begins_named constant).within _ _)

theorem decides_literalOver {inner other : Option (Parser Literal)}
    (hinner : PredictsBelow constant inner other) (tokens : Tokens)
    : Decides (literalOver constant inner) (literalOver constant other)
        (fun taken => ∃ l, Literal.Derives constant taken l) tokens := by
  have hgoes : ∃ rest l, Literal.Derives constant rest l := ⟨[⟨.name "null", .start⟩], .null, .null⟩
  unfold literalOver
  refine .peek ?_
  cases hhead : tokens.head? with
  | none => exact decides_unexpected hgoes
  | some kind =>
    obtain ⟨start, after, rfl, _⟩ := exists_token_of_head? hhead
    cases kind with
    | int raw =>
      dsimp only
      split
      . exact .take (decides_pure _) (run_advance _ [])
      . exact decides_failOther (by simp [SyntaxError.Cause.code])
    | float raw => exact .take (decides_pure _) (run_advance _ [])
    | string s => exact .take (decides_pure _) (run_advance _ [])
    | name name => exact .take (decides_pure _) (run_advance _ [])
    | punctuator p =>
      cases p with
      | dollar =>
        cases constant with
        | true => exact decides_unexpected hgoes
        | false =>
          refine .take (.expectName ?_ (decides_pure _)) (run_advance _ [])
          exact ⟨[⟨.name "a", .start⟩], .variable "a", .variable rfl⟩
      | bracketL =>
        cases hinner with
        | none => exact decides_failOther (by simp [SyntaxError.Cause.code])
        | @some levels more h =>
          refine .take ?_ (run_advance _ [])
          refine (predicts_manyUntil h (begins_literal constant) (takes_literal _ _)).bind ?_
            fun _ _ => decides_pure _
          rintro _ items ⟨hitems⟩
          exact ⟨[], .list items, by simpa using .list hitems⟩
      | braceL =>
        cases hinner with
        | none => exact decides_failOther (by simp [SyntaxError.Cause.code])
        | @some levels more h =>
          refine .take ?_ (run_advance _ [])
          refine (predicts_manyUntil (predicts_argument h) (begins_named constant)
            (takes_argument _ _)).bind ?_ fun _ _ => decides_pure _
          rintro _ fields ⟨hfields⟩
          exact ⟨[], .object fields, by simpa using .object hfields⟩
      | bang | amp | parenL | parenR | spread | colon | equals | atSign | bracketR | pipe
          | braceR =>
        exact decides_unexpected hgoes

theorem predicts_literal (constant : Bool) (hmore : levels ≤ more)
    : Predicts (literal levels constant) (literal more constant) (Literal.Derives constant) := by
  refine (reads_literal levels constant).predicts ?_
  induction levels generalizing more with
  | zero =>
    cases more with
    | zero => exact decides_literalOver .none
    | succ more => exact decides_literalOver .none
  | succ levels ih =>
    cases more with
    | zero => cases hmore
    | succ more =>
      have h := (reads_literal levels constant).predicts (ih (Nat.le_of_succ_le_succ hmore))
      exact decides_literalOver (.some h)

theorem predicts_arguments (constant : Bool) (hmore : levels ≤ more)
    : Predicts (arguments levels constant) (arguments more constant)
        (Parenthesized (Literal.DerivesNamed constant)) :=
  predicts_parenthesized (predicts_argument (predicts_literal constant hmore))
    (begins_named constant) (takes_argument more constant)

theorem predicts_directive (constant : Bool) (hmore : levels ≤ more)
    : Predicts (directive levels constant) (directive more constant)
        (Directive.Derives constant) := by
  refine (reads_directive levels constant).predicts fun tokens => ?_
  unfold directive
  refine .expect ?_ fun {start _} => ?_
  . exact ⟨[⟨.punctuator .atSign, .start⟩, ⟨.name "a", .start⟩], ⟨"a", [], .start⟩, .mk .absent⟩
  refine .expectName ?_ fun {name next _} => ?_
  . exact ⟨[⟨.name "a", .start⟩], ⟨"a", [], start⟩, .mk .absent⟩
  refine (predicts_arguments constant hmore).bind ?_ fun _ _ => decides_pure _
  intro taken arguments harguments
  exact ⟨[], ⟨name, arguments, start⟩, by simpa using .mk harguments⟩

theorem takes_directive (levels : Nat) (constant : Bool) : (directive levels constant).Takes :=
  (reads_directive levels constant).takes ((begins_directive constant).within _ _)

theorem predicts_directives (constant : Bool) (hmore : levels ≤ more)
    : Predicts (directives levels constant) (directives more constant)
        (Phrases (Directive.Derives constant)) :=
  predicts_manyFrom (predicts_directive constant hmore) (begins_directive constant)
    (takes_directive more constant)

end Values

section Types

variable {levels more : Nat}

theorem decides_typeRef {tokens : Tokens}
    (h : ∀ tokens, Decides (typeRef.bare levels) (typeRef.bare more)
      (fun taken => ∃ type, TypeRef.Derives taken type ∧ type.isNonNull = false) tokens)
    : Decides (typeRef levels) (typeRef more) (fun taken => ∃ type, TypeRef.Derives taken type)
        tokens := by
  unfold typeRef
  refine ((h tokens).mono ?_).bind fun _ _ => .skip (decides_pure _) (decides_pure _)
  rintro taken ⟨type, htype, -⟩
  exact ⟨[], type, by simpa using htype⟩

theorem decides_bare (hmore : levels ≤ more) (tokens : Tokens)
    : Decides (typeRef.bare levels) (typeRef.bare more)
        (fun taken => ∃ type, TypeRef.Derives taken type ∧ type.isNonNull = false) tokens := by
  have hname : ∃ rest type, TypeRef.Derives rest type ∧ type.isNonNull = false :=
    ⟨[⟨.name "a", .start⟩], .named "a", .named, rfl⟩
  induction levels generalizing more tokens with
  | zero =>
    unfold typeRef.bare
    refine .isNext ?_
    split
    . exact decides_failOther (by simp [SyntaxError.Cause.code])
    . exact .expectName hname (decides_pure _)
  | succ levels ih =>
    cases more with
    | zero => cases hmore
    | succ more =>
      by_cases hhead : tokens.head? = some (.punctuator .bracketL)
      . obtain ⟨start, after, rfl, _⟩ := exists_token_of_head? hhead
        -- What is in the brackets is a type of its own.
        have hinner : Predicts (typeRef levels) (typeRef more) TypeRef.Derives :=
          (reads_typeRef levels).predicts fun _ =>
            decides_typeRef (ih (Nat.le_of_succ_le_succ hmore))
        have hlist : ∀ {taken type}, TypeRef.Derives taken type →
            ∃ rest list, TypeRef.Derives (⟨.punctuator .bracketL, start⟩ :: (taken ++ rest)) list
              ∧ list.isNonNull = false :=
          fun htype => ⟨[⟨.punctuator .bracketR, .start⟩], _, .list htype, rfl⟩
        refine Decides.after ?_ (fun _ => run_bare_list levels start [] _)
          (fun _ => run_bare_list more start [] _)
        refine hinner.bind hlist fun htype _ => ?_
        exact .expect (hlist htype) (decides_pure _)
      . unfold typeRef.bare
        refine .isNext ?_
        rw [decide_eq_false hhead]
        exact .expectName hname (decides_pure _)

theorem predicts_typeRef (hmore : levels ≤ more)
    : Predicts (typeRef levels) (typeRef more) TypeRef.Derives :=
  (reads_typeRef levels).predicts fun _ => decides_typeRef (decides_bare hmore)

theorem predicts_defaultValue (hmore : levels ≤ more)
    : Predicts (defaultValue levels) (defaultValue more)
        (Optionally Literal.DerivesDefault) := by
  refine (reads_defaultValue levels).predicts fun tokens => ?_
  unfold defaultValue
  refine .skip ?_ (decides_pure _)
  intro start after
  refine (predicts_literal true hmore).bind ?_ fun _ _ => decides_pure _
  intro taken value hvalue
  exact ⟨[], some value, by simpa using .present (.mk hvalue)⟩

end Types

theorem predicts_variableDefinition
    : Predicts variableDefinition variableDefinition VariableDefinition.Derives := by
  refine reads_variableDefinition.predicts fun tokens => ?_
  have hdefinition : ∀ name start next colon {first type}, TypeRef.Derives first type →
      ∀ {second default}, Optionally Literal.DerivesDefault second default →
      ∀ {third directives}, Phrases (Directive.Derives true) third directives →
      VariableDefinition.Derives (⟨.punctuator .dollar, start⟩ :: ⟨.name name, next⟩
        :: ⟨.punctuator .colon, colon⟩ :: (first ++ (second ++ third)))
        ⟨name, type, default, directives, start⟩ := by
    intro name start next colon first type htype second default hdefault third directives
      hdirectives
    rw [← List.append_assoc]
    exact .mk htype hdefault hdirectives
  have htype : TypeRef.Derives [⟨.name "a", .start⟩] (.named "a") := .named
  unfold variableDefinition
  refine .expect ?_ fun {start _} => ?_
  . exact ⟨_, _, hdefinition "a" .start .start .start htype .absent .nil⟩
  refine .expectName ?_ fun {name next _} => ?_
  . exact ⟨_, _, hdefinition "a" start .start .start htype .absent .nil⟩
  refine .expect ?_ fun {colon _} => ?_
  . exact ⟨_, _, hdefinition name start next .start htype .absent .nil⟩
  refine (predicts_typeRef (Nat.le_refl _)).bind ?_ fun {type first _} hfirst _ => ?_
  . intro first type hfirst
    exact ⟨_, _, hdefinition name start next colon hfirst .absent .nil⟩
  refine (predicts_defaultValue (Nat.le_refl _)).bind ?_ fun {default second _} hsecond _ => ?_
  . intro second default hsecond
    exact ⟨_, _, hdefinition name start next colon hfirst hsecond .nil⟩
  refine (predicts_directives true (Nat.le_refl _)).bind ?_ fun _ _ => decides_pure _
  intro third directives hthird
  exact ⟨[], _, by simpa using hdefinition name start next colon hfirst hsecond hthird⟩

theorem predicts_variableDefinitions
    : Predicts variableDefinitions variableDefinitions
        (Parenthesized VariableDefinition.Derives) :=
  predicts_parenthesized predicts_variableDefinition begins_variableDefinition
    (reads_variableDefinition.takes (begins_variableDefinition.within _ _))

section Selections

variable {levels more : Nat} {tokens : Tokens}

theorem derives_plain (name : String) (start : Position)
    : Selection.Derives [⟨.name name, start⟩] (.field ⟨none, name, [], [], start⟩ none) := by
  have hnode : FieldNode.Derives ([⟨.name name, start⟩] ++ [] ++ []) ⟨none, name, [], [], start⟩ :=
    .plain .absent .nil
  simpa using Selection.Derives.field hnode .absent

theorem derives_aliased (aliasName name : String) (start colon next : Position)
    : Selection.Derives
        [⟨.name aliasName, start⟩, ⟨.punctuator .colon, colon⟩, ⟨.name name, next⟩]
        (.field ⟨some aliasName, name, [], [], start⟩ none) := by
  have hnode : FieldNode.Derives
      ([⟨.name aliasName, start⟩, ⟨.punctuator .colon, colon⟩, ⟨.name name, next⟩] ++ [] ++ [])
      ⟨some aliasName, name, [], [], start⟩ :=
    .aliased .absent .nil
  simpa using Selection.Derives.field hnode .absent

theorem exists_set : ∃ tokens set, SelectionSet.Derives tokens set :=
  ⟨[⟨.punctuator .braceL, .start⟩, ⟨.name "a", .start⟩, ⟨.punctuator .braceR, .start⟩],
    ⟨[_], .start⟩, .mk (List.cons_ne_nil _ _) (.cons (derives_plain "a" .start) .nil)⟩

theorem predicts_optionalSet
    (hset : Predicts (selectionSet levels) (selectionSet more) SelectionSet.Derives)
    : Predicts (optionalSet (selectionSet levels)) (optionalSet (selectionSet more))
        (Optionally SelectionSet.Derives) := by
  refine (reads_optionalSet (reads_selectionSet levels)).predicts fun tokens => ?_
  unfold optionalSet
  refine .isNext ?_
  split
  . refine hset.bind ?_ fun _ _ => decides_pure _
    intro taken inner hinner
    exact ⟨[], some inner, by simpa using .present hinner⟩
  . exact decides_pure _

theorem decides_directives_set {β : Type} {Goes : List Token → Prop}
    (hset : Predicts (selectionSet levels) (selectionSet more) SelectionSet.Derives)
    (hmore : levels ≤ more) (build : List Directive → SelectionSet → β)
    (hgoes : ∀ {first ds second inner}, Phrases (Directive.Derives false) first ds →
      SelectionSet.Derives second inner → Goes (first ++ second))
    : Decides (do
          let directives ← directives levels false
          return build directives (← selectionSet levels))
        (do
          let directives ← directives more false
          return build directives (← selectionSet more)) Goes tokens := by
  refine (predicts_directives false hmore).bind ?_ fun {_ first _} hfirst _ => ?_
  . intro first ds hfirst
    obtain ⟨second, inner, hinner⟩ := exists_set
    exact ⟨second, hgoes hfirst hinner⟩
  refine hset.bind ?_ fun _ _ => decides_pure _
  intro second inner hinner
  exact ⟨[], by simpa using hgoes hfirst hinner⟩

theorem decides_fieldRest (names : List Token) {aliasName : Option String} {name : String}
    {start position : Position}
    (hset : Predicts (selectionSet levels) (selectionSet more) SelectionSet.Derives)
    (hmore : levels ≤ more)
    (hnode : ∀ {first second given ds}, Parenthesized (Literal.DerivesNamed false) first given →
      Phrases (Directive.Derives false) second ds →
      FieldNode.Derives (names ++ first ++ second) ⟨aliasName, name, given, ds, start⟩)
    : Decides (do
          let arguments ← arguments levels false
          let directives ← directives levels false
          return .field ⟨aliasName, name, arguments, directives, position⟩
            (← optionalSet (selectionSet levels)) : Parser Selection)
        (do
          let arguments ← arguments more false
          let directives ← directives more false
          return .field ⟨aliasName, name, arguments, directives, position⟩
            (← optionalSet (selectionSet more)) : Parser Selection)
        (fun rest => ∃ x, Selection.Derives (names ++ rest) x) tokens := by
  have hfield : ∀ {first given second ds third inner},
      Parenthesized (Literal.DerivesNamed false) first given →
      Phrases (Directive.Derives false) second ds → Optionally SelectionSet.Derives third inner →
      Selection.Derives (names ++ (first ++ (second ++ third)))
        (.field ⟨aliasName, name, given, ds, start⟩ inner) := by
    intro first given second ds third inner hfirst hsecond hthird
    have hderives := Selection.Derives.field (hnode hfirst hsecond) hthird
    simpa only [List.append_assoc] using hderives
  refine (predicts_arguments false hmore).bind ?_ fun {_ first _} hfirst _ => ?_
  . intro first given hfirst
    exact ⟨_, _, hfield hfirst .nil .absent⟩
  refine (predicts_directives false hmore).bind ?_ fun {_ second _} hsecond _ => ?_
  . intro second ds hsecond
    exact ⟨_, _, hfield hfirst hsecond .absent⟩
  refine (predicts_optionalSet hset).bind ?_ fun _ _ => decides_pure _
  intro third inner hthird
  exact ⟨[], _, by simpa using hfield hfirst hsecond hthird⟩

theorem decides_field
    (hset : Predicts (selectionSet levels) (selectionSet more) SelectionSet.Derives)
    (hmore : levels ≤ more)
    : Decides (field levels (selectionSet levels)) (field more (selectionSet more))
        (fun taken => ∃ x, Selection.Derives taken x) tokens := by
  unfold field fieldName
  simp only [bind_assoc]
  refine .position (.expectName ⟨_, _, derives_plain "a" .start⟩ fun {first start _} => ?_)
  refine .skip (fun {colon _} => ?_) ?_
  . simp only [if_true, bind_assoc, pure_bind]
    refine .expectName ⟨_, _, derives_aliased first "a" start colon .start⟩ fun {name next _} => ?_
    exact decides_fieldRest [_, _, _] hset hmore .aliased
  . simp only [Bool.false_eq_true, if_false, pure_bind]
    exact decides_fieldRest [_] hset hmore .plain

theorem decides_fragmentSelection
    (hset : Predicts (selectionSet levels) (selectionSet more) SelectionSet.Derives)
    (hmore : levels ≤ more)
    : Decides (fragmentSelection levels (selectionSet levels))
        (fragmentSelection more (selectionSet more))
        (fun taken => ∃ x, Selection.Derives taken x) tokens := by
  have hspread : ∀ {name : String}, name ≠ "on" → ∀ {start next first ds},
      Phrases (Directive.Derives false) first ds →
      ∃ x, Selection.Derives (⟨.punctuator .spread, start⟩ :: ⟨.name name, next⟩ :: first) x := by
    intro name hname start next first ds hfirst
    exact ⟨_, .spread hname hfirst⟩
  unfold fragmentSelection
  refine .expect ?_ fun {start after} => ?_
  . exact ⟨[⟨.punctuator .spread, .start⟩, ⟨.name "a", .start⟩], hspread (by decide) .nil⟩
  refine .peek ?_
  by_cases hhead : ∃ name, after.head? = some (.name name)
  . obtain ⟨name, hhead⟩ := hhead
    obtain ⟨next, after, rfl, _⟩ := exists_token_of_head? hhead
    refine .take ?_ (run_advance _ [])
    by_cases hname : name = "on"
    . subst hname
      simp only [if_true]
      have hinline : ∀ {condition third first ds second inner},
          Phrases (Directive.Derives false) first ds → SelectionSet.Derives second inner →
          ∃ x, Selection.Derives (⟨.punctuator .spread, start⟩ :: ⟨.name "on", next⟩
            :: ⟨.name condition, third⟩ :: (first ++ second)) x :=
        fun {_ _ _ _ _ _} hfirst hsecond => ⟨_, .inlineOn hfirst hsecond⟩
      refine .expectName ?_ fun {condition third _} => ?_
      . obtain ⟨second, inner, hinner⟩ := exists_set
        exact ⟨⟨.name "a", .start⟩ :: ([] ++ second), hinline .nil hinner⟩
      exact decides_directives_set hset hmore _ hinline
    . simp only [hname, if_false]
      refine (predicts_directives false hmore).bind ?_ fun _ _ => decides_pure _
      intro first ds hfirst
      exact ⟨[], by simpa using hspread hname hfirst⟩
  . have hinline : ∀ {first ds second inner},
        Phrases (Directive.Derives false) first ds → SelectionSet.Derives second inner →
        ∃ x, Selection.Derives (⟨.punctuator .spread, start⟩ :: (first ++ second)) x :=
      fun {_ _ _ _} hfirst hsecond => ⟨_, .inline hfirst hsecond⟩
    split
    . next name hname => exact absurd ⟨name, hname⟩ hhead
    . exact decides_directives_set hset hmore _ hinline

theorem predicts_selection
    (hset : Predicts (selectionSet levels) (selectionSet more) SelectionSet.Derives)
    (hmore : levels ≤ more)
    : Predicts (selection levels (selectionSet levels)) (selection more (selectionSet more))
        Selection.Derives := by
  refine (reads_selection (reads_selectionSet levels)).predicts fun tokens => ?_
  unfold selection
  refine .isNext ?_
  split
  . exact decides_fragmentSelection hset hmore
  . exact decides_field hset hmore

theorem takes_selection (levels : Nat) : (selection levels (selectionSet levels)).Takes :=
  (reads_selection (reads_selectionSet levels)).takes (begins_selection.within _ _)

theorem predicts_selectionSet (hmore : levels ≤ more)
    : Predicts (selectionSet levels) (selectionSet more) SelectionSet.Derives := by
  refine (reads_selectionSet levels).predicts ?_
  induction levels generalizing more with
  | zero => exact fun _ => decides_failOther (by simp [SyntaxError.Cause.code])
  | succ levels ih =>
    cases more with
    | zero => cases hmore
    | succ more =>
      have hless := Nat.le_of_succ_le_succ hmore
      have hset := (reads_selectionSet levels).predicts (ih hless)
      have hitems := predicts_someUntil .braceR (predicts_selection hset hless)
        begins_selection (takes_selection more)
      have hclosed : ∀ {start taken xs}, xs ≠ [] → Closed Selection.Derives .braceR taken xs →
          ∃ set, SelectionSet.Derives (⟨.punctuator .braceL, start⟩ :: taken) set := by
        rintro start taken xs hne ⟨hxs⟩
        exact ⟨_, .mk hne hxs⟩
      intro tokens
      unfold selectionSet
      refine .expect exists_set fun {start _} => ?_
      refine hitems.bind ?_ fun _ _ => decides_pure _
      rintro taken xs ⟨hne, hxs⟩
      exact ⟨[], by simpa using hclosed hne hxs⟩

end Selections

section Definitions

variable {tokens : Tokens}

theorem predicts_optionalName : Predicts optionalName optionalName (Optionally IsName) := by
  refine ⟨reads_optionalName.sound, fun tokens => ?_⟩
  unfold optionalName
  refine .peek ?_
  cases hhead : tokens.head? with
  | none => exact decides_pure _
  | some kind =>
    cases kind with
    | name name =>
      obtain ⟨start, after, rfl, _⟩ := exists_token_of_head? hhead
      exact .take (decides_pure _) (run_advance _ [])
    | punctuator | int | float | string => exact decides_pure _

theorem decides_operation {kind : OperationKind} {start : Position} {after : Tokens}
    : Decides operation operation (fun taken => ∃ op, Operation.Derives taken op)
        (prepend [⟨.name kind.name, start⟩] after) := by
  have hoperation : ∀ {first name second vs}, Optionally IsName first name →
      Parenthesized VariableDefinition.Derives second vs →
      ∀ {third ds fourth set}, Phrases (Directive.Derives false) third ds →
        SelectionSet.Derives fourth set →
      ∃ op, Operation.Derives
        (⟨.name kind.name, start⟩ :: (first ++ (second ++ (third ++ fourth)))) op := by
    intro first name second vs hname hvs third ds fourth set hds hset
    simp only [← List.append_assoc]
    exact ⟨_, .full hname hvs hds hset⟩
  obtain ⟨sample, set, hset⟩ := exists_set
  unfold operation
  refine .position (.take ?_ (run_expectName _ _))
  refine predicts_optionalName.bind ?_ fun {_ first _} hfirst _ => ?_
  . intro first name hfirst
    exact ⟨_, hoperation hfirst .absent .nil hset⟩
  refine predicts_variableDefinitions.bind ?_ fun {_ second _} hsecond _ => ?_
  . intro second vs hsecond
    exact ⟨_, hoperation hfirst hsecond .nil hset⟩
  exact decides_directives_set (predicts_selectionSet (Nat.le_refl _)) (Nat.le_refl _) _
    (hoperation hfirst hsecond)

theorem decides_fragment {start : Position} {after : Tokens}
    : Decides fragment fragment (fun taken => ∃ f, Fragment.Derives taken f)
        (prepend [⟨.name "fragment", start⟩] after) := by
  have hfragment : ∀ {name : String}, name ≠ "on" →
      ∀ {next third condition fourth first ds second set},
        Phrases (Directive.Derives false) first ds → SelectionSet.Derives second set →
      ∃ f, Fragment.Derives (⟨.name "fragment", start⟩ :: ⟨.name name, next⟩ :: ⟨.name "on", third⟩
        :: ⟨.name condition, fourth⟩ :: (first ++ second)) f := by
    intro name hname next third condition fourth first ds second set hds hset
    exact ⟨_, .mk hname hds hset⟩
  obtain ⟨sample, set, hset⟩ := exists_set
  have hgoes : ∃ rest f, Fragment.Derives (⟨.name "fragment", start⟩ :: rest) f :=
    ⟨⟨.name "a", .start⟩ :: ⟨.name "on", .start⟩ :: ⟨.name "a", .start⟩ :: ([] ++ sample),
      hfragment (by decide) .nil hset⟩
  unfold fragment
  refine .take ?_ (run_expectKeyword _ _)
  by_cases hon : after.head? = some (.name "on")
  . -- The name is taken before it is refused.
    obtain ⟨next, rest, rfl, _⟩ := exists_token_of_head? hon
    refine decides_complaint (.inl rfl) hgoes rfl fun hother => ?_
    obtain ⟨rest, rfl⟩ := hother.exists_prepend
    rfl
  . refine .position ((decides_expectName hgoes).bind fun {name _ _} hrun htaken => ?_)
    obtain ⟨next, rfl⟩ := expectName_eq_ok hrun
    obtain rfl := Tokens.prepend_right_injective htaken
    have hname : name ≠ "on" := by
      rintro rfl
      exact hon rfl
    rw [if_neg hname]
    refine .expectKeyword ?_ fun {third _} => ?_
    . exact ⟨⟨.name "on", .start⟩ :: ⟨.name "a", .start⟩ :: ([] ++ sample),
        hfragment hname .nil hset⟩
    refine .expectName ?_ fun {condition fourth _} => ?_
    . exact ⟨⟨.name "a", .start⟩ :: ([] ++ sample), hfragment hname .nil hset⟩
    exact decides_directives_set (predicts_selectionSet (Nat.le_refl _)) (Nat.le_refl _) _
      (hfragment hname)

theorem predicts_definition : Predicts definition definition Definition.Derives := by
  constructor
  . intro tokens after x hrun
    obtain ⟨taken, rfl, hx, _⟩ := definition_sound hrun
    exact ⟨taken, rfl, hx⟩
  intro tokens
  obtain ⟨sample, set, hset⟩ := exists_set
  have hgoes : ∃ rest x, Definition.Derives rest x := ⟨sample, _, .operation (.shorthand hset)⟩
  unfold definition
  refine .peek ?_
  cases hhead : tokens.head? with
  | none => exact decides_unexpected hgoes
  | some kind =>
    obtain ⟨start, after, rfl, _⟩ := exists_token_of_head? hhead
    cases kind with
    | punctuator p =>
      cases p with
      | braceL =>
        refine .position ((predicts_selectionSet (Nat.le_refl _)).bind ?_ fun _ _ => decides_pure _)
        intro taken set hset
        exact ⟨[], _, by simpa using .operation (.shorthand hset)⟩
      | bang | dollar | amp | parenL | parenR | spread | colon | equals | atSign | bracketL
          | bracketR
      | pipe | braceR => exact decides_unexpected hgoes
    | name keyword =>
      dsimp only
      split
      . next hkeyword =>
        obtain ⟨kind, rfl⟩ := exists_kind_of_keyword hkeyword
        refine (decides_operation.mono ?_).bind fun _ _ => decides_pure _
        rintro taken ⟨op, hop⟩
        exact ⟨[], _, by simpa using .operation hop⟩
      . split
        . next hkeyword =>
          subst hkeyword
          refine (decides_fragment.mono ?_).bind fun _ _ => decides_pure _
          rintro taken ⟨f, hf⟩
          exact ⟨[], _, by simpa using .fragment hf⟩
        . exact decides_unexpected hgoes
    | int | float | string => exact decides_unexpected hgoes

theorem takes_definition : definition.Takes :=
  predicts_definition.reads.takes begins_definition

theorem run_definitions (tokens : Tokens)
    : definitions.run tokens
        = (do
            let first ← definition
            if (← peek).isNone then return [first]
            else return first :: (← definitions) : Parser (List Definition)).run tokens := by
  let step (loop : Parser (List Definition)) : Parser (List Definition) := do
    let first ← definition
    if (← peek).isNone then return [first] else return first :: (← loop)
  refine run_loop definitions.go step (fun _ _ => ?_) (fun p {tokens} hrest => ?_)
    (fun {p q tokens} hless => ?_) (fun _ => rfl) tokens
  . rw [definitions.go]
  . unfold definitions.go
    refine run_bind_congr fun hdefinition => ?_
    have htakes := takes_definition hdefinition
    rw [hrest] at htakes
    cases htakes
  . refine run_bind_congr fun hdefinition => ?_
    rw [run_peek, run_peek]
    split
    . rfl
    . rw [StateT.run_bind, StateT.run_bind, hless (takes_definition hdefinition)]

theorem decides_definitions (tokens : Tokens)
    : Decides definitions definitions (fun taken => ∃ document, Document.Derives taken document)
        tokens := by
  induction hlength : tokens.rest.length using Nat.strongRecOn generalizing tokens with
  | ind length ih =>
    subst hlength
    refine Decides.congr ?_ (run_definitions tokens) run_definitions
    refine predicts_definition.bind ?_ ?_
    . intro taken x hx
      exact ⟨[], ⟨[x]⟩, List.cons_ne_nil _ _, .cons hx .nil⟩
    . rintro x taken after hx rfl
      refine .peek ?_
      split
      . exact decides_pure _
      . refine ((ih _ (begins_definition.length_lt hx after) after rfl).mono ?_).bind
          fun _ _ => decides_pure _
        rintro others ⟨⟨xs⟩, -, hxs⟩
        exact ⟨[], ⟨x :: xs⟩, List.cons_ne_nil _ _, by simpa using .cons hx hxs⟩

end Definitions

end Parser
end GraphGateway

import GraphGateway.Proofs.Document.Bounds

/-!
This module contains the proof that every production takes tokens within bounds, from wherever it
begins, and that the descent therefore ends on every text with what the parser gives for it.
-/

namespace GraphGateway

namespace Parser

def deeper {α : Type} (inner : Nat → Parser α) : Nat → Option (Parser α)
  | 0 => none
  | levels + 1 => some (inner levels)

theorem literal_eq (levels : Nat) (constant : Bool)
    : literal levels constant = literalOver constant (deeper (literal · constant) levels) := by
  cases levels with
  | zero => rfl
  | succ levels => rfl

def marked (type : TypeRef) : Parser TypeRef := do
  if ← skip .bang then
    return .nonNull type
  else
    return type

theorem typeRef_eq (levels : Nat)
    : typeRef levels = (do
        if ← isNext .bracketL then
          descend (deeper typeRef levels) fun inner => do
            advance
            let element ← inner
            let _ ← expect .bracketR
            marked (.list element)
        else
          marked (.named (← expectName))) := by
  rw [typeRef, typeRef.bare.eq_def, bind_assoc]
  refine bind_congr fun isList => ?_
  cases isList with
  | false => exact bind_assoc ..
  | true =>
    cases levels with
    | zero => rfl
    | succ levels =>
      simp only [if_true, bind_assoc, descend, deeper]
      refine bind_congr fun _ => ?_
      rw [typeRef, bind_assoc]
      refine bind_congr fun element => ?_
      rw [bind_assoc]
      refine bind_congr fun isMarked => ?_
      cases isMarked with
      | true => rfl
      | false => rfl

/-! ### Definitions at other depths

A document has its definitions where no level is open; wherever else, they would be
read with fewer levels.
-/

def variableDefinitionAt (levels : Nat) : Parser VariableDefinition := do
  let start ← expect .dollar
  let name ← expectName
  let _ ← expect .colon
  let type ← typeRef levels
  let default ← defaultValue levels
  return ⟨name, type, default, ← directives levels true, start⟩

def variableDefinitionsAt (levels : Nat) : Parser (List VariableDefinition) := do
  if ← skip .parenL then
    someUntil .parenR (variableDefinitionAt levels)
  else
    return []

def operationAt (levels : Nat) : Parser Operation := do
  let start ← position
  let keyword ← expectName
  let name ← optionalName
  let definitions ← variableDefinitionsAt levels
  let directives ← directives levels false
  let set ← selectionSet levels
  return ⟨operationKind keyword, name, definitions, directives, set, start⟩

def fragmentAt (levels : Nat) : Parser Fragment := do
  let start ← expectKeyword "fragment"
  let nameStart ← position
  let name ← expectName
  if name = "on" then throw ⟨.unexpectedToken (some (.name "on")), nameStart⟩
  let _ ← expectKeyword "on"
  let condition ← expectName
  let directives ← directives levels false
  let set ← selectionSet levels
  return ⟨name, condition, directives, set, start⟩

def definitionAt (levels : Nat) : Parser Definition := do
  match ← peek with
  | some (.punctuator .braceL) =>
    let start ← position
    return .operation ⟨.query, none, [], [], ← selectionSet levels, start⟩
  | some (.name keyword) =>
    if keyword = "query" || keyword = "mutation" || keyword = "subscription" then
      return .operation (← operationAt levels)
    else if keyword = "fragment" then
      return .fragment (← fragmentAt levels)
    else
      unexpected
  | _ => unexpected

def definitionsAt (levels : Nat) : Parser (List Definition) := do
  untilClosed (return (← peek).isNone) (definitionAt levels) (← get).rest

theorem definitions_go_eq (rounds : List Token)
    : definitions.go rounds
        = untilClosed (return (← peek).isNone) (definitionAt maxDepth) rounds := by
  induction rounds with
  | nil => rfl
  | cons token rounds ih =>
    rw [definitions.go, untilClosed]
    simp only [ih, bind_assoc, pure_bind]
    rfl

theorem definitions_eq : definitions = definitionsAt maxDepth := by
  unfold definitions definitionsAt
  simp only [definitions_go_eq]

end Parser

namespace Descent

open GraphGateway.Parser (maxDepth)

variable {tokens : Tokens} {levels fuel : Nat}

/-! ### Values -/

theorem keeps_named {item : Descent Literal} {p : Parser Literal}
    (hitem : Keeps tokens levels 1 item p)
    : Keeps tokens levels 1 (named item) (Parser.named p) := by
  rw [named, Parser.named]
  refine .bind_right keeps_expectName fun name => ?_
  refine .bind_right (keeps_expect .colon) fun _ => ?_
  exact .bind_left hitem fun x => .pure

theorem keeps_value (constant : Bool) (hfuel : tokens.rest.length + levels < fuel)
    : Keeps tokens levels 1 (value fuel constant) (Parser.literal levels constant) := by
  induction fuel generalizing levels with
  | zero => cases hfuel
  | succ fuel ih =>
    intro s hs hlevels
    rw [value, Parser.literal_eq]
    unfold Parser.literalOver
    refine .peek ?_
    cases hhead : (tokens.from s.cursor).head? with
    | none => exact follows_unexpected hs
    | some kind =>
      cases kind with
      | punctuator p =>
        cases p with
        | dollar =>
          cases constant with
          | true => exact follows_unexpected hs
          | false =>
            refine Keeps.advance ?_ hs hlevels hhead
            exact .bind_left (keeps_expectName.mono (Nat.zero_le _)) fun name => .pure
        | bracketL =>
          cases levels with
          | zero => exact follows_tooDeep hs hlevels
          | succ levels =>
            -- One level less is left for the items, which makes up for the fuel that is gone.
            have hfuel : tokens.rest.length + levels < fuel := by omega
            have hitems := keeps_manyUntil hfuel .bracketR (ih hfuel)
            exact follows_deeper hitems (fun items => .pure) hs hlevels hhead
        | braceL =>
          cases levels with
          | zero => exact follows_tooDeep hs hlevels
          | succ levels =>
            have hfuel : tokens.rest.length + levels < fuel := by omega
            have hmembers := keeps_manyUntil hfuel .braceR (keeps_named (ih hfuel))
            exact follows_deeper hmembers (fun members => .pure) hs hlevels hhead
        | _ => exact follows_unexpected hs
      | int raw =>
        cases hrange : Parser.inIntRange (Parser.intOfRaw raw) with
        | true =>
          simp only [hrange, if_true]
          exact .step (Keeps.advance .pure hs hlevels hhead) rfl rfl
        | false =>
          simp only [hrange, Bool.false_eq_true, if_false]
          exact follows_stop hs
      | float | string | name => exact Keeps.advance .pure hs hlevels hhead

theorem keeps_arguments (constant : Bool) (hfuel : tokens.rest.length + levels < fuel)
    : Keeps tokens levels 0 (arguments fuel constant) (Parser.arguments levels constant) := by
  rw [arguments, Parser.arguments]
  refine .bind_left (keeps_skip .parenL) fun opens => ?_
  cases opens with
  | true =>
    have hargument := keeps_named (keeps_value constant hfuel)
    exact (keeps_someUntil hfuel .parenR hargument).mono (Nat.zero_le _)
  | false => exact .pure

theorem keeps_directive (constant : Bool) (hfuel : tokens.rest.length + levels < fuel)
    : Keeps tokens levels 1 (directive fuel constant) (Parser.directive levels constant) := by
  rw [directive, Parser.directive]
  refine .bind_right (keeps_expect .atSign) fun start => ?_
  refine .bind_left keeps_expectName fun name => ?_
  exact .bind_left (keeps_arguments constant hfuel) fun arguments => .pure

theorem keeps_directives (constant : Bool) (hfuel : tokens.rest.length + levels < fuel)
    : Keeps tokens levels 0 (directives fuel constant) (Parser.directives levels constant) :=
  keeps_manyFrom hfuel .atSign (keeps_directive constant hfuel)

/-! ### Types -/

theorem keeps_marked (type : TypeRef)
    : Keeps tokens levels 0 (marked type) (Parser.marked type) := by
  rw [marked, Parser.marked]
  refine .bind_left (keeps_skip .bang) fun isMarked => ?_
  cases isMarked with
  | true => exact .pure
  | false => exact .pure

theorem keeps_typeRef (hfuel : tokens.rest.length + levels < fuel)
    : Keeps tokens levels 1 (typeRef fuel) (Parser.typeRef levels) := by
  induction fuel generalizing levels with
  | zero => cases hfuel
  | succ fuel ih =>
    intro s hs hlevels
    rw [typeRef, Parser.typeRef_eq]
    refine .isNext ?_
    by_cases hhead : (tokens.from s.cursor).head? = some (.punctuator .bracketL)
    . rw [decide_eq_true hhead]
      cases levels with
      | zero => exact follows_tooDeep hs hlevels
      | succ levels =>
        have hinner : Keeps tokens levels 0
            (do
              let inner ← typeRef fuel
              let _ ← expect .bracketR
              return inner)
            (do
              let inner ← Parser.typeRef levels
              let _ ← Parser.expect .bracketR
              return inner) := by
          refine .bind_right (ih (by omega)) fun inner => ?_
          exact .bind_left ((keeps_expect .bracketR).mono (Nat.zero_le _)) fun _ => .pure
        have h := follows_deeper hinner (fun inner => keeps_marked (.list inner)) hs hlevels hhead
        simp only [bind_assoc, pure_bind] at h
        exact h
    . rw [decide_eq_false hhead]
      exact Keeps.bind_left keeps_expectName (fun name => keeps_marked (.named name)) s hs hlevels

theorem keeps_defaultValue (hfuel : tokens.rest.length + levels < fuel)
    : Keeps tokens levels 0 (defaultValue fuel) (Parser.defaultValue levels) := by
  rw [defaultValue, Parser.defaultValue]
  refine .bind_left (keeps_skip .equals) fun isGiven => ?_
  cases isGiven with
  | true => exact .bind_left ((keeps_value true hfuel).mono (Nat.zero_le _)) fun x => .pure
  | false => exact .pure

theorem keeps_variableDefinition (hfuel : tokens.rest.length + levels < fuel)
    : Keeps tokens levels 1 (variableDefinition fuel) (Parser.variableDefinitionAt levels) := by
  rw [variableDefinition, Parser.variableDefinitionAt]
  refine .bind_right (keeps_expect .dollar) fun start => ?_
  refine .bind_right keeps_expectName fun name => ?_
  refine .bind_right (keeps_expect .colon) fun _ => ?_
  refine .bind_left (keeps_typeRef hfuel) fun type => ?_
  refine .bind_left (keeps_defaultValue hfuel) fun default => ?_
  exact .bind_left (keeps_directives true hfuel) fun directives => .pure

theorem keeps_variableDefinitions (hfuel : tokens.rest.length + levels < fuel)
    : Keeps tokens levels 0 (variableDefinitions fuel) (Parser.variableDefinitionsAt levels) := by
  rw [variableDefinitions, Parser.variableDefinitionsAt]
  refine .bind_left (keeps_skip .parenL) fun opens => ?_
  cases opens with
  | true =>
    exact (keeps_someUntil hfuel .parenR (keeps_variableDefinition hfuel)).mono (Nat.zero_le _)
  | false => exact .pure

/-! ### Selections -/

theorem keeps_fieldName : Keeps tokens levels 1 fieldName Parser.fieldName := by
  rw [fieldName, Parser.fieldName]
  refine .bind_left keeps_expectName fun first => ?_
  refine .bind_left (keeps_skip .colon) fun isAlias => ?_
  cases isAlias with
  | true => exact .bind_left (keeps_expectName.mono (Nat.zero_le _)) fun name => .pure
  | false => exact .pure

section Set

variable {set : Descent SelectionSet} {set' : Parser SelectionSet}

theorem keeps_optionalSet (hset : Keeps tokens levels 1 set set')
    : Keeps tokens levels 0 (optionalSet set) (Parser.optionalSet set') := by
  rw [optionalSet, Parser.optionalSet]
  refine .bind_left (keeps_isNext .braceL) fun opens => ?_
  cases opens with
  | true => exact .bind_left (hset.mono (Nat.zero_le _)) fun inner => .pure
  | false => exact .pure

theorem keeps_field (hfuel : tokens.rest.length + levels < fuel)
    (hset : Keeps tokens levels 1 set set')
    : Keeps tokens levels 1 (field fuel set) (Parser.field levels set') := by
  rw [field, Parser.field]
  refine .bind_right keeps_position fun start => ?_
  refine .bind_left keeps_fieldName fun ⟨aliasName, name⟩ => ?_
  refine .bind_left (keeps_arguments false hfuel) fun arguments => ?_
  refine .bind_left (keeps_directives false hfuel) fun directives => ?_
  exact .bind_left (keeps_optionalSet hset) fun inner => .pure

theorem keeps_directives_set (wrap : List Directive → SelectionSet → Selection)
    (hfuel : tokens.rest.length + levels < fuel) (hset : Keeps tokens levels 1 set set')
    : Keeps tokens levels 0
        (do
          let directives ← directives fuel false
          return wrap directives (← set))
        (do
          let directives ← Parser.directives levels false
          return wrap directives (← set')) := by
  refine .bind_left (keeps_directives false hfuel) fun directives => ?_
  exact .bind_left (hset.mono (Nat.zero_le _)) fun inner => .pure

theorem keeps_fragmentSelection (hfuel : tokens.rest.length + levels < fuel)
    (hset : Keeps tokens levels 1 set set')
    : Keeps tokens levels 1 (fragmentSelection fuel set)
        (Parser.fragmentSelection levels set') := by
  rw [fragmentSelection, Parser.fragmentSelection]
  refine .bind_left (keeps_expect .spread) fun start s hs hlevels => ?_
  refine .peek ?_
  cases hhead : (tokens.from s.cursor).head? with
  | none => exact keeps_directives_set (.inline none · · start) hfuel hset s hs hlevels
  | some kind =>
    cases kind with
    | punctuator | int | float | string =>
      exact keeps_directives_set (.inline none · · start) hfuel hset s hs hlevels
    | name name =>
      refine .mono (Keeps.advance ?_ hs hlevels hhead) rfl (Nat.le_succ _)
      by_cases hname : name = "on"
      . rw [if_pos hname, if_pos hname]
        refine .bind_right keeps_expectName fun condition => ?_
        exact keeps_directives_set (.inline (some condition) · · start) hfuel hset
      . rw [if_neg hname, if_neg hname]
        exact .bind_left (keeps_directives false hfuel) fun directives => .pure

theorem keeps_selection (hfuel : tokens.rest.length + levels < fuel)
    (hset : Keeps tokens levels 1 set set')
    : Keeps tokens levels 1 (selection fuel set) (Parser.selection levels set') := by
  rw [selection, Parser.selection]
  refine .bind_right (keeps_isNext .spread) fun isFragment => ?_
  cases isFragment with
  | true => exact keeps_fragmentSelection hfuel hset
  | false => exact keeps_field hfuel hset

end Set

theorem keeps_selectionSet (hfuel : tokens.rest.length + levels < fuel)
    : Keeps tokens levels 1 (selectionSet fuel) (Parser.selectionSet levels) := by
  induction fuel generalizing levels with
  | zero => cases hfuel
  | succ fuel ih =>
    intro s hs hlevels
    rw [selectionSet]
    cases levels with
    | zero => exact follows_tooDeep hs hlevels
    | succ levels =>
      rw [Parser.selectionSet]
      have hfuel : tokens.rest.length + levels < fuel := by omega
      refine .descend hs (by omega) fun s₁ hs₁ hdepth₁ hcursor₁ => ?_
      have hlevels₁ : s₁.depth + levels = maxDepth := by omega
      refine (keeps_expect .braceL s₁ hs₁ hlevels₁).bind fun start s₂ hs₂ hdepth₂ hcursor₂ => ?_
      have hitems := keeps_someUntil hfuel .braceR (keeps_selection hfuel (ih hfuel))
      refine (hitems s₂ hs₂ (hdepth₂ ▸ hlevels₁)).bind fun items s₃ hs₃ hdepth₃ hcursor₃ => ?_
      have hopen : s₃.depth = s.depth + 1 := by omega
      refine .ascend hs₃ hopen fun s₄ hs₄ hdepth₄ hcursor₄ => ?_
      exact .pure hs₄ hdepth₄ (by omega)

/-! ### Definitions -/

theorem keeps_optionalName : Keeps tokens levels 0 optionalName Parser.optionalName := by
  intro s hs hlevels
  rw [optionalName, Parser.optionalName]
  refine .peek ?_
  cases hhead : (tokens.from s.cursor).head? with
  | none => exact .pure hs rfl (Nat.le_refl _)
  | some kind =>
    cases kind with
    | name name => exact .mono (Keeps.advance .pure hs hlevels hhead) rfl (Nat.le_succ _)
    | punctuator | int | float | string => exact .pure hs rfl (Nat.le_refl _)

theorem keeps_operation (hfuel : tokens.rest.length + levels < fuel)
    : Keeps tokens levels 1 (operation fuel) (Parser.operationAt levels) := by
  rw [operation, Parser.operationAt]
  refine .bind_right keeps_position fun start => ?_
  refine .bind_right keeps_expectName fun keyword => ?_
  refine .bind_right keeps_optionalName fun name => ?_
  refine .bind_right (keeps_variableDefinitions hfuel) fun definitions => ?_
  refine .bind_right (keeps_directives false hfuel) fun directives => ?_
  exact .bind_left (keeps_selectionSet hfuel) fun set => .pure

theorem keeps_fragment (hfuel : tokens.rest.length + levels < fuel)
    : Keeps tokens levels 1 (fragment fuel) (Parser.fragmentAt levels) := by
  rw [fragment, Parser.fragmentAt]
  refine .bind_right (keeps_expectKeyword "fragment") fun start => ?_
  refine .bind_right keeps_position fun nameStart => ?_
  refine .bind_right keeps_expectName fun name => ?_
  by_cases hname : name = "on"
  . rw [if_pos hname, if_pos hname]
    exact fun s hs _ => .error rfl rfl hs
  . rw [if_neg hname, if_neg hname]
    refine .bind_right (keeps_expectKeyword "on") fun _ => ?_
    refine .bind_right keeps_expectName fun condition => ?_
    refine .bind_right (keeps_directives false hfuel) fun directives => ?_
    exact .bind_left (keeps_selectionSet hfuel) fun set => .pure

theorem keeps_definition (hfuel : tokens.rest.length + levels < fuel)
    : Keeps tokens levels 1 (definition fuel) (Parser.definitionAt levels) := by
  intro s hs hlevels
  rw [definition, Parser.definitionAt]
  refine .peek ?_
  cases (tokens.from s.cursor).head? with
  | none => exact follows_unexpected hs
  | some kind =>
    cases kind with
    | punctuator p =>
      cases p with
      | braceL =>
        refine Keeps.bind_right keeps_position (fun start => ?_) s hs hlevels
        exact .bind_left (keeps_selectionSet hfuel) fun set => .pure
      | _ => exact follows_unexpected hs
    | name keyword =>
      simp only
      split
      . exact Keeps.bind_left (keeps_operation hfuel) (fun _ => .pure) s hs hlevels
      . split
        . exact Keeps.bind_left (keeps_fragment hfuel) (fun _ => .pure) s hs hlevels
        . exact follows_unexpected hs
    | int | float | string => exact follows_unexpected hs

theorem keeps_definitions (hfuel : tokens.rest.length + levels < fuel)
    : Keeps tokens levels 1 (definitions fuel) (Parser.definitionsAt levels) :=
  keeps_untilClosed hfuel (keeps_definition hfuel) (.bind_left keeps_peek fun _ => .pure)

/-! ### Productions -/

inductive Production : Type → Type where
  | document : Production (List Definition)
  | definition : Production Definition
  | operation : Production Operation
  | variableDefinitions : Production (List VariableDefinition)
  | typeRef : Production TypeRef
  | fragment : Production Fragment
  | selectionSet : Production SelectionSet
  | selection : Production Selection
  | fragmentSelection : Production Selection
  | field : Production Selection
  | arguments (constant : Bool) : Production Arguments
  | directives (constant : Bool) : Production (List Directive)
  | value (constant : Bool) : Production Literal

namespace Production

variable {α : Type}

def descent (fuel : Nat) : Production α → Descent α
  | document => Descent.definitions fuel
  | definition => Descent.definition fuel
  | operation => Descent.operation fuel
  | variableDefinitions => Descent.variableDefinitions fuel
  | typeRef => Descent.typeRef fuel
  | fragment => Descent.fragment fuel
  | selectionSet => Descent.selectionSet fuel
  | selection => Descent.selection fuel (Descent.selectionSet fuel)
  | fragmentSelection => Descent.fragmentSelection fuel (Descent.selectionSet fuel)
  | field => Descent.field fuel (Descent.selectionSet fuel)
  | arguments constant => Descent.arguments fuel constant
  | directives constant => Descent.directives fuel constant
  | value constant => Descent.value fuel constant

def parser (levels : Nat) : Production α → Parser α
  | document => Parser.definitionsAt levels
  | definition => Parser.definitionAt levels
  | operation => Parser.operationAt levels
  | variableDefinitions => Parser.variableDefinitionsAt levels
  | typeRef => Parser.typeRef levels
  | fragment => Parser.fragmentAt levels
  | selectionSet => Parser.selectionSet levels
  | selection => Parser.selection levels (Parser.selectionSet levels)
  | fragmentSelection => Parser.fragmentSelection levels (Parser.selectionSet levels)
  | field => Parser.field levels (Parser.selectionSet levels)
  | arguments constant => Parser.arguments levels constant
  | directives constant => Parser.directives levels constant
  | value constant => Parser.literal levels constant

/-- A phrase of three productions may be empty. -/
def least : Production α → Nat
  | variableDefinitions => 0
  | arguments _ => 0
  | directives _ => 0
  | _ => 1

theorem keeps (production : Production α) (hfuel : tokens.rest.length + levels < fuel)
    : Keeps tokens levels production.least (production.descent fuel) (production.parser levels) :=
  match production with
  | document => keeps_definitions hfuel
  | definition => keeps_definition hfuel
  | operation => keeps_operation hfuel
  | variableDefinitions => keeps_variableDefinitions hfuel
  | typeRef => keeps_typeRef hfuel
  | fragment => keeps_fragment hfuel
  | selectionSet => keeps_selectionSet hfuel
  | selection => keeps_selection hfuel (keeps_selectionSet hfuel)
  | fragmentSelection => keeps_fragmentSelection hfuel (keeps_selectionSet hfuel)
  | field => keeps_field hfuel (keeps_selectionSet hfuel)
  | arguments constant => keeps_arguments constant hfuel
  | directives constant => keeps_directives constant hfuel
  | value constant => keeps_value constant hfuel

end Production

theorem ofTokens_eq (hfuel : tokens.rest.length + maxDepth < fuel)
    : ofTokens fuel tokens = some ((Document.ofTokens tokens).mapError .refused) := by
  unfold ofTokens Document.ofTokens
  rw [Parser.definitions_eq]
  cases keeps_definitions hfuel .start (State.sound_start tokens) (Nat.zero_add _) with
  | ok hm hp =>
    have hp : (Parser.definitionsAt maxDepth).run tokens = _ := hp
    rw [hm, hp]
    rfl
  | error hm hp =>
    have hp : (Parser.definitionsAt maxDepth).run tokens = _ := hp
    rw [hm, hp]
    rfl

theorem exists_ofText_eq (text : String)
    : ∃ enough, ∀ fuel ≥ enough,
        ofText fuel text = some ((Document.ofText text).mapError .refused) := by
  unfold ofText Document.ofText
  cases Tokens.ofText text with
  | error e => exact ⟨0, fun _ _ => rfl⟩
  | ok tokens => exact ⟨tokens.rest.length + maxDepth + 1, fun _ hfuel => ofTokens_eq hfuel⟩

/--
From wherever a production begins within bounds, with fuel enough for each token and each level, it
ends within bounds and with what its parser gives. Having succeeded, it has taken a token, unless
its phrases may be empty, and has as many levels open as before. In no case does it close a level
that is not open. It follows that the descent ends on every text.
-/
theorem returns_within_bounds
    : (∀ {α : Type} (production : Production α) (tokens : Tokens) (s : State) (fuel : Nat),
        s.Sound tokens → tokens.rest.length + maxDepth < fuel →
        Follows tokens s.depth (s.cursor + production.least) (production.descent fuel)
          (production.parser (maxDepth - s.depth)) s)
        ∧ ∀ text, ∃ enough, ∀ fuel ≥ enough,
          ofText fuel text = some ((Document.ofText text).mapError .refused) := by
  refine ⟨fun production tokens s fuel hs hfuel => ?_, exists_ofText_eq⟩
  have hdepth := hs.depth
  exact production.keeps (by omega) s hs (by omega)

def bracedField (isClosed : Bool) : Tokens where
  rest := [⟨.punctuator .braceL, .start⟩, ⟨.name "author", .start⟩]
    ++ if isClosed then [⟨.punctuator .braceR, .start⟩] else []
  stop := .start

/-- One level is opened and closed again, in a loop of one round. -/
theorem returns_within_bounds_bracedField
    : let after : State := ⟨3, 0, [.round 1 3, .level 1]⟩
      (∃ set, (selectionSet 200).outcome (bracedField true) .start = some (.ok set, after)
          ∧ after.Sound (bracedField true) ∧ after.depth = 0 ∧ 1 ≤ after.cursor)
        ∧ ∃ e s,
          (selectionSet 200).outcome (bracedField false) .start = some (.error (.refused e), s)
            ∧ s.Sound (bracedField false) := by
  intro after
  have hafter : ∃ set,
      (selectionSet 200).outcome (bracedField true) .start = some (.ok set, after) :=
    ⟨_, rfl⟩
  obtain ⟨set, hset⟩ := hafter
  constructor
  . cases returns_within_bounds.1 .selectionSet (bracedField true) .start 200 (State.sound_start _)
      (by decide) with
    | ok hm _ hs hdepth hleast =>
      cases hm.symm.trans hset
      exact ⟨_, hm, hs, hdepth, hleast⟩
    | error hm => cases hm.symm.trans hset
  . cases returns_within_bounds.1 .selectionSet (bracedField false) .start 200 (State.sound_start _)
      (by decide) with
    | ok _ hp => cases hp
    | error hm _ hs => exact ⟨_, _, hm, hs⟩

end Descent
end GraphGateway

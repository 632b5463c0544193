import GraphGateway.Document.Parse

/-!
This module contains the reading of documents by a cursor that goes over the tokens and a counter of
the levels that are open. Neither the rounds of a loop nor the recursion of what is nested are
bounded by the tokens or the levels here, but only by some fuel, and nothing comes of a descent that
runs out of it. What a descent does on the way is noted.
-/

namespace GraphGateway

/-- The tokens from a cursor on. The end is still there when the cursor has gone over all others. -/
def Tokens.from (tokens : Tokens) (cursor : Nat) : Tokens :=
  { tokens with rest := tokens.rest.drop cursor }

namespace Descent

/--
A level has been opened, and so many are open then; or a loop has begun its round of that number,
having found so many tokens left when it began, the end among them.
-/
inductive Note where
  | level (depth : Nat)
  | round (number left : Nat)

structure State where
  cursor : Nat
  depth : Nat
  notes : List Note

def State.start : State :=
  ⟨0, 0, []⟩

/--
Why a descent ends without a result: the text is no document, or a level is closed that is not open.
-/
inductive Stop where
  | refused (e : SyntaxError)
  | underflow

end Descent

abbrev Descent := ReaderT Tokens (ExceptT Descent.Stop (StateT Descent.State Option))

namespace Descent

variable {α : Type}

def outcome (m : Descent α) (tokens : Tokens) (s : State) : Option (Except Stop α × State) :=
  ((ReaderT.run m tokens).run).run s

def exhausted : Descent α :=
  liftM (none : Option α)

/-! ### The cursor and the counter -/

def peek : Descent (Option Token.Kind) := do
  return ((← read).from (← get).cursor).head?

def position : Descent Position := do
  return ((← read).from (← get).cursor).position

/-- The cursor does not go beyond the end. -/
def advance : Descent Unit := do
  let tokens ← read
  modify fun s => if s.cursor < tokens.rest.length then { s with cursor := s.cursor + 1 } else s

def stop (cause : SyntaxError.Cause) (place : Position) : Descent α :=
  throw (.refused ⟨cause, place⟩)

def fail (cause : SyntaxError.Cause) : Descent α := do
  stop cause (← position)

def unexpected : Descent α := do
  fail (.unexpectedToken (← peek))

def isNext (p : Punctuator) : Descent Bool := do
  return (← peek) = some (.punctuator p)

def skip (p : Punctuator) : Descent Bool := do
  if ← isNext p then
    advance
    return true
  else
    return false

def expect (p : Punctuator) : Descent Position := do
  if ← isNext p then
    let start ← position
    advance
    return start
  else
    fail (.expectedToken (.punctuator p) (← peek))

/-- Goes on before it looks whether there was a name. -/
def expectName : Descent String := do
  let found ← peek
  let start ← position
  advance
  match found with
  | some (.name name) => return name
  | found => stop (.expectedToken .name found) start

def expectKeyword (word : String) : Descent Position := do
  let found ← peek
  if found = some (.name word) then
    let start ← position
    advance
    return start
  else
    fail (.expectedToken (.keyword word) found)

def note (n : Note) : Descent Unit :=
  modify fun s => { s with notes := n :: s.notes }

def descend : Descent Unit := do
  let depth := (← get).depth
  if Parser.maxDepth ≤ depth then
    fail (.tooDeep Parser.maxDepth)
  else
    modify fun s => { s with depth := depth + 1 }
    note (.level (depth + 1))

def ascend : Descent Unit := do
  match (← get).depth with
  | 0 => throw .underflow
  | depth + 1 => modify fun s => { s with depth }

def left : Descent Nat := do
  return (← read).rest.length + 1 - (← get).cursor

/-! ### Loops -/

def untilClosed (closed : Descent Bool) (item : Descent α) (left : Nat) (fuel round : Nat)
    : Descent (List α) :=
  match fuel with
  | 0 => exhausted
  | fuel + 1 => do
    note (.round round left)
    let first ← item
    if ← closed then
      return [first]
    else
      return first :: (← untilClosed closed item left fuel (round + 1))

def untilSkipped (close : Punctuator) (item : Descent α) (left : Nat) (fuel round : Nat)
    : Descent (List α) :=
  match fuel with
  | 0 => exhausted
  | fuel + 1 => do
    if ← skip close then
      return []
    else
      note (.round round left)
      let first ← item
      return first :: (← untilSkipped close item left fuel (round + 1))

def whileNext (opening : Punctuator) (item : Descent α) (left : Nat) (fuel round : Nat)
    : Descent (List α) :=
  match fuel with
  | 0 => exhausted
  | fuel + 1 => do
    if ← isNext opening then
      note (.round round left)
      let first ← item
      return first :: (← whileNext opening item left fuel (round + 1))
    else
      return []

def someUntil (fuel : Nat) (close : Punctuator) (item : Descent α) : Descent (List α) := do
  untilClosed (skip close) item (← left) fuel 1

def manyUntil (fuel : Nat) (close : Punctuator) (item : Descent α) : Descent (List α) := do
  untilSkipped close item (← left) fuel 1

def manyFrom (fuel : Nat) (opening : Punctuator) (item : Descent α) : Descent (List α) := do
  whileNext opening item (← left) fuel 1

/-! ### Values -/

def named (value : Descent Literal) : Descent (String × Literal) := do
  let name ← expectName
  let _ ← expect .colon
  return (name, ← value)

def value (fuel : Nat) (constant : Bool) : Descent Literal :=
  match fuel with
  | 0 => exhausted
  | fuel + 1 => do
    match ← peek with
    | some (.punctuator .dollar) =>
      if constant then unexpected
      else
        advance
        return .variable (← expectName)
    | some (.punctuator .bracketL) =>
      descend
      advance
      let items ← manyUntil fuel .bracketR (value fuel constant)
      ascend
      return .list items
    | some (.punctuator .braceL) =>
      descend
      advance
      let members ← manyUntil fuel .braceR (named (value fuel constant))
      ascend
      return .object members
    | some (.int raw) =>
      let start ← position
      advance
      let n := Parser.intOfRaw raw
      if Parser.inIntRange n then return .int n else stop (.intOutOfRange raw) start
    | some (.float raw) =>
      advance
      return .float (.ofLiteral raw.toList)
    | some (.string s) =>
      advance
      return .string s
    | some (.name name) =>
      advance
      return Parser.nameLiteral name
    | _ => unexpected

def arguments (fuel : Nat) (constant : Bool) : Descent Arguments := do
  if ← skip .parenL then
    someUntil fuel .parenR (named (value fuel constant))
  else
    return []

def directive (fuel : Nat) (constant : Bool) : Descent Directive := do
  let start ← expect .atSign
  let name ← expectName
  return ⟨name, ← arguments fuel constant, start⟩

def directives (fuel : Nat) (constant : Bool) : Descent (List Directive) :=
  manyFrom fuel .atSign (directive fuel constant)

/-! ### Types -/

def marked (type : TypeRef) : Descent TypeRef := do
  if ← skip .bang then
    return .nonNull type
  else
    return type

def typeRef (fuel : Nat) : Descent TypeRef :=
  match fuel with
  | 0 => exhausted
  | fuel + 1 => do
    if ← isNext .bracketL then
      descend
      advance
      let inner ← typeRef fuel
      let _ ← expect .bracketR
      ascend
      marked (.list inner)
    else
      marked (.named (← expectName))

def defaultValue (fuel : Nat) : Descent (Option Literal) := do
  if ← skip .equals then
    return some (← value fuel true)
  else
    return none

def variableDefinition (fuel : Nat) : Descent VariableDefinition := do
  let start ← expect .dollar
  let name ← expectName
  let _ ← expect .colon
  let type ← typeRef fuel
  let default ← defaultValue fuel
  return ⟨name, type, default, ← directives fuel true, start⟩

def variableDefinitions (fuel : Nat) : Descent (List VariableDefinition) := do
  if ← skip .parenL then
    someUntil fuel .parenR (variableDefinition fuel)
  else
    return []

/-! ### Selections -/

def fieldName : Descent (Option String × String) := do
  let first ← expectName
  if ← skip .colon then
    return (some first, ← expectName)
  else
    return (none, first)

def optionalSet (set : Descent SelectionSet) : Descent (Option SelectionSet) := do
  if ← isNext .braceL then
    return some (← set)
  else
    return none

def field (fuel : Nat) (set : Descent SelectionSet) : Descent Selection := do
  let start ← position
  let (aliasName, name) ← fieldName
  let arguments ← arguments fuel false
  let directives ← directives fuel false
  return .field ⟨aliasName, name, arguments, directives, start⟩ (← optionalSet set)

def fragmentSelection (fuel : Nat) (set : Descent SelectionSet) : Descent Selection := do
  let start ← expect .spread
  match ← peek with
  | some (.name name) =>
    advance
    if name = "on" then
      let condition ← expectName
      let directives ← directives fuel false
      return .inline (some condition) directives (← set) start
    else
      return .spread name (← directives fuel false) start
  | _ =>
    let directives ← directives fuel false
    return .inline none directives (← set) start

def selection (fuel : Nat) (set : Descent SelectionSet) : Descent Selection := do
  if ← isNext .spread then
    fragmentSelection fuel set
  else
    field fuel set

def selectionSet (fuel : Nat) : Descent SelectionSet :=
  match fuel with
  | 0 => exhausted
  | fuel + 1 => do
    descend
    let start ← expect .braceL
    let items ← someUntil fuel .braceR (selection fuel (selectionSet fuel))
    ascend
    return ⟨items, start⟩

/-! ### Definitions -/

def optionalName : Descent (Option String) := do
  match ← peek with
  | some (.name name) =>
    advance
    return some name
  | _ => return none

def operation (fuel : Nat) : Descent Operation := do
  let start ← position
  let keyword ← expectName
  let name ← optionalName
  let definitions ← variableDefinitions fuel
  let directives ← directives fuel false
  let set ← selectionSet fuel
  return ⟨Parser.operationKind keyword, name, definitions, directives, set, start⟩

def fragment (fuel : Nat) : Descent Fragment := do
  let start ← expectKeyword "fragment"
  let nameStart ← position
  let name ← expectName
  if name = "on" then
    stop (.unexpectedToken (some (.name "on"))) nameStart
  else
    let _ ← expectKeyword "on"
    let condition ← expectName
    let directives ← directives fuel false
    let set ← selectionSet fuel
    return ⟨name, condition, directives, set, start⟩

def definition (fuel : Nat) : Descent Definition := do
  match ← peek with
  | some (.punctuator .braceL) =>
    let start ← position
    return .operation ⟨.query, none, [], [], ← selectionSet fuel, start⟩
  | some (.name keyword) =>
    if keyword = "query" || keyword = "mutation" || keyword = "subscription" then
      return .operation (← operation fuel)
    else if keyword = "fragment" then
      return .fragment (← fragment fuel)
    else
      unexpected
  | _ => unexpected

def definitions (fuel : Nat) : Descent (List Definition) := do
  untilClosed (return (← peek).isNone) (definition fuel) (← left) fuel 1

def ofTokens (fuel : Nat) (tokens : Tokens) : Option (Except Stop Document) := do
  let (answer, _) ← (definitions fuel).outcome tokens .start
  return answer.map Document.mk

def ofText (fuel : Nat) (text : String) : Option (Except Stop Document) :=
  match Tokens.ofText text with
  | .error e => some (.error (.refused e))
  | .ok tokens => ofTokens fuel tokens

end Descent
end GraphGateway

import GraphGateway.Document.Basic
import GraphGateway.Document.Scan
import GraphGateway.Double.Literal

/-!
This module contains the reading of documents from tokens.

Selection sets, lists and objects, and list types nest at most 128 deep along every path. The
reader of each of them is given the number of levels that are left, and what it contains is
read with one less. A loop goes over the tokens that are left when it begins, since every round
takes a token or fails.
-/

namespace GraphGateway

abbrev Parser := StateT Tokens (Except SyntaxError)

namespace Parser

variable {α : Type}

def maxDepth : Nat :=
  128

def peek : Parser (Option Token.Kind) := do
  return (← get).head?

def advance : Parser Unit :=
  modify fun tokens => { tokens with rest := tokens.rest.drop 1 }

def position : Parser Position := do
  return (← get).position

def fail (cause : SyntaxError.Cause) : Parser α := do
  throw ⟨cause, ← position⟩

def unexpected : Parser α := do
  fail (.unexpectedToken (← peek))

def isNext (p : Punctuator) : Parser Bool := do
  return (← peek) = some (.punctuator p)

def skip (p : Punctuator) : Parser Bool := do
  if ← isNext p then
    advance
    return true
  else
    return false

def expect (p : Punctuator) : Parser Position := do
  if ← isNext p then
    let start ← position
    advance
    return start
  else
    fail (.expectedToken (.punctuator p) (← peek))

def expectName : Parser String := do
  match ← peek with
  | some (.name name) =>
    advance
    return name
  | found => fail (.expectedToken .name found)

def expectKeyword (word : String) : Parser Position := do
  let found ← peek
  if found = some (.name word) then
    let start ← position
    advance
    return start
  else
    fail (.expectedToken (.keyword word) found)

def someUntil (close : Punctuator) (item : Parser α) : Parser (List α) := do
  go (← get).rest
where
  go (rounds : List Token) : Parser (List α) := do
    let first ← item
    if ← skip close then
      return [first]
    else
      match rounds with
      | [] => unexpected
      | _ :: rounds => return first :: (← go rounds)

def manyUntil (close : Punctuator) (item : Parser α) : Parser (List α) := do
  if ← skip close then
    return []
  else
    someUntil close item

def manyFrom (opening : Punctuator) (item : Parser α) : Parser (List α) := do
  go (← get).rest
where
  go : List Token → Parser (List α)
    | [] => return []
    | _ :: rounds => do
      if ← isNext opening then
        let first ← item
        return first :: (← go rounds)
      else
        return []

/-- Reads what is one level deeper, given its reader if there is a level left. -/
def descend {β : Type} (inner : Option (Parser β)) (content : Parser β → Parser α) : Parser α :=
  match inner with
  | none => fail (.tooDeep maxDepth)
  | some inner => content inner

def intOfRaw (raw : String) : Int :=
  Double.signedValue raw.toList

def inIntRange (n : Int) : Bool :=
  -Int.pow 2 63 ≤ n && n < Int.pow 2 63

def nameLiteral (name : String) : Literal :=
  if name = "true" then .boolean true
  else if name = "false" then .boolean false
  else if name = "null" then .null
  else .enum name

def named (value : Parser Literal) : Parser (String × Literal) := do
  let name ← expectName
  let _ ← expect .colon
  return (name, ← value)

/-- Reads a value, given the reader of the values it contains if there is a level left for them. -/
def literalOver (constant : Bool) (inner : Option (Parser Literal)) : Parser Literal := do
  match ← peek with
  | some (.punctuator .dollar) =>
    if constant then unexpected
    else
      advance
      return .variable (← expectName)
  | some (.punctuator .bracketL) =>
    descend inner fun value => do
      advance
      return .list (← manyUntil .bracketR value)
  | some (.punctuator .braceL) =>
    descend inner fun value => do
      advance
      return .object (← manyUntil .braceR (named value))
  | some (.int raw) =>
    let n := intOfRaw raw
    if inIntRange n then
      advance
      return .int n
    else
      fail (.intOutOfRange raw)
  | some (.float raw) =>
    advance
    return .float (.ofLiteral raw.toList)
  | some (.string s) =>
    advance
    return .string s
  | some (.name name) =>
    advance
    return nameLiteral name
  | _ => unexpected

def literal (levels : Nat) (constant : Bool) : Parser Literal :=
  match levels with
  | 0 => literalOver constant none
  | levels + 1 => literalOver constant (some (literal levels constant))

def argument (levels : Nat) (constant : Bool) : Parser (String × Literal) :=
  named (literal levels constant)

def arguments (levels : Nat) (constant : Bool) : Parser Arguments := do
  if ← skip .parenL then
    someUntil .parenR (argument levels constant)
  else
    return []

def directive (levels : Nat) (constant : Bool) : Parser Directive := do
  let start ← expect .atSign
  let name ← expectName
  return ⟨name, ← arguments levels constant, start⟩

def directives (levels : Nat) (constant : Bool) : Parser (List Directive) :=
  manyFrom .atSign (directive levels constant)

def typeRef (levels : Nat) : Parser TypeRef := do
  let type ← bare levels
  if ← skip .bang then
    return .nonNull type
  else
    return type
where
  bare (levels : Nat) : Parser TypeRef := do
    if ← isNext .bracketL then
      match levels with
      | 0 => fail (.tooDeep maxDepth)
      | levels + 1 =>
        advance
        let inner ← bare levels
        let inner := if ← skip .bang then .nonNull inner else inner
        let _ ← expect .bracketR
        return .list inner
    else
      return .named (← expectName)

def defaultValue (levels : Nat) : Parser (Option Literal) := do
  if ← skip .equals then
    return some (← literal levels true)
  else
    return none

def variableDefinition : Parser VariableDefinition := do
  let start ← expect .dollar
  let name ← expectName
  let _ ← expect .colon
  let type ← typeRef maxDepth
  let default ← defaultValue maxDepth
  return ⟨name, type, default, ← directives maxDepth true, start⟩

def variableDefinitions : Parser (List VariableDefinition) := do
  if ← skip .parenL then
    someUntil .parenR variableDefinition
  else
    return []

def fieldName : Parser (Option String × String) := do
  let first ← expectName
  if ← skip .colon then
    return (some first, ← expectName)
  else
    return (none, first)

def optionalSet (set : Parser SelectionSet) : Parser (Option SelectionSet) := do
  if ← isNext .braceL then
    return some (← set)
  else
    return none

def field (levels : Nat) (set : Parser SelectionSet) : Parser Selection := do
  let start ← position
  let (aliasName, name) ← fieldName
  let arguments ← arguments levels false
  let directives ← directives levels false
  return .field ⟨aliasName, name, arguments, directives, start⟩ (← optionalSet set)

/-- Reads a fragment spread or an inline fragment; `on` is no name of a fragment. -/
def fragmentSelection (levels : Nat) (set : Parser SelectionSet) : Parser Selection := do
  let start ← expect .spread
  match ← peek with
  | some (.name name) =>
    advance
    if name = "on" then
      let condition ← expectName
      let directives ← directives levels false
      return .inline (some condition) directives (← set) start
    else
      return .spread name (← directives levels false) start
  | _ =>
    let directives ← directives levels false
    return .inline none directives (← set) start

def selection (levels : Nat) (set : Parser SelectionSet) : Parser Selection := do
  if ← isNext .spread then
    fragmentSelection levels set
  else
    field levels set

def selectionSet (levels : Nat) : Parser SelectionSet := do
  match levels with
  | 0 => fail (.tooDeep maxDepth)
  | levels + 1 =>
    let start ← expect .braceL
    let items ← someUntil .braceR (selection levels (selectionSet levels))
    return ⟨items, start⟩

def operationKind (keyword : String) : OperationKind :=
  if keyword = "mutation" then .mutation
  else if keyword = "subscription" then .subscription
  else .query

def optionalName : Parser (Option String) := do
  match ← peek with
  | some (.name name) =>
    advance
    return some name
  | _ => return none

def operation : Parser Operation := do
  let start ← position
  let keyword ← expectName
  let name ← optionalName
  let definitions ← variableDefinitions
  let directives ← directives maxDepth false
  let set ← selectionSet maxDepth
  return ⟨operationKind keyword, name, definitions, directives, set, start⟩

def fragment : Parser Fragment := do
  let start ← expectKeyword "fragment"
  let nameStart ← position
  let name ← expectName
  if name = "on" then throw ⟨.unexpectedToken (some (.name "on")), nameStart⟩
  let _ ← expectKeyword "on"
  let condition ← expectName
  let directives ← directives maxDepth false
  let set ← selectionSet maxDepth
  return ⟨name, condition, directives, set, start⟩

/-- An operation may be a selection set alone, which makes it a query without a name. -/
def definition : Parser Definition := do
  match ← peek with
  | some (.punctuator .braceL) =>
    let start ← position
    return .operation ⟨.query, none, [], [], ← selectionSet maxDepth, start⟩
  | some (.name keyword) =>
    if keyword = "query" || keyword = "mutation" || keyword = "subscription" then
      return .operation (← operation)
    else if keyword = "fragment" then
      return .fragment (← fragment)
    else
      unexpected
  | _ => unexpected

def definitions : Parser (List Definition) := do
  go (← get).rest
where
  go (rounds : List Token) : Parser (List Definition) := do
    let first ← definition
    if (← peek).isNone then
      return [first]
    else
      match rounds with
      | [] => unexpected
      | _ :: rounds => return first :: (← go rounds)

end Parser

namespace Document

def ofTokens (tokens : Tokens) : Except SyntaxError Document := do
  let (definitions, _) ← Parser.definitions.run tokens
  return ⟨definitions⟩

def ofText (text : String) : Except SyntaxError Document := do
  ofTokens (← Tokens.ofText text)

end Document

end GraphGateway

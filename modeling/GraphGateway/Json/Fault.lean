import GraphGateway.Json.Printer
import GraphGateway.Text.Quoted

/-!
This module contains the reasons for which a JSON text is refused, either because it is not JSON or
because it does not have the expected form, and the wording of their messages.
-/

namespace GraphGateway
namespace Json

inductive Found where
  | null
  | bool (b : Bool)
  | integer (n : Int)
  | double (d : Double)
  | string (s : String)
  | sequence
  | map
deriving DecidableEq, Repr

namespace Found

def describe : Found → String
  | null => "null"
  | bool b => s!"boolean `{b}`"
  | integer n => s!"integer `{n}`"
  | double d => s!"floating point `{d.text}`"
  | string s => "string " ++ Text.quote s
  | sequence => "sequence"
  | map => "map"

def ofJson : Json → Found
  | .null => null
  | .bool b => bool b
  | .number (.integer n) => integer n
  | .number (.double d) => double d
  | .string s => string s
  | .array _ => sequence
  | .object _ => map

end Found

inductive Reason where
  | endInValue
  | endInList
  | endInObject
  | endInString
  | expectedColon
  | expectedListCommaOrEnd
  | expectedObjectCommaOrEnd
  | expectedIdent
  | expectedValue
  | invalidEscape
  | invalidNumber
  | numberOutOfRange
  | invalidCodePoint
  | controlCharacter
  | keyNotString
  | loneSurrogate
  | trailingComma
  | trailingCharacters
  | endOfHexEscape
  | recursionLimit
  | invalidType (found : Found) (expected : String)
  | invalidValue (found : Found) (expected : String)
  | invalidLength (length : Nat) (expected : String)
  | unknownField (name : String) (expected : List String)
  | unknownVariant (name : String) (expected : List String)
  | missingField (name : String)
  | duplicateField (name : String)
  | noVariant (name : String)
deriving DecidableEq, Repr

namespace Reason

def alternatives (noun : String) (names : List String) : String :=
  match names.map fun name => s!"`{name}`" with
  | [] => s!"there are no {noun}"
  | [only] => "expected " ++ only
  | [first, second] => s!"expected {first} or {second}"
  | all => "expected one of " ++ String.intercalate ", " all

def message : Reason → String
  | endInValue => "EOF while parsing a value"
  | endInList => "EOF while parsing a list"
  | endInObject => "EOF while parsing an object"
  | endInString => "EOF while parsing a string"
  | expectedColon => "expected `:`"
  | expectedListCommaOrEnd => "expected `,` or `]`"
  | expectedObjectCommaOrEnd => "expected `,` or `\x7d`"
  | expectedIdent => "expected ident"
  | expectedValue => "expected value"
  | invalidEscape => "invalid escape"
  | invalidNumber => "invalid number"
  | numberOutOfRange => "number out of range"
  | invalidCodePoint => "invalid unicode code point"
  | controlCharacter => "control character (\\u0000-\\u001F) found while parsing a string"
  | keyNotString => "key must be a string"
  | loneSurrogate => "lone leading surrogate in hex escape"
  | trailingComma => "trailing comma"
  | trailingCharacters => "trailing characters"
  | endOfHexEscape => "unexpected end of hex escape"
  | recursionLimit => "recursion limit exceeded"
  | invalidType found expected => s!"invalid type: {found.describe}, expected {expected}"
  | invalidValue found expected => s!"invalid value: {found.describe}, expected {expected}"
  | invalidLength length expected => s!"invalid length {length}, expected {expected}"
  | unknownField name expected => s!"unknown field `{name}`, " ++ alternatives "fields" expected
  | unknownVariant name expected =>
    s!"unknown variant `{name}`, " ++ alternatives "variants" expected
  | missingField name => s!"missing field `{name}`"
  | duplicateField name => s!"duplicate field `{name}`"
  | noVariant name => "data did not match any variant of untagged enum " ++ name

end Reason

structure Place where
  line : Nat
  column : Nat
deriving DecidableEq, Repr

/-- A fault is given a place by the innermost reader that knows one. -/
structure Fault where
  reason : Reason
  place : Option Place
deriving DecidableEq, Repr

def Fault.message (fault : Fault) : String :=
  match fault.place with
  | some place => s!"{fault.reason.message} at line {place.line} column {place.column}"
  | none => fault.reason.message

end Json
end GraphGateway

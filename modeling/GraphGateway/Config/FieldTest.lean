import GraphGateway.Pattern.Parse
import GraphGateway.Text.Pieces

/-!
This module contains the tests of log rules on fields: a name, or a name with a number, a truth
value or a pattern that the value of the field has to match.
-/

namespace GraphGateway

/-- What a value has to be. The text is kept because it tells tests apart. -/
inductive ValueTest where
  | literal (text : String)
  | pattern (text : String) (pattern : Pattern)
deriving DecidableEq, Repr

namespace ValueTest

def isDigits (text : List Char) : Bool :=
  !text.isEmpty && text.all Char.isDigit

def isExponent (text : List Char) : Bool :=
  match text with
  | [] => true
  | c :: rest =>
    (c = 'e' || c = 'E')
      && (isDigits rest || (rest.head?.any (· ∈ ['+', '-']) && isDigits (rest.drop 1)))

def isDecimal (text : List Char) : Bool :=
  let whole := text.takeWhile Char.isDigit
  match text.drop whole.length with
  | '.' :: rest =>
    let fraction := rest.takeWhile Char.isDigit
    !(whole.isEmpty && fraction.isEmpty) && isExponent (rest.drop fraction.length)
  | rest => !whole.isEmpty && isExponent rest

def isNumber (text : List Char) : Bool :=
  let unsigned := if text.head?.any (· ∈ ['+', '-']) then text.drop 1 else text
  String.ofList (unsigned.map Char.toLower) ∈ ["inf", "infinity", "nan"] || isDecimal unsigned

def ofText (text : List Char) : Except PatternFault ValueTest := do
  let string := String.ofList text
  if string ∈ ["true", "false"] || isNumber text then return .literal string
  else return .pattern string (← Pattern.ofText text)

/-- Whether a text passes, which is never a number or a truth value. -/
def accepts (test : ValueTest) (value : String) : Bool :=
  match test with
  | .literal _ => false
  | .pattern _ p => p.accepts value

end ValueTest

structure FieldTest where
  name : String
  value : Option ValueTest
deriving DecidableEq, Repr

namespace FieldTest

def ofText (text : List Char) : Except PatternFault FieldTest := do
  let pieces := Text.pieces '=' text
  let name := String.ofList (pieces.headD [])
  match pieces[1]? with
  | some value => return ⟨name, some (← ValueTest.ofText value)⟩
  | none => return ⟨name, none⟩

def accepts (test : FieldTest) (value : String) : Bool :=
  test.value.all (·.accepts value)

theorem accepts_of_value_eq_none (test : FieldTest) (value : String) (h : test.value = none)
    : test.accepts value = true := by
  simp [accepts, h]

end FieldTest

end GraphGateway

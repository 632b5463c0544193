import GraphGateway.Document.Literal
import GraphGateway.Json.Printer

/-!
This module contains the built-in scalars and their three coercions: of resolved values for output,
of variable values, and of literals. Output is lenient and input is strict; where input accepts a
value, both give the same result.
-/

namespace GraphGateway

inductive Scalar where
  | id
  | string
  | int
  | float
  | boolean
deriving DecidableEq, Repr

namespace Scalar

def all : List Scalar :=
  [id, string, int, float, boolean]

def name : Scalar → String
  | id => "ID"
  | string => "String"
  | int => "Int"
  | float => "Float"
  | boolean => "Boolean"

def ofName? (name : String) : Option Scalar :=
  all.find? fun scalar => scalar.name = name

theorem ofName?_name (scalar : Scalar) : ofName? scalar.name = some scalar := by
  cases scalar <;> decide

theorem name_of_ofName? {name : String} {scalar : Scalar} (h : ofName? name = some scalar)
    : scalar.name = name := by
  simpa using List.find?_some h

inductive Fault where
  | outOfRange (n : Number)
  | notInteger (v : Json)
  | notNumeric (v : Json)
  | notBoolean (v : Json)
  | value (scalar : Scalar) (v : Json)

def Fault.message : Fault → String
  | .outOfRange n => s!"Int cannot represent non 32-bit signed integer value: {n.text}"
  | .notInteger v => s!"Int cannot represent non-integer value: {v.render}"
  | .notNumeric v => s!"Float cannot represent non numeric value: {v.render}"
  | .notBoolean v => s!"Boolean cannot represent a non boolean value: {v.render}"
  | .value scalar v => s!"{scalar.name} cannot represent value: {v.render}"

structure LiteralFault where
  scalar : Scalar
  kind : String
deriving DecidableEq, Repr

def LiteralFault.message (fault : LiteralFault) : String :=
  s!"{fault.scalar.name} cannot represent a {fault.kind} literal"

def inRange (n : Int) : Bool :=
  -Int.pow 2 31 ≤ n && n < Int.pow 2 31

def ofRange (number : Number) (n : Option Int) : Except Fault Json :=
  match n with
  | some n => if inRange n then .ok (.int n) else .error (.outOfRange number)
  | none => .error (.outOfRange number)

def floatOfInt (n : Int) : Json :=
  .double (.ofInt n)

def serialize (scalar : Scalar) (v : Json) : Except Fault Json :=
  match scalar, v with
  | int, .bool b => .ok (.int (if b then 1 else 0))
  | int, .number (.integer n) => ofRange (.integer n) (some n)
  | int, .number (.double d) => ofRange (.double d) d.toInt?
  | int, v => .error (.notInteger v)
  | float, .bool b => .ok (floatOfInt (if b then 1 else 0))
  | float, .number n => .ok (.double n.toDouble)
  | float, v => .error (.notNumeric v)
  | string, .string s => .ok (.string s)
  | string, .number n => .ok (.string n.text)
  | string, .bool b => .ok (.string (if b then "true" else "false"))
  | boolean, .bool b => .ok (.bool b)
  | boolean, .number n => .ok (.bool !n.toDouble.isZero)
  | boolean, v => .error (.notBoolean v)
  | id, .string s => .ok (.string s)
  | id, .number (.integer n) => .ok (.string (Number.integer n).text)
  | scalar, v => .error (.value scalar v)

/-- Coerces the value of a variable. No value changes its type, except integers given as IDs. -/
def coerceInput (scalar : Scalar) (v : Json) : Except Fault Json :=
  match scalar, v with
  | int, .number (.integer n) => ofRange (.integer n) (some n)
  | int, .number (.double d) => .error (.outOfRange (.double d))
  | float, .number n => .ok (.double n.toDouble)
  | string, .string s => .ok (.string s)
  | boolean, .bool b => .ok (.bool b)
  | id, .string s => .ok (.string s)
  | id, .number (.integer n) => .ok (.string (Number.integer n).text)
  | scalar, v => .error (.value scalar v)

def coerceLiteral (scalar : Scalar) (l : Literal) : Except LiteralFault Json :=
  match scalar, l with
  | int, .int n => if inRange n then .ok (.int n) else .error ⟨int, l.kind⟩
  | float, .int n => .ok (floatOfInt n)
  | float, .float d => .ok (.ofDouble d)
  | string, .string s => .ok (.string s)
  | boolean, .boolean b => .ok (.bool b)
  | id, .string s => .ok (.string s)
  | id, .int n => .ok (.string (Number.integer n).text)
  | scalar, l => .error ⟨scalar, l.kind⟩

end Scalar

end GraphGateway

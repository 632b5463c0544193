import GraphGateway.Double.Basic
import GraphGateway.Ordered

/-!
This module contains JSON values. Objects keep the order of their members. A number is an integer or
a double, and the two never stand for each other: `3` is an integer and `3.0` a double.
-/

namespace GraphGateway

inductive Number where
  | integer (n : Int)
  | double (d : Double)
deriving DecidableEq, Repr, Inhabited

inductive Json where
  | null
  | bool (b : Bool)
  | number (n : Number)
  | string (s : String)
  | array (items : List Json)
  | object (members : List (String × Json))
deriving Repr, Inhabited

namespace Number

def toDouble : Number → Double
  | integer n => .ofInt n
  | double d => d

/-- Numbers of the two forms are never equal; doubles are compared as numbers. -/
def equal : Number → Number → Bool
  | integer m, integer n => m = n
  | double a, double b => a.equal b
  | _, _ => false

end Number

namespace Json

abbrev Members := Ordered Json

def int (n : Int) : Json :=
  number (.integer n)

def double (d : Double) : Json :=
  number (.double d)

/-- The JSON value of a double, for which there is none unless it is finite. -/
def ofDouble (d : Double) : Json :=
  if d.isFinite then .double d else null

def isNull : Json → Bool
  | null => true
  | _ => false

def get? : Json → String → Option Json
  | object members, name => Ordered.get? members name
  | _, _ => none

def string? : Json → Option String
  | string s => some s
  | _ => none

def items? : Json → Option (List Json)
  | array items => some items
  | _ => none

def members? : Json → Option Members
  | object members => some members
  | _ => none

theorem isNull_iff (v : Json) : v.isNull = true ↔ v = null := by
  cases v <;> simp [isNull]

mutual

/-- Equality of values, in which the order of the members of an object does not count. -/
def equal : Json → Json → Bool
  | null, null => true
  | bool a, bool b => a = b
  | number m, number n => m.equal n
  | string s, string t => s = t
  | array items, array others => equalItems items others
  | object members, object others =>
    members.length = others.length && equalMembers members others
  | _, _ => false

def equalItems : List Json → List Json → Bool
  | [], [] => true
  | v :: rest, w :: others => v.equal w && equalItems rest others
  | _, _ => false

def equalMembers : List (String × Json) → Members → Bool
  | [], _ => true
  | (name, v) :: rest, others =>
    match others.get? name with
    | some w => v.equal w && equalMembers rest others
    | none => false

end

end Json

end GraphGateway

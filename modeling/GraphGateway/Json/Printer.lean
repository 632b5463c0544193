import GraphGateway.Double.Shortest
import GraphGateway.Json.Basic

/-!
This module contains the compact text of JSON values, without any blanks.
-/

namespace GraphGateway

namespace Double

def zeros (count : Nat) : List Char :=
  List.replicate count '0'

/--
The text of a decimal with the given significant digits, the first of which counts for
`10 ^ exponent`. It is positional, with a point and at least one digit after it, for exponents from
-5 to 15, and scientific with a signed exponent for all others.
-/
def layOut (digits : List Char) (exponent : Int) : List Char :=
  if -5 ≤ exponent ∧ exponent < 0 then
    ['0', '.'] ++ zeros (-exponent - 1).toNat ++ digits
  else if 0 ≤ exponent ∧ exponent ≤ 15 then
    let places := exponent.toNat + 1
    let whole := digits.take places ++ zeros (places - digits.length)
    let fraction := digits.drop places
    whole ++ ['.'] ++ if fraction.isEmpty then ['0'] else fraction
  else
    let mantissa :=
      match digits with
      | [] => []
      | [first] => [first]
      | first :: rest => first :: '.' :: rest
    let sign := if exponent < 0 then '-' else '+'
    mantissa ++ ['e', sign] ++ Nat.toDigits 10 exponent.natAbs

/-- The text of a finite double: the fewest digits that read back as it. -/
def text (d : Double) : String :=
  let unsigned :=
    if d.isZero then ['0', '.', '0']
    else
      let decimal := d.shortest
      let digits := Nat.toDigits 10 decimal.digits
      layOut digits (digits.length + decimal.exponent - 1)
  String.ofList (if d.isNegative then '-' :: unsigned else unsigned)

end Double

namespace Number

def text : Number → String
  | integer n => toString n
  | double d => if d.isFinite then d.text else "null"

end Number

namespace Json

def hexPair (n : Nat) : List Char :=
  [Nat.digitChar (n / 16), Nat.digitChar (n % 16)]

/-- The quotation mark, the backslash and the control characters below the space are escaped. -/
def escape (c : Char) : List Char :=
  if c = '"' then ['\\', '"']
  else if c = '\\' then ['\\', '\\']
  else if c = '\x08' then ['\\', 'b']
  else if c = '\x0c' then ['\\', 'f']
  else if c = '\n' then ['\\', 'n']
  else if c = '\r' then ['\\', 'r']
  else if c = '\t' then ['\\', 't']
  else if c.toNat < 0x20 then ['\\', 'u', '0', '0'] ++ hexPair c.toNat
  else [c]

def renderString (s : String) : String :=
  String.ofList ('"' :: (s.toList.flatMap escape ++ ['"']))

mutual

def render : Json → String
  | null => "null"
  | bool true => "true"
  | bool false => "false"
  | number n => n.text
  | string s => renderString s
  | array items => "[" ++ String.intercalate "," (renderItems items) ++ "]"
  | object members => "\x7b" ++ String.intercalate "," (renderMembers members) ++ "\x7d"

def renderItems : List Json → List String
  | [] => []
  | v :: rest => v.render :: renderItems rest

def renderMembers : List (String × Json) → List String
  | [] => []
  | (name, v) :: rest => (renderString name ++ ":" ++ v.render) :: renderMembers rest

end

end Json

end GraphGateway

import GraphGateway.Double.Basic

/-!
This module contains the reading of decimal literals, which gives the double nearest to the decimal.
-/

namespace GraphGateway
namespace Double

def digitsValue (digits : List Char) : Nat :=
  digits.foldl (fun n c => n * 10 + (c.toNat - '0'.toNat)) 0

def signedValue (text : List Char) : Int :=
  match text with
  | '-' :: digits => -digitsValue digits
  | '+' :: digits => digitsValue digits
  | digits => digitsValue digits

/-- The double of a literal such as `-12.5e3`; the fraction and the exponent may be missing. -/
def ofLiteral (text : List Char) : Double :=
  let negative := text.head? = some '-'
  let unsigned := if negative then text.drop 1 else text
  let mantissa := unsigned.takeWhile (· != 'e')
  let exponent := signedValue ((unsigned.dropWhile (· != 'e')).drop 1)
  let whole := mantissa.takeWhile Char.isDigit
  let fraction := (mantissa.dropWhile Char.isDigit).drop 1
  ofDecimal negative (digitsValue (whole ++ fraction)) (exponent - fraction.length)

end Double
end GraphGateway

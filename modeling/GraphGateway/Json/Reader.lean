import GraphGateway.Json.Cursor
import GraphGateway.Text.Utf8

/-!
This module contains the reading of JSON values from bytes. Containers nest at most 127 deep.

Doubles are read from at most 64 bits of significant digits and scaled by one rounded power of ten,
so a double with many digits is not always the nearest one.
-/

namespace GraphGateway
namespace Json
namespace Read

def digitValue (c : Char) : Nat :=
  c.toNat - '0'.toNat

/--
Appends digits to a significand as long as it stays below `2 ^ 64`, and counts the digits appended.
-/
def absorb (significand : Nat) : List Char → Nat × Nat
  | [] => (significand, 0)
  | c :: rest =>
    let longer := significand * 10 + digitValue c
    if longer < UInt64.size then
      let (final, count) := absorb longer rest
      (final, count + 1)
    else
      (significand, 0)

theorem absorb_lt (significand : Nat) (digits : List Char) (h : significand < UInt64.size)
    : (absorb significand digits).1 < UInt64.size := by
  induction digits generalizing significand with
  | nil => simpa [absorb] using h
  | cons c rest ih =>
    simp only [absorb]
    split
    . apply ih
      assumption
    . exact h

/-- Multiplies by a power of ten, in steps of at most 308 places; too large a result is refused. -/
def scale? (d : Double) (exponent : Int) : Option Double :=
  if exponent.natAbs ≤ 308 then
    let power := Double.ofRatio false (Nat.pow 10 exponent.natAbs) 1
    if 0 ≤ exponent then
      let product := d.mul power
      if product.isFinite then some product else none
    else
      some (d.div power)
  else if d.isZero then some d
  else if 0 ≤ exponent then none
  else scale? (d.div (.ofRatio false (Nat.pow 10 308) 1)) (exponent + 308)
termination_by exponent.natAbs
decreasing_by omega

def double (negative : Bool) (significand : Nat) (exponent : Int) : Read Number := do
  match scale? (.ofRatio false significand 1) exponent with
  | some d => return .double (if negative then d.neg else d)
  | none => failHere .numberOutOfRange

/-- Reads exponent digits up to the limit of 32 bits; there is no value beyond it. -/
def exponentDigits : List UInt8 → Nat → Read (Option Nat)
  | [], value => return some value
  | _ :: left, value => do
    match ← peek with
    | some c =>
      if c.isDigit then
        skip
        let longer := value * 10 + digitValue c
        if longer < Nat.pow 2 31 then exponentDigits left longer else return none
      else
        return some value
    | none => return some value

def exponentPart (negative : Bool) (significand : Nat) (start : Int) : Read Number := do
  let sign ← peek
  if sign = some '+' || sign = some '-' then skip
  match ← take with
  | none => failHere .endInValue
  | some c =>
    if !c.isDigit then failHere .invalidNumber
    match ← exponentDigits (← rounds) (digitValue c) with
    | some value =>
      let exponent : Int := if sign = some '-' then -value else value
      double negative significand (start + exponent)
    | none =>
      if significand != 0 && sign != some '-' then failHere .numberOutOfRange
      let _ ← digits
      double negative 0 0

def afterInteger (negative : Bool) (significand dropped : Nat) : Read Number := do
  match ← peek with
  | some '.' =>
    skip
    let fraction ← digits
    if fraction.isEmpty then
      match ← peek with
      | some _ => failAhead .invalidNumber
      | none => failAhead .endInValue
    else
      let (significand, count) := absorb significand fraction
      let exponent : Int := dropped - count
      match ← peek with
      | some 'e' | some 'E' =>
        skip
        exponentPart negative significand exponent
      | _ => double negative significand exponent
  | some 'e' | some 'E' =>
    skip
    exponentPart negative significand dropped
  | _ =>
    if dropped != 0 then double negative significand dropped
    else if !negative then return .integer significand
    else if significand != 0 && significand ≤ Nat.pow 2 63 then return .integer (-significand)
    else double true significand 0

def number (negative : Bool) : Read Number := do
  match ← take with
  | none => failHere .endInValue
  | some c =>
    if c = '0' then
      match ← peek with
      | some next => if next.isDigit then failAhead .invalidNumber
      | none => pure ()
      afterInteger negative 0 0
    else if c.isDigit then
      let whole ← digits
      let (significand, count) := absorb (digitValue c) whole
      afterInteger negative significand (whole.length - count)
    else
      failHere .invalidNumber

def hexValue? (byte : UInt8) : Option Nat :=
  let c := Char.ofNat byte.toNat
  if c.isDigit then some (c.toNat - '0'.toNat)
  else if 'a' ≤ c && c ≤ 'f' then some (c.toNat - 'a'.toNat + 10)
  else if 'A' ≤ c && c ≤ 'F' then some (c.toNat - 'A'.toNat + 10)
  else none

def hexEscape : Read Nat := do
  let four := (← get).rest.take 4
  for _ in four do skip
  if four.length < 4 then failHere .endInString
  match four.mapM hexValue? with
  | some values => return values.foldl (fun n v => n * 16 + v) 0
  | none => failHere .invalidEscape

/-- Reads what follows `\u`: a code point, or the two surrogates of one. -/
def unicodeEscape : Read (List UInt8) := do
  let lead ← hexEscape
  if 0xDC00 ≤ lead && lead ≤ 0xDFFF then failHere .loneSurrogate
  if lead < 0xD800 || 0xDBFF < lead then return encode lead
  expect '\\'
  expect 'u'
  let trail ← hexEscape
  if trail < 0xDC00 || 0xDFFF < trail then failHere .loneSurrogate
  return encode ((lead - 0xD800) * 0x400 + (trail - 0xDC00) + 0x10000)
where
  encode (n : Nat) : List UInt8 :=
    (String.singleton (Char.ofNat n)).toUTF8.toList
  expect (c : Char) : Read Unit := do
    match ← peek with
    | none => failHere .endInString
    | some found =>
      skip
      if found != c then failHere .endOfHexEscape

def stringEscape : Read (List UInt8) := do
  match ← take with
  | none => failHere .endInString
  | some '"' => return [0x22]
  | some '\\' => return [0x5c]
  | some '/' => return [0x2f]
  | some 'b' => return [0x08]
  | some 'f' => return [0x0c]
  | some 'n' => return [0x0a]
  | some 'r' => return [0x0d]
  | some 't' => return [0x09]
  | some 'u' => unicodeEscape
  | some _ => failHere .invalidEscape

/--
Reads a string, of which the opening quotation mark is read already. If it is not text, it fails as
far before its end as the bytes reach that do not decode.
-/
def stringBody : Read String := do
  go (← rounds) []
where
  /-- The bytes read so far are kept in reverse. -/
  go : List UInt8 → List UInt8 → Read String
    | [], _ => failHere .endInString
    | _ :: left, found => do
      match (← get).rest with
      | [] => failHere .endInString
      | byte :: _ =>
        if byte = 0x22 then
          match Text.decode? found.reverse with
          | some s =>
            skip
            return s
          | none => failBefore (Text.undecodable found.reverse).length .invalidCodePoint
        else
          skip
          if byte = 0x5c then
            let bytes ← stringEscape
            go left (bytes.reverse ++ found)
          else if byte < 0x20 then
            failHere .controlCharacter
          else
            go left (byte :: found)

def hasItem (first : Bool) : Read Bool := do
  match ← peekPastSpace with
  | some ']' => return false
  | some ',' =>
    if first then return true
    skip
    match ← peekPastSpace with
    | some ']' => failAhead .trailingComma
    | some _ => return true
    | none => failAhead .endInValue
  | some _ => if first then return true else failAhead .expectedListCommaOrEnd
  | none => failAhead .endInList

def endList : Read Unit := do
  match ← peekPastSpace with
  | some ']' => skip
  | some ',' =>
    skip
    match ← peekPastSpace with
    | some ']' => failAhead .trailingComma
    | _ => failAhead .trailingCharacters
  | some _ => failAhead .trailingCharacters
  | none => failAhead .endInList

def endObject : Read Unit := do
  match ← peekPastSpace with
  | some '\x7d' => skip
  | some ',' => failAhead .trailingComma
  | some _ => failAhead .trailingCharacters
  | none => failAhead .endInObject

def hasMember (first : Bool) : Read Bool := do
  match ← peekPastSpace with
  | some '\x7d' => return false
  | some ',' =>
    if first then failAhead .keyNotString
    skip
    match ← peekPastSpace with
    | some '"' => return true
    | some '\x7d' => failAhead .trailingComma
    | some _ => failAhead .keyNotString
    | none => failAhead .endInValue
  | some '"' => if first then return true else failAhead .expectedObjectCommaOrEnd
  | some _ => failAhead (if first then .keyNotString else .expectedObjectCommaOrEnd)
  | none => failAhead .endInObject

def key : Read String := do
  skip
  stringBody

def colon : Read Unit := do
  match ← peekPastSpace with
  | some ':' => skip
  | some _ => failAhead .expectedColon
  | none => failAhead .endInObject

def items {α : Type} (item : Read α) : Read (List α) := do
  go (← rounds) true
where
  go : List UInt8 → Bool → Read (List α)
    | [], _ => return []
    | _ :: left, first => do
      if ← hasItem first then
        let value ← item
        return value :: (← go left false)
      else
        return []

def members {α : Type} (member : String → Read α) : Read (List (String × α)) := do
  go (← rounds) true
where
  go : List UInt8 → Bool → Read (List (String × α))
    | [], _ => return []
    | _ :: left, first => do
      if ← hasMember first then
        let name ← key
        let value ← member name
        return (name, value) :: (← go left false)
      else
        return []

/-- Enters a list or object whose content nests at most as deep as is left. -/
def nested {α : Type} (left : Nat) (content : Nat → Read α) : Read α :=
  match left with
  | 0 => failAhead .recursionLimit
  | left + 1 => do
    skip
    content left

/--
Reads the value that starts with the given character, in which containers nest at most as deep as is
left. The members of an object are kept as they are written, repeated names included.
-/
def valueFrom (left : Nat) (start : Option Char) : Read Json := do
  match start with
  | none => failAhead .endInValue
  | some 'n' => skip; word ['u', 'l', 'l']; return .null
  | some 't' => skip; word ['r', 'u', 'e']; return .bool true
  | some 'f' => skip; word ['a', 'l', 's', 'e']; return .bool false
  | some '-' => skip; return .number (← number true)
  | some '"' => skip; return .string (← stringBody)
  | some '[' =>
    match left with
    | 0 => failAhead .recursionLimit
    | left + 1 =>
      skip
      let values ← closedBy (items do valueFrom left (← peekPastSpace)) endList
      return .array values
  | some '\x7b' =>
    match left with
    | 0 => failAhead .recursionLimit
    | left + 1 =>
      skip
      let pairs ← closedBy (members fun _ => do colon; valueFrom left (← peekPastSpace)) endObject
      return .object (Ordered.ofPairs pairs)
  | some c => if c.isDigit then return .number (← number false) else failAhead .expectedValue

def maxNesting : Nat :=
  127

def value (left : Nat) : Read Json := do
  valueFrom left (← peekPastSpace)

def whole {α : Type} (read : Read α) : Read α := do
  let result ← read
  match ← peekPastSpace with
  | some _ => failAhead .trailingCharacters
  | none => return result

def run {α : Type} (read : Read α) (bytes : List UInt8) : Except Fault α :=
  match whole read (.ofBytes bytes) with
  | .ok result _ => .ok result
  | .error fault _ => .error fault

end Read

def ofBytes (bytes : List UInt8) : Except Fault Json :=
  Read.run (Read.value Read.maxNesting) bytes

def ofString (text : String) : Except Fault Json :=
  ofBytes text.toUTF8.toList

end Json
end GraphGateway

import GraphGateway.Json.Reader

/-!
This module contains the skipping of JSON values whose content does not matter. Containers that are
skipped may nest at any depth, and numbers and escapes are only checked for their form.
-/

namespace GraphGateway
namespace Json
namespace Read

inductive Frame where
  | list
  | object
deriving DecidableEq, Repr

namespace Frame

def closing : Frame → Char
  | list => ']'
  | object => '\x7d'

def atEnd : Frame → Reason
  | list => .endInList
  | object => .endInObject

def expectedComma : Frame → Reason
  | list => .expectedListCommaOrEnd
  | object => .expectedObjectCommaOrEnd

end Frame

def skipExponent : Read Unit := do
  let sign ← peek
  if sign = some '+' || sign = some '-' then skip
  match ← take with
  | some c => if c.isDigit then discard digits else failHere .invalidNumber
  | none => failHere .invalidNumber

def skipFraction : Read Unit := do
  let fraction ← digits
  if fraction.isEmpty then failAhead .invalidNumber
  let next ← peek
  if next = some 'e' || next = some 'E' then
    skip
    skipExponent

def skipNumber : Read Unit := do
  match ← take with
  | none => failHere .invalidNumber
  | some c =>
    if c = '0' then
      match ← peek with
      | some next => if next.isDigit then failAhead .invalidNumber
      | none => pure ()
    else if c.isDigit then discard digits
    else failHere .invalidNumber
    match ← peek with
    | some '.' =>
      skip
      skipFraction
    | some 'e' | some 'E' =>
      skip
      skipExponent
    | _ => pure ()

/--
Skips a string, of which the opening quotation mark is read already. A control character in it is
not read any more, so that the fault is at the byte before it.
-/
def skipString : Read Unit := do
  go (← rounds)
where
  go : List UInt8 → Read Unit
    | [] => failHere .endInString
    | _ :: left => do
      match (← get).rest with
      | [] => failHere .endInString
      | byte :: _ =>
        if byte < 0x20 then failHere .controlCharacter
        skip
        if byte = 0x22 then return
        else if byte = 0x5c then
          match ← take with
          | none => failHere .endInString
          | some 'u' =>
            let _ ← hexEscape
            go left
          | some c =>
            if c ∈ ['"', '\\', '/', 'b', 'f', 'n', 'r', 't'] then go left
            else failHere .invalidEscape
        else go left

/--
Skips closing brackets and the comma before the next element. What is left are the containers that
are still open, or nothing if the outermost one is closed.
-/
def skipClosing (comma : Bool) : List Frame → Read (List Frame)
  | [] => return []
  | frame :: outer => do
    match ← peekPastSpace with
    | none => failAhead frame.atEnd
    | some c =>
      if c = ',' && comma then
        skip
        return frame :: outer
      else if c = frame.closing then
        skip
        skipClosing true outer
      else if comma then failAhead frame.expectedComma
      else return frame :: outer

def skipKey (frames : List Frame) : Read Unit := do
  if frames.head? = some .object then
    match ← peekPastSpace with
    | some '"' => skip
    | some _ => failAhead .keyNotString
    | none => failAhead .endInObject
    skipString
    colon

def skipStart : Read (Option Frame) := do
  match ← peekPastSpace with
  | none => failAhead .endInValue
  | some 'n' => skip; word ['u', 'l', 'l']; return none
  | some 't' => skip; word ['r', 'u', 'e']; return none
  | some 'f' => skip; word ['a', 'l', 's', 'e']; return none
  | some '-' => skip; skipNumber; return none
  | some '"' => skip; skipString; return none
  | some '[' => skip; return some .list
  | some '\x7b' => skip; return some .object
  | some c =>
    if c.isDigit then
      skipNumber
      return none
    else
      failAhead .expectedValue

def skipValue : Read Unit := do
  go (← rounds) []
where
  go : List UInt8 → List Frame → Read Unit
    | [], _ => failAhead .endInValue
    | _ :: left, frames => do
      let opened ← skipStart
      let frames ← skipClosing opened.isNone (opened.toList ++ frames)
      if frames.isEmpty then return
      skipKey frames
      go left frames

end Read
end Json
end GraphGateway

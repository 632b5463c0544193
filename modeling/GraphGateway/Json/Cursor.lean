import GraphGateway.Json.Fault

/-!
This module contains the reading of bytes with their places. A failing reader leaves the cursor
where it stopped, so that a reader around it can still look at what follows.
-/

namespace GraphGateway
namespace Json

def Place.after (place : Place) (byte : UInt8) : Place :=
  if byte = 10 then ⟨place.line + 1, 0⟩ else ⟨place.line, place.column + 1⟩

structure Cursor where
  rest : List UInt8
  place : Place

abbrev Read := EStateM Fault Cursor

namespace Cursor

def ofBytes (bytes : List UInt8) : Cursor :=
  ⟨bytes, ⟨1, 0⟩⟩

/-- The cursor after one more byte; it stays at the end. -/
def next (cursor : Cursor) : Cursor :=
  match cursor.rest with
  | [] => cursor
  | byte :: rest => ⟨rest, cursor.place.after byte⟩

/-- The next byte as a character; only the ASCII ones have a meaning between strings. -/
def head? (cursor : Cursor) : Option Char :=
  cursor.rest.head?.map fun byte => Char.ofNat byte.toNat

theorem length_next_le (cursor : Cursor) : cursor.next.rest.length ≤ cursor.rest.length := by
  unfold next
  split <;> simp_all

end Cursor

namespace Read

def peek : Read (Option Char) := do
  return (← get).head?

def skip : Read Unit :=
  modify Cursor.next

def take : Read (Option Char) := do
  let byte ← peek
  skip
  return byte

def failHere {α : Type} (reason : Reason) : Read α := do
  throw ⟨reason, some (← get).place⟩

def failAhead {α : Type} (reason : Reason) : Read α := do
  throw ⟨reason, some (← get).next.place⟩

def failBefore {α : Type} (count : Nat) (reason : Reason) : Read α := do
  let place := (← get).next.place
  throw ⟨reason, some ⟨place.line, place.column - count⟩⟩

def fail {α : Type} (reason : Reason) : Read α :=
  throw ⟨reason, none⟩

/-- Gives a fault without a place the place where the reader stopped. -/
def placed {α : Type} (read : Read α) : Read α := fun cursor =>
  match read cursor with
  | .ok value cursor => .ok value cursor
  | .error fault cursor => .error ⟨fault.reason, some (fault.place.getD cursor.place)⟩ cursor

/--
Runs a closing reader after a reader, also if that failed. The fault of the first one counts, but
the cursor is where the second one stopped.
-/
def closedBy {α : Type} (read : Read α) (close : Read Unit) : Read α := fun cursor =>
  match read cursor with
  | .ok value cursor =>
    match close cursor with
    | .ok _ cursor => .ok value cursor
    | .error fault cursor => .error fault cursor
  | .error fault cursor =>
    match close cursor with
    | .ok _ cursor => .error fault cursor
    | .error _ cursor => .error fault cursor

def isSpace (byte : UInt8) : Bool :=
  byte = 0x20 || byte = 0x0a || byte = 0x09 || byte = 0x0d

def peekPastSpace : Read (Option Char) := do
  modify fun cursor => go cursor.place cursor.rest
  peek
where
  go (place : Place) : List UInt8 → Cursor
    | [] => ⟨[], place⟩
    | byte :: rest => if isSpace byte then go (place.after byte) rest else ⟨byte :: rest, place⟩

def digits : Read (List Char) := do
  let cursor ← get
  let found := cursor.rest.takeWhile isDigit
  for _ in found do skip
  return found.map fun byte => Char.ofNat byte.toNat
where
  isDigit (byte : UInt8) : Bool :=
    0x30 ≤ byte && byte ≤ 0x39

def word : List Char → Read Unit
  | [] => pure ()
  | expected :: rest => do
    match ← take with
    | none => failHere .endInValue
    | some c => if c = expected then word rest else failHere .expectedIdent

/--
A list with one more element than there are bytes left. Every round of a loop but the last takes a
byte, so that a loop over it always comes to its own end.
-/
def rounds : Read (List UInt8) := do
  return 0 :: (← get).rest

end Read

end Json
end GraphGateway

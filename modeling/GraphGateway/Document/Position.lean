/-!
This module contains positions in a query text. Lines and columns are counted from one, and only a
line feed begins a new line.
-/

namespace GraphGateway

structure Position where
  line : Nat
  column : Nat
deriving DecidableEq, Repr, Inhabited

namespace Position

def start : Position :=
  ⟨1, 1⟩

def next (position : Position) (c : Char) : Position :=
  if c = '\n' then ⟨position.line + 1, 1⟩ else ⟨position.line, position.column + 1⟩

def after (position : Position) (text : List Char) : Position :=
  text.foldl next position

theorem after_append (position : Position) (text rest : List Char)
    : position.after (text ++ rest) = (position.after text).after rest := by
  simp [after]

end Position

end GraphGateway

import GraphGateway.Text.Blank

/-!
This module contains the text that a block string stands for. The indentation that all lines after
the first have in common is removed, and so are blank lines at both ends.
-/

namespace GraphGateway
namespace BlockString

/-- A line ends with a line feed; a carriage return just before it belongs to the line ending. -/
def splitLines (text : List Char) : List (List Char) :=
  match text with
  | [] => []
  | '\n' :: rest => [] :: splitLines rest
  | '\r' :: '\n' :: rest => [] :: splitLines rest
  | c :: rest =>
    match splitLines rest with
    | [] => [[c]]
    | line :: lines => (c :: line) :: lines

def isIndent (c : Char) : Bool :=
  c = ' ' || c = '\t'

def indentation (line : List Char) : Nat :=
  (line.takeWhile isIndent).length

/-- The least indentation of the lines that hold anything else; the first line does not count. -/
def commonIndent (lines : List (List Char)) : Nat :=
  let indents := (lines.drop 1).filterMap fun line =>
    if indentation line < line.length then some (indentation line) else none
  indents.min?.getD 0

/-- A line that is shorter than the common indentation is kept. -/
def cut (indent : Nat) (line : List Char) : List Char :=
  if line.length < indent then line else line.drop indent

def dedent (lines : List (List Char)) : List (List Char) :=
  let indent := commonIndent lines
  match lines with
  | [] => []
  | first :: rest => first :: rest.map (cut indent)

def isBlankLine (line : List Char) : Bool :=
  line.all Text.isBlank

def trimBlankLines (lines : List (List Char)) : List (List Char) :=
  ((lines.dropWhile isBlankLine).reverse.dropWhile isBlankLine).reverse

def value (raw : List Char) : List Char :=
  ['\n'].intercalate (trimBlankLines (dedent (splitLines raw)))

theorem indentation_le_length (line : List Char) : indentation line ≤ line.length := by
  unfold indentation
  exact (List.takeWhile_sublist _).length_le

end BlockString
end GraphGateway

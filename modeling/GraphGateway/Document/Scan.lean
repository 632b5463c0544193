import GraphGateway.Document.Lexeme

/-!
This module contains the reading of a whole query text as tokens. A text is an alternation of
ignored characters and lexemes, and each token stands at the position of its lexeme.
-/

namespace GraphGateway
namespace Tokens

theorem length_lt_of_scan {text : List Char} {c : Char} {rest : List Char} {lexeme : Lexeme}
    (hrest : (Lexeme.splitIgnored text).2 = c :: rest) (hscan : Lexeme.scan c rest = .ok lexeme)
    : lexeme.rest.length < text.length := by
  have hsplit := congrArg List.length (Lexeme.splitIgnored_append text)
  have hlexeme := Lexeme.length_rest_lt hscan
  rw [← hrest] at hlexeme
  simp only [List.length_append] at hsplit
  omega

/-- The tokens of the text that begins at a position, and the position of its end. -/
def scanFrom (position : Position) (text : List Char)
    : Except SyntaxError (List Token × Position) :=
  let ignored := (Lexeme.splitIgnored text).1
  let position := position.after ignored
  match _hrest : (Lexeme.splitIgnored text).2 with
  | [] => .ok ([], position)
  | c :: rest =>
    match _hscan : Lexeme.scan c rest with
    | .error cause => .error ⟨cause, position⟩
    | .ok lexeme => do
      let (tokens, stop) ← scanFrom (position.after lexeme.spelling) lexeme.rest
      return (⟨lexeme.kind, position⟩ :: tokens, stop)
termination_by text.length
decreasing_by
  exact length_lt_of_scan ‹_› ‹_›

/-- A byte order mark at the beginning of a text is not part of it. -/
def stripMark (text : List Char) : List Char :=
  match text with
  | '\ufeff' :: rest => rest
  | _ => text

def ofText (text : String) : Except SyntaxError Tokens := do
  let (rest, stop) ← scanFrom .start (stripMark text.toList)
  return ⟨rest, stop⟩

end Tokens
end GraphGateway

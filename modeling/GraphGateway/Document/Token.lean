import GraphGateway.Document.Position
import GraphGateway.Text.Quoted

/-!
This module contains the tokens of the query language and the way in which messages name them.
-/

namespace GraphGateway

inductive Punctuator where
  | bang
  | dollar
  | amp
  | parenL
  | parenR
  | spread
  | colon
  | equals
  | atSign
  | bracketL
  | bracketR
  | braceL
  | pipe
  | braceR
deriving DecidableEq, Repr

namespace Punctuator

def symbol : Punctuator → List Char
  | bang => ['!']
  | dollar => ['$']
  | amp => ['&']
  | parenL => ['(']
  | parenR => [')']
  | spread => ['.', '.', '.']
  | colon => [':']
  | equals => ['=']
  | atSign => ['@']
  | bracketL => ['[']
  | bracketR => [']']
  | braceL => ['\x7b']
  | pipe => ['|']
  | braceR => ['\x7d']

def ofChar? (c : Char) : Option Punctuator :=
  match c with
  | '!' => some bang
  | '$' => some dollar
  | '&' => some amp
  | '(' => some parenL
  | ')' => some parenR
  | ':' => some colon
  | '=' => some equals
  | '@' => some atSign
  | '[' => some bracketL
  | ']' => some bracketR
  | '\x7b' => some braceL
  | '|' => some pipe
  | '\x7d' => some braceR
  | _ => none

theorem symbol_of_ofChar? (c : Char) (p : Punctuator) (h : ofChar? c = some p)
    : p.symbol = [c] := by
  unfold ofChar? at h
  split at h <;> simp at h <;> subst h <;> rfl

end Punctuator

namespace Token

/--
The kinds of tokens. Numbers keep their digits as they are written, up to the case of the exponent
letter, and strings hold the text they stand for.
-/
inductive Kind where
  | punctuator (p : Punctuator)
  | name (s : String)
  | int (raw : String)
  | float (raw : String)
  | string (s : String)
deriving DecidableEq, Repr

def Kind.describe : Kind → String
  | .punctuator p => "\"" ++ String.ofList p.symbol ++ "\""
  | .name s => s!"Name \"{s}\""
  | .int raw => s!"Int \"{raw}\""
  | .float raw => s!"Float \"{raw}\""
  | .string s => "String " ++ Text.quote s

end Token

structure Token where
  kind : Token.Kind
  position : Position
deriving DecidableEq, Repr

/-- The tokens of a text that are not yet read, and the position of its end. -/
structure Tokens where
  rest : List Token
  stop : Position
deriving DecidableEq, Repr

namespace Tokens

def position (tokens : Tokens) : Position :=
  match tokens.rest with
  | [] => tokens.stop
  | token :: _ => token.position

def head? (tokens : Tokens) : Option Token.Kind :=
  tokens.rest.head?.map Token.kind

end Tokens

/-- How a message names a token or, without one, the end of the text. -/
def Token.Kind.describe? (found : Option Token.Kind) : String :=
  match found with
  | some kind => kind.describe
  | none => "<EOF>"

end GraphGateway

import GraphGateway.Document.Token

/-!
This module contains the reasons for which a query text cannot be read, their codes and their
messages.
-/

namespace GraphGateway

namespace SyntaxError

inductive Expected where
  | punctuator (p : Punctuator)
  | name
  | keyword (word : String)
deriving DecidableEq, Repr

def Expected.describe : Expected → String
  | .punctuator p => (Token.Kind.punctuator p).describe
  | .name => "Name"
  | .keyword word => s!"\"{word}\""

inductive Cause where
  | unexpectedCharacter (c : Char)
  | unterminatedString
  | digitExpected (found : Option Char)
  | digitAfterZero
  | unicodeEscape
  | surrogateEscape (digits : String)
  | characterEscape (c : Char)
  | intOutOfRange (raw : String)
  | expectedToken (expected : Expected) (found : Option Token.Kind)
  | unexpectedToken (found : Option Token.Kind)
  | tooDeep (limit : Nat)
deriving DecidableEq, Repr

def Cause.message : Cause → String
  | .unexpectedCharacter c => s!"Unexpected character: {Text.quoteChar c}."
  | .unterminatedString => "Unterminated string."
  | .digitExpected (some c) => s!"Invalid number, expected digit but got: {Text.quoteChar c}."
  | .digitExpected none => "Invalid number, expected digit but got: <EOF>."
  | .digitAfterZero => "Invalid number, unexpected digit after 0."
  | .unicodeEscape => "Invalid Unicode escape sequence."
  | .surrogateEscape digits => s!"Invalid Unicode escape sequence: \\u{digits}."
  | .characterEscape c => s!"Invalid character escape sequence: \\{c}."
  | .intOutOfRange raw => s!"Int literal out of range: {raw}."
  | .expectedToken expected found =>
    s!"Expected {expected.describe}, found {Token.Kind.describe? found}."
  | .unexpectedToken found => s!"Unexpected {Token.Kind.describe? found}."
  | .tooDeep limit => s!"Document exceeds maximum nesting depth of {limit}."

inductive Code where
  | unexpectedCharacter
  | unterminatedString
  | invalidLiteral
  | unexpectedToken
  | maxDepthExceeded
deriving DecidableEq, Repr

def Code.name : Code → String
  | .unexpectedCharacter => "UNEXPECTED_CHARACTER"
  | .unterminatedString => "UNTERMINATED_STRING"
  | .invalidLiteral => "INVALID_LITERAL"
  | .unexpectedToken => "UNEXPECTED_TOKEN"
  | .maxDepthExceeded => "MAX_DEPTH_EXCEEDED"

def Cause.code : Cause → Code
  | .unexpectedCharacter _ => .unexpectedCharacter
  | .unterminatedString => .unterminatedString
  | .digitExpected _ | .digitAfterZero | .unicodeEscape | .surrogateEscape _ | .characterEscape _
  | .intOutOfRange _ => .invalidLiteral
  | .expectedToken _ _ | .unexpectedToken _ => .unexpectedToken
  | .tooDeep _ => .maxDepthExceeded

end SyntaxError

structure SyntaxError where
  cause : SyntaxError.Cause
  position : Position
deriving DecidableEq, Repr

namespace SyntaxError

def message (e : SyntaxError) : String :=
  e.cause.message

def code (e : SyntaxError) : String :=
  e.cause.code.name

def display (e : SyntaxError) : String :=
  "Syntax Error: " ++ e.message

end SyntaxError

end GraphGateway

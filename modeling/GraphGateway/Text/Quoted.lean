import GraphGateway.Text.Combining
import GraphGateway.Text.Unprintable

/-!
This module contains the quoted form in which messages show characters and strings:
visible characters stand for themselves, all others are written as escapes, and the
delimiter is escaped too.
-/

namespace GraphGateway
namespace Text

/-- A code point as it stands between the braces of an escape: lower case, without padding. -/
def hexDigits (n : Nat) : List Char :=
  Nat.toDigits 16 n

def escape (delimiter c : Char) : List Char :=
  if c = '\x00' then ['\\', '0']
  else if c = '\t' then ['\\', 't']
  else if c = '\r' then ['\\', 'r']
  else if c = '\n' then ['\\', 'n']
  else if c = '\\' || c = delimiter then ['\\', c]
  else if isCombining c || isUnprintable c then
    ['\\', 'u', '\x7b'] ++ hexDigits c.toNat ++ ['\x7d']
  else [c]

def quoteWith (delimiter : Char) (text : List Char) : String :=
  String.ofList (delimiter :: (text.flatMap (escape delimiter) ++ [delimiter]))

def quoteChar (c : Char) : String :=
  quoteWith '\x27' [c]

def quote (text : String) : String :=
  quoteWith '"' text.toList

end Text
end GraphGateway

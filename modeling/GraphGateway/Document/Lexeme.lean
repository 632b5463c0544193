import GraphGateway.Document.BlockString
import GraphGateway.Document.SyntaxError
import GraphGateway.Result

/-!
This module contains the reading of one lexeme: the token it spells, the characters that spell it
and what follows them. The spelling and what follows it are together the text that was read.
-/

namespace GraphGateway

structure Lexeme where
  kind : Token.Kind
  spelling : List Char
  rest : List Char
deriving Repr

namespace Lexeme

open SyntaxError (Cause)

def isNameStart (c : Char) : Bool :=
  c = '_' || c.isAlpha

def isNameContinue (c : Char) : Bool :=
  c = '_' || c.isAlphanum

def isIgnored (c : Char) : Bool :=
  c = ' ' || c = '\t' || c = ',' || c = '\n' || c = '\r' || c = '\ufeff'

def endsComment (c : Char) : Bool :=
  c = '\n' || c = '\r'

/--
Splits off the characters before the next lexeme: blanks, commas, byte order marks and comments,
which end before the end of their line.
-/
def splitIgnored (text : List Char) : List Char × List Char :=
  go false text
where
  go (comment : Bool) : List Char → List Char × List Char
    | [] => ([], [])
    | c :: rest =>
      if comment && !endsComment c || isIgnored c then
        let (skipped, rest) := go (comment && !endsComment c) rest
        (c :: skipped, rest)
      else if c = '#' then
        let (skipped, rest) := go true rest
        (c :: skipped, rest)
      else
        ([], c :: rest)

theorem splitIgnored_append (text : List Char)
    : (splitIgnored text).1 ++ (splitIgnored text).2 = text := by
  exact go text false
where
  go (text : List Char) (comment : Bool)
      : (splitIgnored.go comment text).1 ++ (splitIgnored.go comment text).2 = text := by
    induction text generalizing comment with
    | nil => rfl
    | cons c rest ih =>
      simp only [splitIgnored.go]
      split
      . simp [ih]
      . split
        . simp [ih]
        . rfl

def name (text : List Char) : Lexeme :=
  let spelling := text.takeWhile isNameContinue
  ⟨.name (String.ofList spelling), spelling, text.dropWhile isNameContinue⟩

def digits (text : List Char) : Except Cause (List Char × List Char) :=
  match text with
  | [] => throw (.digitExpected none)
  | c :: _ =>
    if c.isDigit then return (text.takeWhile Char.isDigit, text.dropWhile Char.isDigit)
    else throw (.digitExpected (some c))

theorem digits_append {text spelling rest : List Char} (h : digits text = .ok (spelling, rest))
    : spelling ++ rest = text := by
  unfold digits at h
  split at h
  . cases h
  . split at h
    . cases h
      exact List.takeWhile_append_dropWhile
    . cases h

theorem digits_ne_nil {text spelling rest : List Char} (h : digits text = .ok (spelling, rest))
    : spelling ≠ [] := by
  unfold digits at h
  split at h
  . cases h
  . split at h
    . cases h
      simp_all
    . cases h

def sign (text : List Char) : List Char × List Char :=
  match text with
  | '-' :: rest => (['-'], rest)
  | _ => ([], text)

theorem sign_append (text : List Char) : (sign text).1 ++ (sign text).2 = text := by
  unfold sign
  split <;> rfl

/-- A zero stands alone before the point. -/
def integerPart (text : List Char) : Except Cause (List Char × List Char) :=
  match text with
  | '0' :: rest =>
    if rest.head?.any Char.isDigit then throw .digitAfterZero else return (['0'], rest)
  | _ => digits text

theorem integerPart_append {text spelling rest : List Char}
    (h : integerPart text = .ok (spelling, rest))
    : spelling ++ rest = text := by
  unfold integerPart at h
  split at h
  . split at h <;> cases h
    rfl
  . exact digits_append h

theorem integerPart_ne_nil {text spelling rest : List Char}
    (h : integerPart text = .ok (spelling, rest))
    : spelling ≠ [] := by
  unfold integerPart at h
  split at h
  . split at h <;> cases h
    simp
  . exact digits_ne_nil h

def fractionPart (text : List Char) : Except Cause (List Char × List Char) :=
  match text with
  | '.' :: rest => do
    let (fraction, rest) ← digits rest
    return ('.' :: fraction, rest)
  | _ => return ([], text)

theorem fractionPart_append {text spelling rest : List Char}
    (h : fractionPart text = .ok (spelling, rest))
    : spelling ++ rest = text := by
  unfold fractionPart at h
  split at h
  . obtain ⟨⟨fraction, after⟩, hdigits, hpure⟩ := bind_eq_ok h
    cases hpure
    simp [digits_append hdigits]
  . cases h
    rfl

def exponentSign (text : List Char) : List Char × List Char :=
  match text with
  | '+' :: rest => (['+'], rest)
  | '-' :: rest => (['-'], rest)
  | _ => ([], text)

theorem exponentSign_append (text : List Char)
    : (exponentSign text).1 ++ (exponentSign text).2 = text := by
  unfold exponentSign
  split <;> rfl

def exponentPart (text : List Char) : Except Cause (List Char × List Char) :=
  match text with
  | [] => return ([], text)
  | c :: rest =>
    if c = 'e' || c = 'E' then do
      let (sign, rest) := exponentSign rest
      let (exponent, rest) ← digits rest
      return (c :: (sign ++ exponent), rest)
    else
      return ([], text)

theorem exponentPart_append {text spelling rest : List Char}
    (h : exponentPart text = .ok (spelling, rest))
    : spelling ++ rest = text := by
  unfold exponentPart at h
  split at h
  . cases h
    rfl
  . rename_i c after
    have hsign := exponentSign_append after
    generalize exponentSign after = split at h hsign
    obtain ⟨sign, unsigned⟩ := split
    split at h
    . obtain ⟨⟨exponent, last⟩, hdigits, hpure⟩ := bind_eq_ok h
      cases hpure
      simpa [digits_append hdigits] using hsign
    . cases h
      rfl

def continuesNumber (c : Char) : Bool :=
  c = '.' || isNameStart c

/-- The exponent letter is lower case in the payload of a number. -/
def lowerExponent (spelling : List Char) : List Char :=
  spelling.map fun c => if c = 'E' then 'e' else c

def number (text : List Char) : Except Cause Lexeme := do
  let (sign, rest) := sign text
  let (whole, rest) ← integerPart rest
  let (fraction, rest) ← fractionPart rest
  let (exponent, rest) ← exponentPart rest
  if rest.head?.any continuesNumber then throw (.digitExpected rest.head?)
  let spelling := sign ++ whole ++ fraction ++ exponent
  let raw := String.ofList (lowerExponent spelling)
  let kind := if fraction.isEmpty && exponent.isEmpty then .int raw else .float raw
  return ⟨kind, spelling, rest⟩

theorem number_append {text : List Char} {lexeme : Lexeme} (h : number text = .ok lexeme)
    : lexeme.spelling ++ lexeme.rest = text := by
  unfold number at h
  have hsign := sign_append text
  generalize sign text = split at h hsign
  obtain ⟨sign, unsigned⟩ := split
  obtain ⟨⟨whole, afterWhole⟩, hwhole, h⟩ := bind_eq_ok h
  obtain ⟨⟨fraction, afterFraction⟩, hfraction, h⟩ := bind_eq_ok h
  obtain ⟨⟨exponent, afterExponent⟩, hexponent, h⟩ := bind_eq_ok h
  have hwhole := integerPart_append hwhole
  have hfraction := fractionPart_append hfraction
  have hexponent := exponentPart_append hexponent
  dsimp only at h hsign
  split at h
  . cases h
  . cases h
    simp [hexponent, hfraction, hwhole, hsign]

theorem number_ne_nil {text : List Char} {lexeme : Lexeme} (h : number text = .ok lexeme)
    : lexeme.spelling ≠ [] := by
  unfold number at h
  obtain ⟨⟨whole, afterWhole⟩, hwhole, h⟩ := bind_eq_ok h
  obtain ⟨⟨fraction, afterFraction⟩, _, h⟩ := bind_eq_ok h
  obtain ⟨⟨exponent, afterExponent⟩, _, h⟩ := bind_eq_ok h
  have hwhole := integerPart_ne_nil hwhole
  dsimp only at h
  split at h
  . cases h
  . cases h
    simp [hwhole]

def hexValue? (c : Char) : Option Nat :=
  if c.isDigit then some (c.toNat - '0'.toNat)
  else if 'a' ≤ c && c ≤ 'f' then some (c.toNat - 'a'.toNat + 10)
  else if 'A' ≤ c && c ≤ 'F' then some (c.toNat - 'A'.toNat + 10)
  else none

/-- The character of four hexadecimal digits, which must not be a surrogate. -/
def unicodeEscape (digits : List Char) : Except Cause Char :=
  match digits.mapM hexValue? with
  | none => throw .unicodeEscape
  | some values =>
    let n := values.foldl (fun n v => n * 16 + v) 0
    if 0xD800 ≤ n && n ≤ 0xDFFF then throw (.surrogateEscape (String.ofList digits))
    else return Char.ofNat n

def simpleEscape? (c : Char) : Option Char :=
  match c with
  | '"' => some '"'
  | '\\' => some '\\'
  | '/' => some '/'
  | 'b' => some '\x08'
  | 'f' => some '\x0c'
  | 'n' => some '\n'
  | 'r' => some '\r'
  | 't' => some '\t'
  | _ => none

structure Body where
  value : List Char
  spelling : List Char
  rest : List Char

def Body.cons (value spelling : List Char) (body : Body) : Body :=
  ⟨value ++ body.value, spelling ++ body.spelling, body.rest⟩

def stringBody (text : List Char) : Except Cause Body :=
  match text with
  | [] => throw .unterminatedString
  | '"' :: rest => return ⟨[], ['"'], rest⟩
  | '\\' :: 'u' :: a :: b :: c :: d :: rest => do
    let value ← unicodeEscape [a, b, c, d]
    let body ← stringBody rest
    return body.cons [value] ['\\', 'u', a, b, c, d]
  | ['\\'] => throw .unterminatedString
  | '\\' :: c :: rest =>
    match simpleEscape? c with
    | some value => do
      let body ← stringBody rest
      return body.cons [value] ['\\', c]
    | none => throw (if c = 'u' then .unicodeEscape else .characterEscape c)
  | c :: rest =>
    if c = '\n' || c = '\r' then throw .unterminatedString
    else do
      let body ← stringBody rest
      return body.cons [c] [c]

theorem stringBody_append {text : List Char} {body : Body} (h : stringBody text = .ok body)
    : body.spelling ++ body.rest = text := by
  fun_induction stringBody text generalizing body with
  | case1 => cases h
  | case2 => cases h; rfl
  | case3 a b c d rest ih =>
    obtain ⟨value, _, h⟩ := bind_eq_ok h
    obtain ⟨inner, hinner, h⟩ := bind_eq_ok h
    cases h
    simp [Body.cons, ih hinner]
  | case4 => cases h
  | case5 c rest _ value _ ih =>
    obtain ⟨inner, hinner, h⟩ := bind_eq_ok h
    cases h
    simp [Body.cons, ih hinner]
  | case6 => cases h
  | case7 => cases h
  | case8 c rest _ _ _ _ _ ih =>
    obtain ⟨inner, hinner, h⟩ := bind_eq_ok h
    cases h
    simp [Body.cons, ih hinner]

/-- Reads a block string after its opening quotation marks; the value is not yet dedented. -/
def blockBody (text : List Char) : Except Cause Body :=
  match text with
  | [] => throw .unterminatedString
  | '"' :: '"' :: '"' :: rest => return ⟨[], ['"', '"', '"'], rest⟩
  | '\\' :: '"' :: '"' :: '"' :: rest => do
    let body ← blockBody rest
    return body.cons ['"', '"', '"'] ['\\', '"', '"', '"']
  | c :: rest => do
    let body ← blockBody rest
    return body.cons [c] [c]

theorem blockBody_append {text : List Char} {body : Body} (h : blockBody text = .ok body)
    : body.spelling ++ body.rest = text := by
  fun_induction blockBody text generalizing body with
  | case1 => cases h
  | case2 => cases h; rfl
  | case3 rest ih =>
    obtain ⟨inner, hinner, h⟩ := bind_eq_ok h
    cases h
    simp [Body.cons, ih hinner]
  | case4 c rest _ _ ih =>
    obtain ⟨inner, hinner, h⟩ := bind_eq_ok h
    cases h
    simp [Body.cons, ih hinner]

def string (text : List Char) : Except Cause Lexeme :=
  match text with
  | '"' :: '"' :: '"' :: rest => do
    let body ← blockBody rest
    let value := String.ofList (BlockString.value body.value)
    return ⟨.string value, ['"', '"', '"'] ++ body.spelling, body.rest⟩
  | rest => do
    let body ← stringBody (rest.drop 1)
    return ⟨.string (String.ofList body.value), rest.take 1 ++ body.spelling, body.rest⟩

theorem string_append {text : List Char} {lexeme : Lexeme} (h : string text = .ok lexeme)
    : lexeme.spelling ++ lexeme.rest = text := by
  unfold string at h
  split at h
  . obtain ⟨body, hbody, h⟩ := bind_eq_ok h
    cases h
    simp [blockBody_append hbody]
  . obtain ⟨body, hbody, h⟩ := bind_eq_ok h
    cases h
    simp only [List.append_assoc, stringBody_append hbody, List.take_append_drop]

theorem string_ne_nil {c : Char} {text : List Char} {lexeme : Lexeme}
    (h : string (c :: text) = .ok lexeme)
    : lexeme.spelling ≠ [] := by
  unfold string at h
  split at h
  . obtain ⟨body, _, h⟩ := bind_eq_ok h
    cases h
    simp
  . obtain ⟨body, _, h⟩ := bind_eq_ok h
    cases h
    simp

def spread (text : List Char) : Except Cause Lexeme :=
  match text with
  | '.' :: '.' :: '.' :: rest => return ⟨.punctuator .spread, ['.', '.', '.'], rest⟩
  | _ => throw (.unexpectedCharacter '.')

def scan (c : Char) (rest : List Char) : Except Cause Lexeme :=
  match Punctuator.ofChar? c with
  | some p => return ⟨.punctuator p, [c], rest⟩
  | none =>
    if c = '.' then spread (c :: rest)
    else if c = '"' then string (c :: rest)
    else if c = '-' || c.isDigit then number (c :: rest)
    else if isNameStart c then return name (c :: rest)
    else throw (.unexpectedCharacter c)

theorem scan_append {c : Char} {rest : List Char} {lexeme : Lexeme}
    (h : scan c rest = .ok lexeme)
    : lexeme.spelling ++ lexeme.rest = c :: rest := by
  unfold scan at h
  split at h
  . cases h
    rfl
  . split at h
    . unfold spread at h
      split at h <;> cases h
      simp_all
    . split at h
      . exact string_append h
      . split at h
        . exact number_append h
        . split at h <;> cases h
          exact List.takeWhile_append_dropWhile

theorem scan_ne_nil {c : Char} {rest : List Char} {lexeme : Lexeme} (h : scan c rest = .ok lexeme)
    : lexeme.spelling ≠ [] := by
  unfold scan at h
  split at h
  . cases h
    simp
  . split at h
    . unfold spread at h
      split at h <;> cases h
      simp
    . split at h
      . exact string_ne_nil h
      . split at h
        . exact number_ne_nil h
        . split at h
          . rename_i hstart
            cases h
            have : isNameContinue c = true := by
              simp [isNameStart, isNameContinue, Char.isAlphanum] at hstart ⊢
              rcases hstart with hstart | hstart <;> simp [hstart]
            simp [name, this]
          . cases h

theorem length_rest_lt {c : Char} {rest : List Char} {lexeme : Lexeme}
    (h : scan c rest = .ok lexeme)
    : lexeme.rest.length < (c :: rest).length := by
  have happend := congrArg List.length (scan_append h)
  have hpos := List.length_pos_iff.mpr (scan_ne_nil h)
  simp only [List.length_append] at happend
  omega

end Lexeme

end GraphGateway

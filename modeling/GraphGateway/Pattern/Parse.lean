import GraphGateway.Pattern.Basic
import GraphGateway.Text.Alphanumeric
import GraphGateway.Text.Blank

/-!
This module contains the reading of patterns. Counts in braces and looking ahead or behind are
refused.
-/

namespace GraphGateway

inductive PatternFault where
  | malformed
  | scripts
deriving DecidableEq, Repr

def PatternFault.message : PatternFault → String
  | malformed => "error building NFA"
  | scripts =>
    "unsupported regex feature for DFAs: cannot build DFAs for regexes with Unicode word "
      ++ "boundaries; switch to ASCII word boundaries, or heuristically enable Unicode word "
      ++ "boundaries or use a different regex engine"

namespace Pattern

structure Flags where
  anyCase : Bool
  multiLine : Bool
  dotAll : Bool
  swapGreed : Bool
  ascii : Bool
  verbose : Bool
  crlf : Bool

namespace Flags

def initial : Flags :=
  ⟨false, false, false, false, false, false, false⟩

def set? (flags : Flags) (letter : Char) (value : Bool) : Option Flags :=
  match letter with
  | 'i' => some { flags with anyCase := value }
  | 'm' => some { flags with multiLine := value }
  | 's' => some { flags with dotAll := value }
  | 'U' => some { flags with swapGreed := value }
  | 'u' => some { flags with ascii := !value }
  | 'x' => some { flags with verbose := value }
  | 'R' => some { flags with crlf := value }
  | _ => none

def passComments (inComment : Bool) : List Char → List Char
  | [] => []
  | c :: rest =>
    if inComment then passComments (c != '\n') rest
    else if c = '#' then passComments true rest
    else if Text.isBlank c then passComments false rest
    else c :: rest

def pass (flags : Flags) (text : List Char) : List Char :=
  if flags.verbose then passComments false text else text

def dot (flags : Flags) : CharSet :=
  if flags.dotAll then .all
  else if flags.crlf then .complement (.ofRanges [(0xa, 0xa), (0xd, 0xd)])
  else .complement (.ofRanges [(0xa, 0xa)])

/-- A set stands for characters and not for bytes, so that without scripts it has to be in ASCII. -/
def check (flags : Flags) (set : CharSet) : Except PatternFault CharSet :=
  if flags.ascii && !set.isAscii then .error .malformed else .ok set

end Flags

inductive Primitive where
  | char (c : Char)
  | set (set : CharSet)
  | edge (edge : Edge)

def hexValue? (c : Char) : Option Nat :=
  if c.isDigit then some (c.toNat - '0'.toNat)
  else if 'a' ≤ c && c ≤ 'f' then some (c.toNat - 'a'.toNat + 10)
  else if 'A' ≤ c && c ≤ 'F' then some (c.toNat - 'A'.toNat + 10)
  else none

def hexChar (count : Nat) (text : List Char)
    : Except PatternFault (Primitive × List Char) :=
  match (text.take count).mapM hexValue? with
  | none => .error .malformed
  | some values =>
    let n := values.foldl (fun n v => n * 16 + v) 0
    if values.length < count || !n.isValidChar then .error .malformed
    else .ok (.char (Char.ofNat n), text.drop count)

def category (flags : Flags) (negated : Bool) (text : List Char)
    : Except PatternFault (Primitive × List Char) :=
  match text with
  | [] => .error .malformed
  | c :: rest =>
    match CharSet.categories.find? fun entry => entry.1 = c.toLower with
    | some (_, ranges) =>
      let set := CharSet.ofRanges ranges
      if flags.ascii then .error .malformed
      else .ok (.set (if negated then .complement set else set), rest)
    | none => .error .malformed

def escape (flags : Flags) (text : List Char)
    : Except PatternFault (Primitive × List Char) :=
  match text with
  | [] => .error .malformed
  | c :: rest =>
    match c with
    | 'x' => hexChar 2 rest
    | 'u' => hexChar 4 rest
    | 'U' => hexChar 8 rest
    | 'p' => category flags false rest
    | 'P' => category flags true rest
    | 'd' => .ok (.set .digits, rest)
    | 's' => .ok (.set .spaces, rest)
    | 'w' => .ok (.set .wordChars, rest)
    | 'D' => .ok (.set (.complement .digits), rest)
    | 'S' => .ok (.set (.complement .spaces), rest)
    | 'W' => .ok (.set (.complement .wordChars), rest)
    | 'a' => .ok (.char '\x07', rest)
    | 'f' => .ok (.char '\x0c', rest)
    | 't' => .ok (.char '\t', rest)
    | 'n' => .ok (.char '\n', rest)
    | 'r' => .ok (.char '\r', rest)
    | 'v' => .ok (.char '\x0b', rest)
    | 'A' => .ok (.edge .textStart, rest)
    | 'z' => .ok (.edge .textEnd, rest)
    | 'b' => .ok (.edge (.word flags.ascii), rest)
    | 'B' => .ok (.edge (.noWord flags.ascii), rest)
    | '<' => .ok (.edge (.wordStart flags.ascii), rest)
    | '>' => .ok (.edge (.wordEnd flags.ascii), rest)
    | c => if c.toNat < 0x80 && !c.isAlphanum then .ok (.char c, rest) else .error .malformed

/-! # Classes in brackets -/

inductive ClassOperator where
  | inter
  | minus
  | either

def ClassOperator.apply : ClassOperator → CharSet → CharSet → CharSet
  | inter, a, b => .inter a b
  | minus, a, b => .minus a b
  | either, a, b => .either a b

/-- What is read of a class: its last operand, and the operator with all that is before it. -/
structure ClassBody where
  operand : CharSet
  before : Option (ClassOperator × CharSet)

namespace ClassBody

def empty : ClassBody :=
  ⟨.empty, none⟩

def add (body : ClassBody) (set : CharSet) : ClassBody :=
  { body with operand := .union body.operand set }

def close (body : ClassBody) : CharSet :=
  match body.before with
  | some (operator, set) => operator.apply set body.operand
  | none => body.operand

/-- Starts another operand. Operators are all on one level and go from left to right. -/
def operate (body : ClassBody) (operator : ClassOperator) : ClassBody :=
  ⟨.empty, some (operator, body.close)⟩

end ClassBody

/-- Reads a class by name, such as `[:alpha:]`, of which the first bracket is read already. -/
def namedClass? (text : List Char) : Option (CharSet × List Char) :=
  match text with
  | ':' :: rest =>
    let negated := rest.head? = some '^'
    let rest := if negated then rest.drop 1 else rest
    let name := rest.takeWhile (· ≠ ':')
    match rest.drop name.length with
    | ':' :: ']' :: rest =>
      (Prod.snd <$> CharSet.named.find? fun entry => entry.1 = String.ofList name).map fun ranges =>
        let set := CharSet.ofRanges ranges
        (if negated then .complement set else set, rest)
    | _ => none
  | _ => none

def classItem (flags : Flags) (text : List Char)
    : Except PatternFault (Primitive × List Char) :=
  match text with
  | [] => .error .malformed
  | '\\' :: rest => escape flags rest
  | c :: rest => .ok (.char c, rest)

def classRange (flags : Flags) (text : List Char)
    : Except PatternFault (CharSet × List Char) := do
  let (item, text) ← classItem flags text
  match item, flags.pass text with
  | .edge _, _ => .error .malformed
  | .set set, '-' :: rest => do
    match flags.pass rest with
    | ']' :: _ | '-' :: _ => return (set, '-' :: rest)
    | _ => .error .malformed
  | .set set, rest => return (set, rest)
  | .char low, '-' :: rest => do
    match flags.pass rest with
    | ']' :: _ | '-' :: _ => return (.single low flags.anyCase, '-' :: rest)
    | rest =>
      match ← classItem flags rest with
      | (.char high, rest) =>
        if low ≤ high then return (.range low.toNat high.toNat flags.anyCase, rest)
        else .error .malformed
      | _ => .error .malformed
  | .char c, rest => return (.single c flags.anyCase, rest)

/--
Reads the start of a class: its negation, and hyphens or else a bracket that stand for themselves.
-/
def classStart (flags : Flags) (text : List Char) : Bool × ClassBody × List Char :=
  let text := flags.pass text
  let negated := text.head? = some '^'
  let text := if negated then flags.pass (text.drop 1) else text
  match text with
  | '-' :: _ =>
    (negated, ClassBody.empty.add (.single '-' flags.anyCase), text.dropWhile (· = '-'))
  | ']' :: rest => (negated, ClassBody.empty.add (.single ']' flags.anyCase), rest)
  | text => (negated, .empty, text)

def classBody (flags : Flags)
    : Nat → Bool → ClassBody → List Char → Except PatternFault (CharSet × List Char)
  | 0, _, _, _ => .error .malformed
  | rounds + 1, negated, body, text =>
    match flags.pass text with
    | [] => .error .malformed
    | ']' :: rest => .ok (if negated then .complement body.close else body.close, rest)
    | '&' :: '&' :: rest => classBody flags rounds negated (body.operate .inter) rest
    | '-' :: '-' :: rest => classBody flags rounds negated (body.operate .minus) rest
    | '~' :: '~' :: rest => classBody flags rounds negated (body.operate .either) rest
    | '[' :: rest =>
      match namedClass? rest with
      | some (set, rest) => classBody flags rounds negated (body.add set) rest
      | none => do
        let (negatedInner, inner, rest) := classStart flags rest
        let (set, rest) ← classBody flags rounds negatedInner inner rest
        classBody flags rounds negated (body.add set) rest
    | text => do
      let (set, rest) ← classRange flags text
      classBody flags rounds negated (body.add set) rest

def bracketed (flags : Flags) (text : List Char)
    : Except PatternFault (Pattern × List Char) := do
  let (negated, body, rest) := classStart flags text
  let (set, rest) ← classBody flags (rest.length + 1) negated body rest
  return (.one (← flags.check set), rest)

/-! # Groups -/

def groupName (names : List String) (text : List Char)
    : Except PatternFault (List String × List Char) :=
  let name := text.takeWhile (· ≠ '>')
  let isStart := (name.take 1).all fun c => c = '_' || (Text.isAlphanumeric c && !c.isDigit)
  let isName := name.all fun c => c ∈ ['_', '.', '[', ']'] || Text.isAlphanumeric c
  match text.drop name.length with
  | '>' :: rest =>
    if name.isEmpty || !isStart || !isName || String.ofList name ∈ names then .error .malformed
    else .ok (String.ofList name :: names, rest)
  | _ => .error .malformed

/-- Flags that are set, for a group that follows or for the rest of the one around them. -/
structure Setting where
  flags : Flags
  opensGroup : Bool

/-- Reads flags, of which none may be given twice. Those after a hyphen are taken back. -/
def setting (flags : Flags) (negated : Bool) (last : Option Char) (seen : List Char)
    : List Char → Except PatternFault (Setting × List Char)
  | [] => .error .malformed
  | c :: rest =>
    if c = ':' || c = ')' then
      if last = some '-' || (c = ')' && last.isNone) then .error .malformed
      else .ok (⟨flags, c = ':'⟩, rest)
    else if c = '-' then
      if negated then .error .malformed else setting flags true (some c) seen rest
    else if c ∈ seen then .error .malformed
    else
      match flags.set? c !negated with
      | some flags => setting flags negated (some c) (c :: seen) rest
      | none => .error .malformed

/--
What is read of a group: its earlier alternatives, and the parts of the last one, both in reverse.
-/
structure Group where
  outer : Flags
  alternatives : List Pattern
  parts : List (Option Pattern)

namespace Group

def empty (outer : Flags) : Group :=
  ⟨outer, [], []⟩

def add (group : Group) (part : Option Pattern) : Group :=
  { group with parts := part :: group.parts }

def alternative (group : Group) : Pattern :=
  concat (group.parts.reverse.filterMap id)

def next (group : Group) : Group :=
  { group with alternatives := group.alternative :: group.alternatives, parts := [] }

def close (group : Group) : Pattern :=
  group.alternatives.foldl (fun second first => alt first second) group.alternative

end Group

/-- The groups that are open, with how the innermost one is read, and all names of groups. -/
structure Nest where
  flags : Flags
  names : List String
  inner : Group
  around : List Group

namespace Nest

def initial : Nest :=
  ⟨.initial, [], .empty .initial, []⟩

def add (nest : Nest) (part : Option Pattern) : Nest :=
  { nest with inner := nest.inner.add part }

def opened (nest : Nest) (flags : Flags) : Nest :=
  { nest with flags, inner := .empty nest.flags, around := nest.inner :: nest.around }

def openGroup (nest : Nest) (text : List Char)
    : Except PatternFault (Nest × List Char) :=
  match nest.flags.pass text with
  | '?' :: 'P' :: '<' :: rest | '?' :: '<' :: rest => do
    let (names, rest) ← groupName nest.names rest
    return ({ nest.opened nest.flags with names }, rest)
  | '?' :: rest => do
    let (setting, rest) ← setting nest.flags false none [] rest
    if setting.opensGroup then return (nest.opened setting.flags, rest)
    else return ({ nest.add none with flags := setting.flags }, rest)
  | rest => .ok (nest.opened nest.flags, rest)

def closeGroup (nest : Nest) : Except PatternFault Nest :=
  match nest.around with
  | [] => .error .malformed
  | group :: around =>
    .ok ⟨nest.inner.outer, nest.names, group.add (some nest.inner.close), around⟩

/-- Repeats the last part; a question mark after the operator turns its greed. -/
def repeatLast (nest : Nest) (operator : Char) (text : List Char)
    : Except PatternFault (Nest × List Char) :=
  let lazy := text.head? = some '?'
  let greedy := lazy == nest.flags.swapGreed
  match nest.inner.parts with
  | some part :: parts =>
    let pattern := match operator with
      | '?' => optional part greedy
      | '*' => optional (repeated part greedy) greedy
      | _ => repeated part greedy
    .ok ({ nest with inner := { nest.inner with parts := some pattern :: parts } },
      if lazy then text.drop 1 else text)
  | _ => .error .malformed

def primitive (nest : Nest) (primitive : Primitive) : Except PatternFault Nest :=
  match primitive with
  | .char c => .ok (nest.add (some (one (.single c nest.flags.anyCase))))
  | .set set => do return nest.add (some (one (← nest.flags.check set)))
  | .edge e => .ok (nest.add (some (edge e)))

def advance (nest : Nest) (c : Char) (rest : List Char)
    : Except PatternFault (Nest × List Char) :=
  let flags := nest.flags
  match c with
  | '(' => nest.openGroup rest
  | ')' => do return (← nest.closeGroup, rest)
  | '|' => .ok ({ nest with inner := nest.inner.next }, rest)
  | '[' => do
    let (pattern, rest) ← bracketed flags rest
    return (nest.add (some pattern), rest)
  | '?' | '*' | '+' => nest.repeatLast c rest
  | '\x7b' => .error .malformed
  | '\\' => do
    let (escaped, rest) ← escape flags rest
    return (← nest.primitive escaped, rest)
  | '.' => do return (← nest.primitive (.set flags.dot), rest)
  | '^' => do
    return (← nest.primitive (.edge (if flags.multiLine then .lineStart else .textStart)), rest)
  | '$' => do
    return (← nest.primitive (.edge (if flags.multiLine then .lineEnd else .textEnd)), rest)
  | c => do return (← nest.primitive (.char c), rest)

def read : Nat → Nest → List Char → Except PatternFault Pattern
  | 0, _, _ => .error .malformed
  | rounds + 1, nest, text =>
    match nest.flags.pass text with
    | [] => if nest.around.isEmpty then .ok nest.inner.close else .error .malformed
    | c :: rest => do
      let (nest, rest) ← nest.advance c rest
      read rounds nest rest

end Nest

/-- Reads a pattern; one that asks for the words of all scripts is refused. -/
def ofText (text : List Char) : Except PatternFault Pattern := do
  let pattern ← Nest.read (text.length + 1) .initial text
  if pattern.needsScripts then .error .scripts else .ok pattern

theorem ofText_nil : ofText [] = .ok empty := by
  rfl

end Pattern

end GraphGateway

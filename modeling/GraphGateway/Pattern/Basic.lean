import GraphGateway.Pattern.CharSet

/-!
This module contains patterns and their matching. A pattern may match from any place of a text. Its
first match counts, and of those from one place the preferred one, and that has to reach the end of
the text: `b` matches `ab`, but `a` does not, nor does `a|ab`.

Matching goes through the text once, with the patterns that may follow in their order of preference.
-/

namespace GraphGateway

/-- What has to hold between two characters; words are those of ASCII, or else of all scripts. -/
inductive Edge where
  | textStart
  | textEnd
  | lineStart
  | lineEnd
  | word (ascii : Bool)
  | noWord (ascii : Bool)
  | wordStart (ascii : Bool)
  | wordEnd (ascii : Bool)
deriving DecidableEq, Repr

namespace Edge

def isWord (c : Option Char) : Bool :=
  c.any CharSet.wordChars.contains

def holds (edge : Edge) (before after : Option Char) : Bool :=
  match edge with
  | textStart => before.isNone
  | textEnd => after.isNone
  | lineStart => before.all (· = '\n')
  | lineEnd => after.all (· = '\n')
  | word _ => isWord before != isWord after
  | noWord _ => isWord before == isWord after
  | wordStart _ => !isWord before && isWord after
  | wordEnd _ => isWord before && !isWord after

def needsScripts : Edge → Bool
  | word ascii | noWord ascii | wordStart ascii | wordEnd ascii => !ascii
  | _ => false

end Edge

/--
A pattern that is repeated stands for one time or more. The pattern `more` is what follows the first
time: any number of further times.
-/
inductive Pattern where
  | empty
  | one (set : CharSet)
  | edge (edge : Edge)
  | seq (first second : Pattern)
  | alt (first second : Pattern)
  | repeated (inner : Pattern) (greedy : Bool)
  | more (inner : Pattern) (greedy : Bool)
deriving DecidableEq, Repr

namespace Pattern

def concat (patterns : List Pattern) : Pattern :=
  patterns.foldr seq empty

def optional (inner : Pattern) (greedy : Bool) : Pattern :=
  if greedy then alt inner empty else alt empty inner

def needsScripts : Pattern → Bool
  | edge e => e.needsScripts
  | seq a b | alt a b => a.needsScripts || b.needsScripts
  | repeated inner _ | more inner _ => inner.needsScripts
  | empty | one _ => false

/-- A way to go on: with a character of a set and then a pattern, or without any. -/
abbrev Way := Option (CharSet × Pattern)

/-- Drops the ways without a character but for the first, which is preferred to them. -/
def stopOnce : List Way → List Way
  | [] => []
  | none :: rest => none :: rest.filter Option.isSome
  | some way :: rest => some way :: stopOnce rest

def ways (before after : Option Char) : Pattern → List Way
  | empty => [none]
  | one set => [some (set, empty)]
  | edge e => if e.holds before after then [none] else []
  | seq first second =>
    stopOnce <| (ways before after first).flatMap fun way =>
      match way with
      | some (set, next) => [some (set, seq next second)]
      | none => ways before after second
  | alt first second => stopOnce (ways before after first ++ ways before after second)
  | repeated inner greedy =>
    (ways before after inner).map fun way =>
      way.map fun (set, next) => (set, seq next (more inner greedy))
  | more inner greedy =>
    let again := (ways before after inner).filterMap fun way =>
      way.map fun (set, next) => some (set, seq next (more inner greedy))
    if greedy then again ++ [none] else none :: again

/-- What may follow a character after some patterns; nothing is preferred to the end of one. -/
def step (patterns : List Pattern) (before : Option Char) (c : Char) : List Pattern :=
  let all := patterns.flatMap (ways before (some c))
  let next := (all.takeWhile Option.isSome).filterMap fun way =>
    way.bind fun (set, next) => if set.contains c then some next else none
  next.eraseDups

def run (patterns : List Pattern) (before : Option Char) : List Char → Bool
  | [] => (patterns.flatMap (ways before none)).any Option.isNone
  | c :: rest => run (step patterns before c) (some c) rest

def anywhere (pattern : Pattern) : Pattern :=
  seq (more (one .all) false) pattern

def accepts (pattern : Pattern) (text : String) : Bool :=
  run [pattern.anywhere] none text.toList

theorem run_nil (before : Option Char) (text : List Char) : run [] before text = false := by
  induction text generalizing before with
  | nil => simp [run]
  | cons c rest ih =>
    have : step [] before c = [] := by simp [step]
    rw [run, this]
    exact ih _

theorem accepts_empty (text : String) : empty.accepts text = text.toList.isEmpty := by
  rw [accepts]
  cases text.toList with
  | nil => rfl
  | cons c rest =>
    have : step [empty.anywhere] none c = [] := by simp [step, ways, anywhere, stopOnce]
    rw [run, this, run_nil]
    rfl

end Pattern

end GraphGateway

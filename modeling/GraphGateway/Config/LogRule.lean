import GraphGateway.Config.FieldTest
import GraphGateway.Ordered

/-!
This module contains the rules of log filters and their reading. A rule is a level such as `info`,
or a target, a scope with a field in brackets, and a level, such as `gateway[request{id}]=debug`,
each of which may be missing.

The places of the parts are found in the text without the blanks around it, but the parts are cut at
these places from the text as it is written.
-/

namespace GraphGateway

inductive LogFilterFault where
  | rule
  | level
  | field (fault : PatternFault)
deriving DecidableEq, Repr

def LogFilterFault.message : LogFilterFault → String
  | rule => "invalid filter directive"
  | level => "error parsing level filter: expected one of \"off\", \"error\", \"warn\", \"info\", "
      ++ "\"debug\", \"trace\", or a number 0-5"
  | field fault => "invalid field filter: " ++ fault.message

/-- How much is reported: the events of a rank up to a bound, which is zero for none. -/
abbrev Verbosity := Nat

namespace Verbosity

def off : Verbosity := 0
def errors : Verbosity := 1
def all : Verbosity := 5

def words : List (String × Verbosity) :=
  [("off", 0), ("error", 1), ("warn", 2), ("info", 3), ("debug", 4), ("trace", 5)]

def number? (text : List Char) : Option Nat :=
  let digits := match text with
    | '+' :: rest => rest
    | text => text
  if digits.isEmpty || !digits.all Char.isDigit then none
  else some (digits.foldl (fun n c => 10 * n + (c.toNat - '0'.toNat)) 0)

/-- A level is a number up to five or a word, the case of which does not count. -/
def ofText? (text : List Char) : Option Verbosity :=
  match number? text with
  | some n => if n ≤ all then some n else none
  | none => Ordered.get? words (String.ofList (text.map Char.toLower))

def ofText (text : List Char) : Except LogFilterFault Verbosity :=
  if text.isEmpty then .ok .all
  else
    match ofText? text with
    | some verbosity => .ok verbosity
    | none => .error .level

theorem ofText?_le_all (text : List Char) (verbosity : Verbosity)
    (h : ofText? text = some verbosity) : verbosity ≤ all := by
  simp only [ofText?] at h
  split at h
  . split at h <;> simp_all
  . simp only [words, Ordered.get?] at h
    repeat' split at h
    all_goals cases h <;> decide

end Verbosity

structure LogRule where
  target : Option String
  scope : Option String
  field : Option FieldTest
  verbosity : Verbosity
deriving DecidableEq, Repr

structure RuleText where
  written : List Char
  trimmed : List Char

namespace RuleText

def ofText (text : List Char) : RuleText :=
  ⟨text, Text.trim text⟩

def find? (text : RuleText) (marks : List Char) (start : Nat) : Option (Char × Nat) :=
  (text.trimmed.zipIdx.drop start).find? fun (c, _) => c ∈ marks

def part (text : RuleText) (start stop : Nat) : String :=
  String.ofList ((text.written.take stop).drop start)

def readLevel (text : RuleText) (place : Nat) : Except LogFilterFault Verbosity :=
  match text.trimmed[place]? with
  | none => .ok .all
  | some '=' => Verbosity.ofText (text.written.drop (place + 1))
  | some _ => .error .rule

def readField (text : RuleText) (start : Nat) : Except LogFilterFault (FieldTest × Nat) :=
  match text.find? ['\x7d'] start with
  | none => .error .rule
  | some (_, stop) => do
    if stop = start then .error .rule
    else
      let field ← (FieldTest.ofText (text.part start stop).toList).mapError .field
      if text.trimmed[stop + 1]? = some ']' then return (field, stop + 2) else .error .rule

def readBrackets (text : RuleText) (target : Option String) (start : Nat)
    : Except LogFilterFault LogRule :=
  match text.find? [']', '\x7b'] start with
  | none => .error .rule
  | some (']', stop) =>
    return ⟨target, some (text.part start stop), none, ← text.readLevel (stop + 1)⟩
  | some (_, stop) => do
    let scope := if stop = start then none else some (text.part start stop)
    let (field, next) ← text.readField (stop + 1)
    return ⟨target, scope, some field, ← text.readLevel next⟩

def readTarget (text : RuleText) : Except LogFilterFault LogRule :=
  match text.find? ['=', '['] 0 with
  | none =>
    match Verbosity.ofText? text.written with
    | some verbosity => .ok ⟨none, none, none, verbosity⟩
    | none => .ok ⟨some (String.ofList text.written), none, none, .all⟩
  | some ('=', stop) => return ⟨some (text.part 0 stop), none, none, ← text.readLevel stop⟩
  | some (_, stop) => text.readBrackets (some (text.part 0 stop)) (stop + 1)

def read (text : RuleText) : Except LogFilterFault LogRule :=
  match text.trimmed with
  | [] => .error .rule
  | '[' :: _ => text.readBrackets none 1
  | c :: _ =>
    if c ∈ ['-', ':', '_'] || Text.isAlphanumeric c then text.readTarget else .error .rule

end RuleText

namespace LogRule

def errors : LogRule :=
  ⟨none, none, none, .errors⟩

def ofText (text : List Char) : Except LogFilterFault LogRule :=
  (RuleText.ofText text).read

def isLike (rule other : LogRule) : Bool :=
  rule.target = other.target && rule.scope = other.scope && rule.field = other.field

/-- The rules that no later one replaces, which is one about the same. -/
def current : List LogRule → List LogRule
  | [] => []
  | rule :: rest => if rest.any rule.isLike then current rest else rule :: current rest

theorem current_sublist (rules : List LogRule) : (current rules).Sublist rules := by
  induction rules with
  | nil => simp [current]
  | cons rule rest ih =>
    simp only [current]
    split
    . exact ih.cons _
    . exact ih.cons_cons _

/-- A rule without a scope and without a value is for single events. -/
def isForEvents (rule : LogRule) : Bool :=
  rule.scope.isNone && rule.field.all (·.value.isNone)

def isForScopes (rule : LogRule) : Bool :=
  rule.scope.isSome || rule.field.isSome

end LogRule

end GraphGateway

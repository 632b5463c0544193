import GraphGateway.Config.LogRule
import GraphGateway.Gateway.Event
import GraphGateway.Gateway.RequestId

/-!
This module contains log filters: lists of rules such as `info` or `gateway=debug,http=warn`, of
which the one that says most about an event decides whether it is reported. A rule for a scope adds
the events that happen in it.
-/

namespace GraphGateway

structure LogSource where
  target : String
  fields : List String
deriving DecidableEq, Repr

structure LogScope where
  name : String
  target : String
  fields : List (String × String)
  level : Level
deriving DecidableEq, Repr

def LogScope.source (scope : LogScope) : LogSource :=
  ⟨scope.target, Ordered.keys scope.fields⟩

namespace LogRule

def isAbout (rule : LogRule) (source : LogSource) : Bool :=
  (rule.target.all fun start => start.toList.isPrefixOf source.target.toList)
    && rule.field.all (·.name ∈ source.fields)

def isAboutEvent (rule : LogRule) (source : LogSource) : Bool :=
  rule.isForEvents && rule.isAbout source

def isAboutScope (rule : LogRule) (scope : LogScope) : Bool :=
  rule.isForScopes && rule.isAbout scope.source && rule.scope.all (· = scope.name)
    && rule.field.all fun test => (Ordered.get? scope.fields test.name).any test.accepts

def targetWeight (rule : LogRule) : Nat :=
  match rule.target with
  | some target => target.utf8ByteSize + 1
  | none => 0

/-- The field of a rule, which counts next; a rule without a field says less. -/
def fieldWeight (rule : LogRule) : String :=
  (rule.field.map FieldTest.name).getD ""

def saysMore (rule other : LogRule) : Bool :=
  other.targetWeight < rule.targetWeight
    || (rule.targetWeight = other.targetWeight && other.fieldWeight < rule.fieldWeight)

def best? : List LogRule → Option LogRule
  | [] => none
  | rule :: rest =>
    match best? rest with
    | some other => if other.saysMore rule then some other else some rule
    | none => some rule

theorem best?_mem (rules : List LogRule) (rule : LogRule) (h : best? rules = some rule)
    : rule ∈ rules := by
  induction rules with
  | nil => simp [best?] at h
  | cons first rest ih =>
    simp only [best?] at h
    split at h
    . split at h <;> simp_all
    . simp_all

end LogRule

structure LogFilter where
  rules : List LogRule
deriving DecidableEq, Repr

namespace LogFilter

/-- Reads rules that are separated by commas. Without any rule errors are reported. -/
def ofString (text : String) : Except LogFilterFault LogFilter := do
  let rules ← ((Text.pieces ',' text.toList).filter (!·.isEmpty)).mapM LogRule.ofText
  return ⟨if rules.isEmpty then [.errors] else rules⟩

def ruleFor (filter : LogFilter) (source : LogSource) : Option LogRule :=
  LogRule.best? ((LogRule.current filter.rules).filter (·.isAboutEvent source))

/--
The most that any rule asks for. A rule with a test for a value asks for everything, because the
value has to be looked at.
-/
def bound (filter : LogFilter) : Verbosity :=
  if filter.rules.any (·.field.any (·.value.isSome)) then .all
  else (filter.rules.map LogRule.verbosity).foldl max .off

/-- How much is reported in a scope. One of a level that is never reported is not entered. -/
def verbosityIn (filter : LogFilter) (scope : LogScope) : Verbosity :=
  if filter.bound < scope.level.rank then .off
  else
    (((LogRule.current filter.rules).filter (·.isAboutScope scope)).map LogRule.verbosity).foldl
      max .off

def accepts (filter : LogFilter) (source : LogSource) (scope : Option LogScope) (level : Level)
    : Bool :=
  (scope.any fun scope => level.rank ≤ filter.verbosityIn scope)
    || (filter.ruleFor source).any fun rule => level.rank ≤ rule.verbosity

theorem ofString_empty : ofString "" = .ok ⟨[.errors]⟩ := by
  rfl

end LogFilter

namespace EventName

def target : EventName → String
  | configLoaded => "jitql::cli::commands"
  | serverStart | serverStop => "jitql::http_server::server"
  | _ => "jitql::dispatcher::dispatcher"

def details : EventName → List String
  | configLoaded => ["path", "resolvers", "retention", "single_flight"]
  | serverStart => ["addr", "message"]
  | serverStop => ["message"]
  | queryReceived => ["text_len"]
  | planCacheHit | planCacheMiss | planStored => []
  | syntaxRejected => ["code", "message"]
  | compilationRejected => ["count", "message"]
  | planCompiled => ["operation", "fields"]
  | queryExecuted => ["errors", "elapsed_ms"]
  | internalFault => ["stage", "message"]

def source (name : EventName) : LogSource :=
  ⟨name.target, "event" :: name.details⟩

/-- The scope that an event is in; a request is answered inside one, which tells its identifier. -/
def scope (requestId : RequestId) : EventName → Option LogScope
  | configLoaded | serverStart | serverStop => none
  | _ => some ⟨"dispatch", "jitql::dispatcher::dispatcher", [("request_id", requestId.text)], .info⟩

end EventName

def LogFilter.reportsEvent (filter : LogFilter) (requestId : RequestId) (event : Event) : Bool :=
  event.name?.any fun name => filter.accepts name.source (name.scope requestId) event.level

end GraphGateway

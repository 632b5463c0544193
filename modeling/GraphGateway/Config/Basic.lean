import GraphGateway.Config.LogFilter
import GraphGateway.Gateway.PlanCache
import GraphGateway.Json.Shape
import GraphGateway.Library.Schema
import GraphGateway.Text.Blank

/-!
This module contains the configuration of a gateway. Every part of it may be missing and then has
its default. A configuration is checked as a whole when it is read.
-/

namespace GraphGateway

def Json.textAt (v : Json) (name : String) : String :=
  ((v.get? name).bind Json.string?).getD ""

def Json.naturalAt (v : Json) (name : String) : Nat :=
  match v.get? name with
  | some (.number (.integer n)) => n.toNat
  | _ => 0

namespace Retention

open Json.Shape in
def shape : Json.Shape :=
  .tagged "CacheRetention" "policy"
    [ ("unbounded", none),
      ("lru", some [required "max_entries" (.natural "u64" (UInt64.size - 1))])
    ]

def toJson : Retention → Json
  | unbounded => .object [("policy", .string "unbounded")]
  | lru maxEntries => .object [("policy", .string "lru"), ("max_entries", .int maxEntries)]

def ofJson (v : Json) : Retention :=
  if v.textAt "policy" = "lru" then lru (v.naturalAt "max_entries") else unbounded

theorem ofJson_toJson (retention : Retention) : ofJson retention.toJson = retention := by
  cases retention <;> simp [toJson, ofJson, Json.textAt, Json.naturalAt, Json.get?, Json.string?,
    Json.int, Ordered.get?]

end Retention

structure CacheSettings where
  retention : Retention
  singleFlight : Bool
deriving DecidableEq, Repr

namespace CacheSettings

def initial : CacheSettings :=
  ⟨.unbounded, false⟩

open Json.Shape in
def shape : Json.Shape :=
  .record "PlanCacheConfig" false
    [ defaulted "retention" Retention.shape Retention.unbounded.toJson,
      defaulted "single_flight" .flag (.bool false)
    ]

def toJson (settings : CacheSettings) : Json :=
  .object
    [ ("retention", settings.retention.toJson),
      ("single_flight", .bool settings.singleFlight)
    ]

def ofJson (v : Json) : CacheSettings :=
  ⟨.ofJson ((v.get? "retention").getD .null),
    match v.get? "single_flight" with
    | some (.bool b) => b
    | _ => false⟩

theorem ofJson_toJson (settings : CacheSettings) : ofJson settings.toJson = settings := by
  simp [toJson, ofJson, Json.get?, Ordered.get?, Retention.ofJson_toJson]

end CacheSettings

structure HttpSettings where
  host : String
  portNumber : Nat
  /-- Without any origin all origins are allowed. -/
  origins : List String
deriving DecidableEq, Repr

namespace HttpSettings

def initial : HttpSettings :=
  ⟨"0.0.0.0", 3000, []⟩

open Json.Shape in
def shape : Json.Shape :=
  .record "HttpServerConfig" false
    [ defaulted "host" .text (.string "0.0.0.0"),
      defaulted "port" (.natural "u16" (UInt16.size - 1)) (.int 3000),
      defaulted "cors_origins" (.list .text) (.array [])
    ]

def toJson (settings : HttpSettings) : Json :=
  .object
    [ ("host", .string settings.host),
      ("port", .int settings.portNumber),
      ("cors_origins", .array (settings.origins.map .string))
    ]

def ofJson (v : Json) : HttpSettings :=
  ⟨v.textAt "host", v.naturalAt "port",
    (((v.get? "cors_origins").bind Json.items?).getD []).filterMap Json.string?⟩

theorem ofJson_toJson (settings : HttpSettings) : ofJson settings.toJson = settings := by
  simp [ofJson, toJson, Json.textAt, Json.naturalAt, Json.get?, Json.int, Json.items?,
    Json.string?, Ordered.get?, List.filterMap_map, Function.comp_def]

def address (settings : HttpSettings) : String :=
  s!"{settings.host}:{settings.portNumber}"

end HttpSettings

inductive LogFormat where
  | json
  | pretty
deriving DecidableEq, Repr

def LogFormat.name : LogFormat → String
  | json => "json"
  | pretty => "pretty"

structure LogSettings where
  level : String
  format : LogFormat
deriving DecidableEq, Repr

namespace LogSettings

def initial : LogSettings :=
  ⟨"info", .json⟩

open Json.Shape in
def shape : Json.Shape :=
  .record "LogConfig" false
    [ defaulted "level" .text (.string "info"),
      defaulted "format" (.word ["json", "pretty"]) (.string "json")
    ]

def toJson (settings : LogSettings) : Json :=
  .object [("level", .string settings.level), ("format", .string settings.format.name)]

def ofJson (v : Json) : LogSettings :=
  ⟨v.textAt "level", if v.textAt "format" = "pretty" then .pretty else .json⟩

theorem ofJson_toJson (settings : LogSettings) : ofJson settings.toJson = settings := by
  obtain ⟨level, format⟩ := settings
  cases format <;> simp [ofJson, toJson, LogFormat.name, Json.textAt, Json.get?, Json.string?,
    Ordered.get?]

end LogSettings

def Library.ResolverMode.name : Library.ResolverMode → String
  | sync => "sync"
  | async => "async"

structure Config where
  http : HttpSettings
  cache : CacheSettings
  resolvers : Library.ResolverMode
  log : LogSettings
deriving DecidableEq, Repr

inductive ConfigFault where
  | unreadable (path reason : String)
  | malformed (fault : Json.Fault)
  | emptyHost
  | noCapacity
  | logLevel (level : String) (fault : LogFilterFault)
deriving DecidableEq, Repr

def ConfigFault.message : ConfigFault → String
  | unreadable path reason => s!"cannot read {path}: {reason}"
  | malformed fault => "invalid configuration: " ++ fault.message
  | emptyHost => "http.host must not be empty"
  | noCapacity => "cache.retention.max_entries must be greater than zero"
  | logLevel level fault => s!"log.level: invalid log level \"{level}\": {fault.message}"

namespace Config

def initial : Config :=
  ⟨.initial, .initial, .sync, .initial⟩

open Json.Shape in
def shape : Json.Shape :=
  .record "Config" true
    [ defaulted "http" HttpSettings.shape HttpSettings.initial.toJson,
      defaulted "cache" CacheSettings.shape CacheSettings.initial.toJson,
      defaulted "resolvers" (.word ["sync", "async"]) (.string "sync"),
      defaulted "log" LogSettings.shape LogSettings.initial.toJson
    ]

def toJson (config : Config) : Json :=
  .object
    [ ("http", config.http.toJson),
      ("cache", config.cache.toJson),
      ("resolvers", .string config.resolvers.name),
      ("log", config.log.toJson)
    ]

def ofJson (v : Json) : Config :=
  let part (name : String) : Json := (v.get? name).getD .null
  ⟨.ofJson (part "http"), .ofJson (part "cache"),
    if v.textAt "resolvers" = "async" then .async else .sync, .ofJson (part "log")⟩

theorem ofJson_toJson (config : Config) : ofJson config.toJson = config := by
  obtain ⟨http, cache, resolvers, log⟩ := config
  cases resolvers <;> simp [ofJson, toJson, Library.ResolverMode.name, Json.textAt, Json.get?,
    Json.string?, Ordered.get?, HttpSettings.ofJson_toJson, CacheSettings.ofJson_toJson,
    LogSettings.ofJson_toJson]

def check (config : Config) : Except ConfigFault LogFilter :=
  if (Text.trim config.http.host.toList).isEmpty then .error .emptyHost
  else if config.cache.retention = .lru 0 then .error .noCapacity
  else (LogFilter.ofString config.log.level).mapError (.logLevel config.log.level)

def read (text : String) : Except ConfigFault Config :=
  match shape.ofString text with
  | .ok v => .ok (ofJson v)
  | .error fault => .error (.malformed fault)

def ofString (text : String) : Except ConfigFault Config := do
  let config ← read text
  let _ ← config.check
  return config

end Config

end GraphGateway

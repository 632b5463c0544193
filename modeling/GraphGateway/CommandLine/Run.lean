import GraphGateway.CommandLine.Arguments
import GraphGateway.Config.Basic
import GraphGateway.Gateway.Envelope
import GraphGateway.Http.SocketAddress

/-!
This module contains the running of a command: the configuration is loaded, and then one request is
answered or a server is started. What the program needs of its surroundings is handed in.
-/

namespace GraphGateway
namespace CommandLine

inductive Fault where
  | config (fault : ConfigFault)
  | input (reason : String)
  | request (reason : String)
  | boot (reason : String)
deriving DecidableEq, Repr

namespace Fault

def code : Fault → String
  | config _ => "JITQL_CLI_CONFIG_ERROR"
  | input _ => "JITQL_CLI_IO_ERROR"
  | request _ => "JITQL_CLI_INVALID_REQUEST"
  | boot _ => "JITQL_CLI_BOOT_FAILED"

def reason : Fault → String
  | config fault => fault.message
  | input reason | request reason | boot reason => reason

def message (fault : Fault) : String :=
  fault.code ++ ": " ++ fault.reason

end Fault

structure Surroundings where
  file : String → Except String ByteArray
  input : Except String ByteArray
  listen : Http.SocketAddress → Except String Unit
  requestId : RequestId

structure Report where
  output : String
  events : List Event
  result : Except Fault Unit

def Report.exitCode (report : Report) : Nat :=
  if report.result.isOk then 0 else 1

def decode (bytes : ByteArray) : Except String String :=
  match String.fromUTF8? bytes with
  | some text => .ok text
  | none => .error "stream did not contain valid UTF-8"

def loadConfig (surroundings : Surroundings) (path : Option String)
    : Except ConfigFault Config :=
  match path with
  | none => .ok .initial
  | some path => do
    let text ← (surroundings.file path >>= decode).mapError (.unreadable path)
    Config.ofString text

def readRequest (text : String) : Except Fault Envelope :=
  if (Text.trim text.toList).isEmpty then .error (.request "Empty input")
  else (Envelope.ofBytes text.toUTF8.toList).mapError fun fault => .request fault.message

def gatewayOf (config : Config) : Gateway :=
  .ofSchema (Library.schema Library.authors config.resolvers) config.cache.singleFlight

def query (surroundings : Surroundings) (config : Config) : Report :=
  let text := (surroundings.input >>= decode).mapError Fault.input
  match text >>= readRequest with
  | .error fault => ⟨"", [.configLoaded], .error fault⟩
  | .ok envelope =>
    let (answer, state) :=
      ((gatewayOf config).answer envelope.toRequest).run (.initial config.cache.retention)
    ⟨answer.response.line, .configLoaded :: state.events, .ok ()⟩

def serve (surroundings : Surroundings) (config : Config) : Report :=
  let started := do
    match Http.SocketAddress.ofString? config.http.address with
    | some address => surroundings.listen address
    | none => .error "invalid socket address syntax"
  ⟨"", [.configLoaded],
    started.mapError fun reason => .boot ("HTTP server failed: " ++ reason)⟩

def logged (config : Config) (requestId : RequestId) (events : List Event) : List Event :=
  match config.log.format, config.check with
  | .json, .ok filter => events.filter (filter.reportsEvent requestId)
  | _, _ => []

def run (surroundings : Surroundings) (invocation : Invocation) : Report :=
  match loadConfig surroundings invocation.config with
  | .error fault => ⟨"", [], .error (.config fault)⟩
  | .ok config =>
    let report := match invocation.command with
      | .serve => serve surroundings config
      | .query => query surroundings config
    { report with events := logged config surroundings.requestId report.events }

end CommandLine
end GraphGateway

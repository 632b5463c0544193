import GraphGateway.CommandLine.Help
import GraphGateway.CommandLine.Run

/-!
This module contains the program. It reads what a command needs and writes what came of it; it
does not open a socket.
-/

namespace GraphGateway
namespace CommandLine

partial def readAll (stream : IO.FS.Stream) (found : ByteArray) : IO ByteArray := do
  let bytes ← stream.read 65536
  if bytes.isEmpty then return found else readAll stream (found ++ bytes)

def reasonOf (e : IO.Error) : String :=
  match e with
  | .noFileOrDirectory _ code _ => s!"No such file or directory (os error {code})"
  | .permissionDenied _ code _ => s!"Permission denied (os error {code})"
  | e => toString e

def attempt (action : IO ByteArray) : IO (Except String ByteArray) := do
  try
    return .ok (← action)
  catch e =>
    return .error (reasonOf e)

def surroundingsOf (invocation : Invocation) : IO Surroundings := do
  let file ← attempt (IO.FS.readBinFile (invocation.config.getD ""))
  let input ←
    match invocation.command with
    | .query => attempt (do readAll (← IO.getStdin) .empty)
    | .serve => pure (.ok .empty)
  let requestId := RequestId.ofRandom (← IO.getRandomBytes 16).toList
  return ⟨fun _ => file, input, fun _ => .error "sockets are not supported", requestId⟩

def report (result : Report) : IO UInt32 := do
  for event in result.events do
    IO.eprintln event.line
  IO.print result.output
  match result.result with
  | .ok _ => return 0
  | .error fault =>
    IO.eprintln fault.message
    return 1

def runArguments (args : List String) : IO UInt32 := do
  match Invocation.ofArguments args with
  | .ok invocation => report (run (← surroundingsOf invocation) invocation)
  | .error fault =>
    IO.print fault.output
    if fault.exitCode != 0 then IO.eprint help
    return fault.exitCode.toUInt32

end CommandLine
end GraphGateway

def main (args : List String) : IO UInt32 :=
  GraphGateway.CommandLine.runArguments args

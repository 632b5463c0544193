import GraphGateway.CommandLine.Arguments

/-!
This module contains what the command line says when it is asked for its version or for help.
-/

namespace GraphGateway
namespace CommandLine

def lines (texts : List String) : String :=
  String.join (texts.map (· ++ "\n"))

namespace Command

def about : Command → String
  | serve => "Start the HTTP gateway"
  | query => "Execute one request read from stdin and exit"

def help (command : Command) : String :=
  lines
    [ command.about,
      "",
      s!"Usage: jitql {command.name} [OPTIONS]",
      "",
      "Options:",
      "      --config <CONFIG>  Path to a JSON configuration file; defaults apply when absent",
      "  -h, --help             Print help"
    ]

end Command

def help : String :=
  lines
    [ "A query gateway that compiles each distinct query once and serves repeats from a plan cache",
      "",
      "Usage: jitql <COMMAND>",
      "",
      "Commands:",
      s!"  serve  {Command.about .serve}",
      s!"  query  {Command.about .query}",
      "  help   Print this message or the help of the given subcommand(s)",
      "",
      "Options:",
      "  -h, --help     Print help",
      "  -V, --version  Print version"
    ]

namespace ArgumentFault

def output : ArgumentFault → String
  | help (some command) => command.help
  | help none => CommandLine.help
  | version => "jitql 0.1.0\n"
  | _ => ""

theorem exitCode_eq_zero_iff (fault : ArgumentFault)
    : fault.exitCode = 0 ↔ fault.output ≠ "" := by
  cases fault with
  | help topic =>
    cases topic with
    | none => simp only [exitCode, output, true_iff]; decide
    | some command => cases command <;> simp only [exitCode, output, true_iff] <;> decide
  | _ => simp [exitCode, output]

end ArgumentFault

end CommandLine
end GraphGateway

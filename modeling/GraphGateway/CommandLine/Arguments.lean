/-!
This module contains the arguments of the command line: a command, and for each command the path of
a configuration. The first thing wrong is reported; a value that is given with `--config` is only
taken when the argument after it is known.
-/

namespace GraphGateway
namespace CommandLine

inductive Command where
  | serve
  | query
deriving DecidableEq, Repr

namespace Command

def name : Command → String
  | serve => "serve"
  | query => "query"

def ofName? : String → Option Command
  | "serve" => some serve
  | "query" => some query
  | _ => none

theorem ofName?_name (command : Command) : ofName? command.name = some command := by
  cases command <;> rfl

end Command

structure Invocation where
  command : Command
  config : Option String
deriving DecidableEq, Repr

/--
Why there is nothing to run. Being asked for the version is one reason, and being asked for help,
which may be about one command.
-/
inductive ArgumentFault where
  | help (topic : Option Command)
  | version
  | missingCommand
  | unknownCommand
  | unknownArgument
  | repeatedOption
  | missingValue
  | unexpectedValue
deriving DecidableEq, Repr

def ArgumentFault.exitCode : ArgumentFault → Nat
  | help _ | version => 0
  | _ => 2

inductive Word where
  | escape
  | long (name : String) (value : Option String)
  | short (flags : List Char)
  | plain
deriving DecidableEq, Repr

namespace Word

/-- A single dash is a plain word. -/
def ofString (s : String) : Word :=
  match s.toList with
  | ['-', '-'] => escape
  | '-' :: '-' :: rest =>
    let name := rest.takeWhile (· ≠ '=')
    match rest.drop name.length with
    | [] => long (String.ofList name) none
    | _ :: value => long (String.ofList name) (some (String.ofList value))
  | '-' :: flag :: flags => short (flag :: flags)
  | _ => plain

/-- The first flag of some decides. -/
def isHelp : Word → Bool
  | long name value => name = "help" && value.isNone
  | short flags => flags.head? = some 'h'
  | _ => false

def isVersion : Word → Bool
  | long name value => name = "version" && value.isNone
  | short flags => flags.head? = some 'V'
  | _ => false

end Word

namespace Invocation

def take (config value : Option String) : Except ArgumentFault (Option String) :=
  match config, value with
  | config, none => .ok config
  | some _, some _ => .error .repeatedOption
  | none, some value => if value.isEmpty then .error .missingValue else .ok (some value)

def closed {α : Type} (rest : List String) (result : Except ArgumentFault α)
    : Except ArgumentFault α :=
  if rest.isEmpty then result else .error .unknownArgument

/--
Reads the options of a command. Besides the path that is taken there may be a value that is not
taken yet, or `--config` may still wait for its value.
-/
def options (command : Command) (config value : Option String) (waiting : Bool)
    : List String → Except ArgumentFault (Option String)
  | [] => if waiting then .error .missingValue else take config value
  | arg :: rest =>
    match Word.ofString arg with
    | .escape => closed rest (if waiting then .error .missingValue else take config value)
    | .plain =>
      if waiting then options command config (some arg) false rest
      else .error .unknownArgument
    | .long "config" attached =>
      if waiting then .error .missingValue
      else do
        let config ← take config value
        match attached with
        | none => options command config none true rest
        | attached => options command (← take config attached) none false rest
    | .long "help" (some _) => .error .unexpectedValue
    | word =>
      if !word.isHelp then .error .unknownArgument
      else if waiting then .error .missingValue
      else do
        let _ ← take config value
        .error (.help (some command))

def isCommand (word : String) : Bool :=
  word = "help" || (Command.ofName? word).isSome

def help (topics : List String) : ArgumentFault :=
  match topics with
  | [] => .help none
  | [topic] => if isCommand topic then .help (Command.ofName? topic) else .unknownCommand
  | _ => .unknownCommand

def withoutCommand (word : Word) (rest : List String) : ArgumentFault :=
  match word, rest with
  | .plain, _ => .unknownCommand
  | .escape, [] => .missingCommand
  | .escape, next :: _ => if isCommand next then .unknownArgument else .unknownCommand
  | .long "help" (some _), _ | .long "version" (some _), _ => .unexpectedValue
  | word, _ =>
    if word.isHelp then .help none
    else if word.isVersion then .version
    else .unknownArgument

def ofArguments (args : List String) : Except ArgumentFault Invocation :=
  match args with
  | [] => .error .missingCommand
  | "help" :: topics => .error (help topics)
  | word :: rest =>
    match Command.ofName? word with
    | some command => do return ⟨command, ← options command none none false rest⟩
    | none => .error (withoutCommand (.ofString word) rest)

end Invocation

end CommandLine
end GraphGateway

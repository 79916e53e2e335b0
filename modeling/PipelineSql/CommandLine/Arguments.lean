import PipelineSql.Sql.Text

/-!
# Arguments of the command line

A value is looked at late: only once a flag or an option after it is recognised, or the arguments
end. Of two faults the one that is noticed first in this order is reported.
-/

namespace PipelineSql.CommandLine

open Sql (RenderOptions)

/-- What the program is asked to do. -/
inductive Command where
  /-- Print the SQL of a request, laid out over several lines if that is wanted. -/
  | show (request : String) (options : RenderOptions) (layOut : Bool)
  /-- Run a request and print its rows. -/
  | collect (request : String)
  /-- Print the database's plan for a request. -/
  | explain (request : String)
  /-- Print the JSON schema of the configuration. -/
  | printSchema

/-- A command, and the directory whose configuration it uses, if one is named. -/
structure Invocation where
  context : Option String
  command : Command

/-- Why the arguments of the program cannot be used. -/
inductive UsageError where
  | helpWanted
  | versionWanted
  | nothingGiven
  | missingCommand
  | unknownCommand
  | missingRequest
  | unknownArgument
  | invalidValue
  | repeatedArgument
  | unexpectedValue
deriving DecidableEq

def UsageError.message : UsageError → String
  | .helpWanted | .nothingGiven =>
    "usage: [--context DIR] show|collect|explain REQUEST, print-schema"
  | .versionWanted => "0.1.1"
  | .missingCommand => "a command is required"
  | .unknownCommand => "unknown command"
  | .missingRequest => "the file of the request is required"
  | .unknownArgument => "unexpected argument"
  | .invalidValue => "a value is required"
  | .repeatedArgument => "an argument cannot be used twice"
  | .unexpectedValue => "a value is not expected"

/-- Splits a value off the name of a flag. -/
def splitValue (chars : List Char) : String × Option String :=
  let name := chars.takeWhile (· ≠ '=')
  match chars.dropWhile (· ≠ '=') with
  | [] => (String.ofList name, none)
  | _ :: value => (String.ofList name, some (String.ofList value))

/-- The flags that can follow a command. -/
inductive Flag where
  | help
  | literalBinds
  | simpleNames
  | pretty
deriving DecidableEq

def Flag.name : Flag → String
  | .help => "help"
  | .literalBinds => "literal-binds"
  | .simpleNames => "simple-names"
  | .pretty => "pretty"

/-- What can follow a command. -/
structure Shape where
  takesRequest : Bool
  flags : List Flag

/-- The arguments after a command that have been read so far. -/
structure Given where
  request : Option String := none
  flags : List Flag := []

namespace Given

/-- Looks at the file of the request, whose name cannot be empty. -/
def check (given : Given) : Except UsageError Unit :=
  if given.request = some "" then .error .invalidValue else .ok ()

/-- Takes a flag, which can be given once. -/
def raise (given : Given) (flag : Flag) : Except UsageError Given := do
  given.check
  if flag = .help then throw .helpWanted
  else if flag ∈ given.flags then throw .repeatedArgument
  else return { given with flags := flag :: given.flags }

/-- Takes a value, of which there can be one. -/
def place (shape : Shape) (given : Given) (value : String) : Except UsageError Given :=
  if shape.takesRequest ∧ given.request.isNone then .ok { given with request := some value }
  else .error .unknownArgument

end Given

/-- Reads a flag after its two dashes. No flag has a value. -/
def readFlag (shape : Shape) (given : Given) (chars : List Char) : Except UsageError Given :=
  let (name, value) := splitValue chars
  match shape.flags.find? fun flag => flag.name = name with
  | none => .error .unknownArgument
  | some flag => if value.isSome then .error .unexpectedValue else given.raise flag

/-- Reads the arguments after a command. After two dashes alone everything is a value. -/
def readGiven (shape : Shape) (plain : Bool) (given : Given) : List String → Except UsageError Given
  | [] => do
    given.check
    return given
  | arg :: rest =>
    match plain, arg.toList with
    | false, ['-', '-'] => readGiven shape true given rest
    | false, '-' :: '-' :: chars => do readGiven shape plain (← readFlag shape given chars) rest
    | false, '-' :: 'h' :: _ => do readGiven shape plain (← given.raise .help) rest
    | false, '-' :: _ :: _ => .error .unknownArgument
    | _, _ => do readGiven shape plain (← given.place shape arg) rest

/-- Reads the arguments of a command that takes a request. -/
def withRequest (flags : List Flag) (args : List String) (command : String → Given → Command) :
    Except UsageError Command := do
  let given ← readGiven ⟨true, .help :: flags⟩ false {} args
  match given.request with
  | some request => return command request given
  | none => throw .missingRequest

def commandNames : List String := ["show", "collect", "explain", "print-schema", "help"]

/-- Reads what follows the name of a command. -/
def readCommand (name : String) (args : List String) : Except UsageError Command :=
  if name = "show" then
    withRequest [.literalBinds, .simpleNames, .pretty] args fun request given =>
      .show request
        { literalBinds := .literalBinds ∈ given.flags, simpleNames := .simpleNames ∈ given.flags }
        (.pretty ∈ given.flags)
  else if name = "collect" then withRequest [] args fun request _ => .collect request
  else if name = "explain" then withRequest [] args fun request _ => .explain request
  else if name = "print-schema" then
    (readGiven ⟨false, [.help]⟩ false {} args).map fun _ => .printSchema
  else if name = "help" then
    match args with
    | [] => .error .helpWanted
    | [topic] => .error (if topic ∈ commandNames then .helpWanted else .unknownCommand)
    | _ => .error .unknownCommand
  else .error .unknownCommand

/-- A value of the option that names the directory, before it is looked at. -/
inductive Pending where
  | nothing
  /-- The option stands there without its value. -/
  | awaiting
  | held (value : String)
deriving DecidableEq

/-- The arguments before a command that have been read so far. -/
structure Opening where
  context : Option String := none
  pending : Pending := .nothing

namespace Opening

/-- Takes the directory, which can be given once and has a name. -/
def setContext (o : Opening) (value : String) : Except UsageError Opening :=
  if o.context.isSome then .error .repeatedArgument
  else if value.isEmpty then .error .invalidValue
  else .ok { context := some value }

/-- Looks at the pending value. -/
def resolve (o : Opening) : Except UsageError Opening :=
  match o.pending with
  | .nothing => .ok o
  | .awaiting => .error .invalidValue
  | .held value => o.setContext value

/-- What is wrong when the arguments end without a command. -/
def ended (o : Opening) : UsageError :=
  match o.resolve with
  | .error e => e
  | .ok o => if o.context.isSome then .missingCommand else .nothingGiven

/-- What is wrong when `e` is found after the pending value is looked at. -/
def resolveThen (o : Opening) (e : UsageError) : UsageError :=
  match o.resolve with
  | .error first => first
  | .ok _ => e

end Opening

/-- Reads the arguments of the program after those of an opening. The directory can only be named
before the command. -/
def readFrom (o : Opening) : List String → Except UsageError Invocation
  | [] => .error o.ended
  | arg :: rest =>
    if arg ∈ commandNames ∧ o.pending ≠ .awaiting then do
      let command ← readCommand arg rest
      return ⟨(← o.resolve).context, command⟩
    else match arg.toList with
      | ['-', '-'] =>
        match rest with
        | [] => .error o.ended
        | value :: _ =>
          .error (if value ∈ commandNames then .unknownArgument else .unknownCommand)
      | '-' :: '-' :: chars =>
        match splitValue chars with
        | ("context", none) => do readFrom { ← o.resolve with pending := .awaiting } rest
        | ("context", some value) => do readFrom (← (← o.resolve).setContext value) rest
        | ("help", none) => .error (o.resolveThen .helpWanted)
        | ("version", none) => .error (o.resolveThen .versionWanted)
        | ("help", some _) => .error .unexpectedValue
        | ("version", some _) => .error .unexpectedValue
        | _ => .error .unknownArgument
      | '-' :: 'h' :: _ => .error (o.resolveThen .helpWanted)
      | '-' :: 'V' :: _ => .error (o.resolveThen .versionWanted)
      | '-' :: _ :: _ => .error .unknownArgument
      | _ =>
        if o.pending = .awaiting then readFrom { o with pending := .held arg } rest
        else .error .unknownCommand

/-- Reads the arguments of the program, without its name. -/
def parse (args : List String) : Except UsageError Invocation := readFrom {} args

end PipelineSql.CommandLine

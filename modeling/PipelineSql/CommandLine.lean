import PipelineSql.CommandLine.Arguments
import PipelineSql.Configuration.Schema
import PipelineSql.Json.Printer
import PipelineSql.Plan
import PipelineSql.Request.Codec

/-!
# The command line

Everything up to the point where a database is needed. The monad of `Surroundings` is open, so
the same program runs on real files and on a given directory.
-/

namespace PipelineSql.CommandLine

/-- The directory whose configuration is used when none is named. -/
def defaultContext : String := "."

inductive Failure where
  | usage (error : UsageError)
  | configuration (error : ConfigurationError)
  | unreadableRequest (path : String)
  | malformedRequest (path : String)
  | query (error : Error)

def Failure.message : Failure → String
  | .usage error => error.message
  | .configuration error => error.message
  | .unreadableRequest path => "reading " ++ path
  | .malformedRequest path => "parsing " ++ path
  | .query error => error.message

/-- What a command leads to: text to print, SQL to be laid out first, or a statement for the
database. -/
inductive Outcome where
  | print (text : String)
  | layOut (sql : String)
  | execute (settings : Settings) (plan : Plan)
  | explain (settings : Settings) (plan : Plan)

/-- The plan of a request file. -/
def planOf (settings : Settings) (path : String) :
    Except FileFault String → Except Failure Plan
  | .error _ => .error (.unreadableRequest path)
  | .ok text =>
    match (Json.read? text Json.defaultLimit).bind (Request.ofJson? .strict) with
    | none => .error (.malformedRequest path)
    | some request =>
      (request.plan settings.catalog (.builtIn settings.dialect)).mapError .query

/-- The environment in which a command runs: files, and variables. -/
structure Surroundings (m : Type → Type) where
  readFile : String → m (Except FileFault String)
  readVariable : String → m (Option String)

variable {m : Type → Type} [Monad m]

/-- Reads the configuration of a directory and puts its secrets in. -/
def configure (around : Surroundings m) (context : String) : m (Except Failure Settings) := do
  let path := Configuration.pathIn context
  match Configuration.parse path (← around.readFile path) with
  | .error e => return .error (.configuration e)
  | .ok configuration =>
    let value ← match configuration.neededVariable with
      | none => pure none
      | some name => around.readVariable name
    return (configuration.resolve value).mapError .configuration

/-- Compiles the request of a file under the configuration of a directory. -/
def prepare (around : Surroundings m) (context path : String) :
    m (Except Failure (Settings × Plan)) := do
  match ← configure around context with
  | .error e => return .error e
  | .ok settings =>
    return (planOf settings path (← around.readFile path)).map fun plan => (settings, plan)

/-- Runs a command up to the point where a database is needed. -/
def execute (around : Surroundings m) (invocation : Invocation) : m (Except Failure Outcome) := do
  let context := invocation.context.getD defaultContext
  match invocation.command with
  | .printSchema => return .ok (.print (Schema.configuration.pretty 0))
  | .show path options layOut =>
    return (← prepare around context path).map fun p =>
      let sql := (p.2.querySql options).sql
      if layOut then .layOut sql else .print sql
  | .collect path => return (← prepare around context path).map fun p => .execute p.1 p.2
  | .explain path => return (← prepare around context path).map fun p => .explain p.1 p.2

/-- Runs the program on its arguments, without its name. -/
def run (around : Surroundings m) (args : List String) : m (Except Failure Outcome) := do
  match parse args with
  | .error e => return .error (.usage e)
  | .ok invocation => execute around invocation

end PipelineSql.CommandLine

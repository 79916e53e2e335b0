import PipelineSql.Catalog.Table
import PipelineSql.Dialect
import PipelineSql.Json.Reader

/-!
# Configuration

The file that says which dialect, which database and which tables there are, and how its secrets
are found in the environment.
-/

namespace PipelineSql

/-- A value written in the configuration, or taken from the environment. -/
inductive Secret where
  | plain (value : String)
  | fromEnvironment (name : String)
deriving DecidableEq

/-- The settings of the connection pool. -/
structure PoolSettings where
  maxConnections : UInt32 := 5
deriving DecidableEq

/-- A configuration as it is written down. -/
structure Configuration where
  version : UInt32
  dialect : Dialect := .postgres
  connectionUri : Secret
  poolSettings : PoolSettings := {}
  catalog : Catalog := {}
deriving DecidableEq

/-- A configuration whose secrets are known. -/
structure Settings where
  dialect : Dialect
  connectionUri : String
  maxConnections : UInt32
  catalog : Catalog

/-- Why a file cannot be read. -/
inductive FileFault where
  | notFound
  | notADirectory
  | isADirectory
deriving DecidableEq

def FileFault.message : FileFault → String
  | .notFound => "No such file or directory (os error 2)"
  | .notADirectory => "Not a directory (os error 20)"
  | .isADirectory => "Is a directory (os error 21)"

/-- Why there is no configuration. -/
inductive ConfigurationError where
  | unreadable (path : String) (fault : FileFault)
  | malformed (path : String)
  | unsupportedVersion (version : UInt32)
  | missingVariable (name : String)
deriving DecidableEq

def ConfigurationError.message : ConfigurationError → String
  | .unreadable path fault => "I/O error on " ++ path ++ ": " ++ fault.message
  | .malformed path => "parse error on " ++ path
  | .unsupportedVersion version =>
    "unsupported configuration version " ++ toString version.toNat ++ ", expected 1"
  | .missingVariable name =>
    "missing environment variable when processing connectionUri: " ++ name

namespace Secret

def toJson : Secret → Json
  | .plain value => .str value
  | .fromEnvironment name => .obj [("variable", .str name)]

/-- Reads a secret. The object that names a variable must be readable throughout. -/
def ofJson? : Json → Option Secret
  | .str value => some (.plain value)
  | .obj fields =>
    if (Json.obj fields).isReadable then
      (Json.required? fields "variable" Json.str?).map .fromEnvironment
    else none
  | _ => none

end Secret

def PoolSettings.ofJson? (v : Json) : Option PoolSettings := do
  let fields ← v.record? ["maxConnections"]
  let maxConnections ← Json.withDefault? fields "maxConnections" 5 Json.uint32?
  return { maxConnections }

namespace Configuration

/-- The name of the file that holds the configuration of a directory. -/
def fileName : String := "configuration.json"

/-- The version that can be read. -/
def currentVersion : UInt32 := 1

/-- The JSON form of a configuration. Pool settings are left out when they are the default. -/
def toJson (c : Configuration) : Json :=
  .obj ([("version", .int c.version.toNat), ("dialect", .str c.dialect.name),
    ("connectionUri", c.connectionUri.toJson)] ++
    (if c.poolSettings = {} then []
      else [("poolSettings",
        .obj [("maxConnections", .int c.poolSettings.maxConnections.toNat)])]) ++
    [("metadata", c.catalog.toJson)])

def ofJson? (v : Json) : Option Configuration := do
  let fields ← v.record? ["version", "dialect", "connectionUri", "poolSettings", "metadata"]
  let version ← Json.required? fields "version" Json.uint32?
  let dialect ← Json.withDefault? fields "dialect" .postgres fun d =>
    (d.word? .strict).bind Dialect.ofName?
  let connectionUri ← Json.required? fields "connectionUri" Secret.ofJson?
  let poolSettings ← Json.withDefault? fields "poolSettings" {} PoolSettings.ofJson?
  let catalog ← Json.withDefault? fields "metadata" {} Catalog.ofJson?
  return { version, dialect, connectionUri, poolSettings, catalog }

/-- The path of the configuration of a directory. -/
def pathIn (directory : String) : String :=
  if directory.isEmpty then fileName
  else if directory.endsWith "/" then directory ++ fileName
  else directory ++ "/" ++ fileName

def parse (path : String) : Except FileFault String → Except ConfigurationError Configuration
  | .error fault => .error (.unreadable path fault)
  | .ok text =>
    match (Json.read? text Json.defaultLimit).bind ofJson? with
    | none => .error (.malformed path)
    | some c =>
      if c.version = currentVersion then .ok c else .error (.unsupportedVersion c.version)

/-- The environment variable that a configuration needs. -/
def neededVariable (c : Configuration) : Option String :=
  match c.connectionUri with
  | .plain _ => none
  | .fromEnvironment name => some name

/-- Puts the secrets in, given the value of the variable that the configuration needs. -/
def resolve (c : Configuration) (value : Option String) : Except ConfigurationError Settings :=
  let settings := fun (uri : String) =>
    (⟨c.dialect, uri, c.poolSettings.maxConnections, c.catalog⟩ : Settings)
  match c.connectionUri with
  | .plain uri => .ok (settings uri)
  | .fromEnvironment name =>
    match value with
    | some uri => .ok (settings uri)
    | none => .error (.missingVariable name)

end Configuration

end PipelineSql

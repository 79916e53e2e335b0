import PipelineSql.Configuration.Basic

namespace PipelineSql.Schema

/-- A reference to a definition of the schema. -/
def ref (name : String) : Json := .obj [("$ref", .str ("#/definitions/" ++ name))]

/-- A definition with more said about it. -/
def described (about : List (String × Json)) (name : String) : Json :=
  .obj (about ++ [("allOf", .arr [ref name])])

/-- A description. -/
def about (text : String) : String × Json := ("description", .str text)

/-- The kind of a value. -/
def kind (name : String) : String × Json := ("type", .str name)

/-- The fields that an object must have. -/
def mandatory (names : List String) : String × Json := ("required", Json.strings names)

def properties (fields : List (String × Json)) : String × Json := ("properties", .obj fields)

/-- An object whose fields all have the same form. -/
def mapTo (name : String) : List (String × Json) :=
  [kind "object", ("additionalProperties", ref name)]

/-- A text out of a list. -/
def choice (names : List String) : List (String × Json) :=
  [kind "string", ("enum", Json.strings names)]

def text : Json := .obj [kind "string"]

/-- The form of an integer of 32 bits without a sign. -/
def uint32 : List (String × Json) :=
  [kind "integer", ("format", .str "uint32"), ("minimum", .float (Double.ofInt 0))]

/-- A text or `null`. -/
def optionalText : String × Json := ("type", Json.strings ["string", "null"])

/-- The definitions of the schema, sorted by name. -/
def definitions : List (String × Json) :=
  [("ColumnInfo", .obj [about "Information about a database column.", kind "object",
      mandatory ["name", "type"],
      properties [("name", text),
        ("nullable", described [("default", .str "nullable")] "Nullable"),
        ("type", ref "ScalarType")]]),
    ("ConnectionUri", described [about ("The database URL the execution pool connects to, e.g. " ++
      "`sqlite::memory:` or `postgres://user@host/db`.")] "Secret"),
    ("Dialect", .obj (about
      "A SQL dialect. Each one has its own function table and parameter syntax." ::
        choice ["postgres", "sqlite"])),
    ("Metadata", .obj [about "Metadata information.", kind "object", mandatory ["tables"],
      properties [("tables", ref "TablesInfo")]]),
    ("Nullable", .obj (about "Can this column contain null values" ::
      choice ["nullable", "nonNullable"])),
    ("PoolSettings", .obj [about "Settings for the connection pool.", kind "object",
      properties [("maxConnections", .obj ([about "maximum number of pool connections",
        ("default", .int 5)] ++ uint32))]]),
    ("ScalarType", .obj (about "The scalar types a column can be declared with." ::
      choice (ScalarType.all.map ScalarType.name))),
    ("Secret", .obj [
      about "A value written in the configuration file, or read from the environment.",
      ("anyOf", .arr [text, .obj [kind "object", mandatory ["variable"],
        properties [("variable", ref "Variable")]]])]),
    ("TableInfo", .obj [about "Information about a database table (or any other kind of relation).",
      kind "object", mandatory ["columns", "tableName"],
      properties [("columns", .obj (about "Columns in the order the table exposes them." ::
          mapTo "ColumnInfo")),
        ("description", .obj [optionalText]),
        ("schemaName", .obj [("default", .null), optionalText]),
        ("tableName", text)]]),
    ("TablesInfo", .obj (about "Mapping from a \"table\" name to its information." ::
      mapTo "TableInfo")),
    ("Variable", .obj [about "The name of an environment variable.", kind "string"])]

/-- The JSON schema of a configuration. -/
def configuration : Json :=
  .obj [("$schema", .str "http://json-schema.org/draft-07/schema#"),
    ("title", .str "ParsedConfiguration"),
    about ("Initial configuration, just enough to connect to a database and compile queries " ++
      "against its tables."),
    kind "object", mandatory ["connectionUri", "version"],
    properties [("connectionUri", ref "ConnectionUri"),
      ("dialect", described [about "The SQL dialect queries are compiled for.",
        ("default", .str "postgres")] "Dialect"),
      ("metadata", described [("default", Catalog.toJson {})] "Metadata"),
      ("poolSettings", ref "PoolSettings"),
      ("version", .obj uint32)],
    ("definitions", .obj definitions)]

end PipelineSql.Schema

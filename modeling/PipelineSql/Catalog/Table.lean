import PipelineSql.Catalog.ScalarType
import PipelineSql.Data.OrderedMap
import PipelineSql.Data.SortedEntries
import PipelineSql.Json.Decode

namespace PipelineSql

/-- A column of a table: its name in the database, its type, and whether it can be null. -/
structure ColumnInfo where
  name : String
  type : ScalarType
  nullable : Bool := true
deriving DecidableEq

/-- A table: its schema and name in the database, and the columns that it exposes, each under a
name of its own. -/
structure TableInfo where
  schemaName : Option String := none
  tableName : String
  columns : OrderedMap ColumnInfo
  description : Option String := none
deriving DecidableEq

/-- The tables that can be queried, sorted by the name under which they are found. -/
structure Catalog where
  tables : List (String × TableInfo) := []
deriving DecidableEq, Inhabited

/-- The table of a name. -/
def Catalog.table? (c : Catalog) (name : String) : Option TableInfo := c.tables.lookup name

namespace ColumnInfo

def toJson (c : ColumnInfo) : Json :=
  .obj [("name", .str c.name), ("type", .str c.type.name),
    ("nullable", .str (if c.nullable then "nullable" else "nonNullable"))]

def nullableOfName? : String → Option Bool
  | "nullable" => some true
  | "nonNullable" => some false
  | _ => none

def ofJson? (v : Json) : Option ColumnInfo := do
  let fields ← v.record? ["name", "type", "nullable"]
  let name ← Json.required? fields "name" Json.str?
  let type ← Json.required? fields "type" fun t => (t.word? .strict).bind ScalarType.ofDeclared?
  let nullable ← Json.withDefault? fields "nullable" true fun n =>
    (n.word? .strict).bind nullableOfName?
  return { name, type, nullable }

end ColumnInfo

namespace TableInfo

def optionalText : Option String → Json
  | none => .null
  | some s => .str s

def toJson (t : TableInfo) : Json :=
  .obj ([("schemaName", optionalText t.schemaName), ("tableName", .str t.tableName),
    ("columns", .obj (t.columns.entries.map fun e => (e.1, e.2.toJson)))] ++
    match t.description with
    | none => []
    | some d => [("description", .str d)])

def ofJson? (v : Json) : Option TableInfo := do
  let fields ← v.record? ["schemaName", "tableName", "columns", "description"]
  let schemaName ← Json.withDefault? fields "schemaName" none (Json.nullable? Json.str?)
  let tableName ← Json.required? fields "tableName" Json.str?
  let columns ← Json.required? fields "columns" (Json.mapOf? ColumnInfo.ofJson?)
  let description ← Json.withDefault? fields "description" none (Json.nullable? Json.str?)
  return { schemaName, tableName, columns, description }

end TableInfo

namespace Catalog

def toJson (c : Catalog) : Json :=
  .obj [("tables", .obj (c.tables.map fun e => (e.1, e.2.toJson)))]

def ofJson? (v : Json) : Option Catalog := do
  let fields ← v.record? ["tables"]
  let tables ← Json.required? fields "tables" (Json.entriesOf? TableInfo.ofJson?)
  return { tables := sortEntries tables }

end Catalog

end PipelineSql

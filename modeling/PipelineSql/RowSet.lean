import PipelineSql.Json.Basic

namespace PipelineSql

/-- The rows of a result, under the names of its columns. -/
structure RowSet where
  columns : List String
  rows : List (List Json)

namespace RowSet

/-- One row as an object, its fields in the order of the columns. Values beyond the last column, and
columns beyond the last value, are left out. -/
def record (columns : List String) (row : List Json) : Json :=
  .obj (OrderedMap.ofList (columns.zip row)).entries

/-- All rows as objects. -/
def records (r : RowSet) : Json := .arr (r.rows.map (record r.columns))

def toJson (r : RowSet) : Json :=
  .obj [("columns", Json.strings r.columns), ("rows", .arr (r.rows.map .arr))]

end RowSet

end PipelineSql

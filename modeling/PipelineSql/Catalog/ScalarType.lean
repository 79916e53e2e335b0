namespace PipelineSql

/-- The types that a column can be declared with. -/
inductive ScalarType where
  | boolean
  | smallint
  | integer
  | bigint
  | real
  | doublePrecision
  | numeric
  | text
  | date
  | timestamp
  | any
deriving DecidableEq, Inhabited

namespace ScalarType

/-- Every type, in the order of the vocabulary. -/
def all : List ScalarType :=
  [.boolean, .smallint, .integer, .bigint, .real, .doublePrecision, .numeric, .text, .date,
    .timestamp, .any]

def name : ScalarType → String
  | .boolean => "boolean"
  | .smallint => "smallint"
  | .integer => "integer"
  | .bigint => "bigint"
  | .real => "real"
  | .doublePrecision => "double precision"
  | .numeric => "numeric"
  | .text => "text"
  | .date => "date"
  | .timestamp => "timestamp"
  | .any => "any"

/-- The name of a type in SQL. -/
def sqlName : ScalarType → String
  | .boolean => "BOOLEAN"
  | .smallint => "SMALLINT"
  | .integer => "INTEGER"
  | .bigint => "BIGINT"
  | .real => "REAL"
  | .doublePrecision => "DOUBLE PRECISION"
  | .numeric => "NUMERIC"
  | .text => "TEXT"
  | .date => "DATE"
  | .timestamp => "TIMESTAMP"
  | .any => "ANY"

/-- The type declared by a name. -/
def ofDeclared? (name : String) : Option ScalarType := all.find? fun t => t.name = name

/-- The type that a name stands for, one of the common shorthands included. -/
def ofName? : String → Option ScalarType
  | "int" => some .bigint
  | "float" => some .doublePrecision
  | "str" => some .text
  | "bool" => some .boolean
  | name => ofDeclared? name

theorem ofDeclared?_name (t : ScalarType) : ofDeclared? t.name = some t := by
  cases t <;> decide

end ScalarType

end PipelineSql

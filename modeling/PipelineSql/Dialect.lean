import PipelineSql.Sql.Render

namespace PipelineSql

/-- A SQL dialect. Each has its own functions and placeholders. -/
inductive Dialect where
  | postgres
  | sqlite
deriving DecidableEq, Inhabited

namespace Dialect

/-- The name of a dialect. -/
def name : Dialect → String
  | .postgres => "postgres"
  | .sqlite => "sqlite"

/-- The dialect of a name. -/
def ofName? : String → Option Dialect
  | "postgres" => some .postgres
  | "sqlite" => some .sqlite
  | _ => none

/-- The placeholders of a dialect. -/
def paramStyle : Dialect → Sql.ParamStyle
  | .postgres => .dollar
  | .sqlite => .questionMark

/-- How a dialect is asked for a plan. -/
def explainStyle : Dialect → Sql.ExplainStyle
  | .postgres => .explain
  | .sqlite => .explainQueryPlan

end Dialect

end PipelineSql

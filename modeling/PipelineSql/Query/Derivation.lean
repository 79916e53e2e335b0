import PipelineSql.Query.State

namespace PipelineSql

open Sql (Select AliasCounter)

namespace QueryState

/-- Whether any of the columns is computed by the query itself. -/
def readsDerived (select : Select) (columns : List String) : Bool :=
  columns.any fun c => c ∈ select.derivedColumns

/-- Adds or replaces one column. SQL cannot refer to one entry of a select list from another, so a
query whose own columns are read becomes a subquery first; and so does one that groups, or that
decides how many rows there are. -/
def addColumn (s : QueryState) (name : String) (e : ColumnExpr) (select : Select)
    (aliases : AliasCounter) : Except Error (Select × AliasCounter) := do
  let needed := select.changesRowSet || !select.groupBy.isEmpty ||
    readsDerived select (e.reads ++ s.windowColumns.toList)
  let (base, aliases) := wrapIf needed select aliases
  let scope := Scope.ofSelectList base
  let windows ← s.windowContext scope .inPlace
  let expression ← s.compileIn scope .window windows e
  return ({ base with columns := putEntry name expression base.columns }, aliases)

/-- Adds or replaces columns one after another. -/
def addColumns (s : QueryState) : List (String × ColumnExpr) → Select → AliasCounter →
    Except Error (Select × AliasCounter)
  | [], select, aliases => .ok (select, aliases)
  | (name, e) :: rest, select, aliases => do
    let (select, aliases) ← s.addColumn name e.shape select aliases
    s.addColumns rest select aliases

/-- Adds or replaces columns, in order; each sees those before it. -/
def mutate (s : QueryState) (columns : List (String × ColumnExpr)) : Except Error QueryState :=
  match columns with
  | [] => .ok s
  | columns => do
    let (select, aliases) ← s.addColumns columns s.last s.aliases
    return s.push select aliases

end QueryState

end PipelineSql

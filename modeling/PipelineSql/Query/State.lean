import PipelineSql.Catalog.Table
import PipelineSql.Compile.Expr
import PipelineSql.Sql.Alias

/-!
# Queries under construction

The state that verbs act on: the last stage, the stages before it, the grouping, the ordering
and the counter of table aliases.
-/

namespace PipelineSql

open Sql (Expr Ordered Select TableAlias AliasCounter)

/-- A query under construction. Every verb gives a new state, and the stages that led to it stay
in it. The grouping and the ordering are kept as names and expressions, so that they can be
resolved in whatever stage needs them. -/
structure QueryState where
  functions : FunctionTable
  /-- The name of the table that the query started from. -/
  collection : String
  /-- The query as it stands. -/
  last : Select
  /-- The stages before it, newest first. -/
  earlier : List Select := []
  groups : OrderedSet := .empty
  order : List (Ordered ColumnExpr) := []
  aliases : AliasCounter := {}

namespace QueryState

/-- Every column of a table. -/
def ofTable (functions : FunctionTable) (collection : String) (table : TableInfo) : QueryState :=
  let (tableAlias, aliases) := AliasCounter.make {} table.tableName
  { functions, collection, aliases
    last :=
      { columns := table.columns.entries.map fun c =>
          (c.1, .column (.stored (.aliased tableAlias) c.2.name))
        source := some (.table (.stored table.schemaName table.tableName) tableAlias) } }

/-- All stages, newest first. -/
def stages (s : QueryState) : List Select := s.last :: s.earlier

def depth (s : QueryState) : Nat := s.stages.length

def dialect (s : QueryState) : Dialect := s.functions.dialect

/-- The output column names, in order. -/
def columnNames (s : QueryState) : List String := s.last.columnNames

/-- The grouping columns and then the others, each once. -/
def orderedColumnNames (s : QueryState) : List String := (s.groups.extend s.columnNames).toList

/-- The columns read by the grouping and then by the ordering, each once. -/
def windowColumns (s : QueryState) : OrderedSet :=
  s.groups.extend (s.order.flatMap fun term => term.target.reads)

/-- Adds a stage that keeps the grouping and the ordering. -/
def push (s : QueryState) (select : Select) (aliases : AliasCounter) : QueryState :=
  { s with last := select, earlier := s.last :: s.earlier, aliases }

/-- Adds a stage with a grouping and an ordering of its own. -/
def pushWith (s : QueryState) (select : Select) (aliases : AliasCounter) (groups : OrderedSet)
    (order : List (Ordered ColumnExpr)) : QueryState :=
  { s.push select aliases with groups, order }

/-- Compiles an expression with the functions of the query. -/
def compileIn (s : QueryState) (scope : Scope) (mode : Mode) (windows : WindowContext)
    (e : ColumnExpr) : Except Error Expr :=
  CompileEnv.compileExpr ⟨s.functions, scope, windows⟩ mode e

/-- Resolves the ordering in a scope. -/
def resolveOrder (s : QueryState) (scope : Scope) (order : List (Ordered ColumnExpr)) :
    Except Error (List (Ordered Expr)) :=
  order.mapM fun term => do
    return ⟨← s.compileIn scope .scalar {} term.target, term.direction⟩

/-- Resolves the grouping and the ordering in a scope, for building window functions. -/
def windowContext (s : QueryState) (scope : Scope) (placement : Placement) :
    Except Error WindowContext := do
  let partitionBy ← s.groups.toList.mapM scope.lookup
  let orderBy ← s.resolveOrder scope s.order
  return { partitionBy, orderBy, placement }

/-- A query that can be extended in place of the given one: the query itself, or, when it has to be
seen as a result, everything from it through a subquery. -/
def wrapIf (needed : Bool) (select : Select) (aliases : AliasCounter) : Select × AliasCounter :=
  if needed then
    let (tableAlias, aliases) := aliases.make "subquery"
    (select.throughSubquery tableAlias, aliases)
  else (select, aliases)

end QueryState

end PipelineSql

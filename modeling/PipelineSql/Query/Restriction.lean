import PipelineSql.Query.Derivation

/-!
# Keeping some of the rows

The verbs `filter`, `distinct` and `head`.
-/

namespace PipelineSql

open Sql (Expr Select)

namespace QueryState

/-- Keeps the rows on which every predicate holds. SQL allows no window function in a condition, so
the windows of the predicates are computed in a stage of their own, under labels, and the
condition reads the labels. -/
def filter (s : QueryState) (predicates : List ColumnExpr) : Except Error QueryState :=
  match predicates with
  | [] => .ok s
  | predicates => do
    let (subquery, aliases) := s.aliases.make "subquery"
    let (windows, aliases) := aliases.make "windows"
    let scope := Scope.ofSubquery s.last subquery
    let context ← s.windowContext scope (.hoisted windows)
    let (conditions, found) ←
      CompileEnv.compileAll ⟨s.functions, scope, context⟩ .window (predicates.map .shape)
    let computed := found.map fun w => (w.label, w.expression)
    let inner := Select.reading (scope.selectList ++ computed) s.last subquery
    let list ← (Scope.ofSubquery inner windows).project s.orderedColumnNames
    let condition := Expr.conjunction (conditions.map (Expr.replaceAlias subquery windows))
    return s.push { Select.reading list inner windows with condition } aliases

/-- The names of the columns over which rows are to be distinct. -/
def distinctNames : List ColumnExpr → Except Error (List String)
  | [] => .ok []
  | e :: rest =>
    match e.shape.simpleName? with
    | some name => do return name :: (← distinctNames rest)
    | none => .error (.invalidVerb (.notADistinctColumn e.shape))

/-- Keeps distinct rows over the given columns and the computed ones, or over all columns when none
is given. A limited query has to be seen as a result, and distinct rows can be ordered only by
what they hold, so both kinds become a subquery. -/
def distinct (s : QueryState) (columns : List ColumnExpr) (computed : List (String × ColumnExpr))
    (keepAll : Bool) : Except Error QueryState := do
  if keepAll && !(columns.isEmpty && computed.isEmpty) then
    throw (.invalidVerb .keepAllWithColumns)
  let given := (OrderedSet.ofList (← distinctNames columns)).extend (computed.map Prod.fst)
  let base ← s.mutate computed
  let needed := base.last.changesRowSet || !base.last.orderBy.isEmpty
  let (inner, aliases) := wrapIf needed base.last base.aliases
  let names := if given.isEmpty then .ofList base.columnNames else given
  let list ← (Scope.ofSelectList inner).project names.toList
  return base.pushWith { inner with columns := list, distinct := true } aliases
    (base.groups.filter fun g => g ∈ names) []

/-- Keeps at most `n` rows. An earlier, smaller limit stays. -/
def head (s : QueryState) (n : UInt32) : QueryState :=
  let limit := match s.last.limit with
    | none => n
    | some m => min m n
  s.push { s.last with limit := some limit } s.aliases

end QueryState

end PipelineSql

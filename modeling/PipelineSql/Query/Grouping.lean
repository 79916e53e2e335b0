import PipelineSql.Query.Derivation
import PipelineSql.Query.Projection

/-!
# Groups, aggregates and counts

The verbs `group_by`, `ungroup`, `summarize` and `count`.
-/

namespace PipelineSql

open Sql (Expr Select)

namespace QueryState

/-- Sets the grouping, or extends it. No stage is added. -/
def groupBy (s : QueryState) (columns : List ColumnExpr) (add : Bool) :
    Except Error QueryState := do
  let groups ← columns.foldlM (fun groups e =>
    match e.shape.simpleName? with
    | some name => (Selector.known s.columnNames name).map groups.insert
    | none => .error (.invalidVerb (.notAGroupingColumn e.shape)))
    (if add then s.groups else .empty)
  return { s with groups }

/-- Drops the grouping. -/
def ungroup (s : QueryState) : QueryState := { s with groups := .empty }

/-- The first earlier name of a call that a later column of the same call reads. -/
def readsEarlier? : List String → List (String × ColumnExpr) → Option String
  | _, [] => none
  | earlier, (name, e) :: rest =>
    match earlier.find? fun n => n ∈ e.reads with
    | some n => some n
    | none => readsEarlier? (earlier ++ [name]) rest

/-- One row for each group, with the grouping columns and then the aggregates; the result is neither
grouped nor ordered. The query is aggregated in place unless it groups already, decides how many
rows there are, or computes a column that is read. -/
def summarize (s : QueryState) (columns : List (String × ColumnExpr)) :
    Except Error QueryState := do
  if columns.isEmpty && s.groups.isEmpty then throw (.invalidVerb .nothingToSummarize)
  let shaped := columns.map fun c => (c.1, c.2.shape)
  if let some name := readsEarlier? [] shaped then throw (.ambiguousColumn name)
  let needed := !s.last.groupBy.isEmpty || s.last.changesRowSet ||
    readsDerived s.last (shaped.flatMap (fun c => c.2.reads) ++ s.groups.toList)
  let (wrapped, aliases) := wrapIf needed s.last s.aliases
  let base := { wrapped with orderBy := [] }
  let scope := Scope.ofSelectList base
  let groups ← scope.project s.groups.toList
  let aggregates ← shaped.mapM fun c => do
    return (c.1, ← s.compileIn scope .aggregate {} c.2)
  return s.pushWith { base with columns := groups ++ aggregates, groupBy := groups.map Prod.snd }
    aliases .empty []

/-- Prepares the columns to count by. A column is taken as it is; any other expression is computed
under the text in which it is displayed. -/
def countedColumns (s : QueryState) (scope : Scope) :
    List ColumnExpr → List (String × Expr) → Except Error (List String × List (String × Expr))
  | [], list => .ok ([], list)
  | e :: rest, list => do
    let (name, list) ← match e.shape.simpleName? with
      | some name => (scope.lookup name).map fun _ => (name, list)
      | none => do
        let expression ← s.compileIn scope .scalar {} e.shape
        pure (e.shape.display, putEntry e.shape.display expression list)
    let (names, list) ← s.countedColumns scope rest list
    return (name :: names, list)

/-- The name of a count, extended by the letter `n` until it is not taken. -/
def countName (taken : List String) (name : String) : String :=
  firstFree taken fun i => name ++ String.ofList (List.replicate i 'n')

/-- The number of rows for each group and each combination of the given columns. The columns are
computed in an inner stage, and the outer one groups and counts. -/
def count (s : QueryState) (columns : List ColumnExpr) (name : Option String) (sort : Bool) :
    Except Error QueryState := do
  let (subquery, aliases) := s.aliases.make "subquery"
  let scope := Scope.ofSubquery s.last subquery
  let (counted, list) ← s.countedColumns scope columns scope.selectList
  let inner := Select.reading list s.last subquery
  let (grouped, aliases) := aliases.make "grouped"
  let groups := s.groups.extend counted
  let groupColumns ← (Scope.ofSubquery inner grouped).project groups.toList
  let total := countName groups.toList (name.getD "n")
  let select : Select :=
    { Select.reading (groupColumns ++ [(total, .countAll)]) inner grouped with
      groupBy := groupColumns.map Prod.snd
      orderBy := if sort then [⟨.countAll, .desc⟩] else [] }
  return s.pushWith select aliases s.groups []

end QueryState

end PipelineSql

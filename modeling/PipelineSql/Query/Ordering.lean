import PipelineSql.Query.State

namespace PipelineSql

open Sql (Ordered)

/-- A term of `arrange`: a descending mark or a negation sorts the other way round. -/
def orderTerm : ColumnExpr → Ordered ColumnExpr
  | .call .descending [e] [] => ⟨e, .desc⟩
  | .call .negate [e] [] => ⟨e, .desc⟩
  | e => ⟨e, .asc⟩

namespace QueryState

/-- Sorts the rows: the new terms sort those that tie on the earlier ones. The terms are remembered,
so that later rankings and running totals follow the same order. -/
def arrange (s : QueryState) (terms : List ColumnExpr) : Except Error QueryState :=
  match terms with
  | [] => .ok s
  | terms => do
    let (base, aliases) := wrapIf s.last.changesRowSet s.last s.aliases
    let added := terms.map fun e => orderTerm e.shape
    let resolved ← s.resolveOrder (.ofSelectList base) added
    return s.pushWith { base with orderBy := base.orderBy ++ resolved } aliases s.groups
      (s.order ++ added)

end QueryState

end PipelineSql

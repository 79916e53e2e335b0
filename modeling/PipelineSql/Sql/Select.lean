import PipelineSql.Data.OrderedSet
import PipelineSql.Sql.Expr

/-!
# SQL queries

A query labels every column that it selects, which is why subqueries can be read by name.
-/

namespace PipelineSql.Sql

/-- What a query reads from. -/
inductive Source (σ : Type) where
  | table (table : TableRef) (tableAlias : TableAlias)
  | subquery (select : σ) (tableAlias : TableAlias)

/-- Which unmatched rows a join keeps. There is no right join: the sides are swapped instead. -/
inductive JoinType where
  | inner
  | leftOuter
  | fullOuter
deriving DecidableEq

/-- A further subquery, joined on a condition. -/
structure Joined (σ : Type) where
  type : JoinType
  select : σ
  tableAlias : TableAlias
  condition : Expr

/-- A query. Every column of it is labelled, so its output columns are always known. -/
structure Select where
  distinct : Bool := false
  columns : List (String × Expr) := []
  source : Option (Source Select) := none
  joins : List (Joined Select) := []
  condition : Expr := .always
  groupBy : List Expr := []
  orderBy : List (Ordered Expr) := []
  limit : Option UInt32 := none
  offset : Option UInt32 := none

namespace Select

instance : Inhabited Select := ⟨{}⟩

/-- The output column names, in order. -/
def columnNames (s : Select) : List String := s.columns.map Prod.fst

/-- The columns that a query computes itself, rather than passing them on under their own name. A
later expression of the same query cannot refer to them. -/
def derivedColumns (s : Select) : OrderedSet :=
  .ofList ((s.columns.filter fun c => !c.2.exposes c.1).map Prod.fst)

/-- Whether the query itself decides how many rows there are, so that what is added later has to
see its result. -/
def changesRowSet (s : Select) : Bool :=
  s.distinct || s.limit.isSome || s.offset.isSome

/-- A query that reads from a subquery. -/
def reading (columns : List (String × Expr)) (inner : Select) (tableAlias : TableAlias) :
    Select where
  columns := columns
  source := some (.subquery inner tableAlias)

/-- Every output column of a query, through a subquery. -/
def throughSubquery (inner : Select) (tableAlias : TableAlias) : Select :=
  reading (inner.columns.map fun c => (c.1, .labelled tableAlias c.1)) inner tableAlias

end Select

end PipelineSql.Sql

import PipelineSql.Data.OrderedMap
import PipelineSql.Error
import PipelineSql.Sql.Select

namespace PipelineSql

open Sql (Expr Select TableAlias)

/-- The columns that an expression can see, and what each of them stands for. -/
structure Scope where
  columns : OrderedMap Expr

namespace Scope

/-- The scope of a select list: a name stands for the expression that it labels. -/
def ofSelectList (s : Select) : Scope := ⟨.ofList s.columns⟩

/-- The scope of a query read through a subquery: a name stands for a column of the subquery. -/
def ofSubquery (s : Select) (tableAlias : TableAlias) : Scope :=
  ⟨.ofList (s.columns.map fun c => (c.1, .labelled tableAlias c.1))⟩

/-- The names that can be seen, in order. -/
def names (scope : Scope) : List String := scope.columns.keys

/-- What a name stands for. -/
def lookup (scope : Scope) (name : String) : Except Error Expr :=
  match scope.columns.get? name with
  | some e => .ok e
  | none => .error (.unknownColumn name scope.names)

/-- A select list that exposes every column under its name. -/
def selectList (scope : Scope) : List (String × Expr) := scope.columns.entries

/-- The entries of a select list that exposes the given columns under their names. -/
def project (scope : Scope) (names : List String) : Except Error (List (String × Expr)) :=
  names.mapM fun name => do return (name, ← scope.lookup name)

end Scope

end PipelineSql
